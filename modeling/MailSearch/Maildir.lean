import MailSearch.Flag
import MailSearch.Path

/-! # Flags in file names

Mail directories keep a message's flags as letters at the end of its file name, after `:2,`. A name
that is no text has none. Messages that no reader has seen yet lie in a directory named `new`.
-/

namespace MailSearch.Maildir

open MailSearch.Path

def flagOfLetter? : Char → Option SystemFlag
  | 'D' => some .draft
  | 'F' => some .flagged
  | 'R' => some .answered
  | 'S' => some .seen
  | 'T' => some .deleted
  | _ => none

/-- What follows the last occurrence of a mark in a text. -/
def afterLast? (mark : List Char) : List Char → Option (List Char)
  | [] => none
  | c :: cs =>
    match afterLast? mark cs with
    | some rest => some rest
    | none => if mark.isPrefixOf (c :: cs) then some ((c :: cs).drop mark.length) else none

def letters (name : String) : List Char := (afterLast? [':', '2', ','] name.toList).getD []

/-- The flags that the path of a message file gives it. -/
def flagsOf (path : Path) : List Flag :=
  let named := ((lastName? path.steps).bind Utf8.decode?).elim [] letters
  let inNew := lastName? path.steps.dropLast = some (Utf8.encode "new")
  let recent := if inNew then [SystemFlag.recent] else []
  (named.filterMap flagOfLetter? ++ recent).map .system

end MailSearch.Maildir
