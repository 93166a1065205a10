import MailSearch.Error
import MailSearch.Text.Blank
import MailSearch.Text.CaseFold
import MailSearch.Text.Quoted

/-! # Needles

A needle is a text that is looked for inside header values. Unless more is asked for, letter
case does not count, and white space in the needle stands for any amount of folding white space.
-/

namespace MailSearch

/-- How closely a text has to be met. -/
structure Strictness where
  caseSensitive : Bool := false
  exactWhitespace : Bool := false
deriving DecidableEq

def Strictness.description (s : Strictness) : String :=
  "MatchOptions \x7b case_sensitive: " ++ toString s.caseSensitive ++ ", exact_whitespace: " ++
    toString s.exactWhitespace ++ " \x7d"

/-- What a place in a needle asks of a header value: one character, or a gap of one folding blank or
more. -/
inductive Piece
  | char (c : Char)
  | gap
deriving DecidableEq

namespace Piece

/-- A run of blanks becomes a single gap. -/
def addLoose (c : Char) (ps : List Piece) : List Piece :=
  if isBlank c then
    match ps with
    | gap :: _ => ps
    | _ => gap :: ps
  else char c :: ps

def ofText (exactWhitespace : Bool) (cs : List Char) : List Piece :=
  if exactWhitespace then cs.map char else cs.foldr addLoose []

/-- Whether the pieces match some text that `cs` starts with. -/
def matchesFront : List Piece → List Char → Bool
  | [], _ => true
  | _ :: _, [] => false
  | char c :: ps, h :: hs => c == h && matchesFront ps hs
  | gap :: ps, h :: hs => isFolding h && (matchesFront ps hs || matchesFront (gap :: ps) hs)

def foundIn (ps : List Piece) : List Char → Bool
  | [] => matchesFront ps []
  | h :: hs => matchesFront ps (h :: hs) || foundIn ps hs

def mapChar (f : Char → Char) : Piece → Piece
  | char c => char (f c)
  | gap => gap

end Piece

/-- Which pieces a matcher can be made of without getting too large. -/
class MatcherLimit where
  admits : (caseSensitive : Bool) → List Piece → Bool

structure Needle where
  text : String
  pieces : List Piece
  caseSensitive : Bool

namespace Needle

def ofText [MatcherLimit] (text : String) (strictness : Strictness) : Except SearchError Needle :=
  let pieces := Piece.ofText strictness.exactWhitespace text.toList
  if MatcherLimit.admits strictness.caseSensitive pieces then
    .ok ⟨text, pieces, strictness.caseSensitive⟩
  else .error .unsearchableText

/-- The character that all spellings of a letter are compared by. -/
def key (n : Needle) : Char → Char := if n.caseSensitive then id else foldCase

/-- Whether the needle occurs anywhere in a text. -/
def isFoundIn (n : Needle) (haystack : String) : Bool :=
  Piece.foundIn (n.pieces.map (Piece.mapChar n.key)) (haystack.toList.map n.key)

/-- Sameness of text and of pieces. Whether case counts is no part of it. -/
def sameAs (a b : Needle) : Bool := a.text == b.text && a.pieces == b.pieces

def description (n : Needle) : String := "Needle(" ++ quoted n.text ++ ")"

end Needle

end MailSearch
