import MailSearch.Error
import MailSearch.Text.Ascii
import MailSearch.Text.Split
import MailSearch.UidSet.Basic

/-! # UID sets in writing

A set is written as comma-separated parts, each one UID or two with a colon between them, in
either order. The greatest UID is written `*`.
-/

namespace MailSearch

/-- The number that a string of decimal digits stands for. -/
def decimalValue (cs : List Char) : Nat := cs.foldl (fun n c => n * 10 + (c.toNat - 48)) 0

namespace Uid

/-- One endpoint of a range: `*`, or a number in digits alone, leading zeros allowed. -/
def ofText? (cs : List Char) : Option Uid :=
  if cs = ['*'] then some greatest
  else if !cs.isEmpty && cs.all isDigit then ofNat? (decimalValue cs)
  else none

def text (u : Uid) : String := if u = greatest then "*" else toString u.toNat

def description (u : Uid) : String := "Uid(" ++ toString u.toNat ++ ")"

end Uid

namespace UidRange

def ofText? (cs : List Char) : Option UidRange :=
  match splitOn ':' cs with
  | [only] => do
    let u ← Uid.ofText? only
    return between u u
  | [a, b] => do
    let a ← Uid.ofText? a
    let b ← Uid.ofText? b
    return between a b
  | _ => none

def text (r : UidRange) : String :=
  if r.first = r.last then r.first.text else r.first.text ++ ":" ++ r.last.text

end UidRange

namespace UidSet

def ofText? (cs : List Char) : Option UidSet := do
  let parts ← (splitOn ',' cs).mapM UidRange.ofText?
  return parts.foldl insertRange empty

def parse (s : String) : Except SearchError UidSet :=
  match ofText? s.toList with
  | some set => .ok set
  | none => .error (.invalidUidRange s)

/-- The shortest writing of the set. -/
def text (s : UidSet) : String := ",".intercalate (s.ranges.map UidRange.text)

def description (s : UidSet) : String := "[Uid " ++ s.text ++ "]"

end UidSet

end MailSearch
