import MailSearch.Needle

/-! # How large a matcher gets

The room that a matcher takes, as an estimate by its pieces, and how much of it there is.
-/

namespace MailSearch

/-- The same amount for every byte of every character that a piece may stand for. -/
def Piece.weight (caseSensitive : Bool) : Piece → Nat
  | char c =>
    let stands := if caseSensitive then [c] else spellings c
    stands.foldl (fun n s => n + 32 * s.utf8Size) 0
  | gap => 32

def Needle.weightLimit : Nat := 10485760

instance : MatcherLimit where
  admits caseSensitive pieces :=
    pieces.foldl (fun n p => n + p.weight caseSensitive) 0 ≤ Needle.weightLimit

end MailSearch
