/-! # ASCII letter case

Header names, search keys, flag names and addresses are compared with `A` to `Z` taken for `a` to
`z`. Every other character stands for itself alone.
-/

namespace MailSearch

def lowerAscii (s : String) : List Char := s.toList.map Char.toLower

/-- Equality that does not tell an ASCII capital from its small letter. -/
def sameIgnoringCase (a b : String) : Bool := lowerAscii a == lowerAscii b

@[simp] theorem sameIgnoringCase_iff {a b : String} :
    sameIgnoringCase a b = true ↔ lowerAscii a = lowerAscii b := by
  simp [sameIgnoringCase]

/-- What is told apart by its names is found by them, if the list has everything there is. -/
theorem find?_sameIgnoringCase {α : Type} {all : List α} {name : α → String} {s : String} {a : α}
    (hall : ∀ a, a ∈ all) (hname : ∀ a b, lowerAscii (name a) = lowerAscii (name b) → a = b) :
    (all.find? fun x => sameIgnoringCase (name x) s) = some a ↔
      lowerAscii (name a) = lowerAscii s := by
  have hsound : ∀ {b}, (all.find? fun x => sameIgnoringCase (name x) s) = some b →
      lowerAscii (name b) = lowerAscii s := fun h => by simpa using List.find?_some h
  refine ⟨hsound, fun h => ?_⟩
  cases hf : all.find? fun x => sameIgnoringCase (name x) s with
  | none =>
    rw [List.find?_eq_none] at hf
    simpa [h] using hf a (hall a)
  | some b => rw [hname b a ((hsound hf).trans h.symm)]

def isDigit (c : Char) : Bool := '0' ≤ c && c ≤ '9'

end MailSearch
