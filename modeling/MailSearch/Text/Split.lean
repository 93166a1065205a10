/-! # Lists in pieces

`splitOn` cuts a list at every occurrence of a separator; there is always one piece more than there
are separators.
-/

namespace MailSearch

variable {α : Type} [DecidableEq α]

def splitOn (sep : α) : List α → List (List α)
  | [] => [[]]
  | c :: cs =>
    if c = sep then [] :: splitOn sep cs
    else
      match splitOn sep cs with
      | [] => [[c]]
      | piece :: pieces => (c :: piece) :: pieces

theorem splitOn_ne_nil (sep : α) (cs : List α) : splitOn sep cs ≠ [] := by
  cases cs with
  | nil => simp [splitOn]
  | cons c cs =>
    rw [splitOn]; split
    · simp
    · split <;> simp

theorem splitOn_eq (sep : α) (cs : List α) : splitOn sep cs = cs.splitOn sep := by
  induction cs with
  | nil => rfl
  | cons c cs ih =>
    rw [splitOn, List.splitOn_cons_eq_if_modifyHead, ih]
    by_cases hc : c = sep
    · simp [hc]
    · simp only [hc, beq_iff_eq, if_false]
      split <;> simp_all

end MailSearch
