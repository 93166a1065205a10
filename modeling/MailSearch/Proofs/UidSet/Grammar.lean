import Mathlib.Data.List.Forall2
import MailSearch.Proofs.UidSet.Writing

/-! # The grammar of UID sets

A text denotes a set if it is a list of parts with commas between them. A part is one endpoint, or
two in either order with a colon between them; the set is what lies between the endpoints of the
parts.
-/

namespace MailSearch

namespace Grammar

/-- A star, or a number in decimal digits that is a UID. -/
inductive Endpoint : List Char → Uid → Prop
  | greatest : Endpoint ['*'] .greatest
  | number {digits : List Char} {u : Uid} : digits ≠ [] → (∀ c ∈ digits, '0' ≤ c ∧ c ≤ '9') →
      Nat.ofDigitChars 10 digits 0 = u.toNat → Endpoint digits u

/-- A lone endpoint stands at both ends. -/
inductive Part : List Char → Uid × Uid → Prop
  | one {text : List Char} {u : Uid} : Endpoint text u → Part text (u, u)
  | two {left right : List Char} {a b : Uid} : Endpoint left a → Endpoint right b →
      Part (left ++ ':' :: right) (a, b)

inductive SequenceSet : List Char → List (Uid × Uid) → Prop
  | one {text : List Char} {ends : Uid × Uid} : Part text ends → SequenceSet text [ends]
  | more {text rest : List Char} {ends : Uid × Uid} {others : List (Uid × Uid)} :
      Part text ends → SequenceSet rest others → SequenceSet (text ++ ',' :: rest) (ends :: others)

variable {text left right : List Char} {c : Char} {u : Uid} {ends : Uid × Uid}
  {pairs : List (Uid × Uid)}

theorem Endpoint.not_mem (h : Endpoint text u) (hs : c ≠ '*') (hd : isDigit c = false) :
    c ∉ text := by
  cases h with
  | greatest => simpa using hs
  | number _ hdigits _ =>
    intro hc
    simp [isDigit, hdigits c hc] at hd

theorem Part.comma_not_mem (h : Part text ends) : ',' ∉ text := by
  cases h with
  | one hu => exact hu.not_mem (by decide) (by decide)
  | two ha hb =>
    simp [ha.not_mem (c := ',') (by decide) (by decide),
      hb.not_mem (c := ',') (by decide) (by decide)]

theorem SequenceSet.ne_nil (h : SequenceSet text pairs) : pairs ≠ [] := by
  cases h <;> exact List.cons_ne_nil _ _

theorem sequenceSet_iff : SequenceSet text pairs ↔ List.Forall₂ Part (splitOn ',' text) pairs := by
  rw [splitOn_eq]
  constructor
  · intro h
    induction h with
    | one hpart =>
      rw [List.splitOn_eq_singleton hpart.comma_not_mem]
      exact .cons hpart .nil
    | more hpart _ ih =>
      rw [List.splitOn_append_cons_self_of_not_mem hpart.comma_not_mem]
      exact .cons hpart ih
  · intro h
    have hjoin : [','].intercalate (text.splitOn ',') = text := List.intercalate_splitOn ','
    have hne := List.splitOn_ne_nil ',' text
    rw [← hjoin]
    generalize text.splitOn ',' = pieces at h hne
    clear hjoin
    induction h with
    | nil => exact absurd rfl hne
    | cons hpart hothers ih =>
      cases hothers with
      | nil => simpa using SequenceSet.one hpart
      | cons hnext hrest =>
        rw [List.intercalate_cons_cons]
        simpa using SequenceSet.more hpart (ih (List.cons_ne_nil _ _))

/-- A comma joins any two sequence sets, and nothing else. -/
theorem sequenceSet_append_iff : SequenceSet (left ++ ',' :: right) pairs ↔
    ∃ ps qs, pairs = ps ++ qs ∧ SequenceSet left ps ∧ SequenceSet right qs := by
  simp only [sequenceSet_iff, splitOn_eq, List.splitOn_append_cons_self]
  constructor
  · intro h
    have htake := List.forall₂_take (left.splitOn ',').length h
    have hdrop := List.forall₂_drop (left.splitOn ',').length h
    rw [List.take_left] at htake
    rw [List.drop_left] at hdrop
    exact ⟨_, _, (List.take_append_drop _ _).symm, htake, hdrop⟩
  · rintro ⟨ps, qs, rfl, hp, hq⟩
    exact List.rel_append hp hq

end Grammar

theorem Uid.ofNat?_eq_some_iff {n : Nat} {u : Uid} : ofNat? n = some u ↔ n = u.toNat := by
  constructor
  · intro h
    exact (toNat_ofNat? h).symm
  · rintro rfl
    exact ofNat?_toNat u

theorem Uid.ofText?_eq_some_iff {text : List Char} {u : Uid} :
    ofText? text = some u ↔ Grammar.Endpoint text u := by
  have hstar : isDigit '*' = false := by decide
  constructor
  · intro h
    rw [ofText?] at h
    split at h
    · rename_i he
      cases h
      exact he ▸ .greatest
    · split at h
      · rename_i hdigits
        simp only [Bool.and_eq_true, Bool.not_eq_true', List.isEmpty_eq_false_iff, List.all_eq_true,
          isDigit, decide_eq_true_eq] at hdigits
        rw [ofNat?_eq_some_iff, decimalValue_eq] at h
        exact .number hdigits.1 hdigits.2 h
      · cases h
  · intro h
    cases h with
    | greatest => rfl
    | number hne hdigits hvalue =>
      have hall : text.all isDigit = true := by
        simpa [isDigit] using hdigits
      have hnot : text ≠ ['*'] := by
        rintro rfl
        simp [hstar] at hall
      rw [ofText?, if_neg hnot, if_pos (by simp [hne, hall]), ofNat?_eq_some_iff, decimalValue_eq]
      exact hvalue

theorem UidRange.ofText?_eq_some_iff {text : List Char} {r : UidRange} :
    ofText? text = some r ↔ ∃ ends, Grammar.Part text ends ∧ r = between ends.1 ends.2 := by
  have hcolon : ∀ {text u}, Grammar.Endpoint text u → ':' ∉ text := fun h =>
    h.not_mem (by decide) (by decide)
  constructor
  · intro h
    have hjoin : [':'].intercalate (text.splitOn ':') = text := List.intercalate_splitOn ':'
    rw [ofText?, splitOn_eq] at h
    split at h
    · rename_i only hsplit
      obtain ⟨u, hu, hr⟩ := Option.bind_eq_some_iff.mp h
      cases hr
      obtain rfl : only = text := by simpa [hsplit] using hjoin
      exact ⟨_, .one (Uid.ofText?_eq_some_iff.mp hu), rfl⟩
    · rename_i left right hsplit
      obtain ⟨a, ha, h⟩ := Option.bind_eq_some_iff.mp h
      obtain ⟨b, hb, hr⟩ := Option.bind_eq_some_iff.mp h
      cases hr
      obtain rfl : left ++ ':' :: right = text := by simpa [hsplit] using hjoin
      exact ⟨_, .two (Uid.ofText?_eq_some_iff.mp ha) (Uid.ofText?_eq_some_iff.mp hb), rfl⟩
    · cases h
  · rintro ⟨ends, hpart, rfl⟩
    rw [ofText?, splitOn_eq]
    cases hpart with
    | one hu =>
      rw [List.splitOn_eq_singleton (hcolon hu)]
      simp [Uid.ofText?_eq_some_iff.mpr hu]
    | two ha hb =>
      rw [List.splitOn_append_cons_self_of_not_mem (hcolon ha),
        List.splitOn_eq_singleton (hcolon hb)]
      simp [Uid.ofText?_eq_some_iff.mpr ha, Uid.ofText?_eq_some_iff.mpr hb]

end MailSearch
