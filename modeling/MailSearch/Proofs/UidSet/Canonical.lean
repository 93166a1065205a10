import MailSearch.Proofs.UidSet.Writing

/-! # One set for the same members

However sets are made, they are equal, and written alike, exactly if they have the same members: no
trace of the order, the cuts or the repetitions of the insertions is left. No list of intervals with
those members is shorter than that of the ranges.
-/

namespace MailSearch.UidSet

variable {s t : UidSet} {ps qs : List (Uid × Uid)}

theorem contains_eq_iff : (∀ u, s.contains u = t.contains u) ↔ ∀ u, u ∈ s ↔ u ∈ t := by
  apply forall_congr'
  intro u
  rw [Bool.eq_iff_iff, contains_iff_mem, contains_iff_mem]

theorem eq_iff_contains_eq : s = t ↔ ∀ u, s.contains u = t.contains u := by
  rw [contains_eq_iff]
  constructor
  · rintro rfl u
    rfl
  · exact ext_mem

/-- Equality and writing go by the members, and no fewer intervals cover them than there are ranges.
-/
theorem Built.canonical_minimal (hs : Built s ps) (ht : Built t qs) :
    (s = t ↔ ∀ u : Uid, s.contains u = t.contains u) ∧
    (s.text = t.text ↔ ∀ u : Uid, s.contains u = t.contains u) ∧
    (s = t ↔ ∀ u : Uid,
      (∃ p ∈ ps, min p.1.toNat p.2.toNat ≤ u.toNat ∧ u.toNat ≤ max p.1.toNat p.2.toNat) ↔
        ∃ q ∈ qs, min q.1.toNat q.2.toNat ≤ u.toNat ∧ u.toNat ≤ max q.1.toNat q.2.toNat) ∧
    ∀ cover : List (Uid × Uid),
      (∀ u : Uid, s.contains u = true ↔ ∃ i ∈ cover, i.1 ≤ u ∧ u ≤ i.2) →
        s.ranges.length ≤ cover.length := by
  refine ⟨eq_iff_contains_eq, ?_, ?_, ?_⟩
  · rw [text_injective.eq_iff, eq_iff_contains_eq]
  · rw [eq_iff_contains_eq, contains_eq_iff]
    simp only [hs.mem_iff, ht.mem_iff, UidRange.mem_between]
  · intro cover h
    apply length_ranges_le_of_cover
    simpa only [contains_iff_mem] using h

/-- Three insertions that leave one range. -/
theorem Built.canonical_minimal_joined :
    ∃ s t, Built s [(⟨3, by decide⟩, ⟨4, by decide⟩), (⟨1, by decide⟩, ⟨1, by decide⟩),
        (⟨2, by decide⟩, ⟨3, by decide⟩)] ∧
      Built t [(⟨4, by decide⟩, ⟨1, by decide⟩)] ∧ s = t ∧ s.ranges.length ≤ 1 := by
  have hs := Built.insert ⟨2, by decide⟩ ⟨3, by decide⟩ (Built.insert ⟨1, by decide⟩ ⟨1, by decide⟩
    (Built.range ⟨3, by decide⟩ ⟨4, by decide⟩))
  have ht := Built.range ⟨4, by decide⟩ ⟨1, by decide⟩
  obtain ⟨-, -, heq, hmin⟩ := hs.canonical_minimal ht
  refine ⟨_, _, hs, ht, heq.mpr fun u => ?_, hmin [(⟨1, by decide⟩, ⟨4, by decide⟩)] fun u => ?_⟩
  · simp [Uid.toNat]
    omega
  · rw [contains_iff_mem, hs.mem_iff]
    simp [UidRange.mem_between, Uid.le_iff, Uid.toNat]
    omega

end MailSearch.UidSet
