import Mathlib.Data.List.Pairwise
import Mathlib.Data.List.Sort
import MailSearch.Proofs.UidSet.Runs

/-! # Ranges as maximal runs

The ranges of a set are its maximal runs: stretches of members with no member next to either end.
So the members settle the ranges, and whatever intervals have the same members, there are at least
as many of them as there are ranges.
-/

namespace MailSearch

namespace UidRange

instance : Std.Irrefl Before where
  irrefl r h := by
    have := Uid.le_iff.mp r.ordered
    unfold Before at h
    omega

theorem Before.asymm {r t : UidRange} (h : r.Before t) : ¬ t.Before r := fun h' =>
  Std.Irrefl.irrefl r (h.trans h')

instance : Std.Antisymm Before where
  antisymm _ _ h h' := absurd h' h.asymm

theorem first_mem (r : UidRange) : r.first ∈ r :=
  mem_iff.mpr ⟨Nat.le_refl _, Uid.le_iff.mp r.ordered⟩

theorem ext_ends {r t : UidRange} (hf : r.first.toNat = t.first.toNat)
    (hl : r.last.toNat = t.last.toNat) : r = t := by
  cases r
  cases t
  congr 1
  · exact Uid.ext_toNat hf
  · exact Uid.ext_toNat hl

/-- A maximal range of UIDs in the set. -/
def IsRun (s : UidSet) (r : UidRange) : Prop :=
  (∀ u ∈ r, u ∈ s) ∧ ∀ u ∈ s, u.toNat + 1 ≠ r.first.toNat ∧ u.toNat ≠ r.last.toNat + 1

end UidRange

namespace UidSet

open UidRange

variable {s t : UidSet}

theorem isRun_of_mem_ranges {r : UidRange} (hr : r ∈ s.ranges) : r.IsRun s := by
  refine ⟨fun u hu => ⟨r, hr, hu⟩, ?_⟩
  rintro u ⟨t, ht, hu⟩
  have hne := Uid.le_iff.mp r.ordered
  rw [UidRange.mem_iff] at hu
  by_cases he : r = t
  · subst he
    omega
  · have happart : s.ranges.Pairwise fun r t => r.Before t ∨ t.Before r := s.apart.imp Or.inl
    have : Std.Symm fun r t : UidRange => r.Before t ∨ t.Before r := ⟨fun _ _ => Or.symm⟩
    have hrt := happart.forall hr ht he
    unfold Before at hrt
    omega

/-- A run ends where the range that holds its start does. -/
theorem mem_ranges_iff {r : UidRange} : r ∈ s.ranges ↔ r.IsRun s := by
  refine ⟨isRun_of_mem_ranges, ?_⟩
  rintro ⟨hin, hout⟩
  obtain ⟨t, ht, hft⟩ := hin r.first r.first_mem
  obtain ⟨-, houtt⟩ := isRun_of_mem_ranges ht
  rw [UidRange.mem_iff] at hft
  have hr := Uid.le_iff.mp r.ordered
  have hfirst : r.first.toNat = t.first.toNat := by
    by_contra hne
    have hpos := t.first.toNat_pos
    obtain ⟨v, hv⟩ :=
      Uid.exists_toNat_eq (n := r.first.toNat - 1) (u := r.first) (by omega) (by omega)
    exact (hout v ⟨t, ht, UidRange.mem_iff.mpr (by omega)⟩).1 (by omega)
  have hlast : r.last.toNat = t.last.toNat := by
    by_contra hne
    rcases Nat.lt_or_ge r.last.toNat t.last.toNat with hlt | hge
    · obtain ⟨v, hv⟩ :=
        Uid.exists_toNat_eq (n := r.last.toNat + 1) (u := t.last) (by omega) (by omega)
      exact (hout v ⟨t, ht, UidRange.mem_iff.mpr (by omega)⟩).2 hv
    · obtain ⟨v, hv⟩ :=
        Uid.exists_toNat_eq (n := t.last.toNat + 1) (u := r.last) (by omega) (by omega)
      exact (houtt v (hin v (UidRange.mem_iff.mpr (by omega)))).2 hv
  rwa [ext_ends hfirst hlast]

/-- Sets with the same members have the same runs. -/
theorem ext_mem (h : ∀ u, u ∈ s ↔ u ∈ t) : s = t := by
  apply ext_ranges
  apply s.apart.eq_of_mem_iff t.apart
  intro r
  simp only [mem_ranges_iff, IsRun, h]

/-- No two ranges start inside one interval of a cover. -/
theorem length_ranges_le_of_cover {cover : List (Uid × Uid)}
    (h : ∀ u, u ∈ s ↔ ∃ i ∈ cover, i.1 ≤ u ∧ u ≤ i.2) : s.ranges.length ≤ cover.length := by
  have hstart : ∀ r ∈ s.ranges, ∃ i ∈ cover, i.1 ≤ r.first ∧ r.first ≤ i.2 := fun r hr =>
    (h r.first).mp ⟨r, hr, r.first_mem⟩
  have : Nonempty (Uid × Uid) := ⟨(.greatest, .greatest)⟩
  choose! interval hmem hlow hhigh using hstart
  have hne : ∀ r ∈ s.ranges, ∀ t ∈ s.ranges, r.Before t → interval r ≠ interval t := by
    intro r hr t ht hb he
    have hrl := Uid.le_iff.mp (hlow r hr)
    have hth := Uid.le_iff.mp (he ▸ hhigh t ht)
    have hro := Uid.le_iff.mp r.ordered
    unfold Before at hb
    obtain ⟨v, hv⟩ :=
      Uid.exists_toNat_eq (n := r.last.toNat + 1) (u := t.first) (by omega) (by omega)
    have hvs : v ∈ s := (h v).mpr
      ⟨interval r, hmem r hr, Uid.le_iff.mpr (by omega), Uid.le_iff.mpr (by omega)⟩
    exact ((isRun_of_mem_ranges hr).2 v hvs).2 hv
  have hnodup : (s.ranges.map interval).Nodup :=
    List.pairwise_map.mpr (s.apart.imp_of_mem fun {r t} hr ht hb => hne r hr t ht hb)
  have hsub : s.ranges.map interval ⊆ cover := by
    intro i hi
    obtain ⟨r, hr, rfl⟩ := List.mem_map.mp hi
    exact hmem r hr
  simpa using (List.subperm_of_subset hnodup hsub).length_le

end UidSet

end MailSearch
