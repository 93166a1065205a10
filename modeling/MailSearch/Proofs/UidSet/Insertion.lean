import Mathlib.Data.List.TakeWhile
import MailSearch.UidSet.Text

/-! # What insertion does to a set

A new range swallows exactly the ranges that it overlaps or abuts, and leaves the others as they
are. After any run of insertions a set therefore holds the UIDs between the ends inserted so far,
and looking up one range decides membership.
-/

namespace MailSearch

namespace UidRange

theorem mem_iff {u : Uid} {r : UidRange} :
    u ∈ r ↔ r.first.toNat ≤ u.toNat ∧ u.toNat ≤ r.last.toNat := by
  rw [mem_def, Uid.le_iff, Uid.le_iff]

theorem mem_between {a b u : Uid} :
    u ∈ between a b ↔ min a.toNat b.toNat ≤ u.toNat ∧ u.toNat ≤ max a.toNat b.toNat := by
  rw [mem_iff, between, Uid.toNat_smaller, Uid.toNat_larger]

theorem between_ends (r : UidRange) : between r.first r.last = r := by
  simp [between, Uid.smaller, Uid.larger, r.ordered]

/-- The two ranges overlap, or no UID lies between them. -/
def Touches (r s : UidRange) : Prop := ¬ r.Before s ∧ ¬ s.Before r

theorem mem_reach {r s : UidRange} {u : Uid} (hf : r.first ≤ s.first) (h : ¬ r.Before s) :
    u ∈ r.reach s ↔ u ∈ r ∨ u ∈ s := by
  have hr := Uid.le_iff.mp r.ordered
  rw [Uid.le_iff] at hf
  simp only [mem_iff, reach, Uid.toNat_larger, Before] at *
  omega

theorem reach_before_iff {new r t : UidRange} (h : r.Before t) :
    (new.reach r).Before t ↔ new.Before t := by
  simp only [reach, Before, Uid.toNat_larger] at *
  omega

variable {rs : List UidRange}

theorem first_le_of_mem_takeWhile {u : Uid} {r : UidRange}
    (hr : r ∈ rs.takeWhile (·.startsBy u)) : r.first ≤ u := by
  have := List.mem_takeWhile_imp hr
  rwa [startsBy_iff] at this

theorem lt_first_of_mem_dropWhile (h : rs.Pairwise Before) {u : Uid} {r : UidRange}
    (hr : r ∈ rs.dropWhile (·.startsBy u)) : u < r.first := by
  have hd := h.sublist (List.dropWhile_sublist (p := (·.startsBy u)))
  cases he : rs.dropWhile (·.startsBy u) with
  | nil => simp [he] at hr
  | cons s ss =>
    have hs : ¬ s.startsBy u = true := by
      have := List.head_dropWhile_not (UidRange.startsBy · u) (l := rs) (by simp [he])
      simp only [he, List.head_cons] at this
      simp [this]
    rw [he] at hr hd
    rw [startsBy_iff, Uid.le_iff] at hs
    rw [Uid.lt_iff]
    rcases List.mem_cons.mp hr with rfl | hr
    · omega
    · have hb := (List.pairwise_cons.mp hd).1 r hr
      have ho := Uid.le_iff.mp s.ordered
      rw [Before] at hb
      omega

theorem absorb_eq {new : UidRange} (h : rs.Pairwise Before) (hf : ∀ r ∈ rs, new.first < r.first) :
    (absorb new rs).2 = rs.filter (new.Before ·) ∧
      ∀ u, u ∈ (absorb new rs).1 ↔ u ∈ new ∨ ∃ r ∈ rs, ¬ new.Before r ∧ u ∈ r := by
  fun_induction absorb new rs with
  | case1 => simp
  | case2 new r rs hle ih =>
    have htouch := below_le_iff.mp hle
    obtain ⟨hr, hrs⟩ := List.pairwise_cons.mp h
    obtain ⟨hfr, hfrs⟩ := List.forall_mem_cons.mp hf
    obtain ⟨hstay, hmem⟩ := ih hrs hfrs
    have hfar : ∀ t ∈ rs, (new.reach r).Before t ↔ new.Before t := fun t ht =>
      reach_before_iff (hr t ht)
    constructor
    · rw [hstay, List.filter_cons_of_neg (by simpa using htouch)]
      exact List.filter_congr fun t ht => by simp [hfar t ht]
    · intro u
      have hle' : new.first ≤ r.first := Uid.le_iff.mpr (Nat.le_of_lt (Uid.lt_iff.mp hfr))
      rw [hmem u, mem_reach hle' htouch, or_assoc]
      have hex : (∃ t ∈ rs, ¬ (new.reach r).Before t ∧ u ∈ t) ↔
          ∃ t ∈ rs, ¬ new.Before t ∧ u ∈ t :=
        exists_congr fun t => and_congr_right fun ht => by rw [hfar t ht]
      rw [hex]
      simp only [List.mem_cons, exists_eq_or_imp, htouch, not_false_iff, true_and]
  | case3 new r rs hle =>
    have hbefore : new.Before r := Classical.not_not.mp (mt below_le_iff.mpr hle)
    have hall : ∀ t ∈ r :: rs, new.Before t := List.forall_mem_cons.mpr
      ⟨hbefore, fun t ht => hbefore.trans ((List.pairwise_cons.mp h).1 t ht)⟩
    constructor
    · exact (List.filter_eq_self.mpr fun t ht => by simpa using hall t ht).symm
    · intro u
      constructor
      · exact Or.inl
      · rintro (hu | ⟨t, ht, hn, -⟩)
        · exact hu
        · exact absurd (hall t ht) hn

theorem not_before_of_first_le {r s : UidRange} (h : s.first ≤ r.first) : ¬ r.Before s := by
  have hr := Uid.le_iff.mp r.ordered
  rw [Uid.le_iff] at h
  rw [Before]; omega

theorem Before.of_first_le {r s t : UidRange} (h : r.Before s) (hf : s.first ≤ t.first) :
    r.Before t := by
  rw [Uid.le_iff] at hf
  rw [Before] at *; omega

theorem filter_append_of_not_before {new : UidRange} {lower upper : List UidRange}
    (hlow : ∀ t ∈ lower, ¬ new.Before t) (hup : ∀ t ∈ upper, ¬ t.Before new) :
    (lower ++ upper).filter (·.Before new) = lower.filter (·.Before new) ∧
      (lower ++ upper).filter (new.Before ·) = upper.filter (new.Before ·) := by
  have hnone : upper.filter (·.Before new) = [] := List.filter_eq_nil_iff.mpr (by simpa using hup)
  have hnone' : lower.filter (new.Before ·) = [] := List.filter_eq_nil_iff.mpr (by simpa using hlow)
  constructor
  · rw [List.filter_append, hnone, List.append_nil]
  · rw [List.filter_append, hnone', List.nil_append]

theorem before_of_mem_init {new r : UidRange} {init : List UidRange}
    (h : (init ++ [r]).Pairwise Before) (hr : r.first ≤ new.first) : ∀ t ∈ init, t.Before new := by
  intro t ht
  have hb := (List.pairwise_append.mp h).2.2 t ht r (List.mem_singleton_self r)
  exact hb.of_first_le hr

/-- Ranges that the new one does not touch stay; the others become part of it. -/
theorem insertInto_eq (new : UidRange) (h : rs.Pairwise Before) :
    ∃ grown, insertInto new rs = rs.filter (·.Before new) ++ grown :: rs.filter (new.Before ·) ∧
      ∀ u, u ∈ grown ↔ u ∈ new ∨ ∃ r ∈ rs, r.Touches new ∧ u ∈ r := by
  have hlow : ∀ t ∈ rs.takeWhile (·.startsBy new.first), t.first ≤ new.first := fun t ht =>
    first_le_of_mem_takeWhile ht
  have hup : ∀ t ∈ rs.dropWhile (·.startsBy new.first), new.first < t.first := fun t ht =>
    lt_first_of_mem_dropWhile h ht
  have hsplit := List.takeWhile_append_dropWhile (p := (·.startsBy new.first)) (l := rs)
  simp only [insertInto]
  generalize rs.takeWhile (·.startsBy new.first) = lower at *
  generalize rs.dropWhile (·.startsBy new.first) = upper at *
  subst hsplit
  have hlow' : ∀ t ∈ lower, ¬ new.Before t := fun t ht => not_before_of_first_le (hlow t ht)
  have hup' : ∀ t ∈ upper, ¬ t.Before new := fun t ht =>
    not_before_of_first_le (Uid.le_iff.mpr (Nat.le_of_lt (Uid.lt_iff.mp (hup t ht))))
  obtain ⟨hlower, hupper, -⟩ := List.pairwise_append.mp h
  obtain ⟨hstay, hmem⟩ := absorb_eq hupper hup
  obtain ⟨hbelow, habove⟩ := filter_append_of_not_before hlow' hup'
  have hfirst := absorb_first new upper
  rw [hbelow, habove, ← hstay]
  generalize absorb new upper = grown at *
  have htouch : ∀ u, (∃ t ∈ upper, ¬ new.Before t ∧ u ∈ t) ↔ ∃ t ∈ upper, t.Touches new ∧ u ∈ t :=
    fun u => exists_congr fun t => and_congr_right fun ht => by simp [Touches, hup' t ht]
  split
  · rename_i hnone
    obtain rfl := List.getLast?_eq_none_iff.mp hnone
    exact ⟨grown.1, rfl, fun u => by rw [hmem u, htouch u, List.nil_append]⟩
  · rename_i r hr
    obtain ⟨init, rfl⟩ := List.getLast?_eq_some_iff.mp hr
    have hrfirst := hlow r (by simp)
    have hinit := before_of_mem_init hlower hrfirst
    have hkeep : init.filter (·.Before new) = init :=
      List.filter_eq_self.mpr (by simpa using hinit)
    have hnone : ∀ u, ¬ ∃ t ∈ init, t.Touches new ∧ u ∈ t := by
      rintro u ⟨t, ht, ⟨hn, -⟩, -⟩
      exact hn (hinit t ht)
    split
    · rename_i hle
      have hn := le_next_iff.mp hle
      refine ⟨r.reach grown.1, by simp [List.filter_append, hkeep, hn], fun u => ?_⟩
      have hr : r.Touches new := ⟨hn, hlow' r (by simp)⟩
      rw [mem_reach (by rwa [hfirst]) (by rwa [Before, hfirst]), hmem u, htouch u]
      simp only [List.mem_append, List.mem_singleton, or_and_right, exists_or, hnone u, false_or,
        exists_eq_left, hr, true_and]
      exact or_left_comm
    · rename_i hle
      have hb : r.Before new := Classical.not_not.mp (mt le_next_iff.mpr hle)
      refine ⟨grown.1, by simp [List.filter_append, hkeep, hb], fun u => ?_⟩
      have hr : ¬ r.Touches new := fun ht => ht.1 hb
      rw [hmem u, htouch u]
      simp only [List.mem_append, List.mem_singleton, or_and_right, exists_or, hnone u, false_or,
        exists_eq_left, hr, false_and]

theorem mem_insertInto (new : UidRange) (h : rs.Pairwise Before) (u : Uid) :
    (∃ r ∈ insertInto new rs, u ∈ r) ↔ u ∈ new ∨ ∃ r ∈ rs, u ∈ r := by
  obtain ⟨grown, he, hmem⟩ := insertInto_eq new h
  simp only [he, List.mem_append, List.mem_cons, List.mem_filter, decide_eq_true_eq]
  constructor
  · rintro ⟨r, ⟨hr, -⟩ | rfl | ⟨hr, -⟩, hu⟩
    · exact Or.inr ⟨r, hr, hu⟩
    · exact ((hmem u).mp hu).imp_right fun ⟨t, ht, _, hut⟩ => ⟨t, ht, hut⟩
    · exact Or.inr ⟨r, hr, hu⟩
  · rintro (hu | ⟨r, hr, hu⟩)
    · exact ⟨grown, Or.inr (Or.inl rfl), (hmem u).mpr (Or.inl hu)⟩
    · by_cases hb : r.Before new
      · exact ⟨r, Or.inl ⟨hr, hb⟩, hu⟩
      · by_cases ha : new.Before r
        · exact ⟨r, Or.inr (Or.inr ⟨hr, ha⟩), hu⟩
        · exact ⟨grown, Or.inr (Or.inl rfl), (hmem u).mpr (Or.inr ⟨r, hr, ⟨hb, ha⟩, hu⟩)⟩

end UidRange

namespace UidSet

variable {s : UidSet} {u : Uid}

theorem mem_iff : u ∈ s ↔ ∃ r ∈ s.ranges, u ∈ r := Iff.rfl

/-- One range is enough to look at. -/
theorem contains_iff_mem : s.contains u = true ↔ u ∈ s := by
  have happart := s.apart
  have hsplit := List.takeWhile_append_dropWhile (p := (·.startsBy u)) (l := s.ranges)
  have hlow : ∀ t ∈ s.ranges.takeWhile (·.startsBy u), t.first ≤ u := fun t ht =>
    UidRange.first_le_of_mem_takeWhile ht
  have hup : ∀ t ∈ s.ranges.dropWhile (·.startsBy u), u ∉ t := by
    intro t ht hu
    have := Uid.lt_iff.mp (UidRange.lt_first_of_mem_dropWhile s.apart ht)
    have := (UidRange.mem_iff.mp hu).1
    omega
  rw [contains, mem_iff]
  generalize s.ranges.takeWhile (·.startsBy u) = lower at *
  rw [← hsplit] at happart ⊢
  have hlower := (List.pairwise_append.mp happart).1
  split
  · rename_i r hr
    obtain ⟨init, rfl⟩ := List.getLast?_eq_some_iff.mp hr
    rw [decide_eq_true_eq]
    constructor
    · intro hle
      exact ⟨r, by simp, hlow r (by simp), hle⟩
    · rintro ⟨t, ht, hu⟩
      rcases List.mem_append.mp ht with ht | ht
      · rcases List.mem_append.mp ht with ht | ht
        · have hb := (List.pairwise_append.mp hlower).2.2 t ht r (List.mem_singleton_self r)
          have hle := Uid.le_iff.mp (hlow r (by simp))
          have := (UidRange.mem_iff.mp hu).2
          rw [UidRange.Before] at hb
          omega
        · rw [← List.mem_singleton.mp ht]; exact hu.2
      · exact absurd hu (hup t ht)
  · rename_i hnone
    obtain rfl := List.getLast?_eq_none_iff.mp hnone
    simpa using hup

theorem mem_insertRange {r : UidRange} : u ∈ s.insertRange r ↔ u ∈ r ∨ u ∈ s :=
  UidRange.mem_insertInto r s.apart u

theorem not_mem_empty : u ∉ UidSet.empty := by
  rintro ⟨r, hr, -⟩
  cases hr

end UidSet

end MailSearch
