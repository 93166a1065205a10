import MailSearch.Uid

/-! # Sets of message numbers

A set is held as its maximal runs: closed ranges in ascending order with at least one UID missing
between neighbours. Inserting a range joins it with every range that it overlaps or abuts.
-/

namespace MailSearch

structure UidRange where
  first : Uid
  last : Uid
  ordered : first ≤ last
deriving DecidableEq

namespace UidRange

/-- The range between two UIDs given in either order. -/
def between (a b : Uid) : UidRange where
  first := Uid.smaller a b
  last := Uid.larger a b
  ordered := by rw [Uid.le_iff, Uid.toNat_smaller, Uid.toNat_larger]; omega

/-- The range with its end moved up to that of `s`, if that is the greater one. -/
def reach (r s : UidRange) : UidRange where
  first := r.first
  last := Uid.larger r.last s.last
  ordered := by
    have := Uid.le_iff.mp r.ordered
    rw [Uid.le_iff, Uid.toNat_larger]; omega

instance : Membership Uid UidRange := ⟨fun r u => r.first ≤ u ∧ u ≤ r.last⟩

instance (u : Uid) (r : UidRange) : Decidable (u ∈ r) :=
  inferInstanceAs (Decidable (r.first ≤ u ∧ u ≤ r.last))

theorem mem_def {u : Uid} {r : UidRange} : u ∈ r ↔ r.first ≤ u ∧ u ≤ r.last := Iff.rfl

/-- Some UID lies strictly between the two ranges, `r` being the lower one. -/
def Before (r s : UidRange) : Prop := r.last.toNat + 1 < s.first.toNat

instance (r s : UidRange) : Decidable (r.Before s) :=
  inferInstanceAs (Decidable (r.last.toNat + 1 < s.first.toNat))

/-- Whether the range starts at `u` or below. -/
def startsBy (r : UidRange) (u : Uid) : Bool := r.first ≤ u

/-- Takes the ranges above the new one into it, from the lowest on, as long as it overlaps or abuts
them. The ranges that stay are given with it. -/
def absorb (new : UidRange) : List UidRange → UidRange × List UidRange
  | [] => (new, [])
  | r :: rs =>
    if r.first.below ≤ new.last.word then absorb (new.reach r) rs else (new, r :: rs)

/-- Insertion into ranges in ascending order. First the ranges that start above the new one are
taken into it; what it has grown to then joins the range that starts last among the others, if the
two overlap or abut. -/
def insertInto (new : UidRange) (rs : List UidRange) : List UidRange :=
  let lower := rs.takeWhile (·.startsBy new.first)
  let (grown, upper) := absorb new (rs.dropWhile (·.startsBy new.first))
  match lower.getLast? with
  | none => grown :: upper
  | some r =>
    if new.first ≤ r.last.next then lower.dropLast ++ r.reach grown :: upper
    else lower ++ grown :: upper

/-- A range that starts no lower than `r` joins it unless a UID between the two is missing. -/
theorem le_next_iff {r new : UidRange} : new.first ≤ r.last.next ↔ ¬ r.Before new := by
  rw [Uid.le_next_iff, Before, Nat.not_lt]

theorem below_le_iff {r new : UidRange} : r.first.below ≤ new.last.word ↔ ¬ new.Before r := by
  rw [Uid.below_le_word_iff, Before, Nat.not_lt]

@[simp] theorem startsBy_iff {r : UidRange} {u : Uid} : r.startsBy u = true ↔ r.first ≤ u := by
  simp [startsBy]

theorem Before.trans {r s t : UidRange} (h : r.Before s) (h' : s.Before t) : r.Before t := by
  have := Uid.le_iff.mp s.ordered
  simp only [Before] at *; omega

theorem Before.reach {r s t : UidRange} (h : r.Before t) (h' : s.Before t) :
    (r.reach s).Before t := by
  simp only [Before, UidRange.reach, Uid.toNat_larger] at *; omega

theorem absorb_first (new : UidRange) (rs : List UidRange) :
    (absorb new rs).1.first = new.first := by
  fun_induction absorb new rs with
  | case1 | case3 => rfl
  | case2 new r rs _ ih => exact ih

theorem absorb_suffix (new : UidRange) (rs : List UidRange) : (absorb new rs).2 <:+ rs := by
  fun_induction absorb new rs with
  | case1 | case3 => exact List.suffix_rfl
  | case2 new r rs _ ih => exact ih.trans (List.suffix_cons r rs)

theorem absorb_before (new : UidRange) {rs : List UidRange} (h : rs.Pairwise Before) :
    ∀ r ∈ (absorb new rs).2, (absorb new rs).1.Before r := by
  fun_induction absorb new rs with
  | case1 => simp
  | case2 new r rs _ ih => exact ih (List.pairwise_cons.mp h).2
  | case3 new r rs hle =>
    have hb : new.Before r := Classical.not_not.mp (mt below_le_iff.mpr hle)
    refine List.forall_mem_cons.mpr ⟨hb, fun s hs => ?_⟩
    exact hb.trans ((List.pairwise_cons.mp h).1 s hs)

theorem pairwise_insertInto (new : UidRange) {rs : List UidRange} (h : rs.Pairwise Before) :
    (insertInto new rs).Pairwise Before := by
  rw [← List.takeWhile_append_dropWhile (p := (·.startsBy new.first)) (l := rs),
    List.pairwise_append] at h
  obtain ⟨hlower, hupper, hcross⟩ := h
  have hf := absorb_first new (rs.dropWhile (·.startsBy new.first))
  have hsuf := absorb_suffix new (rs.dropWhile (·.startsBy new.first))
  have hgrown := absorb_before new hupper
  simp only [insertInto]
  generalize absorb new (rs.dropWhile (·.startsBy new.first)) = grown at *
  have hstay : grown.2.Pairwise Before := hupper.sublist hsuf.sublist
  split
  · exact List.pairwise_cons.mpr ⟨hgrown, hstay⟩
  · rename_i r hr
    obtain ⟨init, hinit⟩ := List.getLast?_eq_some_iff.mp hr
    rw [hinit] at hlower hcross ⊢
    have hlast : ∀ s ∈ init, s.Before r := fun s hs =>
      (List.pairwise_append.mp hlower).2.2 s hs r (List.mem_singleton_self r)
    split
    · rw [List.dropLast_concat, List.pairwise_append, List.pairwise_cons]
      refine ⟨(List.pairwise_append.mp hlower).1, ⟨fun t ht => ?_, hstay⟩, fun s hs t ht => ?_⟩
      · exact (hcross r (by simp) t (hsuf.mem ht)).reach (hgrown t ht)
      · rcases List.mem_cons.mp ht with rfl | ht
        · exact hlast s hs
        · exact hcross s (by simp [hs]) t (hsuf.mem ht)
    · rename_i hle
      have hr' : r.Before grown.1 := by
        have : r.Before new := Classical.not_not.mp (mt le_next_iff.mpr hle)
        rwa [Before, ← hf] at this
      rw [List.pairwise_append, List.pairwise_cons]
      refine ⟨hlower, ⟨hgrown, hstay⟩, fun s hs t ht => ?_⟩
      have hs' : s.Before grown.1 := by
        rcases List.mem_append.mp hs with hs | hs
        · exact (hlast s hs).trans hr'
        · rwa [List.mem_singleton.mp hs]
      rcases List.mem_cons.mp ht with rfl | ht
      · exact hs'
      · exact hs'.trans (hgrown t ht)

end UidRange

structure UidSet where
  ranges : List UidRange
  apart : ranges.Pairwise UidRange.Before

namespace UidSet

theorem ext_ranges {s t : UidSet} (h : s.ranges = t.ranges) : s = t := by
  cases s; cases t; cases h; rfl

instance : DecidableEq UidSet := fun s t =>
  if h : s.ranges = t.ranges then isTrue (ext_ranges h) else isFalse fun e => h (e ▸ rfl)

def empty : UidSet := ⟨[], .nil⟩

instance : EmptyCollection UidSet := ⟨empty⟩

def isEmpty (s : UidSet) : Bool := s.ranges.isEmpty

def insertRange (s : UidSet) (r : UidRange) : UidSet :=
  ⟨r.insertInto s.ranges, UidRange.pairwise_insertInto r s.apart⟩

/-- Adds all UIDs from `a` to `b`, whichever of the two is the smaller. -/
def insert (s : UidSet) (a b : Uid) : UidSet := s.insertRange (.between a b)

def range (a b : Uid) : UidSet := empty.insert a b

/-- Only the last range that starts at or below `u` can hold it. -/
def contains (s : UidSet) (u : Uid) : Bool :=
  match (s.ranges.takeWhile (·.startsBy u)).getLast? with
  | some r => u ≤ r.last
  | none => false

instance : Membership Uid UidSet := ⟨fun s u => ∃ r ∈ s.ranges, u ∈ r⟩

end UidSet

/-- A run of UIDs as it is shown: a run that reaches the greatest UID has no upper end. -/
structure UidSpan where
  low : Uid
  high : Option Uid
deriving DecidableEq

namespace UidSpan

def includes (s : UidSpan) (u : Uid) : Bool :=
  s.low ≤ u && match s.high with
    | some h => u ≤ h
    | none => true

/-- What the bare words of two ends show. From a word that is no UID no span starts. -/
def ofWords? (first last : UInt32) : Option UidSpan :=
  (Uid.ofWord? first).map fun low =>
    ⟨low, if last = Uid.greatest.word then none else Uid.ofWord? last⟩

end UidSpan

def UidSet.spans (s : UidSet) : List UidSpan :=
  s.ranges.filterMap fun r => UidSpan.ofWords? r.first.word r.last.word

end MailSearch
