import MailSearch.Proofs.UidSet.Insertion

/-! # Runs of insertions

Every set that can be made is made by insertions into the empty one. Whatever their order and
whichever end comes first, the set holds exactly the UIDs between inserted ends, as ranges that lie
apart; the next insertion joins those that it meets and no others, up to both ends of the numbers.
-/

namespace MailSearch.UidSet

/-- The sets that can be made, with the ends inserted on the way. -/
inductive Built : UidSet → List (Uid × Uid) → Prop
  | empty : Built .empty []
  | insert {s : UidSet} {pairs : List (Uid × Uid)} (a b : Uid) :
      Built s pairs → Built (s.insert a b) (pairs ++ [(a, b)])
  | range (a b : Uid) : Built (.range a b) [(a, b)]
  | parse {text : String} {s : UidSet} {parts : List UidRange} : UidSet.parse text = .ok s →
      (splitOn ',' text.toList).mapM UidRange.ofText? = some parts →
      Built s (parts.map fun r => (r.first, r.last))

variable {s : UidSet} {pairs : List (Uid × Uid)} {u : Uid}

theorem mem_insert {a b : Uid} : u ∈ s.insert a b ↔ u ∈ UidRange.between a b ∨ u ∈ s :=
  mem_insertRange

theorem mem_range {a b : Uid} : u ∈ range a b ↔ u ∈ UidRange.between a b :=
  mem_insert.trans (or_iff_left not_mem_empty)

theorem mem_foldl_insertRange {rs : List UidRange} :
    u ∈ rs.foldl insertRange s ↔ (∃ r ∈ rs, u ∈ r) ∨ u ∈ s := by
  induction rs generalizing s with
  | nil => simp
  | cons r rs ih =>
    rw [List.foldl_cons, ih, mem_insertRange]
    simp only [List.mem_cons, exists_eq_or_imp, or_assoc, or_left_comm]

theorem parse_eq {text : String} (h : parse text = .ok s) :
    ∃ parts, (splitOn ',' text.toList).mapM UidRange.ofText? = some parts ∧
      s = parts.foldl insertRange empty := by
  cases hp : (splitOn ',' text.toList).mapM UidRange.ofText? with
  | none => simp [parse, ofText?, hp] at h
  | some parts =>
    simp only [parse, ofText?, hp, Option.bind_eq_bind, Option.bind_some, Option.pure_def,
      Except.ok.injEq] at h
    exact ⟨parts, rfl, h.symm⟩

theorem exists_mem_of_mapM {α β : Type} {f : α → Option β} {p : β → Prop} {as : List α}
    {bs : List β} (h : as.mapM f = some bs) :
    (∃ b ∈ bs, p b) ↔ ∃ a ∈ as, ∃ b, f a = some b ∧ p b := by
  induction as generalizing bs with
  | nil => cases h; simp
  | cons a as ih =>
    rw [List.mapM_cons] at h
    obtain ⟨b, hb, h⟩ := Option.bind_eq_some_iff.mp h
    obtain ⟨bs, hbs, h⟩ := Option.bind_eq_some_iff.mp h
    cases h
    simp only [List.mem_cons, exists_eq_or_imp, ih hbs, hb, Option.some.injEq, exists_eq_left']

theorem mem_of_parse {text : String} (h : parse text = .ok s) :
    u ∈ s ↔ ∃ part ∈ splitOn ',' text.toList, ∃ r, UidRange.ofText? part = some r ∧ u ∈ r := by
  obtain ⟨parts, hp, rfl⟩ := parse_eq h
  rw [mem_foldl_insertRange, or_iff_left not_mem_empty, exists_mem_of_mapM hp]

/-- Only what was inserted is in the set, and all of it. -/
theorem Built.mem_iff (h : Built s pairs) :
    u ∈ s ↔ ∃ p ∈ pairs, u ∈ UidRange.between p.1 p.2 := by
  induction h with
  | empty => simpa using not_mem_empty
  | insert a b _ ih =>
    rw [mem_insert, ih]
    simp only [List.mem_append, List.mem_singleton, or_and_right, exists_or, exists_eq_left]
    exact or_comm
  | range a b => simp [mem_range]
  | parse hs hparts =>
    obtain ⟨parts, hp, rfl⟩ := parse_eq hs
    obtain rfl := Option.some.inj (hp.symm.trans hparts)
    simp [mem_foldl_insertRange, not_mem_empty, UidRange.between_ends]

/-- A set holds what lies between the ends that were inserted, in ascending ranges with gaps
between. -/
theorem Built.union_of_ranges_apart (h : Built s pairs) :
    (∀ u : Uid, s.contains u = true ↔
      ∃ p ∈ pairs, min p.1.toNat p.2.toNat ≤ u.toNat ∧ u.toNat ≤ max p.1.toNat p.2.toNat) ∧
    (∀ r ∈ s.ranges, 1 ≤ r.first.toNat ∧ r.first.toNat ≤ r.last.toNat) ∧
    s.ranges.Pairwise (fun r t => r.last.toNat + 2 ≤ t.first.toNat) ∧
    (∀ r ∈ s.ranges, r.first.below.toNat + 1 = r.first.toNat ∧
      (∀ v : Uid, r.first.below ≤ v.word ↔ r.first.toNat ≤ v.toNat + 1) ∧
      ∀ v : Uid, v ≤ r.last.next ↔ v.toNat ≤ r.last.toNat + 1) ∧
    ∀ a b : Uid, ∃ grown : UidRange,
      (s.insert a b).ranges =
        s.ranges.filter (fun r => r.last.toNat + 1 < min a.toNat b.toNat) ++
          grown :: s.ranges.filter (fun r => max a.toNat b.toNat + 1 < r.first.toNat) ∧
      ∀ u : Uid, u ∈ grown ↔
        (min a.toNat b.toNat ≤ u.toNat ∧ u.toNat ≤ max a.toNat b.toNat) ∨
        ∃ r ∈ s.ranges, min a.toNat b.toNat ≤ r.last.toNat + 1 ∧
          r.first.toNat ≤ max a.toNat b.toNat + 1 ∧ u ∈ r := by
  refine ⟨?_, ?_, ?_, ?_, ?_⟩
  · intro u
    rw [contains_iff_mem, h.mem_iff]
    simp only [UidRange.mem_between]
  · intro r _
    exact ⟨r.first.toNat_pos, Uid.le_iff.mp r.ordered⟩
  · apply s.apart.imp
    intro r t hb
    rw [UidRange.Before] at hb
    omega
  · intro r _
    exact ⟨r.first.toNat_below_add_one, fun _ => Uid.below_le_word_iff, fun _ => Uid.le_next_iff⟩
  · intro a b
    obtain ⟨grown, hr, hmem⟩ := UidRange.insertInto_eq (UidRange.between a b) s.apart
    simp only [UidRange.Touches, UidRange.Before, UidRange.between, Uid.toNat_smaller,
      Uid.toNat_larger, Nat.not_lt, and_assoc] at hr hmem
    refine ⟨grown, hr, fun u => ?_⟩
    rw [hmem u, ← UidRange.mem_between]
    rfl

/-- Insertions at both ends of the numbers, and one that abuts the upper range. -/
theorem Built.union_of_ranges_apart_at_ends :
    Built (((UidSet.range .greatest .greatest).insert ⟨1, by decide⟩ ⟨1, by decide⟩).insert
        ⟨4294967294, by decide⟩ ⟨4, by decide⟩)
      [(.greatest, .greatest), (⟨1, by decide⟩, ⟨1, by decide⟩),
        (⟨4294967294, by decide⟩, ⟨4, by decide⟩)] ∧
    (((UidSet.range .greatest .greatest).insert ⟨1, by decide⟩ ⟨1, by decide⟩).insert
        ⟨4294967294, by decide⟩ ⟨4, by decide⟩).contains ⟨7, by decide⟩ = true := by
  have h := Built.insert ⟨4294967294, by decide⟩ ⟨4, by decide⟩
    (Built.insert ⟨1, by decide⟩ ⟨1, by decide⟩ (Built.range .greatest .greatest))
  exact ⟨h, (h.union_of_ranges_apart.1 ⟨7, by decide⟩).mpr
    ⟨(⟨4294967294, by decide⟩, ⟨4, by decide⟩), by simp, by decide⟩⟩

end MailSearch.UidSet
