import MailSearch.Proofs.UidSet.Grammar

/-! # What a text denotes

A text is read as a set if and only if the grammar derives it, and what is read holds just the UIDs
between the endpoints of some part. So texts are joined by a comma as sets are by union. A set that
is written is read as itself, and no text stands for the empty one.
-/

namespace MailSearch.UidSet

open Grammar (SequenceSet)

variable {s t : UidSet} {text left right : String} {pairs : List (Uid × Uid)}

theorem mapM_eq_some_iff {α β γ : Type} {f : α → Option β} {R : α → γ → Prop} {g : γ → β}
    (h : ∀ {a b}, f a = some b ↔ ∃ c, R a c ∧ b = g c) {as : List α} {bs : List β} :
    as.mapM f = some bs ↔ ∃ cs, List.Forall₂ R as cs ∧ bs = cs.map g := by
  induction as generalizing bs with
  | nil => simp [eq_comm]
  | cons a as ih =>
    simp only [List.mapM_cons, Option.bind_eq_bind, Option.bind_eq_some_iff, h, ih, Option.pure_def,
      Option.some.injEq]
    constructor
    · rintro ⟨_, ⟨c, hc, rfl⟩, _, ⟨cs, hcs, rfl⟩, rfl⟩
      exact ⟨c :: cs, .cons hc hcs, rfl⟩
    · rintro ⟨_, hcs, rfl⟩
      cases hcs with
      | cons hc hcs => exact ⟨_, ⟨_, hc, rfl⟩, _, ⟨_, hcs, rfl⟩, rfl⟩

theorem mapM_ofText?_eq_some_iff {pieces : List (List Char)} {parts : List UidRange} :
    pieces.mapM UidRange.ofText? = some parts ↔
      ∃ pairs, List.Forall₂ Grammar.Part pieces pairs ∧
        parts = pairs.map fun p => UidRange.between p.1 p.2 :=
  mapM_eq_some_iff UidRange.ofText?_eq_some_iff

def ofPairs (pairs : List (Uid × Uid)) : UidSet :=
  pairs.foldl (fun s p => s.insert p.1 p.2) empty

theorem ofPairs_eq (pairs : List (Uid × Uid)) :
    ofPairs pairs = (pairs.map fun p => UidRange.between p.1 p.2).foldl insertRange empty := by
  rw [List.foldl_map]
  rfl

theorem mem_ofPairs {u : Uid} :
    u ∈ ofPairs pairs ↔ ∃ p ∈ pairs, u ∈ UidRange.between p.1 p.2 := by
  rw [ofPairs_eq, mem_foldl_insertRange, or_iff_left not_mem_empty]
  simp only [List.mem_map, exists_exists_and_eq_and]

theorem parse_eq_ok_iff :
    parse text = .ok s ↔ ∃ pairs, SequenceSet text.toList pairs ∧ s = ofPairs pairs := by
  simp only [Grammar.sequenceSet_iff, ofPairs_eq]
  constructor
  · intro h
    obtain ⟨parts, hread, rfl⟩ := parse_eq h
    obtain ⟨pairs, hpairs, rfl⟩ := mapM_ofText?_eq_some_iff.mp hread
    exact ⟨pairs, hpairs, rfl⟩
  · rintro ⟨pairs, hpairs, rfl⟩
    simp [parse, ofText?, mapM_ofText?_eq_some_iff.mpr ⟨pairs, hpairs, rfl⟩]

theorem exists_parse_eq_ok_iff :
    (∃ s, parse text = .ok s) ↔ ∃ pairs, SequenceSet text.toList pairs := by
  simp only [parse_eq_ok_iff, exists_comm (α := UidSet), exists_and_left, exists_eq, and_true]

theorem parse_eq_error_iff {e : SearchError} :
    parse text = .error e ↔
      e = .invalidUidRange text ∧ ¬ ∃ pairs, SequenceSet text.toList pairs := by
  rw [← exists_parse_eq_ok_iff, parse]
  split <;> simp [eq_comm]

/-- The members tell which set was read. -/
theorem parse_eq_ok_iff_mem : parse text = .ok s ↔
    ∃ pairs, SequenceSet text.toList pairs ∧
      ∀ u, u ∈ s ↔ ∃ p ∈ pairs, u ∈ UidRange.between p.1 p.2 := by
  rw [parse_eq_ok_iff]
  refine exists_congr fun pairs => and_congr_right fun _ => ?_
  constructor
  · rintro rfl u
    exact mem_ofPairs
  · intro h
    apply ext_mem
    intro u
    rw [h u, mem_ofPairs]

theorem contains_eq_or_iff {a b : UidSet} {u : Uid} :
    s.contains u = (a.contains u || b.contains u) ↔ (u ∈ s ↔ u ∈ a ∨ u ∈ b) := by
  rw [Bool.eq_iff_iff, Bool.or_eq_true, contains_iff_mem, contains_iff_mem, contains_iff_mem]

theorem toList_join (left right : String) :
    (left ++ "," ++ right).toList = left.toList ++ ',' :: right.toList := by
  simp

theorem parse_join_eq_ok_iff : parse (left ++ "," ++ right) = .ok s ↔
    ∃ a b, parse left = .ok a ∧ parse right = .ok b ∧ ∀ u, u ∈ s ↔ u ∈ a ∨ u ∈ b := by
  rw [parse_eq_ok_iff_mem, toList_join]
  constructor
  · rintro ⟨_, htext, hmem⟩
    obtain ⟨ps, qs, rfl, hp, hq⟩ := Grammar.sequenceSet_append_iff.mp htext
    refine ⟨ofPairs ps, ofPairs qs, parse_eq_ok_iff.mpr ⟨ps, hp, rfl⟩,
      parse_eq_ok_iff.mpr ⟨qs, hq, rfl⟩, fun u => ?_⟩
    rw [hmem u, mem_ofPairs, mem_ofPairs]
    simp only [List.mem_append, or_and_right, exists_or]
  · rintro ⟨a, b, ha, hb, hmem⟩
    obtain ⟨ps, hp, rfl⟩ := parse_eq_ok_iff.mp ha
    obtain ⟨qs, hq, rfl⟩ := parse_eq_ok_iff.mp hb
    refine ⟨ps ++ qs, Grammar.sequenceSet_append_iff.mpr ⟨ps, qs, rfl, hp, hq⟩, fun u => ?_⟩
    rw [hmem u, mem_ofPairs, mem_ofPairs]
    simp only [List.mem_append, or_and_right, exists_or]

theorem parse_join_comm :
    parse (left ++ "," ++ right) = .ok s ↔ parse (right ++ "," ++ left) = .ok s := by
  simp only [parse_join_eq_ok_iff]
  rw [exists_comm]
  simp only [and_left_comm, or_comm]

theorem exists_parse_join_iff : (∃ s, parse (left ++ "," ++ right) = .ok s) ↔
    (∃ a, parse left = .ok a) ∧ ∃ b, parse right = .ok b := by
  simp only [exists_parse_eq_ok_iff, toList_join, Grammar.sequenceSet_append_iff]
  constructor
  · rintro ⟨_, ps, qs, rfl, hp, hq⟩
    exact ⟨⟨ps, hp⟩, qs, hq⟩
  · rintro ⟨⟨ps, hp⟩, qs, hq⟩
    exact ⟨_, ps, qs, rfl, hp, hq⟩

/-- The texts of the grammar are read as the unions of their parts, and all others are refused. -/
theorem sequence_sets_denote_unions :
    (∀ text s, parse text = .ok s ↔
      ∃ pairs, SequenceSet text.toList pairs ∧ ∀ u : Uid, s.contains u = true ↔
        ∃ p ∈ pairs, min p.1.toNat p.2.toNat ≤ u.toNat ∧ u.toNat ≤ max p.1.toNat p.2.toNat) ∧
    (∀ text e, parse text = .error e ↔
      e = .invalidUidRange text ∧ ¬ ∃ pairs, SequenceSet text.toList pairs) ∧
    ∀ left right,
      ((∃ s, parse (left ++ "," ++ right) = .ok s) ↔
        (∃ a, parse left = .ok a) ∧ ∃ b, parse right = .ok b) ∧
      ∀ s, (parse (left ++ "," ++ right) = .ok s ↔ parse (right ++ "," ++ left) = .ok s) ∧
        (parse (left ++ "," ++ right) = .ok s ↔
          ∃ a b, parse left = .ok a ∧ parse right = .ok b ∧
            ∀ u, s.contains u = (a.contains u || b.contains u)) := by
  refine ⟨fun text s => ?_, fun text e => parse_eq_error_iff, fun left right =>
    ⟨exists_parse_join_iff, fun s => ⟨parse_join_comm, ?_⟩⟩⟩
  · simp only [parse_eq_ok_iff_mem, contains_iff_mem, UidRange.mem_between]
  · simp only [parse_join_eq_ok_iff, contains_eq_or_iff]

theorem parse_ne_ok_empty : parse text ≠ .ok empty := by
  intro h
  obtain ⟨pairs, htext, hempty⟩ := parse_eq_ok_iff.mp h
  obtain ⟨p, hp⟩ := List.exists_mem_of_ne_nil pairs htext.ne_nil
  have hmem : p.1 ∈ ofPairs pairs :=
    mem_ofPairs.mpr ⟨p, hp, UidRange.mem_between.mpr ⟨Nat.min_le_left .., Nat.le_max_left ..⟩⟩
  rw [← hempty] at hmem
  exact not_mem_empty hmem

theorem text_eq_empty_iff : s.text = "" ↔ s = empty :=
  text_injective.eq_iff' text_empty

/-- Every set but the empty one is read as it is written. -/
theorem text_and_parse_inverse :
    (∀ s : UidSet, s ≠ empty → parse s.text = .ok s) ∧
    (∀ s : UidSet, s.text = "" ↔ s = empty) ∧
    parse "" = .error (.invalidUidRange "") ∧
    (∀ text, parse text ≠ .ok empty) ∧
    ∀ text s, parse text = .ok s →
      ∃ t, parse s.text = .ok t ∧ (∀ u, t.contains u = s.contains u) ∧ t.text = s.text := by
  refine ⟨fun s => parse_text, fun s => text_eq_empty_iff, rfl, fun text => parse_ne_ok_empty, ?_⟩
  intro text s h
  have hne : s ≠ empty := by
    rintro rfl
    exact parse_ne_ok_empty h
  exact ⟨s, parse_text hne, fun _ => rfl, rfl⟩

end MailSearch.UidSet
