import MailSearch.Proofs.UidSet.MaximalRuns

/-! # Sets as they are shown

Membership is looked up at one range, while the spans of a set show all of them. A UID is in the set
exactly if a span includes it, and then no other span does. Spans ascend with a gap between any two,
so that only the last of them can be open.
-/

namespace MailSearch

theorem Uid.ofWord?_word (u : Uid) : ofWord? u.word = some u := dif_pos u.ne_zero

theorem Uid.le_greatest (u : Uid) : u ≤ greatest := by
  have := u.toNat_lt
  rw [le_iff, toNat_greatest]
  omega

namespace UidSpan

variable {r : UidRange} {u v : Uid}

def ofRange (r : UidRange) : UidSpan :=
  ⟨r.first, if r.last = Uid.greatest then none else some r.last⟩

theorem ofWords?_words (r : UidRange) : ofWords? r.first.word r.last.word = some (ofRange r) := by
  have hgreatest : r.last.word = Uid.greatest.word ↔ r.last = Uid.greatest := by
    cases r.last
    simp [Uid.greatest]
  simp only [ofWords?, Uid.ofWord?_word, Option.map_some, hgreatest, ofRange]

theorem high_ofRange_eq_none_iff : (ofRange r).high = none ↔ r.last = Uid.greatest := by
  simp [ofRange]

theorem high_ofRange_of_ne (h : r.last ≠ Uid.greatest) : (ofRange r).high = some r.last :=
  if_neg h

theorem includes_ofRange : (ofRange r).includes u = true ↔ u ∈ r := by
  have hu := u.le_greatest
  rw [includes, UidRange.mem_def, Bool.and_eq_true, decide_eq_true_eq]
  by_cases h : r.last = Uid.greatest
  · rw [high_ofRange_eq_none_iff.mpr h, h]
    simp [ofRange, hu]
  · rw [high_ofRange_of_ne h]
    simp [ofRange]

end UidSpan

theorem countP_le_one {α : Type} {p : α → Bool} {l : List α}
    (h : l.Pairwise fun a b => p a = true → p b = false) : l.countP p ≤ 1 := by
  induction l with
  | nil => simp
  | cons a l ih =>
    obtain ⟨ha, hl⟩ := List.pairwise_cons.mp h
    by_cases hp : p a = true
    · have hnone : l.countP p = 0 := List.countP_eq_zero.mpr fun b hb => by simp [ha b hb hp]
      rw [List.countP_cons_of_pos hp, hnone]
    · rw [List.countP_cons_of_neg hp]
      exact ih hl

namespace UidSet

open UidSpan

variable {s : UidSet} {pairs : List (Uid × Uid)} {u : Uid}

theorem spans_eq (s : UidSet) : s.spans = s.ranges.map ofRange := by
  simp only [spans, ofWords?_words]
  exact congrFun List.filterMap_eq_map' s.ranges

theorem mem_spans_iff {span : UidSpan} : span ∈ s.spans ↔ ∃ r ∈ s.ranges, ofRange r = span := by
  rw [spans_eq, List.mem_map]

theorem exists_span_iff_mem : (∃ span ∈ s.spans, span.includes u = true) ↔ u ∈ s := by
  constructor
  · rintro ⟨span, hspan, hu⟩
    obtain ⟨r, hr, rfl⟩ := mem_spans_iff.mp hspan
    exact ⟨r, hr, includes_ofRange.mp hu⟩
  · rintro ⟨r, hr, hu⟩
    exact ⟨ofRange r, mem_spans_iff.mpr ⟨r, hr, rfl⟩, includes_ofRange.mpr hu⟩

/-- One span ends, with a UID behind it that is not in the set, before another. -/
def Precedes (s : UidSet) (a b : UidSpan) : Prop :=
  ∃ last gap, a.high = some last ∧ a.low ≤ last ∧ last < gap ∧ gap < b.low ∧ gap ∉ s

theorem spans_ascend (s : UidSet) : s.spans.Pairwise s.Precedes := by
  rw [spans_eq, List.pairwise_map]
  refine s.apart.imp_of_mem fun {r t} hr _ hb => ?_
  have ht := t.first.toNat_lt
  rw [UidRange.Before] at hb
  have hne : r.last ≠ Uid.greatest := by
    intro he
    rw [he, Uid.toNat_greatest] at hb
    omega
  obtain ⟨gap, hgap⟩ :=
    Uid.exists_toNat_eq (n := r.last.toNat + 1) (u := t.first) (by omega) (by omega)
  refine ⟨r.last, gap, high_ofRange_of_ne hne, r.ordered, Uid.lt_iff.mpr (by omega),
    Uid.lt_iff.mpr (by rw [hgap]; exact hb), fun hmem => ?_⟩
  exact ((UidSet.isRun_of_mem_ranges hr).2 gap hmem).2 hgap

theorem countP_includes_le_one (s : UidSet) (u : Uid) : s.spans.countP (·.includes u) ≤ 1 := by
  apply countP_le_one
  refine s.spans_ascend.imp ?_
  rintro a b ⟨last, gap, hhigh, -, hlast, hgap, -⟩ ha
  rw [includes, hhigh, Bool.and_eq_true, decide_eq_true_eq, decide_eq_true_eq, Uid.le_iff,
    Uid.le_iff] at ha
  rw [Uid.lt_iff] at hlast hgap
  have hb : ¬ b.low ≤ u := by
    rw [Uid.le_iff]
    omega
  simp [includes, hb]

theorem high_ne_none_of_mem_dropLast {span : UidSpan} (h : span ∈ s.spans.dropLast) :
    span.high ≠ none := by
  have hne : s.spans ≠ [] := by
    intro hnil
    rw [hnil] at h
    cases h
  have hascend := s.spans_ascend
  rw [← List.dropLast_concat_getLast hne, List.pairwise_append] at hascend
  obtain ⟨last, gap, hhigh, -⟩ := hascend.2.2 span h _ (List.mem_singleton_self _)
  rw [hhigh]
  exact Option.some_ne_none last

theorem exists_open_span_iff : (∃ span ∈ s.spans, span.high = none) ↔ Uid.greatest ∈ s := by
  constructor
  · rintro ⟨span, hspan, hopen⟩
    obtain ⟨r, hr, rfl⟩ := mem_spans_iff.mp hspan
    have hlast := high_ofRange_eq_none_iff.mp hopen
    exact ⟨r, hr, hlast ▸ r.ordered, hlast ▸ r.last.le_greatest⟩
  · rintro ⟨r, hr, -, hle⟩
    have hlast : r.last = Uid.greatest := Uid.ext_toNat
      (Nat.le_antisymm (Uid.le_iff.mp r.last.le_greatest) (Uid.le_iff.mp hle))
    exact ⟨ofRange r, mem_spans_iff.mpr ⟨r, hr, rfl⟩, high_ofRange_eq_none_iff.mpr hlast⟩

theorem getLast?_open_iff :
    (∃ span, s.spans.getLast? = some span ∧ span.high = none) ↔ Uid.greatest ∈ s := by
  rw [← exists_open_span_iff]
  constructor
  · rintro ⟨span, hlast, hopen⟩
    exact ⟨span, List.mem_of_getLast? hlast, hopen⟩
  · rintro ⟨span, hspan, hopen⟩
    refine ⟨span, ?_, hopen⟩
    by_contra hlast
    have hearlier := List.mem_dropLast_of_mem_of_ne_getLast? hspan (Ne.symm hlast)
    exact high_ne_none_of_mem_dropLast hearlier hopen

/-- Looking up and going through the spans agree, and an open end says that the greatest UID is in.
-/
theorem Built.lookup_agrees_with_spans (h : Built s pairs) :
    (∀ u, s.contains u = true ↔ ∃ span ∈ s.spans, span.includes u = true) ∧
    (∀ u : Uid, (∃ span ∈ s.spans, span.includes u = true) ↔
      ∃ p ∈ pairs, min p.1.toNat p.2.toNat ≤ u.toNat ∧ u.toNat ≤ max p.1.toNat p.2.toNat) ∧
    (∀ u, s.spans.countP (·.includes u) ≤ 1) ∧
    s.spans = s.ranges.map ofRange ∧
    s.spans.length = s.ranges.length ∧
    s.spans.Pairwise (fun a b => ∃ last gap, a.high = some last ∧ a.low ≤ last ∧ last < gap ∧
      gap < b.low ∧ s.contains gap = false) ∧
    (∀ span ∈ s.spans.dropLast, span.high ≠ none) ∧
    ((∃ span, s.spans.getLast? = some span ∧ span.high = none) ↔
      s.contains .greatest = true) := by
  refine ⟨fun u => ?_, fun u => ?_, s.countP_includes_le_one, s.spans_eq,
    ?_, ?_, fun span => high_ne_none_of_mem_dropLast, ?_⟩
  · rw [contains_iff_mem, exists_span_iff_mem]
  · rw [exists_span_iff_mem, h.mem_iff]
    simp only [UidRange.mem_between]
  · rw [spans_eq, List.length_map]
  · refine s.spans_ascend.imp ?_
    rintro a b ⟨last, gap, hhigh, hlow, hlast, hgap, hmem⟩
    refine ⟨last, gap, hhigh, hlow, hlast, hgap, ?_⟩
    rwa [← Bool.not_eq_true, contains_iff_mem]
  · rw [contains_iff_mem, getLast?_open_iff]

/-- Two ranges, the upper one inserted from its open end. -/
theorem Built.lookup_agrees_with_spans_open :
    ∃ s, Built s [(.greatest, ⟨5, by decide⟩), (⟨1, by decide⟩, ⟨2, by decide⟩)] ∧
      s.contains ⟨3, by decide⟩ = false ∧ s.spans.length = 2 ∧
      ∃ span, s.spans.getLast? = some span ∧ span.high = none := by
  have h := Built.insert ⟨1, by decide⟩ ⟨2, by decide⟩ (Built.range .greatest ⟨5, by decide⟩)
  obtain ⟨-, -, -, -, hlength, -, -, hopen⟩ := h.lookup_agrees_with_spans
  exact ⟨_, h, by decide +kernel, hlength.trans (by decide +kernel), hopen.mpr (by decide +kernel)⟩

end UidSet

end MailSearch
