import MailSearch.Proofs.Needle.Substring
import MailSearch.Proofs.Search.Outcome

/-! # Relaxing a search

A search that asks for less should not find less. Letting go of the letter case keeps every hit.
Letting go of exact white space keeps them if the needle still matches its own text, and that asks
for blanks of the folding kind.
-/

namespace MailSearch

namespace Strictness

variable {s s' : Strictness}

/-- The larger one asks for everything that the smaller one asks for. -/
instance : LE Strictness where
  le s' s := (s'.caseSensitive = true → s.caseSensitive = true) ∧
    (s'.exactWhitespace = true → s.exactWhitespace = true)

theorem loosened_of_ne (h : s' ≤ s) (hne : s'.exactWhitespace ≠ s.exactWhitespace) :
    s.exactWhitespace = true ∧ s'.exactWhitespace = false := by
  have hexact := h.2
  revert hne hexact
  cases s.exactWhitespace <;> cases s'.exactWhitespace <;> simp

theorem exists_letter_comp (h : s' ≤ s) : ∃ f, s'.letter = f ∘ s.letter := by
  unfold letter
  cases hs : s.caseSensitive with
  | true => exact ⟨_, rfl⟩
  | false =>
    have hs' : s'.caseSensitive = false := by
      by_contra hc
      exact ne_true_of_eq_false hs (h.1 (eq_true_of_ne_false hc))
    exact ⟨id, by rw [hs']; rfl⟩

theorem infix_map_letter (h : s' ≤ s) {v w : List Char} (hvw : v.map s.letter <:+: w.map s.letter) :
    v.map s'.letter <:+: w.map s'.letter := by
  obtain ⟨f, hf⟩ := exists_letter_comp h
  rw [hf, ← List.map_map, ← List.map_map]
  exact hvw.map f

end Strictness

/-- A part of the text has no blanks but folding ones, and squeezed it looks like the whole text. -/
def GapsFold (cs : List Char) : Prop :=
  ∃ t, t <:+: cs ∧ (∀ c ∈ t, isBlank c = true → isFolding c = true) ∧
    squeeze isBlank t = squeeze isBlank cs

variable {cs : List Char}

theorem GapsFold.of_folding (h : ∀ c ∈ cs, isBlank c = true → isFolding c = true) : GapsFold cs :=
  ⟨cs, List.infix_rfl, h, rfl⟩

open Strictness

theorem gapsFold_iff : GapsFold cs ↔ squeeze isBlank cs <:+: squeeze isFolding cs := by
  have hletter (l : List Char) : l.map (Strictness.mk true false).letter = l := List.map_id l
  have hiff (t : List Char) : squeeze isFolding t = squeeze isBlank cs ↔
      (∀ c ∈ t, isBlank c = true → isFolding c = true) ∧
        squeeze isBlank t = squeeze isBlank cs := by
    simpa only [hletter] using squeeze_isFolding_iff (s := ⟨true, false⟩)
  unfold GapsFold
  rw [infix_squeeze_iff]
  simp only [hiff]

namespace Needle

variable {s s' : Strictness} {n strict lax : Needle} {text name : String}

section

variable [MatcherLimit]

theorem isFoundIn_self_iff (h : ofText text s = .ok n) :
    n.isFoundIn text = true ↔ s.exactWhitespace = true ∨ GapsFold text.toList := by
  rw [isFoundIn_iff_exists h]
  cases hs : s.exactWhitespace with
  | true =>
    simp only [true_or, iff_true]
    exact ⟨text.toList, List.infix_rfl, by rw [respace_of_exact hs, respaceNeedle_of_exact hs]⟩
  | false =>
    simp only [respace_of_loose hs, respaceNeedle_of_loose hs, squeeze_isFolding_iff,
      Bool.false_eq_true, false_or]
    constructor
    · rintro ⟨t, ht, hfolding, hsame⟩
      have hlength := congrArg List.length hsame
      rw [List.length_map, List.length_map] at hlength
      exact ⟨t, ht, hfolding, (squeeze_isInfix ht).eq_of_length hlength⟩
    · rintro ⟨t, ht, hfolding, hsame⟩
      exact ⟨t, ht, hfolding, by rw [hsame]⟩

/-- Less exact white space costs no hit, if the needle still matches its own text. -/
theorem isFoundIn_of_le (hle : s' ≤ s) (h : ofText text s = .ok strict)
    (h' : ofText text s' = .ok lax)
    (hgaps : s'.exactWhitespace = s.exactWhitespace ∨ GapsFold text.toList) {haystack : String}
    (hfound : strict.isFoundIn haystack = true) : lax.isFoundIn haystack = true := by
  rw [isFoundIn_iff_respaced h] at hfound
  rw [isFoundIn_iff_respaced h']
  have hmapped := infix_map_letter hle hfound
  by_cases hs : s'.exactWhitespace = s.exactWhitespace
  · simpa only [respace, respaceNeedle, hs] using hmapped
  · obtain ⟨hexact, hloose⟩ := loosened_of_ne hle hs
    rw [respaceNeedle_of_exact hexact, respace_of_exact hexact] at hmapped
    rw [← respace_map, respaceNeedle_of_loose hloose, respace_of_loose hloose]
    have hown := (gapsFold_iff.mp (hgaps.resolve_left hs)).map s'.letter
    rw [← squeeze_map s'.isFolding_letter s'.letter_space] at hown
    exact hown.trans (squeeze_isInfix hmapped)

theorem compile_header (h : ofText text s = .ok n) :
    compile s ["HEADER", name, text] = .ok (.headerContains name n) := by
  have hkey : lowerAscii SearchKey.header.name = lowerAscii "HEADER" := rfl
  rw [compile_criterion hkey rfl]
  change Criterion.headerTest name text s = _
  rw [Criterion.headerTest, h]
  rfl

/-- A relaxed search keeps all hits exactly if the needle's white space can be met by folding blanks
in it. -/
theorem relaxed_keeps_hits_iff (hle : s' ≤ s) (h : ofText text s = .ok strict)
    (h' : ofText text s' = .ok lax) :
    ((∀ haystack, strict.isFoundIn haystack = true → lax.isFoundIn haystack = true) ↔
      s'.exactWhitespace = s.exactWhitespace ∨ GapsFold text.toList) ∧
    ((∀ c ∈ text.toList, isBlank c = true → isFolding c = true) →
      ∀ haystack, strict.isFoundIn haystack = true → lax.isFoundIn haystack = true) ∧
    (lax.isFoundIn text = true ↔ s'.exactWhitespace = true ∨ GapsFold text.toList) ∧
    ∀ name, ∃ t, compile s' ["HEADER", name, text] = .ok t ∧ ∀ m : Message,
      (text ∈ m.values name → s'.exactWhitespace = true ∨ GapsFold text.toList →
        t.holds m = true) ∧
      (m.values name = [text] → t.holds m = true →
        s'.exactWhitespace = true ∨ GapsFold text.toList) := by
  have hself := isFoundIn_self_iff h'
  refine ⟨?_, ?_, hself, fun name => ⟨_, compile_header h', fun m => ⟨?_, ?_⟩⟩⟩
  · constructor
    · intro hall
      by_cases hs : s'.exactWhitespace = s.exactWhitespace
      · exact Or.inl hs
      · obtain ⟨hexact, hloose⟩ := loosened_of_ne hle hs
        have hown := hself.mp (hall text ((isFoundIn_self_iff h).mpr (Or.inl hexact)))
        exact Or.inr (hown.resolve_left (ne_true_of_eq_false hloose))
    · exact fun hgaps _ => isFoundIn_of_le hle h h' hgaps
  · exact fun hfolding _ => isFoundIn_of_le hle h h' (Or.inr (.of_folding hfolding))
  · intro hmem hgaps
    exact List.any_eq_true.mpr ⟨text, hmem, hself.mpr hgaps⟩
  · intro hvalues hholds
    have hany : (m.values name).any lax.isFoundIn = true := hholds
    rw [hvalues] at hany
    exact hself.mp (by simpa using hany)

end

/-- An ideographic space is no loss in front of a plain one. -/
theorem relaxed_keeps_hits_ideographic :
    ∃ strict lax, ofText "\u3000 A\tb " ⟨true, true⟩ = .ok strict ∧
      ofText "\u3000 A\tb " ⟨false, false⟩ = .ok lax ∧
      ∀ haystack, strict.isFoundIn haystack = true → lax.isFoundIn haystack = true := by
  have hok : (ofText "\u3000 A\tb " ⟨true, true⟩).isOk = true := by decide +kernel
  have hok' : (ofText "\u3000 A\tb " ⟨false, false⟩).isOk = true := by decide +kernel
  have hle : (⟨false, false⟩ : Strictness) ≤ ⟨true, true⟩ := ⟨fun _ => rfl, fun _ => rfl⟩
  have hgaps : GapsFold "\u3000 A\tb ".toList := gapsFold_iff.mpr (by decide +kernel)
  exact ⟨_, _, ofText_of_isOk hok, ofText_of_isOk hok',
    (relaxed_keeps_hits_iff hle (ofText_of_isOk hok) (ofText_of_isOk hok')).1.mpr (Or.inr hgaps)⟩

/-- A no-break space is met by itself only where white space has to be met exactly. -/
theorem no_break_space_lost :
    ∃ strict lax, (⟨false, false⟩ : Strictness) ≤ ⟨true, true⟩ ∧
      ofText "10\u00a0km" ⟨true, true⟩ = .ok strict ∧
      ofText "10\u00a0km" ⟨false, false⟩ = .ok lax ∧
      strict.isFoundIn "10\u00a0km" = true ∧ lax.isFoundIn "10\u00a0km" = false := by
  have hok : (ofText "10\u00a0km" ⟨true, true⟩).isOk = true := by decide +kernel
  have hok' : (ofText "10\u00a0km" ⟨false, false⟩).isOk = true := by decide +kernel
  refine ⟨_, _, ⟨fun _ => rfl, fun _ => rfl⟩, ofText_of_isOk hok, ofText_of_isOk hok', ?_, ?_⟩
  · decide +kernel
  · decide +kernel

end Needle

end MailSearch
