import MailSearch.Needle.Weight
import MailSearch.Proofs.Needle.Matching

/-! # Needles as substrings

A needle is found in a text exactly if it is a substring of it, once both have been respaced and
their letters folded as far as the strictness leaves that open. Every blank of a needle may stand
for white space, but only folding blanks are white space in the text that is searched.
-/

namespace MailSearch

namespace Strictness

def letter (s : Strictness) : Char → Char := if s.caseSensitive then id else foldCase

/-- A needle with one space for every run of blanks, unless white space is exact. -/
def respaceNeedle (s : Strictness) (cs : List Char) : List Char :=
  if s.exactWhitespace then cs else squeeze isBlank cs

/-- The same for a searched text, whose runs are of folding blanks. -/
def respace (s : Strictness) (cs : List Char) : List Char :=
  if s.exactWhitespace then cs else squeeze isFolding cs

variable {s : Strictness} {c : Char} {cs t : List Char}

theorem respaceNeedle_of_exact (h : s.exactWhitespace = true) : s.respaceNeedle cs = cs := by
  rw [respaceNeedle, if_pos h]

theorem respaceNeedle_of_loose (h : s.exactWhitespace = false) :
    s.respaceNeedle cs = squeeze isBlank cs := by
  rw [respaceNeedle, if_neg (ne_true_of_eq_false h)]

theorem respace_of_exact (h : s.exactWhitespace = true) : s.respace cs = cs := by
  rw [respace, if_pos h]

theorem respace_of_loose (h : s.exactWhitespace = false) :
    s.respace cs = squeeze isFolding cs := by
  rw [respace, if_neg (ne_true_of_eq_false h)]

@[simp] theorem isBlank_letter (s : Strictness) (c : Char) : isBlank (s.letter c) = isBlank c := by
  unfold letter
  split
  · rfl
  · exact isBlank_foldCase c

@[simp] theorem isFolding_letter (s : Strictness) (c : Char) :
    isFolding (s.letter c) = isFolding c := by
  unfold letter
  split
  · rfl
  · exact isFolding_foldCase c

theorem letter_space (s : Strictness) : s.letter ' ' = ' ' := by
  unfold letter
  split
  · rfl
  · exact foldCase_of_isBlank rfl

theorem respaceNeedle_map :
    s.respaceNeedle (cs.map s.letter) = (s.respaceNeedle cs).map s.letter := by
  unfold respaceNeedle
  split
  · rfl
  · exact squeeze_map s.isBlank_letter s.letter_space

theorem respace_map : s.respace (cs.map s.letter) = (s.respace cs).map s.letter := by
  unfold respace
  split
  · rfl
  · exact squeeze_map s.isFolding_letter s.letter_space

@[simp] theorem respaceNeedle_nil : s.respaceNeedle [] = [] := by
  simp [respaceNeedle]

theorem infix_respace_iff {w : List Char} :
    w <:+: s.respace cs ↔ ∃ t, t <:+: cs ∧ s.respace t = w := by
  unfold respace
  split
  · simp
  · exact infix_squeeze_iff

end Strictness

open Strictness

variable {s : Strictness} {n : Needle} {text : String} {cs t : List Char}

theorem Piece.matches_ofText_iff : Piece.Matches (Piece.ofText s.exactWhitespace cs) t ↔
    s.respace t = s.respaceNeedle cs := by
  unfold respace respaceNeedle
  cases s.exactWhitespace with
  | true => exact matches_map_char_iff
  | false => exact matches_loose_iff

theorem Strictness.squeeze_isFolding_iff :
    (squeeze isFolding t).map s.letter = (squeeze isBlank cs).map s.letter ↔
      (∀ c ∈ t, isBlank c = true → isFolding c = true) ∧
        (squeeze isBlank t).map s.letter = (squeeze isBlank cs).map s.letter := by
  have hagree : (∀ c ∈ t, isBlank c = true → isFolding c = true) →
      squeeze isFolding t = squeeze isBlank t := fun h =>
    squeeze_congr fun c hc => Bool.eq_iff_iff.mpr ⟨fun hf => isBlank_of_isFolding hf, h c hc⟩
  constructor
  · intro h
    have hfolding : ∀ c ∈ t, isBlank c = true → isFolding c = true := by
      intro c hc hb
      by_contra hf
      have hmem := List.mem_map_of_mem (f := s.letter)
        (mem_squeeze_of_neg (eq_false_of_ne_true hf) hc)
      rw [h] at hmem
      obtain ⟨d, hd, hdc⟩ := List.mem_map.mp hmem
      rcases mem_squeeze hd with rfl | hd
      · rw [letter_space] at hdc
        rw [← s.isFolding_letter, ← hdc] at hf
        exact hf rfl
      · rw [← s.isBlank_letter, hdc, isBlank_letter, hb] at hd
        cases hd
    exact ⟨hfolding, hagree hfolding ▸ h⟩
  · rintro ⟨hfolding, h⟩
    rwa [hagree hfolding]

theorem Strictness.ends_of_respace_eq
    (h : (s.respace t).map s.letter = (s.respaceNeedle cs).map s.letter) :
    t.head?.any isBlank = cs.head?.any isBlank ∧
      t.getLast?.any isBlank = cs.getLast?.any isBlank := by
  have hhead (l : List Char) : (l.map s.letter).head?.any isBlank = l.head?.any isBlank := by
    simp [Option.any_map]
  have hlast (l : List Char) : (l.map s.letter).getLast?.any isBlank = l.getLast?.any isBlank := by
    simp [Option.any_map]
  cases hs : s.exactWhitespace with
  | true =>
    rw [respace_of_exact hs, respaceNeedle_of_exact hs] at h
    constructor
    · rw [← hhead t, h, hhead]
    · rw [← hlast t, h, hlast]
  | false =>
    rw [respace_of_loose hs, respaceNeedle_of_loose hs] at h
    have hsame := (squeeze_isFolding_iff.mp h).2
    constructor
    · rw [← head?_squeeze_any (p := isBlank) rfl, ← hhead, hsame, hhead, head?_squeeze_any rfl]
    · rw [← getLast?_squeeze_any (p := isBlank) rfl, ← hlast, hsame, hlast,
        getLast?_squeeze_any rfl]

namespace Needle

section

variable [MatcherLimit]

theorem ofText_eq_ok (h : ofText text s = .ok n) :
    n = ⟨text, Piece.ofText s.exactWhitespace text.toList, s.caseSensitive⟩ := by
  simp only [ofText] at h
  split at h
  · exact (Except.ok.inj h).symm
  · cases h

theorem ofText_of_isOk (h : (ofText text s).isOk = true) :
    ofText text s = .ok ⟨text, Piece.ofText s.exactWhitespace text.toList, s.caseSensitive⟩ := by
  cases hn : ofText text s with
  | error e => rw [hn] at h; cases h
  | ok n => rw [ofText_eq_ok hn]

theorem isFoundIn_iff_exists (h : ofText text s = .ok n) {haystack : String} :
    n.isFoundIn haystack = true ↔ ∃ t, t <:+: haystack.toList ∧
      (s.respace t).map s.letter = (s.respaceNeedle text.toList).map s.letter := by
  obtain rfl := ofText_eq_ok h
  have hkey : key ⟨text, Piece.ofText s.exactWhitespace text.toList, s.caseSensitive⟩ =
    s.letter := rfl
  rw [isFoundIn, hkey, Piece.ofText_map s.isBlank_letter, Piece.foundIn_iff]
  simp only [Piece.matches_ofText_iff, respaceNeedle_map, List.infix_map_iff]
  constructor
  · rintro ⟨_, ⟨t, ht, rfl⟩, hm⟩
    exact ⟨t, ht, respace_map ▸ hm⟩
  · rintro ⟨t, ht, hm⟩
    exact ⟨_, ⟨t, ht, rfl⟩, respace_map.trans hm⟩

theorem isFoundIn_iff_respaced (h : ofText text s = .ok n) {haystack : String} :
    n.isFoundIn haystack = true ↔
      (s.respaceNeedle text.toList).map s.letter <:+: (s.respace haystack.toList).map s.letter := by
  rw [isFoundIn_iff_exists h, List.infix_map_iff]
  simp only [infix_respace_iff]
  constructor
  · rintro ⟨t, ht, hm⟩
    exact ⟨_, ⟨t, ht, rfl⟩, hm.symm⟩
  · rintro ⟨_, ⟨t, ht, rfl⟩, hm⟩
    exact ⟨t, ht, hm.symm⟩

/-- Searching is plain substring search in respaced texts of folded letters. -/
theorem found_iff_substring (h : ofText text s = .ok n) :
    (∀ haystack, n.isFoundIn haystack = true ↔
      (s.respaceNeedle text.toList).map s.letter <:+:
        (s.respace haystack.toList).map s.letter) ∧
    (text = "" → ∀ haystack, n.isFoundIn haystack = true) ∧
    ∀ haystack, n.isFoundIn haystack = true → ∃ t, t <:+: haystack.toList ∧
      (s.respace t).map s.letter = (s.respaceNeedle text.toList).map s.letter ∧
      t.head?.any isBlank = text.toList.head?.any isBlank ∧
      t.getLast?.any isBlank = text.toList.getLast?.any isBlank ∧
      (s.exactWhitespace = false → ∀ c ∈ t, isBlank c = true → isFolding c = true) := by
  refine ⟨fun haystack => isFoundIn_iff_respaced h, ?_, fun haystack hfound => ?_⟩
  · rintro rfl haystack
    rw [isFoundIn_iff_respaced h, String.toList_empty, respaceNeedle_nil]
    exact List.nil_infix
  · obtain ⟨t, ht, hm⟩ := (isFoundIn_iff_exists h).mp hfound
    obtain ⟨hhead, hlast⟩ := ends_of_respace_eq hm
    refine ⟨t, ht, hm, hhead, hlast, fun hs => ?_⟩
    rw [respace_of_loose hs, respaceNeedle_of_loose hs] at hm
    exact (squeeze_isFolding_iff.mp hm).1

end

/-- The bracket is literal, the letter is found as the sign for kelvin, and blanks of any kind make
a run. -/
theorem found_iff_substring_bracket :
    ∃ n, ofText " [K\u00a0\t." ⟨false, false⟩ = .ok n ∧
      n.isFoundIn "x\r\n [\u212a\t .]" = true ∧ n.isFoundIn "x[k ." = false ∧
      n.isFoundIn "x [k\u00a0." = false := by
  have hok : (ofText " [K\u00a0\t." ⟨false, false⟩).isOk = true := by decide +kernel
  have hfound := (found_iff_substring (ofText_of_isOk hok)).1
  refine ⟨_, ofText_of_isOk hok, (hfound _).mpr (by decide +kernel), ?_, ?_⟩
  · exact eq_false_of_ne_true fun h => absurd ((hfound _).mp h) (by decide +kernel)
  · exact eq_false_of_ne_true fun h => absurd ((hfound _).mp h) (by decide +kernel)

end Needle

end MailSearch
