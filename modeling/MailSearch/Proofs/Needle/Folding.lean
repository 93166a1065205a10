import MailSearch.Text.Blank
import MailSearch.Text.CaseFold

/-! # Letter case and white space

No blank has another spelling, and no character that is not blank is folded to one. Where the blanks
of a text are can therefore be seen as well once its letters are folded.
-/

namespace MailSearch

def blankCodes : List Nat :=
  [0x09, 0x0a, 0x0b, 0x0c, 0x0d, 0x20, 0x85, 0xa0, 0x1680, 0x2000, 0x2001, 0x2002, 0x2003, 0x2004,
    0x2005, 0x2006, 0x2007, 0x2008, 0x2009, 0x200a, 0x2028, 0x2029, 0x202f, 0x205f, 0x3000]

variable {c : Char}

theorem isBlank_iff_mem : isBlank c = true ↔ c.toNat ∈ blankCodes := by
  simp [isBlank, blankCodes]
  omega

theorem mem_blankCodes_of_ofNat {n : Nat} (h : isBlank (Char.ofNat n) = true) : n ∈ blankCodes := by
  have hmem := isBlank_iff_mem.mp h
  by_cases hn : n.isValidChar
  · rwa [Char.ofNat, dif_pos hn] at hmem
  · rw [Char.ofNat, dif_neg hn] at hmem
    exact absurd hmem (by decide)

/-- The table folds no blank, and folds nothing to one. -/
theorem foldSpans_avoid_blanks : ∀ s ∈ foldSpans, ∀ n ∈ blankCodes,
    s.covers n = false ∧ s.covers (s.source n) = false := by
  decide +kernel

theorem foldCase_of_isBlank (h : isBlank c = true) : foldCase c = c := by
  have hnone : foldSpans.find? (·.covers c.toNat) = none := by
    rw [List.find?_eq_none]
    intro s hs
    simp [(foldSpans_avoid_blanks s hs _ (isBlank_iff_mem.mp h)).1]
  rw [foldCase, hnone]

theorem isBlank_of_foldCase (h : isBlank (foldCase c) = true) : isBlank c = true := by
  rw [foldCase] at h
  split at h
  · rename_i s hs
    have hmem := mem_blankCodes_of_ofNat h
    have hpos : s.target c.toNat ≠ 0 := fun h0 => absurd (h0 ▸ hmem) (by decide)
    have hsource : s.source (s.target c.toNat) = c.toNat := by
      simp only [FoldSpan.source, FoldSpan.target] at *
      omega
    have hfree := (foldSpans_avoid_blanks s (List.mem_of_find?_eq_some hs) _ hmem).2
    rw [hsource] at hfree
    exact absurd (List.find?_some hs) (by simp [hfree])
  · exact h

theorem isBlank_foldCase (c : Char) : isBlank (foldCase c) = isBlank c := by
  rw [Bool.eq_iff_iff]
  constructor
  · exact isBlank_of_foldCase
  · intro h
    rwa [foldCase_of_isBlank h]

theorem isFolding_foldCase (c : Char) : isFolding (foldCase c) = isFolding c := by
  rw [Bool.eq_iff_iff]
  constructor
  · intro h
    have hc := isBlank_of_foldCase (isBlank_of_isFolding h)
    rwa [foldCase_of_isBlank hc] at h
  · intro h
    rwa [foldCase_of_isBlank (isBlank_of_isFolding h)]

end MailSearch
