import MailSearch.Proofs.Needle.Relaxing

/-! # Needles that count letter case and needles that do not

Two needles of the same text and the same pieces need not find the same: one may count letter case
and the other not. They differ where the text has a letter with another spelling, and nowhere else.
-/

namespace MailSearch

variable {p : Char → Bool} {c d : Char} {cs t : List Char} {s s' : Strictness}

/-- No character of the text has another spelling. -/
def Uncased (cs : List Char) : Prop := ∀ c ∈ cs, ∀ d, foldCase d = foldCase c → d = c

theorem eq_of_foldCase_of_isBlank (hc : isBlank c = true) (h : foldCase d = foldCase c) :
    d = c := by
  rw [foldCase_of_isBlank hc] at h
  have hd : isBlank d = true := isBlank_of_foldCase (h ▸ hc)
  rwa [foldCase_of_isBlank hd] at h

theorem mem_of_mem_squeeze (h : c ∈ squeeze p cs) (hc : c ≠ ' ') : c ∈ cs := by
  fun_induction squeeze p cs with
  | case1 => exact h
  | case2 d cs hd ih =>
    have hmem := ih ((List.mem_cons.mp h).resolve_left hc)
    exact List.mem_cons_of_mem _ ((List.dropWhile_suffix p).subset hmem)
  | case3 d cs hd ih =>
    rcases List.mem_cons.mp h with rfl | h
    · exact List.mem_cons_self
    · exact List.mem_cons_of_mem _ (ih h)

namespace Strictness

theorem uncased_respaceNeedle (h : Uncased cs) : Uncased (s.respaceNeedle cs) := by
  intro c hc d hd
  cases hs : s.exactWhitespace with
  | true =>
    rw [respaceNeedle_of_exact hs] at hc
    exact h c hc d hd
  | false =>
    rw [respaceNeedle_of_loose hs] at hc
    by_cases hspace : c = ' '
    · subst hspace
      exact eq_of_foldCase_of_isBlank rfl hd
    · exact h c (mem_of_mem_squeeze hc hspace) d hd

theorem eq_of_map_letter (h : Uncased cs) (ht : t.map s.letter = cs.map s.letter) :
    t = cs := by
  have hletter : ∀ c ∈ cs, ∀ d, s.letter d = s.letter c → d = c := by
    intro c hc d hd
    unfold letter at hd
    split at hd
    · exact hd
    · exact h c hc d hd
  clear h
  induction cs generalizing t with
  | nil => exact List.map_eq_nil_iff.mp ht
  | cons c cs ih =>
    obtain ⟨d, t, rfl, hd, ht⟩ := List.map_eq_cons_iff.mp ht
    obtain ⟨hc, hcs⟩ := List.forall_mem_cons.mp hletter
    rw [hc d hd, ih ht hcs]

theorem mem_respaceNeedle (hc : isBlank c = false) (h : c ∈ cs) : c ∈ s.respaceNeedle cs := by
  unfold respaceNeedle
  split
  · exact h
  · exact mem_squeeze_of_neg hc h

theorem mem_of_mem_respace (hc : c ≠ ' ') (h : c ∈ s.respace cs) : c ∈ cs := by
  unfold respace at h
  split at h
  · exact h
  · exact mem_of_mem_squeeze h hc

end Strictness

namespace Needle

open Strictness

variable {n n' : Needle} {text text' haystack : String}

theorem sameAs_iff : n.sameAs n' = true ↔ n.text = n'.text ∧ n.pieces = n'.pieces := by
  simp [sameAs]

section

variable [MatcherLimit]

theorem ofText_of_sameAs (h : ofText text s = .ok n) (h' : ofText text' s' = .ok n')
    (hsame : n.sameAs n' = true) : ofText text ⟨s'.caseSensitive, s.exactWhitespace⟩ = .ok n' := by
  obtain ⟨htext, hpieces⟩ := sameAs_iff.mp hsame
  have hn' := ofText_eq_ok h'
  rw [ofText_eq_ok h, hn'] at htext hpieces
  dsimp only at htext hpieces
  subst htext
  rw [← h']
  simp only [ofText, hpieces]

theorem isFoundIn_iff_of_uncased (hu : Uncased text.toList) (h : ofText text s = .ok n) :
    n.isFoundIn haystack = true ↔
      s.respaceNeedle text.toList <:+: s.respace haystack.toList := by
  rw [isFoundIn_iff_respaced h, List.infix_map_iff]
  constructor
  · rintro ⟨t, ht, hm⟩
    rwa [eq_of_map_letter (uncased_respaceNeedle hu) hm.symm] at ht
  · intro hinfix
    exact ⟨_, hinfix, rfl⟩

/-- Needles that are the same find the same, as long as letter case does not tell them apart. -/
theorem isFoundIn_of_sameAs (h : ofText text s = .ok n) (h' : ofText text' s' = .ok n')
    (hsame : n.sameAs n' = true)
    (hcase : (s'.caseSensitive = true → s.caseSensitive = true) ∨ Uncased text.toList)
    (hfound : n.isFoundIn haystack = true) : n'.isFoundIn haystack = true := by
  have hother := ofText_of_sameAs h h' hsame
  rcases hcase with hcase | hu
  · have hle : (⟨s'.caseSensitive, s.exactWhitespace⟩ : Strictness) ≤ s := ⟨hcase, id⟩
    exact isFoundIn_of_le hle h hother (.inl rfl) hfound
  · rw [isFoundIn_iff_of_uncased hu hother]
    exact (isFoundIn_iff_of_uncased hu h).mp hfound

theorem mem_of_isFoundIn (h : ofText text s = .ok n) (hs : s.caseSensitive = true)
    (hblank : isBlank c = false) (hc : c ∈ text.toList) (hfound : n.isFoundIn haystack = true) :
    c ∈ haystack.toList := by
  have hletter : s.letter = id := by rw [letter, if_pos hs]
  rw [isFoundIn_iff_respaced h, hletter, List.map_id, List.map_id] at hfound
  have hspace : c ≠ ' ' := by
    rintro rfl
    cases hblank
  exact mem_of_mem_respace hspace (hfound.subset (mem_respaceNeedle hblank hc))

end

theorem isFoundIn_respelled {f : Char → Char} (hn : n.caseSensitive = false)
    (hf : ∀ c, foldCase (f c) = foldCase c) (haystack : String) :
    n.isFoundIn (String.ofList (haystack.toList.map f)) = n.isFoundIn haystack := by
  have hkey : n.key = foldCase := by rw [key, hn]; rfl
  have hcomp : foldCase ∘ f = foldCase := funext hf
  rw [isFoundIn, isFoundIn, hkey, String.toList_ofList, List.map_map, hcomp]

end Needle

end MailSearch
