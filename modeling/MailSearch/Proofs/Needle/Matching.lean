import MailSearch.Needle
import MailSearch.Proofs.Needle.Folding
import MailSearch.Proofs.Needle.Squeezing

/-! # What pieces match

`Matches` says which texts pieces match as a whole. They are found where such a text occurs. Pieces
that ask for exact white space match their own text alone, the others every text that squeezes to
the same.
-/

namespace MailSearch

namespace Piece

/-- A gap stands for one folding blank or more, any other piece for its character. -/
inductive Matches : List Piece → List Char → Prop
  | nil : Matches [] []
  | char {c : Char} {ps : List Piece} {cs : List Char} : Matches ps cs →
      Matches (char c :: ps) (c :: cs)
  | gap {run cs : List Char} {ps : List Piece} : run ≠ [] → (∀ c ∈ run, isFolding c = true) →
      Matches ps cs → Matches (gap :: ps) (run ++ cs)

variable {ps : List Piece} {c : Char} {cs t : List Char}

@[simp] theorem matches_nil_iff : Matches [] t ↔ t = [] := by
  constructor
  · rintro ⟨⟩
    rfl
  · rintro rfl
    exact .nil

theorem matches_char_iff : Matches (char c :: ps) t ↔ ∃ cs, t = c :: cs ∧ Matches ps cs := by
  constructor
  · intro h
    cases h with
    | char h => exact ⟨_, rfl, h⟩
  · rintro ⟨cs, rfl, h⟩
    exact .char h

theorem matches_gap_iff : Matches (gap :: ps) t ↔ ∃ run cs, t = run ++ cs ∧ run ≠ [] ∧
    (∀ c ∈ run, isFolding c = true) ∧ Matches ps cs := by
  constructor
  · intro h
    cases h with
    | gap hne hrun h => exact ⟨_, _, rfl, hne, hrun, h⟩
  · rintro ⟨run, cs, rfl, hne, hrun, h⟩
    exact .gap hne hrun h

theorem matches_gap_cons_iff : Matches (gap :: ps) (c :: cs) ↔
    isFolding c = true ∧ (Matches ps cs ∨ Matches (gap :: ps) cs) := by
  constructor
  · intro h
    obtain ⟨run, rest, he, hne, hrun, hrest⟩ := matches_gap_iff.mp h
    cases run with
    | nil => exact absurd rfl hne
    | cons d run =>
      obtain ⟨rfl, rfl⟩ := List.cons.inj he
      obtain ⟨hd, htail⟩ := List.forall_mem_cons.mp hrun
      by_cases hr : run = []
      · subst hr
        exact ⟨hd, Or.inl hrest⟩
      · exact ⟨hd, Or.inr (.gap hr htail hrest)⟩
  · rintro ⟨hc, h | h⟩
    · exact .gap (List.cons_ne_nil c []) (by simpa using hc) h
    · obtain ⟨run, rest, rfl, -, hrun, h⟩ := matches_gap_iff.mp h
      exact .gap (List.cons_ne_nil c run) (List.forall_mem_cons.mpr ⟨hc, hrun⟩) h

theorem matchesFront_iff : matchesFront ps cs = true ↔ ∃ t, t <+: cs ∧ Matches ps t := by
  fun_induction matchesFront ps cs with
  | case1 cs => simp
  | case2 p ps =>
    cases p <;> simp [matches_char_iff, matches_gap_iff]
  | case3 c ps d cs ih =>
    rw [Bool.and_eq_true, beq_iff_eq, ih]
    constructor
    · rintro ⟨rfl, t, ht, hm⟩
      exact ⟨c :: t, List.cons_prefix_cons.mpr ⟨rfl, ht⟩, .char hm⟩
    · rintro ⟨t, ht, hm⟩
      obtain ⟨tail, rfl, htail⟩ := matches_char_iff.mp hm
      obtain ⟨rfl, hpre⟩ := List.cons_prefix_cons.mp ht
      exact ⟨rfl, tail, hpre, htail⟩
  | case4 ps d cs ih ih' =>
    rw [Bool.and_eq_true, Bool.or_eq_true, ih, ih']
    constructor
    · rintro ⟨hd, ⟨t, ht, hm⟩ | ⟨t, ht, hm⟩⟩
      · have hcons := matches_gap_cons_iff.mpr ⟨hd, Or.inl hm⟩
        exact ⟨d :: t, List.cons_prefix_cons.mpr ⟨rfl, ht⟩, hcons⟩
      · have hcons := matches_gap_cons_iff.mpr ⟨hd, Or.inr hm⟩
        exact ⟨d :: t, List.cons_prefix_cons.mpr ⟨rfl, ht⟩, hcons⟩
    · rintro ⟨t, ht, hm⟩
      cases t with
      | nil => simp [matches_gap_iff] at hm
      | cons e t =>
        obtain ⟨rfl, hpre⟩ := List.cons_prefix_cons.mp ht
        obtain ⟨hd, htail⟩ := matches_gap_cons_iff.mp hm
        exact ⟨hd, htail.imp (fun h => ⟨t, hpre, h⟩) fun h => ⟨t, hpre, h⟩⟩

theorem foundIn_iff : foundIn ps cs = true ↔ ∃ t, t <:+: cs ∧ Matches ps t := by
  induction cs with
  | nil => simp [foundIn, matchesFront_iff]
  | cons c cs ih =>
    simp only [foundIn, Bool.or_eq_true, matchesFront_iff, ih, List.infix_cons_iff, or_and_right,
      exists_or]

theorem matches_map_char_iff {text : List Char} : Matches (text.map char) t ↔ t = text := by
  induction text generalizing t with
  | nil => simp
  | cons c text ih =>
    simp [matches_char_iff, ih]

section Loose

theorem addLoose_of_not_blank (h : isBlank c = false) : addLoose c ps = char c :: ps := by
  unfold addLoose
  rw [if_neg (ne_true_of_eq_false h)]

theorem addLoose_of_blank_nil (h : isBlank c = true) : addLoose c [] = [gap] := by
  unfold addLoose
  rw [if_pos h]

theorem addLoose_of_blank_char {d : Char} (h : isBlank c = true) :
    addLoose c (char d :: ps) = gap :: char d :: ps := by
  unfold addLoose
  rw [if_pos h]

theorem addLoose_of_blank_gap (h : isBlank c = true) : addLoose c (gap :: ps) = gap :: ps := by
  unfold addLoose
  rw [if_pos h]

theorem ofText_loose_nil : ofText false [] = [] := by
  unfold ofText
  rfl

theorem ofText_loose_cons : ofText false (c :: cs) = addLoose c (ofText false cs) := by
  unfold ofText
  rw [if_neg Bool.false_ne_true, if_neg Bool.false_ne_true, List.foldr_cons]

theorem ofText_loose_of_not_blank (h : isBlank c = false) :
    ofText false (c :: cs) = char c :: ofText false cs := by
  rw [ofText_loose_cons, addLoose_of_not_blank h]

theorem ofText_loose_of_blank (h : isBlank c = true) :
    ofText false (c :: cs) = gap :: ofText false (cs.dropWhile isBlank) := by
  rw [ofText_loose_cons]
  induction cs generalizing c with
  | nil => rw [ofText_loose_nil, addLoose_of_blank_nil h, List.dropWhile_nil, ofText_loose_nil]
  | cons d cs ih =>
    by_cases hd : isBlank d = true
    · rw [List.dropWhile_cons_of_pos hd, ofText_loose_cons, ih hd, addLoose_of_blank_gap h]
    · rw [List.dropWhile_cons_of_neg hd, ofText_loose_of_not_blank (eq_false_of_ne_true hd),
        addLoose_of_blank_char h]

/-- White space of a needle may be of any kind, in the text only of the folding kind. -/
theorem matches_loose_iff {text : List Char} :
    Matches (ofText false text) t ↔ squeeze isFolding t = squeeze isBlank text := by
  fun_induction squeeze isBlank text generalizing t with
  | case1 => rw [ofText_loose_nil, matches_nil_iff, squeeze_eq_nil_iff]
  | case2 c text hc ih =>
    rw [ofText_loose_of_blank hc, matches_gap_iff,
      squeeze_eq_space_cons_iff rfl (head?_squeeze_dropWhile rfl)]
    simp only [ih]
  | case3 c text hc ih =>
    have hc : isBlank c = false := eq_false_of_ne_true hc
    have hf : isFolding c = false := by
      by_contra hf
      exact ne_true_of_eq_false hc (isBlank_of_isFolding (eq_true_of_ne_false hf))
    rw [ofText_loose_of_not_blank hc, matches_char_iff, squeeze_eq_cons_iff rfl hf]
    simp only [ih]

variable {f : Char → Char} (hf : ∀ c, isBlank (f c) = isBlank c)
include hf

theorem addLoose_map : (addLoose c ps).map (mapChar f) = addLoose (f c) (ps.map (mapChar f)) := by
  by_cases hc : isBlank c = true
  · have hfc : isBlank (f c) = true := (hf c).trans hc
    cases ps with
    | nil => simp [addLoose_of_blank_nil, hc, hfc, mapChar]
    | cons q ps =>
      cases q with
      | char d => simp [addLoose_of_blank_char, hc, hfc, mapChar]
      | gap => simp [addLoose_of_blank_gap, hc, hfc, mapChar]
  · have hc : isBlank c = false := eq_false_of_ne_true hc
    simp [addLoose_of_not_blank, hc, hf, mapChar]

theorem ofText_map (exactWhitespace : Bool) :
    (ofText exactWhitespace cs).map (mapChar f) = ofText exactWhitespace (cs.map f) := by
  cases exactWhitespace with
  | true => simp [ofText, mapChar, Function.comp_def]
  | false =>
    induction cs with
    | nil => rfl
    | cons c cs ih =>
      rw [List.map_cons, ofText_loose_cons, ofText_loose_cons, addLoose_map hf, ih]

end Loose

end Piece

end MailSearch
