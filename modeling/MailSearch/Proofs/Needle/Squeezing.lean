import Mathlib.Data.List.Infix
import Mathlib.Data.List.TakeWhile
import MailSearch.Text.Blank

/-! # Runs made one space

`squeeze p` puts a single space for every maximal run of characters of the class `p`. What occurs in
a squeezed text is what the parts of the text look like when they are squeezed.
-/

namespace MailSearch

/-- Puts one space for every maximal run of the class. -/
def squeeze (p : Char → Bool) : List Char → List Char
  | [] => []
  | c :: cs => if p c then ' ' :: squeeze p (cs.dropWhile p) else c :: squeeze p cs
termination_by cs => cs.length
decreasing_by
  · have := (List.dropWhile_suffix (l := cs) p).length_le
    simp only [List.length_cons]
    omega
  · simp

variable {p : Char → Bool} {c : Char} {cs t w : List Char}

@[simp] theorem squeeze_nil : squeeze p [] = [] := by rw [squeeze]

theorem squeeze_of_pos (h : p c = true) :
    squeeze p (c :: cs) = ' ' :: squeeze p (cs.dropWhile p) := by
  rw [squeeze, if_pos h]

theorem squeeze_of_neg (h : p c = false) : squeeze p (c :: cs) = c :: squeeze p cs := by
  rw [squeeze, if_neg (by simp [h])]

theorem forall_mem_run (hc : p c = true) : ∀ d ∈ c :: cs.takeWhile p, p d = true :=
  List.forall_mem_cons.mpr ⟨hc, fun _ hd => List.mem_takeWhile_imp hd⟩

theorem run_append (p : Char → Bool) (c : Char) (cs : List Char) :
    (c :: cs.takeWhile p) ++ cs.dropWhile p = c :: cs := by
  rw [List.cons_append, List.takeWhile_append_dropWhile]

theorem squeeze_run {run : List Char} (hne : run ≠ []) (h : ∀ c ∈ run, p c = true) :
    squeeze p (run ++ cs) = ' ' :: squeeze p (cs.dropWhile p) := by
  obtain ⟨c, run, rfl⟩ := List.exists_cons_of_ne_nil hne
  obtain ⟨hc, hrun⟩ := List.forall_mem_cons.mp h
  rw [List.cons_append, squeeze_of_pos hc, List.dropWhile_append_of_pos hrun]

theorem squeeze_suffix_cons : squeeze p cs <:+ squeeze p (c :: cs) := by
  by_cases hc : p c = true
  · rw [squeeze_of_pos hc]
    cases cs with
    | nil => simp
    | cons d ds =>
      by_cases hd : p d = true
      · rw [squeeze_of_pos hd, List.dropWhile_cons_of_pos hd]
      · rw [List.dropWhile_cons_of_neg hd]
        exact List.suffix_cons _ _
  · rw [squeeze_of_neg (eq_false_of_ne_true hc)]
    exact List.suffix_cons _ _

theorem squeeze_isSuffix (h : t <:+ cs) : squeeze p t <:+ squeeze p cs := by
  obtain ⟨front, rfl⟩ := h
  induction front with
  | nil => exact List.suffix_rfl
  | cons c front ih => exact ih.trans squeeze_suffix_cons

theorem dropWhile_prefix_dropWhile (h : t <+: cs) : t.dropWhile p <+: cs.dropWhile p := by
  obtain ⟨rest, rfl⟩ := h
  rw [List.dropWhile_append]
  split
  · rename_i he
    rw [List.isEmpty_iff.mp he]
    exact List.nil_prefix
  · exact List.prefix_append _ _

theorem squeeze_isPrefix (h : t <+: cs) : squeeze p t <+: squeeze p cs := by
  fun_induction squeeze p t generalizing cs with
  | case1 => exact List.nil_prefix
  | case2 c t hc ih =>
    obtain ⟨rest, rfl⟩ := h
    rw [List.cons_append, squeeze_of_pos hc, List.cons_prefix_cons]
    exact ⟨rfl, ih (dropWhile_prefix_dropWhile (List.prefix_append t rest))⟩
  | case3 c t hc ih =>
    obtain ⟨rest, rfl⟩ := h
    rw [List.cons_append, squeeze_of_neg (eq_false_of_ne_true hc), List.cons_prefix_cons]
    exact ⟨rfl, ih (List.prefix_append t rest)⟩

theorem squeeze_isInfix (h : t <:+: cs) : squeeze p t <:+: squeeze p cs := by
  obtain ⟨s, hs, ht⟩ := List.infix_iff_prefix_suffix.mp h
  exact List.infix_iff_prefix_suffix.mpr ⟨_, squeeze_isPrefix hs, squeeze_isSuffix ht⟩

theorem exists_of_suffix_squeeze (h : w <:+ squeeze p cs) : ∃ t, t <:+ cs ∧ squeeze p t = w := by
  fun_induction squeeze p cs with
  | case1 => exact ⟨[], List.suffix_rfl, by rw [squeeze_nil, List.suffix_nil.mp h]⟩
  | case2 c cs hc ih =>
    rcases List.suffix_cons_iff.mp h with rfl | h
    · exact ⟨c :: cs, List.suffix_rfl, squeeze_of_pos hc⟩
    · obtain ⟨t, ht, rfl⟩ := ih h
      exact ⟨t, (ht.trans (List.dropWhile_suffix p)).trans (List.suffix_cons c cs), rfl⟩
  | case3 c cs hc ih =>
    rcases List.suffix_cons_iff.mp h with rfl | h
    · exact ⟨c :: cs, List.suffix_rfl, squeeze_of_neg (eq_false_of_ne_true hc)⟩
    · obtain ⟨t, ht, rfl⟩ := ih h
      exact ⟨t, ht.trans (List.suffix_cons c cs), rfl⟩

theorem dropWhile_of_prefix (h : t <+: cs.dropWhile p) : t.dropWhile p = t := by
  cases t with
  | nil => rfl
  | cons d t =>
    obtain ⟨rest, hrest⟩ := h
    have hd := List.head_dropWhile_not p (l := cs) (by simp [← hrest])
    simp only [← hrest, List.cons_append, List.head_cons] at hd
    exact List.dropWhile_cons_of_neg (ne_true_of_eq_false hd)

theorem exists_of_prefix_squeeze (h : w <+: squeeze p cs) : ∃ t, t <+: cs ∧ squeeze p t = w := by
  fun_induction squeeze p cs generalizing w with
  | case1 => exact ⟨[], List.prefix_rfl, by rw [squeeze_nil, List.prefix_nil.mp h]⟩
  | case2 c cs hc ih =>
    rcases List.prefix_cons_iff.mp h with rfl | ⟨w, rfl, hw⟩
    · exact ⟨[], List.nil_prefix, squeeze_nil⟩
    · obtain ⟨t, ht, rfl⟩ := ih hw
      refine ⟨(c :: cs.takeWhile p) ++ t, ?_, ?_⟩
      · have happend := (List.prefix_append_right_inj (c :: cs.takeWhile p)).mpr ht
        rwa [run_append] at happend
      · rw [squeeze_run (List.cons_ne_nil _ _) (forall_mem_run hc), dropWhile_of_prefix ht]
  | case3 c cs hc ih =>
    have hc : p c = false := eq_false_of_ne_true hc
    rcases List.prefix_cons_iff.mp h with rfl | ⟨w, rfl, hw⟩
    · exact ⟨[], List.nil_prefix, squeeze_nil⟩
    · obtain ⟨t, ht, rfl⟩ := ih hw
      exact ⟨c :: t, List.cons_prefix_cons.mpr ⟨rfl, ht⟩, squeeze_of_neg hc⟩

/-- The parts of a squeezed text are the squeezed parts of the text. -/
theorem infix_squeeze_iff : w <:+: squeeze p cs ↔ ∃ t, t <:+: cs ∧ squeeze p t = w := by
  constructor
  · intro h
    obtain ⟨s, hw, hs⟩ := List.infix_iff_prefix_suffix.mp h
    obtain ⟨s, hcs, rfl⟩ := exists_of_suffix_squeeze hs
    obtain ⟨t, ht, rfl⟩ := exists_of_prefix_squeeze hw
    exact ⟨t, List.infix_iff_prefix_suffix.mpr ⟨s, ht, hcs⟩, rfl⟩
  · rintro ⟨t, ht, rfl⟩
    exact squeeze_isInfix ht

@[simp] theorem squeeze_eq_nil_iff : squeeze p cs = [] ↔ cs = [] := by
  constructor
  · intro h
    cases cs with
    | nil => rfl
    | cons c cs =>
      by_cases hc : p c = true
      · simp [squeeze_of_pos hc] at h
      · simp [squeeze_of_neg (eq_false_of_ne_true hc)] at h
  · rintro rfl
    exact squeeze_nil

theorem squeeze_eq_cons_iff (hs : p ' ' = true) (hc : p c = false) :
    squeeze p t = c :: w ↔ ∃ cs, t = c :: cs ∧ squeeze p cs = w := by
  constructor
  · intro h
    cases t with
    | nil => simp at h
    | cons d t =>
      by_cases hd : p d = true
      · rw [squeeze_of_pos hd] at h
        obtain ⟨rfl, -⟩ := List.cons.inj h
        simp [hs] at hc
      · rw [squeeze_of_neg (eq_false_of_ne_true hd)] at h
        obtain ⟨rfl, rfl⟩ := List.cons.inj h
        exact ⟨t, rfl, rfl⟩
  · rintro ⟨cs, rfl, rfl⟩
    exact squeeze_of_neg hc

theorem squeeze_eq_space_cons_iff (hs : p ' ' = true) (hw : w.head? ≠ some ' ') :
    squeeze p t = ' ' :: w ↔
      ∃ run cs, t = run ++ cs ∧ run ≠ [] ∧ (∀ c ∈ run, p c = true) ∧ squeeze p cs = w := by
  constructor
  · intro h
    cases t with
    | nil => simp at h
    | cons d t =>
      by_cases hd : p d = true
      · rw [squeeze_of_pos hd] at h
        exact ⟨d :: t.takeWhile p, t.dropWhile p, (run_append p d t).symm, List.cons_ne_nil _ _,
          forall_mem_run hd, (List.cons.inj h).2⟩
      · rw [squeeze_of_neg (eq_false_of_ne_true hd)] at h
        obtain ⟨rfl, -⟩ := List.cons.inj h
        exact absurd hs hd
  · rintro ⟨run, cs, rfl, hne, hrun, rfl⟩
    rw [squeeze_run hne hrun]
    cases cs with
    | nil => rfl
    | cons d cs =>
      have hd : p d = false := by
        by_contra hd
        rw [squeeze_of_pos (eq_true_of_ne_false hd)] at hw
        exact hw rfl
      rw [List.dropWhile_cons_of_neg (ne_true_of_eq_false hd)]

theorem head?_squeeze_dropWhile (hs : p ' ' = true) :
    (squeeze p (cs.dropWhile p)).head? ≠ some ' ' := by
  induction cs with
  | nil => simp
  | cons c cs ih =>
    by_cases hc : p c = true
    · rwa [List.dropWhile_cons_of_pos hc]
    · rw [List.dropWhile_cons_of_neg hc, squeeze_of_neg (eq_false_of_ne_true hc)]
      rintro ⟨rfl⟩
      exact hc hs

theorem mem_squeeze (h : c ∈ squeeze p cs) : c = ' ' ∨ p c = false := by
  fun_induction squeeze p cs with
  | case1 => simp at h
  | case2 d cs hd ih =>
    rcases List.mem_cons.mp h with rfl | h
    · exact Or.inl rfl
    · exact ih h
  | case3 d cs hd ih =>
    rcases List.mem_cons.mp h with rfl | h
    · exact Or.inr (eq_false_of_ne_true hd)
    · exact ih h

theorem mem_squeeze_of_neg (hc : p c = false) (h : c ∈ cs) : c ∈ squeeze p cs := by
  fun_induction squeeze p cs with
  | case1 => exact h
  | case2 d cs hd ih =>
    rw [← run_append p, List.mem_append] at h
    refine List.mem_cons_of_mem _ (ih (h.resolve_left fun hrun => ?_))
    exact ne_true_of_eq_false hc (forall_mem_run hd c hrun)
  | case3 d cs hd ih =>
    rcases List.mem_cons.mp h with rfl | h
    · exact List.mem_cons_self
    · exact List.mem_cons_of_mem _ (ih h)

theorem head?_squeeze_any (hs : p ' ' = true) :
    (squeeze p cs).head?.any p = cs.head?.any p := by
  cases cs with
  | nil => simp
  | cons c cs =>
    by_cases hc : p c = true
    · simp [squeeze_of_pos hc, hs, hc]
    · simp [squeeze_of_neg (eq_false_of_ne_true hc)]

theorem getLast?_cons_any {d : Char} {l l' : List Char} (hnil : l = [] ↔ l' = [])
    (hlast : l.getLast?.any p = l'.getLast?.any p) (hcd : p c = p d) :
    (c :: l).getLast?.any p = (d :: l').getLast?.any p := by
  cases l with
  | nil =>
    rw [hnil.mp rfl]
    simpa using hcd
  | cons a as =>
    cases l' with
    | nil => cases hnil.mpr rfl
    | cons b bs => simpa only [List.getLast?_cons_cons] using hlast

theorem getLast?_squeeze_any (hs : p ' ' = true) :
    (squeeze p cs).getLast?.any p = cs.getLast?.any p := by
  fun_induction squeeze p cs with
  | case1 => rfl
  | case2 c cs hc ih =>
    rw [getLast?_cons_any squeeze_eq_nil_iff ih (hs.trans hc.symm)]
    clear ih
    induction cs generalizing c with
    | nil => rfl
    | cons d cs ih =>
      by_cases hd : p d = true
      · rw [List.dropWhile_cons_of_pos hd, List.getLast?_cons_cons, ← ih d hd]
        exact getLast?_cons_any Iff.rfl rfl (hc.trans hd.symm)
      · rw [List.dropWhile_cons_of_neg hd]
  | case3 c cs hc ih => exact getLast?_cons_any squeeze_eq_nil_iff ih rfl

theorem dropWhile_congr {q : Char → Bool} (h : ∀ c ∈ cs, p c = q c) :
    cs.dropWhile p = cs.dropWhile q := by
  induction cs with
  | nil => rfl
  | cons c cs ih =>
    obtain ⟨hc, hcs⟩ := List.forall_mem_cons.mp h
    rw [List.dropWhile_cons, List.dropWhile_cons, hc, ih hcs]

theorem squeeze_congr {q : Char → Bool} (h : ∀ c ∈ cs, p c = q c) :
    squeeze p cs = squeeze q cs := by
  fun_induction squeeze p cs with
  | case1 => exact squeeze_nil.symm
  | case2 c cs hc ih =>
    obtain ⟨hcq, hcs⟩ := List.forall_mem_cons.mp h
    rw [squeeze_of_pos (hcq ▸ hc), ← dropWhile_congr hcs,
      ih fun d hd => hcs d ((List.dropWhile_suffix p).mem hd)]
  | case3 c cs hc ih =>
    obtain ⟨hcq, hcs⟩ := List.forall_mem_cons.mp h
    rw [squeeze_of_neg (hcq ▸ eq_false_of_ne_true hc), ih hcs]

theorem squeeze_map {f : Char → Char} (hf : ∀ c, p (f c) = p c) (hs : f ' ' = ' ') :
    squeeze p (cs.map f) = (squeeze p cs).map f := by
  have hcomp : p ∘ f = p := funext hf
  fun_induction squeeze p cs with
  | case1 => simp
  | case2 c cs hc ih =>
    rw [List.map_cons, squeeze_of_pos ((hf c).trans hc), List.dropWhile_map, hcomp, ih,
      List.map_cons, hs]
  | case3 c cs hc ih =>
    rw [List.map_cons, squeeze_of_neg ((hf c).trans (eq_false_of_ne_true hc)), ih, List.map_cons]

end MailSearch
