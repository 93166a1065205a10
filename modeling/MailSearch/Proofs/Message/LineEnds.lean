import Mathlib.Data.List.Forall2
import MailSearch.Message
import MailSearch.Proofs.Header.Entries

/-! # Line ends

A message may end any of its lines in a line feed alone or in a carriage return and a line feed. The
fields do not depend on it: a line has one carriage return more or not, at its end, and neither what
is asked of lines nor the value of a field can tell.
-/

namespace MailSearch.HeaderField

open MailSearch.Utf8 (decodeLossy toList_decodeLossy_append_ascii)

/-- The second text has a carriage return more before some of the line feeds. -/
inductive AddsReturns : Bytes → Bytes → Prop
  | nil : AddsReturns [] []
  | keep {s t : Bytes} (b : UInt8) : AddsReturns s t → AddsReturns (b :: s) (b :: t)
  | put {s t : Bytes} : AddsReturns s t →
      AddsReturns ('\n'.toUInt8 :: s) ('\r'.toUInt8 :: '\n'.toUInt8 :: t)

/-- The second line may have a carriage return more at its end. -/
def SameLine (line line' : Bytes) : Prop :=
  '\r'.toUInt8 ∉ line ∧ (line' = line ∨ line' = line ++ ['\r'.toUInt8])

def visible (s : Bytes) : List Char :=
  (decodeLossy s).toList.filter fun c => c != '\r' && c != '\n'

variable {s t line line' name text text' : Bytes} {ls ls' : List Bytes}
  {lls lls' : List (List Bytes)} {f : HeaderField} {fs : List HeaderField}

theorem SameLine.nil : SameLine [] [] := ⟨List.not_mem_nil, .inl rfl⟩

theorem SameLine.cons {b : UInt8} (hb : '\r'.toUInt8 ≠ b) (h : SameLine line line') :
    SameLine (b :: line) (b :: line') := by
  obtain ⟨hline, he⟩ := h
  refine ⟨List.not_mem_cons_of_ne_of_not_mem hb hline, ?_⟩
  rcases he with rfl | rfl
  · exact .inl rfl
  · exact .inr rfl

theorem forall₂_modifyHead {b : UInt8} (hb : '\r'.toUInt8 ≠ b) (h : List.Forall₂ SameLine ls ls') :
    List.Forall₂ SameLine (ls.modifyHead (b :: ·)) (ls'.modifyHead (b :: ·)) := by
  cases h with
  | nil => exact .nil
  | cons hline hrest => exact .cons (hline.cons hb) hrest

theorem AddsReturns.lines (h : AddsReturns s t) (hs : '\r'.toUInt8 ∉ s) :
    List.Forall₂ SameLine (lines s) (lines t) := by
  induction h with
  | nil => exact .cons .nil .nil
  | keep b _ ih =>
    obtain ⟨hb, hs⟩ := List.ne_and_not_mem_of_not_mem_cons hs
    have ih := ih hs
    rw [lines_cons, lines_cons]
    split
    · exact .cons .nil ih
    · exact forall₂_modifyHead hb ih
  | put _ ih =>
    have ih := ih (List.not_mem_of_not_mem_cons hs)
    exact .cons ⟨List.not_mem_nil, .inr rfl⟩ ih

theorem SameLine.isBlankLine_eq (h : SameLine line line') :
    isBlankLine line = isBlankLine line' := by
  obtain ⟨hline, rfl | rfl⟩ := h
  · rfl
  · match line with
    | [] => rfl
    | [b] =>
      have hb : b ≠ '\r'.toUInt8 := fun he => hline (List.mem_singleton.mpr he.symm)
      simp [isBlankLine, hb]
    | b :: c :: line => simp [isBlankLine]

theorem SameLine.isIndented_eq (h : SameLine line line') :
    isIndented line = isIndented line' := by
  obtain ⟨-, rfl | rfl⟩ := h
  · rfl
  · cases line with
    | nil => rfl
    | cons b line => rw [List.cons_append, isIndented_cons, isIndented_cons]

theorem forall₂_takeWhile {p : Bytes → Bool}
    (hp : ∀ {line line'}, SameLine line line' → p line = p line')
    (h : List.Forall₂ SameLine ls ls') :
    List.Forall₂ SameLine (ls.takeWhile p) (ls'.takeWhile p) := by
  induction h with
  | nil => exact .nil
  | cons hline _ ih =>
    rw [List.takeWhile_cons, List.takeWhile_cons, hp hline]
    split
    · exact .cons hline ih
    · exact .nil

theorem forall₂_logicalLines (h : List.Forall₂ SameLine ls ls') :
    List.Forall₂ (List.Forall₂ SameLine) (logicalLines ls) (logicalLines ls') := by
  induction h with
  | nil => exact .nil
  | cons hline hrest ih =>
    rw [logicalLines, logicalLines, hline.isIndented_eq]
    split
    · exact ih
    · exact .cons (.cons hline (forall₂_takeWhile SameLine.isIndented_eq hrest)) ih

theorem SameLine.opens (h : SameLine line line') (ho : Opens line name text) :
    ∃ text', SameLine text text' ∧ Opens line' name text' := by
  obtain ⟨margin, rfl, hname⟩ := ho
  obtain ⟨hline, he⟩ := h
  have htext : '\r'.toUInt8 ∉ text := fun hmem => hline (by simp [hmem])
  rcases he with rfl | rfl
  · exact ⟨text, ⟨htext, .inl rfl⟩, margin, rfl, hname⟩
  · exact ⟨text ++ ['\r'.toUInt8], ⟨htext, .inr rfl⟩, margin, by simp, hname⟩

/-- The colon is no carriage return, so an added one belongs to the text. -/
theorem SameLine.exists_opens (h : SameLine line line') (ho : Opens line' name text') :
    ∃ text, Opens line name text := by
  obtain ⟨-, rfl | rfl⟩ := h
  · exact ⟨text', ho⟩
  · obtain ⟨margin, he, hname⟩ := ho
    rcases List.eq_nil_or_concat text' with rfl | ⟨text, b, rfl⟩
    · have hlast : some '\r'.toUInt8 = some ':'.toUInt8 := by
        simpa using congrArg List.getLast? he
      exact absurd hlast (by decide)
    · refine ⟨text, margin, ?_, hname⟩
      rw [List.concat_eq_append, ← List.cons_append, ← List.append_assoc] at he
      exact (List.append_inj' he rfl).1

theorem visible_append {b : UInt8} (hb : b = '\r'.toUInt8 ∨ b = '\n'.toUInt8) (s t : Bytes) :
    visible (s ++ b :: t) = visible s ++ visible t := by
  have hascii : b.toNat < 0x80 := by
    rcases hb with rfl | rfl <;> decide
  rw [visible, toList_decodeLossy_append_ascii s hascii, List.filter_append,
    List.filter_cons_of_neg]
  · rfl
  · rcases hb with rfl | rfl <;> decide

theorem visible_nil : visible [] = [] := by
  simp [visible, decodeLossy, Utf8.scan]

theorem SameLine.visible_eq (h : SameLine line line') : visible line = visible line' := by
  obtain ⟨-, rfl | rfl⟩ := h
  · rfl
  · rw [visible_append (.inl rfl), visible_nil, List.append_nil]

theorem visible_continued (text : Bytes) (ls : List Bytes) :
    visible (text ++ continued ls) = visible text ++ ls.flatMap visible := by
  induction ls generalizing text with
  | nil => simp
  | cons line ls ih => rw [continued_cons, visible_append (.inr rfl), ih, List.flatMap_cons]

theorem flatMap_visible_eq (h : List.Forall₂ SameLine ls ls') :
    ls.flatMap visible = ls'.flatMap visible := by
  induction h with
  | nil => rfl
  | cons hline _ ih => rw [List.flatMap_cons, List.flatMap_cons, hline.visible_eq, ih]

theorem Makes.of_forall₂ (hm : Makes ls f) (h : List.Forall₂ SameLine ls ls') : Makes ls' f := by
  cases hm with
  | @intro line name text more ho =>
    cases h with
    | @cons _ line' _ more' hline hmore =>
      obtain ⟨text', htext, ho'⟩ := hline.opens ho
      have hvalue : visible (text' ++ continued more') = visible (text ++ continued more) := by
        rw [visible_continued, visible_continued, htext.visible_eq, flatMap_visible_eq hmore]
      change Makes _ ⟨_, trim (String.ofList (visible (text ++ continued more)))⟩
      rw [← hvalue]
      exact .intro ho'

theorem not_makes_of_forall₂ (hm : ∀ f, ¬ Makes ls f) (h : List.Forall₂ SameLine ls ls')
    (f : HeaderField) : ¬ Makes ls' f := by
  rintro ⟨ho'⟩
  cases h with
  | cons hline _ =>
    obtain ⟨text, ho⟩ := hline.exists_opens ho'
    exact hm _ (.intro ho)

theorem Fields.of_forall₂ (hf : Fields lls fs) (h : List.Forall₂ (List.Forall₂ SameLine) lls lls') :
    Fields lls' fs := by
  induction hf generalizing lls' with
  | nil =>
    cases h
    exact .nil
  | field hm _ ih =>
    cases h with
    | cons hls hrest => exact .field (hm.of_forall₂ hls) (ih hrest)
  | other hm _ ih =>
    cases h with
    | cons hls hrest => exact .other (not_makes_of_forall₂ hm hls) (ih hrest)

theorem AddsReturns.headerLines (h : AddsReturns s t) (hs : '\r'.toUInt8 ∉ s) :
    List.Forall₂ SameLine (headerLines s) (headerLines t) :=
  forall₂_takeWhile (fun hline => congrArg not hline.isBlankLine_eq) (h.lines hs)

theorem AddsReturns.fields (h : AddsReturns s t) (hs : '\r'.toUInt8 ∉ s) :
    Fields (logicalLines (HeaderField.headerLines t)) (parseBlock s) :=
  (fields_parseBlock s).of_forall₂ (forall₂_logicalLines (h.headerLines hs))

end MailSearch.HeaderField

namespace MailSearch.Message

open HeaderField

/-- Which line feeds of a message have a carriage return before them makes no difference. -/
theorem parse_eq_of_addsReturns {m m' : Bytes} (hm : '\r'.toUInt8 ∉ m) (h : AddsReturns m m') :
    parseBlock m' = parseBlock m ∧ parse m' = parse m := by
  have hblock : parseBlock m' = parseBlock m := (fields_parseBlock m').unique (h.fields hm)
  exact ⟨hblock, by rw [parse, parse, hblock]⟩

/-- A folded value that ends in an unfinished character, and a carriage return right after it. -/
theorem parse_eq_of_addsReturns_mixed :
    let m : Bytes := [84, 58, 32, 120, 0xe2, 0x82, 10, 9, 121, 10, 10, 66, 58, 10]
    let m' : Bytes := [84, 58, 32, 120, 0xe2, 0x82, 13, 10, 9, 121, 10, 13, 10, 66, 58, 10]
    '\r'.toUInt8 ∉ m ∧ AddsReturns m m' ∧ parseBlock m' = parseBlock m ∧ parse m' = parse m := by
  intro m m'
  have hm : '\r'.toUInt8 ∉ m := by decide
  have hbody : AddsReturns [66, 58, 10] [66, 58, 10] := .keep _ (.keep _ (.keep _ .nil))
  have hempty : AddsReturns [9, 121, 10, 10, 66, 58, 10] [9, 121, 10, 13, 10, 66, 58, 10] :=
    .keep _ (.keep _ (.keep _ (.put hbody)))
  have h : AddsReturns m m' :=
    .keep _ (.keep _ (.keep _ (.keep _ (.keep _ (.keep _ (.put hempty))))))
  exact ⟨hm, h, parse_eq_of_addsReturns hm h⟩

end MailSearch.Message
