import MailSearch.Proofs.Address.Comments
import MailSearch.Proofs.Header.Lines
import MailSearch.Proofs.Text.Utf8

/-! # The fields that lines make

A logical line makes a field if its first line starts with a name and a colon. Which name and which
text that is, and so which field, the line leaves no choice.
-/

namespace MailSearch.HeaderField

open MailSearch.Parser
open Address (ByteParser byte byte_cons run_eq_some)

/-- The line starts with a name, blanks and a colon, and goes on with a text. -/
def Opens (line name text : Bytes) : Prop :=
  ∃ margin, line = name ++ margin ++ ':'.toUInt8 :: text ∧ name ≠ [] ∧
    (∀ b ∈ name, 0x21 ≤ b ∧ b ≤ 0x7e ∧ b ≠ ':'.toUInt8) ∧
    ∀ b ∈ margin, b = ' '.toUInt8 ∨ b = '\t'.toUInt8

/-- The field that a logical line makes, its value without line ends and outer white space. -/
inductive Makes : List Bytes → HeaderField → Prop
  | intro {line name text : Bytes} {more : List Bytes} : Opens line name text →
      Makes (line :: more)
        ⟨String.ofList (name.map fun b => Char.ofNat b.toNat),
          trim (String.ofList ((Utf8.decodeLossy (text ++ continued more)).toList.filter
            fun c => c != '\r' && c != '\n'))⟩

/-- One field for each logical line that makes one, in order. -/
inductive Fields : List (List Bytes) → List HeaderField → Prop
  | nil : Fields [] []
  | field {line : List Bytes} {others : List (List Bytes)} {f : HeaderField}
      {fs : List HeaderField} : Makes line f → Fields others fs → Fields (line :: others) (f :: fs)
  | other {line : List Bytes} {others : List (List Bytes)} {fs : List HeaderField} :
      (∀ f, ¬ Makes line f) → Fields others fs → Fields (line :: others) fs

variable {s line name text : Bytes} {ls more : List Bytes} {b : UInt8} {f : HeaderField}
  {fs : List HeaderField}

theorem isNameByte_iff : isNameByte b = true ↔ 0x21 ≤ b ∧ b ≤ 0x7e ∧ b ≠ ':'.toUInt8 := by
  simp [isNameByte, and_assoc]

theorem isMargin_iff : isMargin b = true ↔ b = ' '.toUInt8 ∨ b = '\t'.toUInt8 := by
  simp [isMargin]

theorem isNameByte_of_isMargin (h : isMargin b = true) : isNameByte b = false := by
  rcases isMargin_iff.mp h with rfl | rfl <;> rfl

theorem Opens.bind_eq {α : Type} {f : Bytes → ByteParser α} (h : Opens line name text) :
    (run isNameByte >>= fun name => span isMargin >>= fun _ => byte ':' >>= fun _ => f name)
      (line ++ s) = f name (text ++ s) := by
  obtain ⟨margin, rfl, hne, hname, hmargin⟩ := h
  have hall : ∀ b ∈ margin, isMargin b = true := fun b hb => isMargin_iff.mpr (hmargin b hb)
  have hrun : (run isNameByte : ByteParser Bytes) (name ++ margin ++ ':'.toUInt8 :: text ++ s) =
      some (name, margin ++ ':'.toUInt8 :: (text ++ s)) := by
    rw [run_eq_some]
    refine ⟨by simp, hne, fun b hb => isNameByte_iff.mpr (hname b hb), ?_⟩
    cases margin with
    | nil =>
      rintro b ⟨⟩
      rfl
    | cons x margin =>
      rintro b ⟨⟩
      exact isNameByte_of_isMargin (hall x List.mem_cons_self)
  have hspan : (span isMargin : ByteParser Bytes) (margin ++ ':'.toUInt8 :: (text ++ s)) =
      some (margin, ':'.toUInt8 :: (text ++ s)) := by
    have hstops : ∀ b ∈ (':'.toUInt8 :: (text ++ s)).head?, isMargin b = false := by
      rintro b ⟨⟩
      rfl
    obtain ⟨htake, hdrop⟩ := span_append hall hstops
    change some (_, _) = _
    rw [htake, hdrop]
  rw [bind_of_eq_some hrun, bind_of_eq_some hspan, bind_of_eq_some (byte_cons ':')]

theorem Opens.unique {name' text' : Bytes} (h : Opens line name text)
    (h' : Opens line name' text') : name = name' ∧ text = text' := by
  have he := (h.bind_eq (f := pure) (s := [])).symm.trans h'.bind_eq
  change some (_, _) = some (_, _) at he
  simpa using he

theorem Opens.not_indented (h : Opens line name text) : isIndented line = false := by
  obtain ⟨margin, rfl, hne, hname, -⟩ := h
  obtain ⟨b, name, rfl⟩ := List.exists_cons_of_ne_nil hne
  rw [List.cons_append, List.cons_append, isIndented_cons, ← Bool.not_eq_true]
  intro hb
  have hb' := isNameByte_iff.mpr (hname b List.mem_cons_self)
  rw [isNameByte_of_isMargin hb] at hb'
  cases hb'

theorem Opens.not_blank {name text : Bytes} (h : Opens line name text) :
    isBlankLine line = false := by
  obtain ⟨margin, rfl, hne, -, -⟩ := h
  obtain ⟨b, name, rfl⟩ := List.exists_cons_of_ne_nil hne
  simp [isBlankLine]

theorem not_opens_nil : ¬ Opens [] name text := by
  rintro ⟨margin, he, -⟩
  simp at he

theorem Makes.unique {g : HeaderField} (hf : Makes ls f) (hg : Makes ls g) :
    f = g := by
  obtain ⟨ho⟩ := hf
  obtain ⟨ho'⟩ := hg
  obtain ⟨rfl, rfl⟩ := ho.unique ho'
  rfl

theorem Makes.exists_opens (h : Makes (line :: more) f) : ∃ name text, Opens line name text := by
  obtain ⟨ho⟩ := h
  exact ⟨_, _, ho⟩

theorem not_makes (h : ∀ name text, ¬ Opens line name text) (f : HeaderField) :
    ¬ Makes (line :: more) f := by
  intro hf
  obtain ⟨name, text, ho⟩ := hf.exists_opens
  exact h name text ho

theorem Fields.unique {others : List (List Bytes)} {gs : List HeaderField}
    (hf : Fields others fs) (hg : Fields others gs) : fs = gs := by
  induction hf generalizing gs with
  | nil =>
    cases hg
    rfl
  | field hm _ ih =>
    cases hg with
    | field hm' hg => rw [hm.unique hm', ih hg]
    | other hm' hg => exact absurd hm (hm' _)
  | other hm _ ih =>
    cases hg with
    | field hm' hg => exact absurd hm' (hm _)
    | other _ hg => exact ih hg

theorem Fields.append_other {others : List (List Bytes)} {last : List Bytes}
    (h : Fields others fs) (hlast : ∀ f, ¬ Makes last f) : Fields (others ++ [last]) fs := by
  induction h with
  | nil => exact .other hlast .nil
  | field hm _ ih => exact .field hm ih
  | other hm _ ih => exact .other hm ih

theorem fields_skip (ho : ∀ name text, ¬ Opens line name text)
    (h : Fields (logicalLines ls) fs) : Fields (logicalLines (line :: ls)) fs := by
  rw [logicalLines]
  split
  · exact h
  · exact .other (not_makes ho) h

end MailSearch.HeaderField
