import MailSearch.Message
import MailSearch.Proofs.Header.Rendering

/-! # Messages written out

However its fields are written, and whatever body comes after them, the message that is read is the
one to which these fields are added one by one.
-/

namespace MailSearch.Message

open HeaderField

theorem foldl_addField (fs : List HeaderField) (m : Message) :
    (fs.foldl addField m).fields = m.fields ++ fs ∧ (fs.foldl addField m).flags = m.flags ∧
      (fs.foldl addField m).uid = m.uid := by
  induction fs generalizing m with
  | nil => exact ⟨(List.append_nil _).symm, rfl, rfl⟩
  | cons f fs ih =>
    obtain ⟨hfields, hflags, huid⟩ := ih (m.addField f)
    refine ⟨?_, hflags, huid⟩
    rw [List.foldl_cons, hfields, addField, List.append_assoc]
    rfl

/-- A message is read as it was written: its fields, their addresses, no flags and no UID. -/
theorem parse_rendered {fields : List HeaderField} {texts : List String} {lineEnd : String}
    (hfields : ∀ f ∈ fields, f.IsPlain) (h : List.Forall₂ Renders fields texts)
    (hend : IsLineEnd lineEnd) (body : Bytes) :
    parse (texts.flatMap Utf8.encode ++ (Utf8.encode lineEnd ++ body)) =
        fields.foldl addField empty ∧
      (fields.foldl addField empty).fields = fields ∧
      (fields.foldl addField empty).flags = {} ∧ (fields.foldl addField empty).uid = none := by
  have hheads := heads_rendered hfields h (heads_of_blank hend body)
  refine ⟨?_, foldl_addField fields empty⟩
  rw [parse, hheads.parseBlock_eq]

/-- A value folded at both of its blanks, and a body that looks like a field. -/
theorem parse_rendered_folded :
    (∀ f ∈ ([⟨"From", "a@b"⟩, ⟨"Subject", "ü  b"⟩] : List HeaderField), f.IsPlain) ∧
      List.Forall₂ Renders [⟨"From", "a@b"⟩, ⟨"Subject", "ü  b"⟩]
        ["From:a@b\n", "Subject\t: ü\r\n \n b  \r\n"] ∧
      IsLineEnd "\r\n" ∧
      parse (["From:a@b\n", "Subject\t: ü\r\n \n b  \r\n"].flatMap Utf8.encode ++
          (Utf8.encode "\r\n" ++ Utf8.encode "To: c@d\n")) =
        [⟨"From", "a@b"⟩, ⟨"Subject", "ü  b"⟩].foldl addField empty := by
  have hfields : ∀ f ∈ ([⟨"From", "a@b"⟩, ⟨"Subject", "ü  b"⟩] : List HeaderField),
      f.IsPlain := by
    rw [List.forall_mem_cons, List.forall_mem_singleton]
    exact ⟨⟨by decide, by simp, by simp, by decide⟩, ⟨by decide, by simp, by simp, by decide⟩⟩
  have hfrom : Renders ⟨"From", "a@b"⟩ "From:a@b\n" :=
    .intro "" "" "a@b" "" "\n" (by decide) (by decide) (.keep (.keep (.keep .nil))) (by decide)
      (by decide)
  have hsubject : Renders ⟨"Subject", "ü  b"⟩ "Subject\t: ü\r\n \n b  \r\n" :=
    .intro "\t" " " "ü\r\n \n b" "  " "\r\n" (by decide) (by decide)
      (.keep (.fold (.inl rfl) (.inr rfl) (.fold (.inl rfl) (.inl rfl) (.keep .nil)))) (by decide)
      (by decide)
  have hend : IsLineEnd "\r\n" := .inr rfl
  have htexts := List.Forall₂.cons hfrom (.cons hsubject .nil)
  exact ⟨hfields, htexts, hend, (parse_rendered hfields htexts hend _).1⟩

end MailSearch.Message
