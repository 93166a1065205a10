import MailSearch.Proofs.Address.Fillers

/-! # Quoted text

The text in quoted strings and domain literals. However it is cut into pieces, it has one value and
one end, so that the pieces a parser takes need not be the steps of a derivation.
-/

namespace MailSearch.Grammar

open MailSearch.Address

variable {s mid rest rest' v v' : Bytes} {b : UInt8} {isText : UInt8 → Bool}

theorem Run.exists_cons {c : UInt8 → Bool} (h : Run c s v rest) :
    ∃ b t, s = b :: t ∧ c b = true := by
  obtain ⟨b, t, rfl⟩ := List.exists_cons_of_ne_nil h.nonempty
  exact ⟨b, t ++ rest, h.append, h.all b List.mem_cons_self⟩

def Plain (isText : UInt8 → Bool) : Prop :=
  ∀ b, isText b = true → isSpace b = false ∧ b ≠ '\\'.toUInt8

theorem plain_isQuotedText : Plain isQuotedText := by
  intro b hb
  simp only [isQuotedText, Bool.and_eq_true, Bool.not_eq_true'] at hb
  refine ⟨hb.1, ?_⟩
  rintro rfl
  exact absurd hb.2 (by decide)

theorem plain_isDomainText : Plain isDomainText := by
  intro b hb
  simp only [isDomainText, Bool.and_eq_true, Bool.not_eq_true'] at hb
  refine ⟨hb.1, ?_⟩
  rintro rfl
  exact absurd hb.2 (by decide)

structure Ended (isText : UInt8 → Bool) (s : Bytes) : Prop where
  text : ∀ b ∈ s.head?, isText b = false
  space : ∀ b ∈ s.head?, isSpace b = false
  pair : ∀ b rest, s ≠ '\\'.toUInt8 :: b :: rest

theorem ended_cons (ht : isText b = false) (hs : isSpace b = false)
    (hb : (b == '\\'.toUInt8) = false) : Ended isText (b :: s) := by
  refine ⟨?_, ?_, fun c rest h => beq_eq_false_iff_ne.mp hb (List.cons.inj h).1⟩
  · rintro b' ⟨⟩
    exact ht
  · rintro b' ⟨⟩
    exact hs

namespace Content

theorem append_text (hv : ∀ b ∈ v, isText b = true) (h : Content isText s v' rest) :
    Content isText (v ++ s) (v ++ v') rest := by
  induction v with
  | nil => exact h
  | cons b v ih =>
    obtain ⟨hb, hv⟩ := List.forall_mem_cons.mp hv
    exact text hb (ih hv)

theorem of_ended (hs : Ended isText s) (h : Content isText s v rest) : v = [] ∧ rest = s := by
  cases h with
  | nil => exact ⟨rfl, rfl⟩
  | text hb _ => exact absurd hb (by simp [hs.text _ rfl])
  | pair _ => exact absurd rfl (hs.pair _ _)
  | space hr _ =>
    obtain ⟨b, t, rfl, hb⟩ := hr.exists_cons
    exact absurd hb (by simp [hs.space _ rfl])

section Inversion

variable (ht : Plain isText) (hend : Ended isText rest)
include ht hend

theorem of_text (hb : isText b = true) (h : Content isText (b :: s) v rest) :
    ∃ v', v = b :: v' ∧ Content isText s v' rest := by
  cases h with
  | nil => exact absurd hb (by simp [hend.text _ rfl])
  | text _ h => exact ⟨_, rfl, h⟩
  | pair _ => exact absurd rfl (ht _ hb).2
  | space hr _ =>
    obtain ⟨b', t, hcons, hb'⟩ := hr.exists_cons
    obtain ⟨rfl, -⟩ := List.cons.inj hcons
    exact absurd hb' (by simp [(ht _ hb).1])

theorem of_pair (h : Content isText ('\\'.toUInt8 :: b :: s) v rest) :
    ∃ v', v = b :: v' ∧ Content isText s v' rest := by
  generalize hs : '\\'.toUInt8 :: b :: s = t at h
  cases h with
  | nil => exact absurd hs.symm (hend.pair _ _)
  | text hb _ => exact absurd (List.cons.inj hs).1.symm (ht _ hb).2
  | pair h =>
    obtain ⟨rfl, rfl⟩ := List.cons.inj (List.cons.inj hs).2
    exact ⟨_, rfl, h⟩
  | space hr _ =>
    obtain ⟨b', t, hcons, hb'⟩ := hr.exists_cons
    obtain ⟨rfl, -⟩ := List.cons.inj (hs.trans hcons)
    exact absurd hb' (by decide)

theorem of_space {blanks : Bytes} (hr : Run isSpace s blanks mid) (h : Content isText s v rest) :
    ∃ v', v = ' '.toUInt8 :: v' ∧ Content isText mid v' rest := by
  obtain ⟨b, t, rfl, hb⟩ := hr.exists_cons
  generalize hs : b :: t = t' at h
  cases h with
  | nil =>
    subst hs
    exact absurd hb (by simp [hend.space _ rfl])
  | text hb' _ =>
    obtain ⟨rfl, -⟩ := List.cons.inj hs
    exact absurd hb (by simp [(ht _ hb').1])
  | pair _ =>
    obtain ⟨rfl, -⟩ := List.cons.inj hs
    exact absurd hb (by decide)
  | space hr' h =>
    rw [hs] at hr
    obtain ⟨-, rfl⟩ := hr.unique hr'
    exact ⟨_, rfl, h⟩

end Inversion

theorem unique (ht : Plain isText) (h : Content isText s v rest) (hend : Ended isText rest)
    (h' : Content isText s v' rest') (hend' : Ended isText rest') : v = v' ∧ rest = rest' := by
  induction h generalizing v' with
  | nil =>
    obtain ⟨rfl, rfl⟩ := of_ended hend h'
    exact ⟨rfl, rfl⟩
  | text hb _ ih =>
    obtain ⟨w, rfl, hw⟩ := of_text ht hend' hb h'
    obtain ⟨rfl, rfl⟩ := ih hend hw
    exact ⟨rfl, rfl⟩
  | pair _ ih =>
    obtain ⟨w, rfl, hw⟩ := of_pair ht hend' h'
    obtain ⟨rfl, rfl⟩ := ih hend hw
    exact ⟨rfl, rfl⟩
  | space hr _ ih =>
    obtain ⟨w, rfl, hw⟩ := of_space ht hend' hr h'
    obtain ⟨rfl, rfl⟩ := ih hend hw
    exact ⟨rfl, rfl⟩

end Content

end MailSearch.Grammar

namespace MailSearch.Address

open MailSearch.Parser Grammar

variable {s rest v : Bytes} {isText : UInt8 → Bool}

theorem run_of_not {c : UInt8 → Bool} (h : ∀ b ∈ s.head?, c b = false) :
    (run c : ByteParser Bytes) s = none := by
  cases hr : (run c : ByteParser Bytes) s with
  | none => rfl
  | some r =>
    obtain ⟨b, t, rfl, hb⟩ := (run_eq_some.mp hr).exists_cons
    exact absurd hb (by simp [h b rfl])

def contentPiece (isText : UInt8 → Bool) : ByteParser Bytes := run isText <|> quotedPair <|> blank

theorem content_eq (isText : UInt8 → Bool) :
    (content isText : ByteParser Bytes) = (do
      let parts ← many (contentPiece isText)
      return parts.flatten) := rfl

theorem progresses_contentPiece : Progresses (contentPiece isText) :=
  (progresses_run _).orElse (progresses_quotedPair.orElse progresses_blank)

theorem shortens_content : Shortens (content isText : ByteParser Bytes) :=
  progresses_contentPiece.shortens.many.bind fun _ => shortens_pure _

theorem ended_of_contentPiece (h : contentPiece isText s = none) : Ended isText s := by
  obtain ⟨hrun, hpart⟩ := orElse_eq_none.mp h
  obtain ⟨hpair, hblank⟩ := orElse_eq_none.mp hpart
  constructor
  · intro b hb
    obtain ⟨t, rfl⟩ := List.head?_eq_some_iff.mp hb
    exact Bool.eq_false_iff.mpr fun hb => run_ne_none hb hrun
  · intro b hb
    obtain ⟨t, rfl⟩ := List.head?_eq_some_iff.mp hb
    exact Bool.eq_false_iff.mpr fun hb => run_ne_none hb (bind_pure_eq_none.mp hblank)
  · rintro b rest rfl
    rw [quotedPair_eq_some.mpr ⟨b, rfl, rfl⟩] at hpair
    cases hpair

theorem content_of_pieces {parts : List Bytes}
    (h : Many (fun s v mid => contentPiece isText s = some (v, mid)) s parts rest) :
    Content isText s parts.flatten rest := by
  induction h with
  | nil => exact .nil
  | cons hp _ ih =>
    rw [List.flatten_cons]
    rcases orElse_eq_some.mp hp with hp | ⟨-, hp⟩
    · obtain ⟨rfl, -, hall, -⟩ := run_eq_some.mp hp
      exact ih.append_text hall
    · rcases orElse_eq_some.mp hp with hp | ⟨-, hp⟩
      · obtain ⟨b, rfl, rfl⟩ := quotedPair_eq_some.mp hp
        exact .pair ih
      · obtain ⟨⟨blanks, hblanks⟩, rfl⟩ := blank_eq_some.mp hp
        exact .space hblanks ih

theorem content_sound (h : (content isText : ByteParser Bytes) s = some (v, rest)) :
    Content isText s v rest := by
  obtain ⟨parts, mid, hmany, he⟩ := bind_eq_some.mp h
  cases pure_eq_some.mp he
  exact content_of_pieces (many_of_manyWithin hmany)

/-- The pieces may differ from the steps of a derivation, but not their value. -/
theorem content_complete (ht : Plain isText) (h : Content isText s v rest)
    (hend : Ended isText rest) : (content isText : ByteParser Bytes) s = some (v, rest) := by
  obtain ⟨parts, mid, hmany, hstop⟩ := progresses_contentPiece.exists_many_eq s
  have hmid := content_of_pieces (many_of_manyWithin hmany)
  obtain ⟨rfl, rfl⟩ := hmid.unique ht (ended_of_contentPiece hstop) h hend
  rw [content_eq, bind_of_eq_some hmany]
  rfl

end MailSearch.Address
