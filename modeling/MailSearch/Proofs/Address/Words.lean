import MailSearch.Proofs.Address.Content

/-! # Words and phrases

A parser reads a production if it accepts only what the production derives, and all of it: with the
fillers around a derivation taken as far as they go, it finds the value and the rest of the
derivation, whatever alternative it tries first. What follows may be restricted, since some
productions go on where a further element follows.
-/

namespace MailSearch.Address

open MailSearch.Parser Grammar

variable {α : Type}

structure Reads (p : ByteParser α) (R : Bytes → α → Bytes → Prop) (Follow : Bytes → Prop) :
    Prop where
  sound {s : Bytes} {v : α} {rest : Bytes} : p s = some (v, rest) → R s v rest
  complete {s : Bytes} {v : α} {rest : Bytes} :
    R s v rest → Follow (skip rest) → p (skip s) = some (v, skip rest)

def Anything (_ : Bytes) : Prop := True

section Combination

variable {p q : ByteParser α} {R S : Bytes → α → Bytes → Prop} {F : Bytes → Prop}

theorem Reads.mono {G : Bytes → Prop} (h : Reads p R F) (hFG : ∀ s, G s → F s) : Reads p R G :=
  ⟨h.sound, fun hR hG => h.complete hR (hFG _ hG)⟩

theorem Reads.after_byte {ch : Char} (hp : Reads p R F) (hl : Leads p)
    (hch : opensFiller ch.toUInt8 = false) :
    Reads (do byte ch; p) (fun s v rest => ∃ a, Sign ch s a ∧ R a v rest) F where
  sound h := by
    obtain ⟨_, a, ha, hv⟩ := bind_eq_some.mp h
    exact ⟨a, byte_eq_some.mp ha, hp.sound hv⟩
  complete := by
    rintro s v rest ⟨a, rfl, hv⟩ hF
    rw [skip_cons hch, bind_of_eq_some (byte_cons ch), ← hl a]
    exact hp.complete hv hF

theorem Reads.chain (hp : Reads p R F) (hq : Reads q S F) (hprog : Progresses q)
    (hstart : ∀ {s v rest}, S s v rest → F (skip s)) :
    Reads (do let v ← p; let others ← many q; return v :: others)
      (fun s vs rest => ∃ v others a, vs = v :: others ∧ R s v a ∧ Many S a others rest)
      (fun s => F s ∧ q s = none) where
  sound h := by
    obtain ⟨v, a, hv, h⟩ := bind_eq_some.mp h
    obtain ⟨others, rest, hothers, h⟩ := bind_eq_some.mp h
    cases pure_eq_some.mp h
    exact ⟨v, others, a, rfl, hp.sound hv, (many_of_manyWithin hothers).imp hq.sound⟩
  complete := by
    rintro s vs rest ⟨v, others, a, rfl, hv, hothers⟩ ⟨hF, hstop⟩
    have hfirst : p (skip s) = some (v, skip a) := by
      apply hp.complete hv
      cases hothers with
      | nil => exact hF
      | cons hw _ => exact hstart hw
    have hfollowed := hothers.followed (F := fun s => F (skip s)) hstart hF
    have hmany : many q (skip a) = some (others, skip rest) :=
      hprog.many_eq_some_iff.mpr ⟨hfollowed.map skip fun h => hq.complete h.1 h.2, hstop⟩
    rw [bind_of_eq_some hfirst, bind_of_eq_some hmany]
    rfl

end Combination

variable {s rest v : Bytes} {b : UInt8}

def isMark (b : UInt8) : Bool := isOneOf ['<', '>', '@', ':', ';', ',', '.'] b

def Marked (s : Bytes) : Prop := ∀ b ∈ s.head?, isMark b = true

theorem opensFiller_of_isAtomText (h : isAtomText b = true) : opensFiller b = false := by
  rw [Bool.eq_false_iff]
  intro hfiller
  simp only [opensFiller, isSpace, isOneOf, List.any_cons, List.any_nil, Bool.or_false,
    Bool.or_eq_true, beq_iff_eq] at hfiller
  rcases hfiller with (rfl | rfl | rfl | rfl) | rfl <;> cases h

theorem isMark_opens (h : isMark b = true) : opensFiller b = false ∧ isAtomText b = false := by
  simp only [isMark, isOneOf, List.any_cons, List.any_nil, Bool.or_false, Bool.or_eq_true,
    beq_iff_eq] at h
  rcases h with rfl | rfl | rfl | rfl | rfl | rfl | rfl <;> exact ⟨rfl, rfl⟩

theorem Marked.settled (h : Marked s) : Settled s := by
  cases s with
  | nil => exact settled_nil
  | cons b s =>
    exact settled_cons (isMark_opens (h b rfl)).1

theorem Marked.avoids {ch : Char} (h : Marked s) (hch : isMark ch.toUInt8 = false) :
    Avoids ch s := by
  intro hs
  rw [h _ hs] at hch
  cases hch

theorem marked_nil : Marked [] := by
  rintro b ⟨⟩

theorem marked_cons (h : isMark b = true) : Marked (b :: s) := by
  rintro b' ⟨⟩
  exact h

theorem settled_of_run (h : Run isAtomText s v rest) : Settled s := by
  obtain ⟨b, t, rfl, hb⟩ := h.exists_cons
  exact settled_cons (opensFiller_of_isAtomText hb)

theorem progresses_atom : Progresses (atom : ByteParser Bytes) :=
  shortens_filler.bind_progresses fun _ => (progresses_run _).bind fun _ =>
    shortens_filler.bind fun _ => shortens_pure _

theorem leads_atom : Leads (atom : ByteParser Bytes) := leads_filler.bind

theorem reads_atom : Reads atom Atom Anything where
  sound h := by
    simp only [atom, bind_eq_some, run_eq_some, pure_eq_some] at h
    obtain ⟨_, a, ha, v, b, hv, _, rest, hrest, he⟩ := h
    cases he
    rw [filler_eq_some] at ha hrest
    subst ha hrest
    exact ⟨_, b, filler_skip _, hv, filler_skip b⟩
  complete := by
    rintro s v rest ⟨a, b, hs, hv, hb⟩ -
    rw [skip_eq_of_filler hs, skip_eq_self (settled_of_run hv), atom, filler_bind,
      skip_eq_self (settled_of_run hv), bind_of_eq_some (run_eq_some.mpr hv), filler_bind,
      skip_eq_of_filler hb]
    rfl

section Enclosed

variable {opener closer : Char} {isText : UInt8 → Bool} {g : Bytes → α}

def enclosed {m : Type → Type} [Attempt m] (opener closer : Char) (isText : UInt8 → Bool)
    (g : Bytes → α) : ByteParserT m α := do
  filler
  byte opener
  let text ← content isText
  byte closer
  filler
  return g text

theorem progresses_enclosed : Progresses (enclosed opener closer isText g : ByteParser α) :=
  shortens_filler.bind_progresses fun _ => (progresses_byte _).bind fun _ =>
    shortens_content.bind fun _ => (progresses_byte _).shortens.bind fun _ =>
      shortens_filler.bind fun _ => shortens_pure _

theorem leads_enclosed : Leads (enclosed opener closer isText g : ByteParser α) := leads_filler.bind

theorem reads_enclosed (hopener : opensFiller opener.toUInt8 = false) (ht : Plain isText)
    (hcloser : ∀ b, Ended isText (closer.toUInt8 :: b)) :
    Reads (enclosed opener closer isText g)
      (fun s w rest => ∃ a b v, Filler s (opener.toUInt8 :: a) ∧
        Content isText a v (closer.toUInt8 :: b) ∧ Filler b rest ∧ w = g v) Anything where
  sound h := by
    simp only [enclosed, bind_eq_some, byte_eq_some, pure_eq_some] at h
    obtain ⟨_, a, ha, _, a', hopen, v, b, hv, _, b', hclose, _, rest, hrest, he⟩ := h
    cases he
    rw [filler_eq_some] at ha hrest
    rw [Sign] at hopen hclose
    subst ha hclose hrest
    exact ⟨a', b', v, hopen ▸ filler_skip _, content_sound hv, filler_skip b', rfl⟩
  complete := by
    rintro s w rest ⟨a, b, v, hs, hv, hb, rfl⟩ -
    have hopen : skip (opener.toUInt8 :: a) = opener.toUInt8 :: a := skip_cons hopener
    rw [skip_eq_of_filler hs, hopen, enclosed, filler_bind, hopen, bind_of_eq_some (byte_cons _),
      bind_of_eq_some (content_complete ht hv (hcloser b)), bind_of_eq_some (byte_cons _),
      filler_bind, skip_eq_of_filler hb]
    rfl

end Enclosed

theorem quotedString_eq {m : Type → Type} [Attempt m] :
    (quotedString : ByteParserT m Bytes) = enclosed '"' '"' isQuotedText id := rfl

theorem progresses_quotedString : Progresses (quotedString : ByteParser Bytes) :=
  progresses_enclosed

theorem leads_quotedString : Leads (quotedString : ByteParser Bytes) := leads_enclosed

theorem reads_quotedString : Reads quotedString QuotedString Anything := by
  have hend : ∀ b, Ended isQuotedText ('"'.toUInt8 :: b) := fun _ => ended_cons rfl rfl rfl
  have hreads := @reads_enclosed _ '"' '"' isQuotedText id rfl plain_isQuotedText hend
  rw [quotedString_eq]
  constructor
  · intro s v rest h
    obtain ⟨a, b, v, hs, hv, hb, rfl⟩ := hreads.sound h
    exact ⟨a, b, hs, hv, hb⟩
  · rintro s v rest ⟨a, b, hs, hv, hb⟩ hF
    exact hreads.complete ⟨a, b, v, hs, hv, hb, rfl⟩ hF

theorem atom_of_settled (hs : Settled s) (h : ∀ b ∈ s.head?, isAtomText b = false) :
    (atom : ByteParser Bytes) s = none := by
  rw [atom, filler_bind, skip_eq_self hs, bind_of_eq_none (run_of_not h)]

theorem quotedString_of_settled (hs : Settled s) (h : Avoids '"' s) :
    (quotedString : ByteParser Bytes) s = none := by
  rw [quotedString, filler_bind, skip_eq_self hs, bind_of_eq_none (byte_of_avoids h)]

theorem progresses_word : Progresses (word : ByteParser Bytes) :=
  progresses_atom.orElse progresses_quotedString

theorem leads_word : Leads (word : ByteParser Bytes) := leads_atom.orElse leads_quotedString

theorem reads_word : Reads word Word Anything where
  sound h := by
    rcases orElse_eq_some.mp h with h | ⟨-, h⟩
    · exact .inl (reads_atom.sound h)
    · exact .inr (reads_quotedString.sound h)
  complete := by
    rintro s v rest (h | h) hF
    · exact orElse_of_eq_some (reads_atom.complete h hF)
    · obtain ⟨a, b, hs, -⟩ := id h
      have hopen : skip s = '"'.toUInt8 :: a :=
        (skip_eq_of_filler hs).trans (skip_cons rfl)
      have hatom : (atom : ByteParser Bytes) (skip s) = none := by
        apply atom_of_settled (settled_skip s)
        rw [hopen]
        rintro b ⟨⟩
        decide
      rw [word, orElse_of_eq_none hatom]
      exact reads_quotedString.complete h hF

theorem word_of_marked (h : Marked s) : (word : ByteParser Bytes) s = none := by
  rw [word, orElse_of_eq_none]
  · exact quotedString_of_settled h.settled (h.avoids rfl)
  · exact atom_of_settled h.settled fun b hb => (isMark_opens (h b hb)).2

theorem not_marked_of_word (h : Word s v rest) : ¬ Marked (skip s) := by
  intro hmark
  have hword := reads_word.complete h trivial
  rw [word_of_marked hmark] at hword
  cases hword

theorem reads_nameDot : Reads nameDot NameDot Anything where
  sound h := by
    simp only [nameDot, bind_eq_some, byte_eq_some, pure_eq_some] at h
    obtain ⟨_, a, ha, _, rest, hrest, he⟩ := h
    cases he
    rw [filler_eq_some] at hrest
    subst hrest
    exact ⟨a, ha, filler_skip a, rfl⟩
  complete := by
    rintro s v rest ⟨a, rfl, ha, rfl⟩ -
    rw [skip_cons rfl, nameDot, bind_of_eq_some (byte_cons _), filler_bind,
      skip_eq_of_filler ha]
    rfl

theorem progresses_nameDot : Progresses (nameDot : ByteParser Bytes) :=
  (progresses_byte _).bind fun _ => shortens_filler.bind fun _ => shortens_pure _

def phrasePart : ByteParser Bytes := word <|> nameDot

theorem progresses_phrasePart : Progresses phrasePart := progresses_word.orElse progresses_nameDot

theorem reads_phrasePart :
    Reads phrasePart (fun s v rest => Word s v rest ∨ NameDot s v rest) Anything where
  sound h := by
    rcases orElse_eq_some.mp h with h | ⟨-, h⟩
    · exact .inl (reads_word.sound h)
    · exact .inr (reads_nameDot.sound h)
  complete := by
    rintro s v rest (h | h) hF
    · exact orElse_of_eq_some (reads_word.complete h hF)
    · obtain ⟨a, rfl, -⟩ := id h
      have hword : (word : ByteParser Bytes) (skip ('.'.toUInt8 :: a)) = none := by
        rw [skip_cons rfl]
        exact word_of_marked (marked_cons rfl)
      rw [phrasePart, orElse_of_eq_none hword]
      exact reads_nameDot.complete h hF

theorem phrasePart_of_marked (h : Marked s) (hdot : Avoids '.' s) : phrasePart s = none := by
  rw [phrasePart, orElse_of_eq_none (word_of_marked h), nameDot,
    bind_of_eq_none (byte_of_avoids hdot)]

theorem reads_phrase : Reads phrase Phrase fun s => phrasePart s = none :=
  (reads_word.chain reads_phrasePart progresses_phrasePart fun _ => trivial).mono
    fun _ h => ⟨trivial, h⟩

theorem progresses_phrase : Progresses (phrase : ByteParser (List Bytes)) :=
  progresses_word.bind fun _ => progresses_phrasePart.shortens.many.bind
    fun _ => shortens_pure _

theorem leads_phrase : Leads (phrase : ByteParser (List Bytes)) := leads_word.bind

end MailSearch.Address
