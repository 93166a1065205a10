import MailSearch.Proofs.Address.Words

/-! # Delimiters

Commas between elements, with fillers around them and as many in a row as there are. An element
list is read as the grammar derives it if its elements are.
-/

namespace MailSearch.Address

open MailSearch.Parser Grammar
open Relation (ReflTransGen TransGen)

variable {s rest : Bytes}

def comma : ByteParser Unit := do
  filler
  byte ','
  filler

theorem delimiter_eq : (delimiter : ByteParser Unit) = (do let _ ← many1 comma) := rfl

theorem leads_comma : Leads comma := leads_filler.bind

theorem progresses_comma : Progresses comma :=
  shortens_filler.bind_progresses fun _ => (progresses_byte _).bind fun _ => shortens_filler

theorem reads_comma : Reads comma (fun s _ rest => Delimiter s rest) Anything where
  sound h := by
    simp only [comma, bind_eq_some, byte_eq_some] at h
    obtain ⟨_, a, ha, _, b, hsign, hrest⟩ := h
    rw [filler_eq_some] at ha hrest
    rw [Sign] at hsign
    dsimp only at ha hrest hsign
    subst ha hrest
    exact ⟨b, hsign ▸ filler_skip _, filler_skip b⟩
  complete := by
    rintro s ⟨⟩ rest ⟨a, hs, ha⟩ -
    have hsign : skip (','.toUInt8 :: a) = ','.toUInt8 :: a := skip_cons rfl
    rw [skip_eq_of_filler hs, hsign, comma, filler_bind, hsign, bind_of_eq_some (byte_cons _),
      filler_eq_skip, skip_eq_of_filler ha]

theorem comma_of_avoids (h : Avoids ',' (skip s)) : comma s = none := by
  rw [comma, filler_bind, bind_of_eq_none (byte_of_avoids h)]

theorem reflTransGen_of_many {us : List Unit}
    (h : Many (fun s _ rest => Delimiter s rest) s us rest) : ReflTransGen Delimiter s rest := by
  induction h with
  | nil => exact .refl
  | cons hd _ ih => exact .head hd ih

theorem exists_many_of_reflTransGen (h : ReflTransGen Delimiter s rest) :
    ∃ us : List Unit, Many (fun s _ rest => Delimiter s rest) s us rest := by
  induction h using ReflTransGen.head_induction_on with
  | refl => exact ⟨[], .nil⟩
  | head hd _ ih =>
    obtain ⟨us, hus⟩ := ih
    exact ⟨() :: us, .cons hd hus⟩

theorem leads_delimiter : Leads (delimiter : ByteParser Unit) := leads_comma.bind.bind

theorem progresses_delimiter : Progresses (delimiter : ByteParser Unit) :=
  progresses_comma.many1.bind fun _ => shortens_pure ()

theorem reads_delimiter :
    Reads delimiter (fun s _ rest => TransGen Delimiter s rest) (Avoids ',') where
  sound h := by
    obtain ⟨us, rest, hus, he⟩ := bind_eq_some.mp h
    cases pure_eq_some.mp he
    have hchain := reads_comma.chain reads_comma progresses_comma fun _ => trivial
    obtain ⟨-, others, a, -, hd, hothers⟩ := hchain.sound hus
    exact .head' hd (reflTransGen_of_many hothers)
  complete := by
    rintro s ⟨⟩ rest h hF
    obtain ⟨a, hd, hrest⟩ := TransGen.head'_iff.mp h
    obtain ⟨us, hus⟩ := exists_many_of_reflTransGen hrest
    have hchain := reads_comma.chain reads_comma progresses_comma fun _ => trivial
    have hstop : comma (skip rest) = none := comma_of_avoids (by rwa [skip_skip])
    have hmany : many1 comma (skip s) = some (() :: us, skip rest) :=
      hchain.complete ⟨(), us, a, rfl, hd, hus⟩ ⟨trivial, hstop⟩
    rw [delimiter_eq, bind_of_eq_some hmany]
    rfl

theorem delimiter_of_avoids (h : Avoids ',' (skip s)) : (delimiter : ByteParser Unit) s = none := by
  rw [delimiter_eq]
  exact bind_of_eq_none (bind_of_eq_none (comma_of_avoids h))

theorem optional_delimiter (h : ReflTransGen Delimiter s rest) (hF : Avoids ',' (skip rest)) :
    ∃ o, optional (delimiter : ByteParser Unit) (skip s) = some (o, skip rest) := by
  rcases Relation.reflTransGen_iff_eq_or_transGen.mp h with rfl | h
  · exact ⟨none, optional_of_eq_none (delimiter_of_avoids (by rwa [skip_skip]))⟩
  · exact ⟨some (), optional_of_eq_some (reads_delimiter.complete h hF)⟩

theorem reflTransGen_of_optional {o : Option Unit}
    (h : optional (delimiter : ByteParser Unit) s = some (o, rest)) :
    ReflTransGen Delimiter s rest := by
  rcases optional_eq_some.mp h with ⟨u, h, -⟩ | ⟨-, -, rfl⟩
  · exact (reads_delimiter.sound h).to_reflTransGen
  · exact .refl

theorem exists_skip_of_delimiter (h : TransGen Delimiter s rest) :
    ∃ t, skip s = ','.toUInt8 :: t := by
  obtain ⟨a, ⟨t, hs, -⟩, -⟩ := TransGen.head'_iff.mp h
  exact ⟨t, (skip_eq_of_filler hs).trans (skip_cons rfl)⟩

section Delimited

variable {α : Type} {p : ByteParser α} {R : Bytes → α → Bytes → Prop}

theorem Reads.after_delimiter (hp : Reads p R (Avoids '.'))
    (hstart : ∀ {s v rest}, R s v rest → Avoids ',' (skip s)) :
    Reads (do let _ ← delimiter; p) (fun s v rest => ∃ a, TransGen Delimiter s a ∧ R a v rest)
      (Avoids '.') where
  sound h := by
    obtain ⟨_, a, hd, hv⟩ := bind_eq_some.mp h
    exact ⟨a, reads_delimiter.sound hd, hp.sound hv⟩
  complete := by
    rintro s v rest ⟨a, hd, hv⟩ hF
    have hread : delimiter (skip s) = some ((), skip a) := reads_delimiter.complete hd (hstart hv)
    rw [bind_of_eq_some hread]
    exact hp.complete hv hF

theorem Reads.delimited (hp : Reads p R (Avoids '.')) (hprog : Progresses p)
    (hstart : ∀ {s v rest}, R s v rest → Avoids ',' (skip s)) :
    Reads (sepBy1 delimiter p) (SepBy (TransGen Delimiter) R) fun s =>
      Avoids '.' s ∧ (do let _ ← delimiter; p) s = none := by
  refine hp.chain (hp.after_delimiter hstart) ?_ ?_
  · exact progresses_delimiter.bind fun _ => hprog.shortens
  · rintro s v rest ⟨a, hd, -⟩
    obtain ⟨t, ht⟩ := exists_skip_of_delimiter hd
    rw [ht]
    exact avoids_cons rfl

end Delimited

end MailSearch.Address
