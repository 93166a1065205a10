import MailSearch.Proofs.Address.Specs

/-! # Mailboxes, groups and address lists

The parsers of whole fields accept exactly what the grammar derives, with the value that it derives.
Where alternatives overlap, the first choice is never wrong: a bare address begins like a name, and
a group begins like a mailbox, but neither can go on as the alternative that is tried before it.
-/

namespace MailSearch.Address

open MailSearch.Parser Grammar
open Relation (ReflTransGen TransGen)

variable {s a rest : Bytes} {name vs : List Bytes}

theorem exists_phraseParts
    (h : Many (fun s v rest => ∃ b, Sign '.' s b ∧ Word b v rest) s vs rest) :
    ∃ ws, Many (fun s v rest => Word s v rest ∨ NameDot s v rest) s ws rest := by
  induction h with
  | nil => exact ⟨[], .nil⟩
  | cons hv _ ih =>
    obtain ⟨b, hdot, hword⟩ := hv
    obtain ⟨ws, hws⟩ := ih
    exact ⟨_, .cons (.inr ⟨b, hdot, .nil, rfl⟩) (.cons (.inl hword) hws)⟩

theorem phrase_of_localPart (h : LocalPart s vs ('@'.toUInt8 :: rest)) :
    ∃ ws, phrase (skip s) = some (ws, '@'.toUInt8 :: rest) := by
  obtain ⟨v, others, b, -, hv, hothers⟩ := h
  obtain ⟨ws, hws⟩ := exists_phraseParts hothers
  have hskip : skip ('@'.toUInt8 :: rest) = '@'.toUInt8 :: rest :=
    skip_cons rfl
  refine ⟨v :: ws, ?_⟩
  rw [← hskip]
  apply reads_phrase.complete ⟨v, ws, b, rfl, hv, hws⟩
  rw [hskip]
  exact phrasePart_of_marked (marked_cons rfl) (avoids_cons rfl)

theorem phrase_of_marked (h : Marked s) : (phrase : ByteParser (List Bytes)) s = none :=
  bind_of_eq_none (word_of_marked h)

theorem namedMailbox_of_phrase {b : UInt8} (h : phrase s = some (name, b :: a))
    (hb : isMark b = true) (hangle : (b == '<'.toUInt8) = false) :
    (namedMailbox : ByteParser MailSearch.Mailbox) s = none := by
  have hangleAddr : (angleAddr : ByteParser AddrSpec) (b :: a) = none := by
    apply angleAddr_of_avoids
    rw [skip_eq_self (marked_cons hb).settled]
    exact avoids_cons hangle
  rw [namedMailbox, bind_of_eq_some (optional_of_eq_some h), bind_of_eq_none hangleAddr]

theorem leads_mailboxRule : Leads (mailboxRule : ByteParser MailSearch.Mailbox) :=
  (leads_phrase.optional_bind leads_angleAddr.bind).orElse leads_addrSpec.bind

theorem progresses_mailboxRule : Progresses (mailboxRule : ByteParser MailSearch.Mailbox) :=
  (progresses_phrase.shortens.optional.bind_progresses fun _ =>
    progresses_angleAddr.bind fun _ => shortens_pure _).orElse
      (progresses_addrSpec.bind fun _ => shortens_pure _)

theorem reads_mailboxRule : Reads mailboxRule Grammar.Mailbox (Avoids '.') where
  sound h := by
    rcases orElse_eq_some.mp h with h | ⟨-, h⟩
    · simp only [namedMailbox, bind_eq_some, optional_eq_some, pure_eq_some] at h
      obtain ⟨o, a, hname, spec, rest, hspec, he⟩ := h
      cases he
      rcases hname with ⟨name, hname, rfl⟩ | ⟨-, rfl, rfl⟩
      · exact .named (reads_phrase.sound hname) (reads_angleAddr.sound hspec)
      · exact .angle (reads_angleAddr.sound hspec)
    · simp only [bareMailbox, bind_eq_some, pure_eq_some] at h
      obtain ⟨spec, rest, hspec, he⟩ := h
      cases he
      exact .bare (reads_addrSpec.sound hspec)
  complete h hF := by
    cases h with
    | named hname hspec =>
      obtain ⟨t, ht⟩ := skip_of_angleAddr hspec
      have hphrase := reads_phrase.complete hname (by
        rw [ht]
        exact phrasePart_of_marked (marked_cons rfl) (avoids_cons rfl))
      apply orElse_of_eq_some
      rw [namedMailbox, bind_of_eq_some (optional_of_eq_some hphrase),
        bind_of_eq_some (reads_angleAddr.complete hspec trivial)]
      rfl
    | angle hspec =>
      obtain ⟨t, ht⟩ := skip_of_angleAddr hspec
      have hphrase := phrase_of_marked (ht ▸ marked_cons rfl)
      apply orElse_of_eq_some
      rw [namedMailbox, bind_of_eq_some (optional_of_eq_none hphrase),
        bind_of_eq_some (reads_angleAddr.complete hspec trivial)]
      rfl
    | bare hspec =>
      obtain ⟨_, b, hlocal, rfl, -⟩ := id hspec
      obtain ⟨ws, hws⟩ := phrase_of_localPart hlocal
      rw [mailboxRule, orElse_of_eq_none (namedMailbox_of_phrase hws rfl rfl),
        bareMailbox, bind_of_eq_some (reads_addrSpec.complete hspec hF)]
      rfl

theorem mailboxRule_of_marked (h : Marked s) (hangle : Avoids '<' s) :
    (mailboxRule : ByteParser MailSearch.Mailbox) s = none := by
  have hangleAddr : (angleAddr : ByteParser AddrSpec) s = none :=
    angleAddr_of_avoids (by rwa [skip_eq_self h.settled])
  have hlocal : (localPart : ByteParser (List Bytes)) s = none :=
    bind_of_eq_none (word_of_marked h)
  rw [mailboxRule, orElse_of_eq_none]
  · exact bind_of_eq_none (bind_of_eq_none hlocal)
  · rw [namedMailbox, bind_of_eq_some (optional_of_eq_none (phrase_of_marked h)),
      bind_of_eq_none hangleAddr]

theorem mailboxRule_of_phrase (h : phrase (skip s) = some (name, ':'.toUInt8 :: a)) :
    (mailboxRule : ByteParser MailSearch.Mailbox) (skip s) = none := by
  rw [mailboxRule, orElse_of_eq_none (namedMailbox_of_phrase h rfl rfl)]
  cases hbare : (bareMailbox : ByteParser MailSearch.Mailbox) (skip s) with
  | none => rfl
  | some r =>
    obtain ⟨spec, rest, hspec, -⟩ := bind_eq_some.mp hbare
    obtain ⟨_, b, hlocal, rfl, -⟩ := reads_addrSpec.sound hspec
    obtain ⟨ws, hws⟩ := phrase_of_localPart hlocal
    rw [skip_skip, h] at hws
    cases hws

theorem avoids_of_word {v : Bytes} (h : Word s v rest) : Avoids ',' (skip s) := by
  intro hs
  obtain ⟨t, ht⟩ := List.head?_eq_some_iff.mp hs
  apply not_marked_of_word h
  rw [ht]
  exact marked_cons rfl

theorem avoids_of_mailbox {box : MailSearch.Mailbox} (h : Grammar.Mailbox s box rest) :
    Avoids ',' (skip s) := by
  have hangle : ∀ {spec}, AngleAddr s spec rest → Avoids ',' (skip s) := by
    intro spec h
    obtain ⟨t, ht⟩ := skip_of_angleAddr h
    rw [ht]
    exact avoids_cons rfl
  cases h with
  | named hname _ =>
    obtain ⟨v, others, a, -, hv, -⟩ := hname
    exact avoids_of_word hv
  | angle hspec => exact hangle hspec
  | bare hspec =>
    obtain ⟨_, _, ⟨v, others, a, -, hv, -⟩, -⟩ := hspec
    exact avoids_of_word hv

section Lists

variable {α : Type} {p : ByteParser α} {R : Bytes → α → Bytes → Prop}

theorem Leads.listOf (hl : Leads p) : Leads (listOf p) :=
  leads_delimiter.optional_bind hl.bind.bind

/-- What goes on with neither the last element nor the list. -/
def ListEnds (p : ByteParser α) (s : Bytes) : Prop :=
  Avoids '.' s ∧ Avoids ',' s ∧ p s = none

theorem Reads.listOf (hp : Reads p R (Avoids '.')) (hprog : Progresses p)
    (hstart : ∀ {s v rest}, R s v rest → Avoids ',' (skip s)) :
    Reads (listOf p) (ListOf R) (ListEnds p) where
  sound h := by
    obtain ⟨_, a, hbefore, h⟩ := bind_eq_some.mp h
    obtain ⟨vs, b, hvs, h⟩ := bind_eq_some.mp h
    obtain ⟨_, rest, hafter, he⟩ := bind_eq_some.mp h
    cases pure_eq_some.mp he
    exact ⟨a, b, reflTransGen_of_optional hbefore, (hp.delimited hprog hstart).sound hvs,
      reflTransGen_of_optional hafter⟩
  complete := by
    rintro s vs rest ⟨a, b, hbefore, hvs, hafter⟩ ⟨hdot, hcomma, hstop⟩
    have hfirst : Avoids ',' (skip a) := by
      obtain ⟨v, others, c, -, hv, -⟩ := id hvs
      exact hstart hv
    obtain ⟨o, ho⟩ := optional_delimiter hbefore hfirst
    obtain ⟨o', ho'⟩ := optional_delimiter hafter hcomma
    have hend : Avoids '.' (skip b) ∧ (do let _ ← delimiter; p) (skip b) = none := by
      rcases Relation.reflTransGen_iff_eq_or_transGen.mp hafter with rfl | hafter
      · refine ⟨hdot, bind_of_eq_none (delimiter_of_avoids ?_)⟩
        rwa [skip_skip]
      · obtain ⟨t, ht⟩ := exists_skip_of_delimiter hafter
        have hread : delimiter (skip b) = some ((), skip rest) :=
          reads_delimiter.complete hafter hcomma
        constructor
        · rw [ht]
          exact avoids_cons rfl
        · rw [bind_of_eq_some hread, hstop]
    have hread := (hp.delimited hprog hstart).complete hvs hend
    rw [Address.listOf, bind_of_eq_some ho, bind_of_eq_some hread, bind_of_eq_some ho']
    rfl

theorem progresses_listOf (hprog : Progresses p) : Progresses (listOf p) :=
  progresses_delimiter.shortens.optional.bind_progresses fun _ =>
    (hprog.sepBy1 progresses_delimiter.shortens).bind fun _ =>
      progresses_delimiter.shortens.optional.bind fun _ => shortens_pure _

theorem listOf_of_settled (hs : Settled s) (hcomma : Avoids ',' s) (h : p s = none) :
    listOf p s = none := by
  have hdelim : (delimiter : ByteParser Unit) s = none :=
    delimiter_of_avoids (by rwa [skip_eq_self hs])
  have hlist : sepBy1 delimiter p s = none := bind_of_eq_none h
  rw [listOf, bind_of_eq_some (optional_of_eq_none hdelim), bind_of_eq_none hlist]

end Lists

theorem reads_mailboxes :
    Reads (listOf mailboxRule) (ListOf Grammar.Mailbox) (ListEnds mailboxRule) :=
  reads_mailboxRule.listOf progresses_mailboxRule avoids_of_mailbox

theorem members_sound {o : Option (List MailSearch.Mailbox)}
    (h : optional (listOf mailboxRule) s = some (o, a)) (hend : skip a = ';'.toUInt8 :: rest) :
    Members s (o.getD []) rest := by
  rcases optional_eq_some.mp h with ⟨boxes, hboxes, rfl⟩ | ⟨-, rfl, rfl⟩
  · exact .some (reads_mailboxes.sound hboxes) (hend ▸ filler_skip a)
  · exact .none (hend ▸ filler_skip a)

theorem members_complete {boxes : List MailSearch.Mailbox} (h : Members s boxes rest) :
    ∃ o a, optional (listOf mailboxRule) s = some (o, a) ∧ o.getD [] = boxes ∧
      skip a = ';'.toUInt8 :: rest := by
  have hmark : Marked (';'.toUInt8 :: rest) := marked_cons rfl
  have hskip : skip (';'.toUInt8 :: rest) = ';'.toUInt8 :: rest := skip_eq_self hmark.settled
  have hstop : (mailboxRule : ByteParser MailSearch.Mailbox) (';'.toUInt8 :: rest) = none :=
    mailboxRule_of_marked hmark (avoids_cons rfl)
  cases h with
  | none hs =>
    have hnone : listOf mailboxRule s = none := by
      rw [← leads_mailboxRule.listOf s, skip_eq_of_filler hs, hskip]
      exact listOf_of_settled hmark.settled (avoids_cons rfl) hstop
    exact ⟨none, s, optional_of_eq_none hnone, rfl, (skip_eq_of_filler hs).trans hskip⟩
  | some hboxes ha =>
    rename_i a
    have hend : skip a = ';'.toUInt8 :: rest := (skip_eq_of_filler ha).trans hskip
    have hread : listOf mailboxRule s = some (boxes, ';'.toUInt8 :: rest) := by
      rw [← leads_mailboxRule.listOf s, ← hend]
      apply reads_mailboxes.complete hboxes
      rw [hend]
      exact ⟨avoids_cons rfl, avoids_cons rfl, hstop⟩
    exact ⟨some boxes, _, optional_of_eq_some hread, rfl, hskip⟩

theorem progresses_groupRule : Progresses (groupRule : ByteParser MailSearch.Address) :=
  progresses_phrase.bind fun _ => (progresses_byte _).shortens.bind fun _ =>
    (progresses_listOf progresses_mailboxRule).shortens.optional.bind fun _ =>
      shortens_filler.bind fun _ => (progresses_byte _).shortens.bind fun _ =>
        shortens_filler.bind fun _ => shortens_pure _

theorem leads_groupRule : Leads (groupRule : ByteParser MailSearch.Address) := leads_phrase.bind

theorem groupRule_sound {address : MailSearch.Address}
    (h : groupRule s = some (address, rest)) : Grammar.Address s address rest := by
  simp only [groupRule, bind_eq_some, byte_eq_some, pure_eq_some] at h
  obtain ⟨name, a, hname, _, b, hcolon, o, c, hboxes, _, d, hd, _, e, hsemi, _, rest, hrest,
    he⟩ := h
  cases he
  rw [filler_eq_some] at hd hrest
  rw [Sign] at hcolon hsemi
  dsimp only at hd hrest hcolon hsemi
  subst hd hcolon hrest
  exact .group (reads_phrase.sound hname) (members_sound hboxes hsemi) (filler_skip e)

theorem phrase_of_colon (hname : Phrase s name (':'.toUInt8 :: a)) :
    phrase (skip s) = some (name, ':'.toUInt8 :: a) := by
  have hskip : skip (':'.toUInt8 :: a) = ':'.toUInt8 :: a := skip_cons rfl
  rw [← hskip]
  apply reads_phrase.complete hname
  rw [hskip]
  exact phrasePart_of_marked (marked_cons rfl) (avoids_cons rfl)

theorem groupRule_complete {b : Bytes} {boxes : List MailSearch.Mailbox}
    (hname : Phrase s name (':'.toUInt8 :: a)) (hboxes : Members a boxes b) (hb : Filler b rest) :
    phrase (skip s) = some (name, ':'.toUInt8 :: a) ∧
      groupRule (skip s) = some (.group name boxes, skip rest) := by
  have hphrase := phrase_of_colon hname
  obtain ⟨o, c, hopt, rfl, hend⟩ := members_complete hboxes
  refine ⟨hphrase, ?_⟩
  rw [groupRule, bind_of_eq_some hphrase, bind_of_eq_some (byte_cons _), bind_of_eq_some hopt,
    filler_bind, hend, bind_of_eq_some (byte_cons _), filler_bind, skip_eq_of_filler hb]
  rfl

theorem leads_addressRule : Leads (addressRule : ByteParser MailSearch.Address) :=
  leads_mailboxRule.map.orElse leads_groupRule

theorem progresses_addressRule : Progresses (addressRule : ByteParser MailSearch.Address) :=
  progresses_mailboxRule.map.orElse progresses_groupRule

theorem reads_addressRule : Reads addressRule Grammar.Address (Avoids '.') where
  sound h := by
    rcases orElse_eq_some.mp h with h | ⟨-, h⟩
    · obtain ⟨box, rest, hbox, he⟩ := map_eq_some.mp h
      cases he
      exact .mailbox (reads_mailboxRule.sound hbox)
    · exact groupRule_sound h
  complete h hF := by
    cases h with
    | mailbox hbox =>
      apply orElse_of_eq_some
      exact map_eq_some.mpr ⟨_, _, reads_mailboxRule.complete hbox hF, rfl⟩
    | group hname hboxes hb =>
      obtain ⟨hphrase, hgroup⟩ := groupRule_complete hname hboxes hb
      rw [addressRule, orElse_of_eq_none (map_eq_none.mpr (mailboxRule_of_phrase hphrase)), hgroup]

theorem addressRule_of_marked (h : Marked s) (hangle : Avoids '<' s) :
    (addressRule : ByteParser MailSearch.Address) s = none := by
  rw [addressRule, orElse_of_eq_none (map_eq_none.mpr (mailboxRule_of_marked h hangle))]
  exact bind_of_eq_none (phrase_of_marked h)

theorem avoids_of_address {address : MailSearch.Address} (h : Grammar.Address s address rest) :
    Avoids ',' (skip s) := by
  cases h with
  | mailbox hbox => exact avoids_of_mailbox hbox
  | group hname _ _ =>
    obtain ⟨v, others, a, -, hv, -⟩ := hname
    exact avoids_of_word hv

theorem Reads.parseAll_eq_some {α : Type} {p : ByteParser α} {R : Bytes → α → Bytes → Prop}
    {F : Bytes → Prop} (hp : Reads p R F) (hl : Leads p) (hF : F []) {v : α} :
    parseAll p s = some v ↔ R s v [] := by
  have hparse : parseAll p s = some v ↔ p s = some (v, []) := by
    unfold parseAll
    split
    · rename_i h
      simp [h]
    · rename_i h
      exact iff_of_false (by simp) fun hv => h v hv
  rw [hparse]
  constructor
  · exact hp.sound
  · intro h
    rw [← hl s, hp.complete h (by rwa [skip_nil]), skip_nil]

end MailSearch.Address

namespace MailSearch

open Address

variable {s : Bytes} {box : Mailbox} {addresses : List MailSearch.Address}

theorem Mailbox.parse?_eq_some_iff :
    Mailbox.parse? s = some box ↔ commentsShallow s = true ∧ Grammar.Mailbox s box [] := by
  rw [Mailbox.parse?, Option.ite_none_right_eq_some,
    reads_mailboxRule.parseAll_eq_some leads_mailboxRule (avoids_nil _)]

theorem parseAddresses?_eq_some_iff :
    parseAddresses? s = some addresses ↔
      commentsShallow s = true ∧ Grammar.ListOf Grammar.Address s addresses [] := by
  have hends : ListEnds addressRule [] :=
    ⟨avoids_nil _, avoids_nil _, addressRule_of_marked marked_nil (avoids_nil _)⟩
  have hreads := reads_addressRule.listOf progresses_addressRule avoids_of_address
  rw [parseAddresses?, Option.ite_none_right_eq_some,
    hreads.parseAll_eq_some leads_addressRule.listOf hends]

/-- A text is read exactly if its comments are shallow and the grammar derives it, as the value that
is derived. -/
theorem parsers_accept_grammar (s : Bytes) :
    (∀ box, Mailbox.parse? s = some box ↔ commentsShallow s = true ∧ Grammar.Mailbox s box []) ∧
    ∀ addresses, parseAddresses? s = some addresses ↔
      commentsShallow s = true ∧ Grammar.ListOf Grammar.Address s addresses [] :=
  ⟨fun _ => Mailbox.parse?_eq_some_iff, fun _ => parseAddresses?_eq_some_iff⟩

end MailSearch
