import MailSearch.Proofs.Address.Delimiters

/-! # Addresses within a mailbox

Local parts, domains, routes and the angle brackets around an address are read as the grammar
derives them.
-/

namespace MailSearch.Address

open MailSearch.Parser Grammar
open Relation (ReflTransGen TransGen)

variable {s rest : Bytes}

theorem leads_localPart : Leads (localPart : ByteParser (List Bytes)) := leads_word.bind

theorem progresses_localPart : Progresses (localPart : ByteParser (List Bytes)) :=
  progresses_word.sepBy1 (progresses_byte _).shortens

theorem reads_localPart :
    Reads localPart LocalPart fun s => (do byte '.'; word : ByteParser Bytes) s = none :=
  (reads_word.chain (reads_word.after_byte leads_word rfl)
    ((progresses_byte _).bind fun _ => progresses_word.shortens) fun _ => trivial).mono
    fun _ h => ⟨trivial, h⟩

theorem reads_dottedDomain : Reads dottedDomain DottedDomain (Avoids '.') :=
  (reads_atom.chain (reads_atom.after_byte leads_atom rfl)
    ((progresses_byte _).bind fun _ => progresses_atom.shortens) fun _ => trivial).mono
    fun _ h => ⟨trivial, bind_of_eq_none (byte_of_avoids h)⟩

theorem reads_domainLiteral : Reads domainLiteral DomainLiteral Anything :=
  reads_enclosed rfl plain_isDomainText fun _ => ended_cons rfl rfl rfl

theorem leads_domain : Leads (domain : ByteParser (List Bytes)) :=
  leads_atom.bind.orElse leads_enclosed

theorem progresses_domain : Progresses (domain : ByteParser (List Bytes)) :=
  (progresses_atom.sepBy1 (progresses_byte _).shortens).orElse progresses_enclosed

theorem reads_domain : Reads domain Domain (Avoids '.') where
  sound h := by
    rcases orElse_eq_some.mp h with h | ⟨-, h⟩
    · exact .inl (reads_dottedDomain.sound h)
    · exact .inr (reads_domainLiteral.sound h)
  complete := by
    rintro s vs rest (h | h) hF
    · exact orElse_of_eq_some (reads_dottedDomain.complete h hF)
    · obtain ⟨a, b, v, hs, -⟩ := id h
      have hopen : skip s = '['.toUInt8 :: a :=
        (skip_eq_of_filler hs).trans (skip_cons rfl)
      have hatom : (atom : ByteParser Bytes) (skip s) = none := by
        apply atom_of_settled (settled_skip s)
        rw [hopen]
        rintro b ⟨⟩
        decide
      have hdotted : dottedDomain (skip s) = none := bind_of_eq_none hatom
      rw [domain, orElse_of_eq_none hdotted]
      exact reads_domainLiteral.complete h trivial

theorem leads_addrSpec : Leads (addrSpec : ByteParser AddrSpec) := leads_localPart.bind

theorem progresses_addrSpec : Progresses (addrSpec : ByteParser AddrSpec) :=
  progresses_localPart.bind fun _ => (progresses_byte _).shortens.bind fun _ =>
    progresses_domain.shortens.bind fun _ => shortens_pure _

theorem reads_addrSpec : Reads addrSpec Grammar.AddrSpec (Avoids '.') where
  sound h := by
    simp only [addrSpec, bind_eq_some, byte_eq_some, pure_eq_some] at h
    obtain ⟨l, a, hl, _, b, hat, d, rest, hd, he⟩ := h
    cases he
    exact ⟨a, b, reads_localPart.sound hl, hat, reads_domain.sound hd⟩
  complete := by
    rintro s ⟨l, d⟩ rest ⟨a, b, hl, rfl, hd⟩ hF
    have hsign : skip ('@'.toUInt8 :: b) = '@'.toUInt8 :: b := skip_cons rfl
    have hlocal : localPart (skip s) = some (l, '@'.toUInt8 :: b) := by
      rw [← hsign]
      apply reads_localPart.complete hl
      rw [hsign]
      exact bind_of_eq_none (byte_of_avoids (avoids_cons rfl))
    have hdomain : domain b = some (d, skip rest) := by
      rw [← leads_domain b]
      exact reads_domain.complete hd hF
    rw [addrSpec, bind_of_eq_some hlocal, bind_of_eq_some (byte_cons _), bind_of_eq_some hdomain]
    rfl

def routeHost : ByteParser (List Bytes) := do
  byte '@'
  domain

theorem route_eq : (route : ByteParser Unit) = (do
    let _ ← sepBy1 delimiter routeHost
    byte ':') := rfl

theorem progresses_routeHost : Progresses routeHost :=
  (progresses_byte _).bind fun _ => progresses_domain.shortens

theorem reads_routeHost : Reads routeHost RouteHost (Avoids '.') :=
  reads_domain.after_byte leads_domain rfl

theorem skip_of_routeHost {vs : List Bytes} (h : RouteHost s vs rest) :
    ∃ t, s = '@'.toUInt8 :: t ∧ skip s = s := by
  obtain ⟨t, rfl, -⟩ := h
  exact ⟨t, rfl, skip_cons rfl⟩

theorem reads_routeHosts :
    Reads (sepBy1 delimiter routeHost) (SepBy (TransGen Delimiter) RouteHost) fun s =>
      Avoids '.' s ∧ (do let _ ← delimiter; routeHost) s = none := by
  refine reads_routeHost.delimited progresses_routeHost fun h => ?_
  obtain ⟨t, rfl, hskip⟩ := skip_of_routeHost h
  rw [hskip]
  exact avoids_cons rfl

theorem progresses_route : Progresses (route : ByteParser Unit) :=
  (progresses_routeHost.sepBy1 progresses_delimiter.shortens).bind
    fun _ => (progresses_byte _).shortens

theorem route_sound {u : Unit} (h : route s = some (u, rest)) : Route s rest := by
  rw [route_eq] at h
  obtain ⟨hosts, a, hhosts, hsign⟩ := bind_eq_some.mp h
  exact ⟨hosts, a, reads_routeHosts.sound hhosts, byte_eq_some.mp hsign⟩

theorem route_complete (h : Route s rest) : route s = some ((), rest) := by
  obtain ⟨hosts, a, hhosts, rfl⟩ := h
  have hsign : skip (':'.toUInt8 :: rest) = ':'.toUInt8 :: rest :=
    skip_cons rfl
  have hskip : skip s = s := by
    obtain ⟨v, others, b, -, hfirst, -⟩ := id hhosts
    obtain ⟨t, -, hskip⟩ := skip_of_routeHost hfirst
    exact hskip
  have hread : sepBy1 delimiter routeHost s = some (hosts, ':'.toUInt8 :: rest) := by
    rw [← hskip, ← hsign]
    apply reads_routeHosts.complete hhosts
    rw [hsign]
    refine ⟨avoids_cons rfl, bind_of_eq_none (delimiter_of_avoids ?_)⟩
    rw [hsign]
    exact avoids_cons rfl
  rw [route_eq, bind_of_eq_some hread]
  exact byte_cons _

theorem route_of_avoids (h : Avoids '@' s) : (route : ByteParser Unit) s = none := by
  have hhost : routeHost s = none := bind_of_eq_none (byte_of_avoids h)
  rw [route_eq]
  exact bind_of_eq_none (bind_of_eq_none hhost)

theorem avoids_of_addrSpec {spec : AddrSpec} (h : Grammar.AddrSpec s spec rest) :
    Avoids '@' s := by
  intro hs
  obtain ⟨t, rfl⟩ := List.head?_eq_some_iff.mp hs
  obtain ⟨a, b, ⟨v, others, c, -, hword, -⟩, -⟩ := h
  apply not_marked_of_word hword
  rw [skip_cons rfl]
  exact marked_cons rfl

theorem leads_angleAddr : Leads (angleAddr : ByteParser AddrSpec) := leads_filler.bind

theorem progresses_angleAddr : Progresses (angleAddr : ByteParser AddrSpec) :=
  shortens_filler.bind_progresses fun _ => (progresses_byte _).bind fun _ =>
    progresses_route.shortens.optional.bind fun _ => progresses_addrSpec.shortens.bind fun _ =>
      (progresses_byte _).shortens.bind fun _ => shortens_filler.bind fun _ => shortens_pure _

theorem angleAddr_of_avoids (h : Avoids '<' (skip s)) :
    (angleAddr : ByteParser AddrSpec) s = none := by
  rw [angleAddr, filler_bind, bind_of_eq_none (byte_of_avoids h)]

theorem skip_of_angleAddr {spec : AddrSpec} (h : AngleAddr s spec rest) :
    ∃ t, skip s = '<'.toUInt8 :: t := by
  obtain ⟨t, b, c, hs, -⟩ := h
  exact ⟨t, (skip_eq_of_filler hs).trans (skip_cons rfl)⟩

theorem reads_angleAddr : Reads angleAddr AngleAddr Anything where
  sound h := by
    simp only [angleAddr, bind_eq_some, byte_eq_some, optional_eq_some, pure_eq_some] at h
    obtain ⟨_, a, ha, _, a', hopen, o, b, hroute, spec, c, hspec, _, c', hclose, _, rest, hrest,
      he⟩ := h
    cases he
    rw [filler_eq_some] at ha hrest
    rw [Sign] at hopen hclose
    dsimp only at ha hrest hopen hclose
    subst ha hclose hrest
    refine ⟨a', b, c', hopen ▸ filler_skip _, ?_, reads_addrSpec.sound hspec, filler_skip c'⟩
    rcases hroute with ⟨u, hroute, -⟩ | ⟨-, -, rfl⟩
    · exact .inr (route_sound hroute)
    · exact .inl rfl
  complete := by
    rintro s spec rest ⟨a, b, c, hs, hroute, hspec, hc⟩ -
    have hopen : skip ('<'.toUInt8 :: a) = '<'.toUInt8 :: a := skip_cons rfl
    have hclose : skip ('>'.toUInt8 :: c) = '>'.toUInt8 :: c := skip_cons rfl
    have hopt : ∃ o, optional (route : ByteParser Unit) a = some (o, b) := by
      rcases hroute with rfl | hroute
      · exact ⟨none, optional_of_eq_none (route_of_avoids (avoids_of_addrSpec hspec))⟩
      · exact ⟨some (), optional_of_eq_some (route_complete hroute)⟩
    obtain ⟨o, hopt⟩ := hopt
    have hread : addrSpec b = some (spec, '>'.toUInt8 :: c) := by
      rw [← leads_addrSpec b, ← hclose]
      apply reads_addrSpec.complete hspec
      rw [hclose]
      exact avoids_cons rfl
    rw [skip_eq_of_filler hs, hopen, angleAddr, filler_bind, hopen, bind_of_eq_some (byte_cons _),
      bind_of_eq_some hopt, bind_of_eq_some hread, bind_of_eq_some (byte_cons _), filler_bind,
      skip_eq_of_filler hc]
    rfl

end MailSearch.Address
