import MailSearch.Address.Email
import MailSearch.Proofs.Address.Joining
import MailSearch.Proofs.Text.Boundaries

/-! # Text in address fields

The grammar takes bytes, and a backslash takes one of them: it may cut a character in two. The bytes
of one part are kept in their order, so that the cut closes again. A field of text therefore has
parts of text, and an address is its parts with dots between them.
-/

namespace MailSearch.Grammar

open MailSearch.Address MailSearch.Parser MailSearch.Utf8
open Relation (ReflTransGen TransGen)

variable {s t v rest : Bytes} {vs : List Bytes} {b : UInt8} {c : UInt8 → Bool} {α : Type}

theorem toNat_lt_of_isSpace (h : isSpace b = true) : b.toNat < 0x80 := by
  simp only [isSpace, isOneOf, List.any_cons, List.any_nil, Bool.or_false, Bool.or_eq_true,
    beq_iff_eq] at h
  rcases h with rfl | rfl | rfl | rfl <;> decide

theorem opensAscii_of_atom_stops (h : ∀ b ∈ rest.head?, isAtomText b = false) :
    OpensAscii rest := by
  intro b hb
  have hclass := h b hb
  simp only [isAtomText, Bool.or_eq_false_iff, decide_eq_false_iff_not] at hclass
  exact UInt8.lt_iff_toNat_lt.mp (UInt8.not_le.mp hclass.2)

/-- A comment may start inside a character, since nothing of it is kept. -/
theorem CommentBody.keepsText (h : CommentBody s rest) (hs : Completes t s) : IsText rest := by
  induction h generalizing t with
  | close => exact (hs.of_ascii (by decide)).2
  | text _ _ ih =>
    obtain ⟨_, hs⟩ := hs.exists_tail
    exact ih hs
  | pair _ ih =>
    obtain ⟨_, hs⟩ := hs.exists_tail
    obtain ⟨_, hs⟩ := hs.exists_tail
    exact ih hs
  | comment _ _ ih ih' =>
    obtain ⟨_, hs⟩ := hs.exists_tail
    exact ih' (completes_nil_iff.mpr (ih hs))

theorem Filler.keepsText (h : Filler s rest) (hs : IsText s) : IsText rest := by
  induction h with
  | nil => exact hs
  | space hb _ ih => exact ih (hs.of_cons (toNat_lt_of_isSpace hb))
  | comment hc _ ih =>
    exact ih (hc.keepsText (completes_nil_iff.mpr (hs.of_cons (by decide))))

theorem Run.keepsText (h : Run isSpace s v rest) (hs : IsText s) : IsText rest := by
  rw [h.append] at hs
  exact (Filler.of_spaces h.all).keepsText hs

/-- Whatever a character lacks in front of quoted text, the value brings it. -/
theorem Content.completes (h : Content c s v rest) (hs : Completes t s)
    (hrest : OpensAscii rest) : Completes t v ∧ IsText rest := by
  induction h generalizing t with
  | nil =>
    obtain rfl := hs.eq_nil hrest
    exact ⟨completes_nil_iff.mpr isText_nil, completes_nil_iff.mp hs⟩
  | text _ _ ih =>
    obtain ⟨t', hs, hback, -⟩ := hs.step
    obtain ⟨hv, hr⟩ := ih hs hrest
    exact ⟨hback _ hv, hr⟩
  | pair _ ih =>
    obtain ⟨rfl, hbehind⟩ := hs.of_ascii (by decide)
    obtain ⟨t', hs, hback, -⟩ := (completes_nil_iff.mpr hbehind).step
    obtain ⟨hv, hr⟩ := ih hs hrest
    exact ⟨hback _ hv, hr⟩
  | space hrun _ ih =>
    obtain ⟨b, s, rfl, hb⟩ := hrun.exists_cons
    obtain ⟨rfl, -⟩ := hs.of_ascii (toNat_lt_of_isSpace hb)
    have hmid := hrun.keepsText (completes_nil_iff.mp hs)
    obtain ⟨hv, hr⟩ := ih (completes_nil_iff.mpr hmid) hrest
    exact ⟨completes_nil_iff.mpr ((completes_nil_iff.mp hv).cons (by decide)), hr⟩

theorem Content.keepsText (h : Content c s v (b :: rest)) (hs : IsText s) (hb : b.toNat < 0x80) :
    IsText v ∧ IsText rest := by
  obtain ⟨hv, hrest⟩ := h.completes (completes_nil_iff.mpr hs) (opensAscii_cons hb)
  exact ⟨completes_nil_iff.mp hv, hrest.of_cons hb⟩

/-- What the production finds in text is of the kind, and text is left. -/
def Finds (Kind : α → Prop) (R : Bytes → α → Bytes → Prop) : Prop :=
  ∀ ⦃s v rest⦄, R s v rest → IsText s → Kind v ∧ IsText rest

def AllText (vs : List Bytes) : Prop := ∀ v ∈ vs, IsText v

section Combination

variable {Kind : α → Prop} {R : Bytes → α → Bytes → Prop} {Sep : Bytes → Bytes → Prop}

theorem Finds.many (hR : Finds Kind R) {as : List α} (h : Many R s as rest) (hs : IsText s) :
    (∀ a ∈ as, Kind a) ∧ IsText rest := by
  induction h with
  | nil => exact ⟨by simp, hs⟩
  | cons ha _ ih =>
    obtain ⟨ha, hmid⟩ := hR ha hs
    obtain ⟨has, hrest⟩ := ih hmid
    exact ⟨List.forall_mem_cons.mpr ⟨ha, has⟩, hrest⟩

theorem Finds.sepBy (hR : Finds Kind R) (hSep : ∀ {s rest}, Sep s rest → IsText s → IsText rest) :
    Finds (fun as : List α => ∀ a ∈ as, Kind a) (SepBy Sep R) := by
  rintro s as rest ⟨a, others, mid, rfl, ha, hothers⟩ hs
  obtain ⟨ha, hmid⟩ := hR ha hs
  have hnext : Finds Kind fun s a rest => ∃ b, Sep s b ∧ R b a rest := by
    rintro s a rest ⟨b, hb, ha⟩ hs
    exact hR ha (hSep hb hs)
  obtain ⟨hothers, hrest⟩ := hnext.many hothers hmid
  exact ⟨List.forall_mem_cons.mpr ⟨ha, hothers⟩, hrest⟩

end Combination

theorem Sign.keepsText {c : Char} (hc : c.toUInt8.toNat < 0x80) (h : Sign c s rest)
    (hs : IsText s) : IsText rest := by
  obtain rfl := h
  exact hs.of_cons hc

theorem finds_atom : Finds IsText Atom := by
  rintro s v rest ⟨a, b, ha, hv, hb⟩ hs
  have htext := ha.keepsText hs
  rw [hv.append] at htext
  obtain ⟨hv, hafter⟩ := htext.of_append (opensAscii_of_atom_stops hv.stops)
  exact ⟨hv, hb.keepsText hafter⟩

theorem finds_quotedString : Finds IsText QuotedString := by
  rintro s v rest ⟨a, b, ha, hv, hb⟩ hs
  obtain ⟨hv, hafter⟩ := hv.keepsText ((ha.keepsText hs).of_cons (by decide)) (by decide)
  exact ⟨hv, hb.keepsText hafter⟩

theorem finds_word : Finds IsText Word := by
  rintro s v rest (h | h) hs
  · exact finds_atom h hs
  · exact finds_quotedString h hs

theorem finds_nameDot : Finds IsText NameDot := by
  rintro s v rest ⟨a, hsign, ha, rfl⟩ hs
  exact ⟨isText_ascii (by decide), ha.keepsText (hsign.keepsText (by decide) hs)⟩

theorem finds_phrase : Finds AllText Phrase := by
  rintro s vs rest ⟨v, others, a, rfl, hv, hothers⟩ hs
  obtain ⟨hv, ha⟩ := finds_word hv hs
  have hpart : Finds IsText fun s v rest => Word s v rest ∨ NameDot s v rest := by
    rintro s v rest (h | h) hs
    · exact finds_word h hs
    · exact finds_nameDot h hs
  obtain ⟨hothers, hrest⟩ := hpart.many hothers ha
  exact ⟨List.forall_mem_cons.mpr ⟨hv, hothers⟩, hrest⟩

theorem finds_localPart : Finds AllText LocalPart :=
  finds_word.sepBy fun h => h.keepsText (by decide)

theorem finds_domainLiteral : Finds AllText DomainLiteral := by
  rintro s vs rest ⟨a, b, v, ha, hv, hb, rfl⟩ hs
  obtain ⟨hv, hafter⟩ := hv.keepsText ((ha.keepsText hs).of_cons (by decide)) (by decide)
  have hliteral : IsText ('['.toUInt8 :: v ++ [']'.toUInt8]) :=
    (hv.cons (by decide)).append (isText_ascii (by decide))
  exact ⟨by simpa [AllText] using hliteral, hb.keepsText hafter⟩

theorem finds_domain : Finds AllText Domain := by
  rintro s vs rest (h | h) hs
  · exact finds_atom.sepBy (fun h => h.keepsText (by decide)) h hs
  · exact finds_domainLiteral h hs

structure SpecText (spec : MailSearch.AddrSpec) : Prop where
  localPart : AllText spec.localPart
  domain : AllText spec.domain

theorem finds_addrSpec : Finds SpecText AddrSpec := by
  rintro s spec rest ⟨a, b, hlocal, hsign, hdomain⟩ hs
  obtain ⟨hlocal, ha⟩ := finds_localPart hlocal hs
  obtain ⟨hdomain, hrest⟩ := finds_domain hdomain (hsign.keepsText (by decide) ha)
  exact ⟨⟨hlocal, hdomain⟩, hrest⟩

theorem Delimiter.keepsText (h : Delimiter s rest) (hs : IsText s) : IsText rest := by
  obtain ⟨a, hs', ha⟩ := h
  exact ha.keepsText ((hs'.keepsText hs).of_cons (by decide))

theorem isText_of_reflTransGen (h : ReflTransGen Delimiter s rest) (hs : IsText s) :
    IsText rest := by
  induction h with
  | refl => exact hs
  | tail _ hd ih => exact hd.keepsText ih

theorem Route.keepsText (h : Route s rest) (hs : IsText s) : IsText rest := by
  obtain ⟨hosts, a, hhosts, hsign⟩ := h
  have hhost : Finds AllText RouteHost := by
    rintro s vs rest ⟨a, hat, hdomain⟩ hs
    exact finds_domain hdomain (hat.keepsText (by decide) hs)
  obtain ⟨-, ha⟩ := hhost.sepBy (fun h => isText_of_reflTransGen h.to_reflTransGen) hhosts hs
  exact hsign.keepsText (by decide) ha

theorem finds_angleAddr : Finds SpecText AngleAddr := by
  rintro s spec rest ⟨a, b, c, ha, hroute, hspec, hc⟩ hs
  have hopen := (ha.keepsText hs).of_cons (by decide)
  have hb : IsText b := by
    rcases hroute with rfl | hroute
    · exact hopen
    · exact hroute.keepsText hopen
  obtain ⟨hspec, hclose⟩ := finds_addrSpec hspec hb
  exact ⟨hspec, hc.keepsText (hclose.of_cons (by decide))⟩

structure MailboxText (box : MailSearch.Mailbox) : Prop where
  name : AllText box.name
  addr : SpecText box.addr

theorem finds_mailbox : Finds MailboxText Mailbox := by
  intro s box rest h hs
  have hnameless : AllText [] := by simp [AllText]
  cases h with
  | named hname hspec =>
    obtain ⟨hname, ha⟩ := finds_phrase hname hs
    obtain ⟨hspec, hrest⟩ := finds_angleAddr hspec ha
    exact ⟨⟨hname, hspec⟩, hrest⟩
  | angle hspec =>
    obtain ⟨hspec, hrest⟩ := finds_angleAddr hspec hs
    exact ⟨⟨hnameless, hspec⟩, hrest⟩
  | bare hspec =>
    obtain ⟨hspec, hrest⟩ := finds_addrSpec hspec hs
    exact ⟨⟨hnameless, hspec⟩, hrest⟩

theorem Finds.listOf {Kind : α → Prop} {R : Bytes → α → Bytes → Prop} (hR : Finds Kind R) :
    Finds (fun as : List α => ∀ a ∈ as, Kind a) (ListOf R) := by
  rintro s as rest ⟨a, b, hbefore, has, hafter⟩ hs
  obtain ⟨has, hb⟩ := hR.sepBy (fun h => isText_of_reflTransGen h.to_reflTransGen) has
    (isText_of_reflTransGen hbefore hs)
  exact ⟨has, isText_of_reflTransGen hafter hb⟩

def AddressText : MailSearch.Address → Prop
  | .mailbox box => MailboxText box
  | .group name boxes => AllText name ∧ ∀ box ∈ boxes, MailboxText box

theorem finds_members : Finds (fun boxes => ∀ box ∈ boxes, MailboxText box) Members := by
  intro s boxes rest h hs
  cases h with
  | none ha => exact ⟨by simp, (ha.keepsText hs).of_cons (by decide)⟩
  | some hboxes ha =>
    obtain ⟨hboxes, hmid⟩ := finds_mailbox.listOf hboxes hs
    exact ⟨hboxes, (ha.keepsText hmid).of_cons (by decide)⟩

theorem finds_address : Finds AddressText Address := by
  intro s address rest h hs
  cases h with
  | mailbox hbox => exact finds_mailbox hbox hs
  | group hname hboxes hb =>
    obtain ⟨hname, hcolon⟩ := finds_phrase hname hs
    obtain ⟨hboxes, hafter⟩ := finds_members hboxes (hcolon.of_cons (by decide))
    exact ⟨⟨hname, hboxes⟩, hb.keepsText hafter⟩

end MailSearch.Grammar

namespace MailSearch

open Utf8
open Grammar (AllText SpecText MailboxText AddressText finds_mailbox finds_address)

variable {s : Bytes} {parts : List Bytes} {box : Mailbox}

theorem encode_joinParts (h : AllText parts) :
    encode (EmailAddress.joinParts parts) = ['.'.toUInt8].intercalate parts := by
  have hparts : parts.map (encode ∘ decodeLossy) = parts := by
    conv_rhs => rw [← List.map_id parts]
    exact List.map_congr_left fun p hp => encode_decodeLossy (h p hp)
  rw [EmailAddress.joinParts, encode_intercalate, List.map_map, hparts]
  rfl

/-- The address is its parts with dots between them, nothing replaced. -/
def Unaltered (spec : AddrSpec) : Prop :=
  encode (EmailAddress.ofSpec spec).localPart = ['.'.toUInt8].intercalate spec.localPart ∧
    encode (EmailAddress.ofSpec spec).domain = ['.'.toUInt8].intercalate spec.domain

theorem unaltered_of_text {spec : AddrSpec} (h : SpecText spec) : Unaltered spec :=
  ⟨encode_joinParts h.localPart, encode_joinParts h.domain⟩

theorem mailboxText_of_mem {a : Address} (h : AddressText a) (hbox : box ∈ a.mailboxes) :
    MailboxText box := by
  cases a with
  | mailbox box' =>
    obtain rfl := List.mem_singleton.mp hbox
    exact h
  | group name boxes => exact h.2 box hbox

theorem mailboxText_of_parse (hs : IsText s) (h : Mailbox.parse? s = some box) : MailboxText box :=
  (finds_mailbox (Mailbox.parse?_eq_some_iff.mp h).2 hs).1

theorem addressText_of_parse {xs : List Address} (hs : IsText s) (h : parseAddresses? s = some xs) :
    ∀ a ∈ xs, AddressText a :=
  (finds_address.listOf (parseAddresses?_eq_some_iff.mp h).2 hs).1

/-- What is read from text is text: every word of a name and every part of an address. -/
theorem parsed_text_unaltered (hs : IsText s) :
    (∀ box, Mailbox.parse? s = some box → MailboxText box ∧ Unaltered box.addr) ∧
    ∀ xs, parseAddresses? s = some xs →
      ∀ a ∈ xs, AddressText a ∧ ∀ box ∈ a.mailboxes, Unaltered box.addr := by
  constructor
  · intro box h
    have hbox := mailboxText_of_parse hs h
    exact ⟨hbox, unaltered_of_text hbox.addr⟩
  · intro xs h a ha
    have haddress := addressText_of_parse hs h a ha
    exact ⟨haddress, fun box hbox => unaltered_of_text (mailboxText_of_mem haddress hbox).addr⟩

/-- Backslashes stand in front of characters of two bytes. -/
theorem parsed_text_unaltered_cut :
    let spec : AddrSpec := ⟨[encode "\u00e9", encode "x"], [encode "[\u00fc]"]⟩
    Mailbox.parse? (encode "\"\\\u00e9\".x@[\\\u00fc]") = some ⟨[], spec⟩ ∧
      MailboxText ⟨[], spec⟩ ∧ Unaltered spec := by
  intro spec
  have hparse : Mailbox.parse? (encode "\"\\\u00e9\".x@[\\\u00fc]") = some ⟨[], spec⟩ := by
    decide +kernel
  exact ⟨hparse, (parsed_text_unaltered (isText_encode _)).1 _ hparse⟩

end MailSearch
