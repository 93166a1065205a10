import Mathlib.Data.List.Forall2
import MailSearch.Proofs.Address.Lossless
import MailSearch.Proofs.Parser.Mapping

/-! # Letter case in address fields

No class of bytes in the grammar tells a capital from its small letter. So a field and the same
field in small letters are read alike, byte by byte, and what is found in the one is what is found
in the other, in small letters.
-/

namespace MailSearch.Address

open MailSearch.Parser

variable {s : Bytes} {b x : UInt8} {c d : UInt8 → Bool}

def lowerByte (b : UInt8) : UInt8 := if 0x41 ≤ b ∧ b ≤ 0x5a then b + 0x20 else b

theorem toNat_lowerByte (b : UInt8) : (lowerByte b).toNat =
    if 65 ≤ b.toNat ∧ b.toNat ≤ 90 then b.toNat + 32 else b.toNat := by
  have hcapital : (0x41 ≤ b ∧ b ≤ 0x5a) ↔ 65 ≤ b.toNat ∧ b.toNat ≤ 90 := by
    simp only [UInt8.le_iff_toNat_le]
    rfl
  rw [lowerByte]
  simp only [hcapital]
  split
  · rw [UInt8.toNat_add]
    exact Nat.mod_eq_of_lt (by change b.toNat + 32 < 256; omega)
  · rfl

def isNoLetter (b : UInt8) : Bool := !(0x41 ≤ b && b ≤ 0x5a) && !(0x61 ≤ b && b ≤ 0x7a)

theorem lowerByte_eq_iff (hx : isNoLetter x = true) : lowerByte b = x ↔ b = x := by
  simp only [isNoLetter, Bool.and_eq_true, Bool.not_eq_true', Bool.and_eq_false_iff,
    decide_eq_false_iff_not, UInt8.le_iff_toNat_le, UInt8.reduceToNat] at hx
  rw [← UInt8.toNat_inj, ← UInt8.toNat_inj, toNat_lowerByte]
  split <;> omega

/-- A capital is in the class where its small letter is. -/
def CaseFree (c : UInt8 → Bool) : Prop := ∀ b, c (lowerByte b) = c b

theorem CaseFree.not (hc : CaseFree c) : CaseFree fun b => !c b := fun b => congrArg (!·) (hc b)

theorem CaseFree.and (hc : CaseFree c) (hd : CaseFree d) : CaseFree fun b => c b && d b :=
  fun b => congrArg₂ (· && ·) (hc b) (hd b)

theorem CaseFree.or (hc : CaseFree c) (hd : CaseFree d) : CaseFree fun b => c b || d b :=
  fun b => congrArg₂ (· || ·) (hc b) (hd b)

theorem caseFree_beq (hx : isNoLetter x = true) : CaseFree (· == x) := by
  intro b
  rw [Bool.eq_iff_iff, beq_iff_eq, beq_iff_eq, lowerByte_eq_iff hx]

theorem caseFree_isOneOf {cs : List Char} (h : cs.all (isNoLetter ·.toUInt8) = true) :
    CaseFree (isOneOf cs) := by
  intro b
  induction cs with
  | nil => rfl
  | cons ch cs ih =>
    obtain ⟨hch, hcs⟩ := Bool.and_eq_true_iff.mp h
    have hb : (ch.toUInt8 == lowerByte b) = (ch.toUInt8 == b) := by
      rw [Bool.eq_iff_iff, beq_iff_eq, beq_iff_eq, eq_comm, lowerByte_eq_iff hch, eq_comm]
    exact congrArg₂ (· || ·) hb (ih hcs)

theorem caseFree_isSpace : CaseFree isSpace := caseFree_isOneOf rfl

theorem caseFree_isCommentText : CaseFree isCommentText :=
  caseFree_isSpace.not.and (caseFree_isOneOf rfl).not

theorem caseFree_isQuotedText : CaseFree isQuotedText :=
  caseFree_isSpace.not.and (caseFree_isOneOf rfl).not

theorem caseFree_isDomainText : CaseFree isDomainText :=
  caseFree_isSpace.not.and (caseFree_isOneOf rfl).not

theorem caseFree_isAlphanumeric : CaseFree isAlphanumeric := by
  intro b
  rw [Bool.eq_iff_iff]
  simp only [isAlphanumeric, Bool.or_eq_true, Bool.and_eq_true, decide_eq_true_eq,
    UInt8.le_iff_toNat_le, UInt8.reduceToNat, toNat_lowerByte]
  split <;> omega

theorem caseFree_isAtomText : CaseFree isAtomText := by
  have hmarks : CaseFree (isOneOf atomMarks) := caseFree_isOneOf rfl
  have hlong : CaseFree fun b => decide (0x80 ≤ b) := by
    intro b
    simp only [UInt8.le_iff_toNat_le, UInt8.reduceToNat, toNat_lowerByte, decide_eq_decide]
    split <;> omega
  exact (caseFree_isAlphanumeric.or hmarks).or hlong

abbrev lowerBytes : Bytes → Bytes := List.map lowerByte

def lowerSpec (spec : AddrSpec) : AddrSpec :=
  ⟨spec.localPart.map lowerBytes, spec.domain.map lowerBytes⟩

def lowerMailbox (box : Mailbox) : Mailbox := ⟨box.name.map lowerBytes, lowerSpec box.addr⟩

def lowerAddress : Address → Address
  | .mailbox box => .mailbox (lowerMailbox box)
  | .group name boxes => .group (name.map lowerBytes) (boxes.map lowerMailbox)

section Productions

variable {α β : Type} {g : α → β}

/-- In small letters the parser finds what it finds, changed by `g`. -/
abbrev Lowers (g : α → β) (p : ByteParser α) (q : ByteParser β) : Prop := Carries lowerByte g p q

theorem lowers_byte {ch : Char} (hch : isNoLetter ch.toUInt8 = true) :
    Lowers id (byte ch) (byte ch) :=
  .symbol (caseFree_beq hch)

theorem lowers_quotedPair : Lowers lowerBytes quotedPair quotedPair :=
  (lowers_byte rfl).bind fun _ => Carries.bind (.satisfy fun _ => rfl) fun b => .pure [b]

theorem lowers_blank : Lowers lowerBytes blank blank :=
  Carries.bind (.run caseFree_isSpace) fun _ => .pure [' '.toUInt8]

theorem lowers_comment (bound : Bytes) :
    Lowers id (comment bound) (comment (lowerBytes bound)) := by
  induction bound with
  | nil => exact .failure
  | cons b bound ih =>
    have hpiece := Carries.orElse (.run caseFree_isCommentText)
      (lowers_quotedPair.orElse lowers_blank)
    have htext : Lowers id (do let _ ← run isCommentText <|> quotedPair <|> blank)
        (do let _ ← run isCommentText <|> quotedPair <|> blank) := hpiece.bind fun _ => .pure ()
    exact (lowers_byte rfl).bind fun _ => (htext.orElse ih).many.bind fun _ =>
      lowers_byte rfl

theorem lowers_filler : Lowers id filler filler := by
  refine Carries.bind .get fun s => ?_
  have hblank : Lowers id (do let _ ← blank) (do let _ ← blank) :=
    lowers_blank.bind fun _ => .pure ()
  exact (hblank.orElse (lowers_comment s)).many.bind fun _ => .pure ()

theorem lowers_content {c : UInt8 → Bool} (hc : CaseFree c) :
    Lowers lowerBytes (content c) (content c) := by
  have hpieces := (Carries.orElse (.run hc) (lowers_quotedPair.orElse lowers_blank)).many
  refine hpieces.bind fun parts => ?_
  rw [← List.map_flatten]
  exact .pure parts.flatten

theorem lowers_atom : Lowers lowerBytes atom atom :=
  lowers_filler.bind fun _ => Carries.bind (.run caseFree_isAtomText) fun v =>
    lowers_filler.bind fun _ => .pure v

theorem lowers_enclosed {opener closer : Char} {c : UInt8 → Bool} {u : Bytes → α} {v : Bytes → β}
    (hopen : isNoLetter opener.toUInt8 = true) (hclose : isNoLetter closer.toUInt8 = true)
    (hc : CaseFree c)
    (huv : ∀ text, v (lowerBytes text) = g (u text)) :
    Lowers g (enclosed opener closer c u) (enclosed opener closer c v) := by
  refine lowers_filler.bind fun _ => (lowers_byte hopen).bind fun _ => (lowers_content hc).bind
    fun text => (lowers_byte hclose).bind fun _ => lowers_filler.bind fun _ => ?_
  rw [huv]
  exact .pure (u text)

theorem lowers_quotedString : Lowers lowerBytes quotedString quotedString :=
  lowers_enclosed rfl rfl caseFree_isQuotedText fun _ => rfl

theorem lowers_word : Lowers lowerBytes word word := lowers_atom.orElse lowers_quotedString

theorem lowers_nameDot : Lowers lowerBytes nameDot nameDot :=
  (lowers_byte rfl).bind fun _ => lowers_filler.bind fun _ => .pure ['.'.toUInt8]

theorem lowers_phrase : Lowers (List.map lowerBytes) phrase phrase :=
  lowers_word.bind fun first => (lowers_word.orElse lowers_nameDot).many.bind
    fun others => .pure (first :: others)

theorem lowers_localPart : Lowers (List.map lowerBytes) localPart localPart :=
  (lowers_byte rfl).sepBy1 lowers_word

theorem lowers_domainLiteral : Lowers (List.map lowerBytes) domainLiteral domainLiteral := by
  refine lowers_enclosed rfl rfl caseFree_isDomainText fun text => ?_
  simp only [List.map_cons, List.map_nil, List.map_append]
  rfl

theorem lowers_domain : Lowers (List.map lowerBytes) domain domain := by
  have hdotted : Lowers (List.map lowerBytes) dottedDomain dottedDomain :=
    (lowers_byte rfl).sepBy1 lowers_atom
  exact hdotted.orElse lowers_domainLiteral

theorem lowers_addrSpec : Lowers lowerSpec addrSpec addrSpec :=
  lowers_localPart.bind fun l => (lowers_byte rfl).bind fun _ =>
    lowers_domain.bind fun d => .pure (AddrSpec.mk l d)

theorem lowers_delimiter : Lowers id delimiter delimiter :=
  (lowers_filler.bind fun _ => (lowers_byte rfl).bind fun _ => lowers_filler).many1.bind
    fun _ => .pure ()

theorem lowers_route : Lowers id route route := by
  have hhost : Lowers (List.map lowerBytes) (do byte '@'; domain) (do byte '@'; domain) :=
    (lowers_byte rfl).bind fun _ => lowers_domain
  exact (lowers_delimiter.sepBy1 hhost).bind fun _ => lowers_byte rfl

theorem lowers_angleAddr : Lowers lowerSpec angleAddr angleAddr :=
  lowers_filler.bind fun _ => (lowers_byte rfl).bind fun _ => lowers_route.optional.bind
    fun _ => lowers_addrSpec.bind fun spec => (lowers_byte rfl).bind fun _ =>
      lowers_filler.bind fun _ => .pure spec

theorem lowers_mailboxRule : Lowers lowerMailbox mailboxRule mailboxRule := by
  have hnamed : Lowers lowerMailbox namedMailbox namedMailbox := by
    refine lowers_phrase.optional.bind fun name => lowers_angleAddr.bind fun spec => ?_
    cases name with
    | none => exact .pure (Mailbox.mk [] spec)
    | some name => exact .pure (Mailbox.mk name spec)
  have hbare : Lowers lowerMailbox bareMailbox bareMailbox :=
    lowers_addrSpec.bind fun spec => .pure (Mailbox.mk [] spec)
  exact hnamed.orElse hbare

theorem lowers_listOf {p : ByteParser α} {q : ByteParser β} (hp : Lowers g p q) :
    Lowers (List.map g) (listOf p) (listOf q) :=
  lowers_delimiter.optional.bind fun _ => (lowers_delimiter.sepBy1 hp).bind fun vs =>
    lowers_delimiter.optional.bind fun _ => .pure vs

theorem lowers_groupRule : Lowers lowerAddress groupRule groupRule := by
  refine lowers_phrase.bind fun name => (lowers_byte rfl).bind fun _ =>
    (lowers_listOf lowers_mailboxRule).optional.bind fun boxes => lowers_filler.bind fun _ =>
      (lowers_byte rfl).bind fun _ => lowers_filler.bind fun _ => ?_
  cases boxes with
  | none => exact .pure (Address.group name [])
  | some boxes => exact .pure (Address.group name boxes)

theorem lowers_addressRule : Lowers lowerAddress addressRule addressRule := by
  have hmailbox : Lowers lowerAddress (mailbox <$> mailboxRule) (mailbox <$> mailboxRule) :=
    lowers_mailboxRule.map fun _ => rfl
  exact hmailbox.orElse lowers_groupRule

end Productions

theorem shallow_lowerBytes (limit depth : Nat) (quoted escaped : Bool) (s : Bytes) :
    shallow limit depth quoted escaped (lowerBytes s) = shallow limit depth quoted escaped s := by
  have hpair : ∀ b, lowerByte b = '\\'.toUInt8 ↔ b = '\\'.toUInt8 := fun _ => lowerByte_eq_iff rfl
  have hquote : ∀ b, lowerByte b = '"'.toUInt8 ↔ b = '"'.toUInt8 := fun _ => lowerByte_eq_iff rfl
  have hopen : ∀ b, lowerByte b = '('.toUInt8 ↔ b = '('.toUInt8 := fun _ => lowerByte_eq_iff rfl
  have hclose : ∀ b, lowerByte b = ')'.toUInt8 ↔ b = ')'.toUInt8 := fun _ => lowerByte_eq_iff rfl
  have hstay : ∀ b, (lowerByte b != '"'.toUInt8) = (b != '"'.toUInt8) := (caseFree_beq rfl).not
  induction s generalizing depth quoted escaped with
  | nil => rfl
  | cons b s ih =>
    rw [lowerBytes, List.map_cons, shallow, shallow]
    simp only [hpair, hquote, hopen, hclose, hstay, ih]

end MailSearch.Address

namespace MailSearch

open Address Utf8

variable {s t : Bytes} {text text' : String} {box box' : Mailbox}

theorem Mailbox.parse?_lowerBytes (s : Bytes) :
    Mailbox.parse? (lowerBytes s) = (Mailbox.parse? s).map lowerMailbox := by
  rw [Mailbox.parse?, Mailbox.parse?, commentsShallow, commentsShallow, shallow_lowerBytes,
    lowers_mailboxRule.parseAll]
  split <;> rfl

theorem parseAddresses?_lowerBytes (s : Bytes) :
    parseAddresses? (lowerBytes s) = (parseAddresses? s).map (List.map lowerAddress) := by
  rw [parseAddresses?, parseAddresses?, commentsShallow, commentsShallow, shallow_lowerBytes,
    (lowers_listOf lowers_addressRule).parseAll]
  split <;> rfl

section Texts

variable {c : Char}

theorem toLower_of_not_ascii (h : 0x80 ≤ c.toNat) : c.toLower = c := by
  have hnot : ¬ (c.val ≥ 'A'.val ∧ c.val ≤ 'Z'.val) := by
    rintro ⟨-, hle⟩
    have hle : c.toNat ≤ 90 := UInt32.le_iff_toNat_le.mp hle
    omega
  exact dif_neg hnot

theorem lowerByte_of_not_ascii {b : UInt8} (h : 0x80 ≤ b.toNat) : lowerByte b = b := by
  rw [lowerByte, if_neg]
  rintro ⟨-, hle⟩
  have hle : b.toNat ≤ 90 := UInt8.le_iff_toNat_le.mp hle
  omega

theorem encodeChar_toLower (c : Char) :
    String.utf8EncodeChar c.toLower = lowerBytes (String.utf8EncodeChar c) := by
  by_cases hc : c.toNat < 0x80
  · have htable : ∀ n < 0x80, String.utf8EncodeChar (Char.ofNat n).toLower =
        lowerBytes (String.utf8EncodeChar (Char.ofNat n)) := by
      decide +kernel
    simpa only [Char.ofNat_toNat] using htable c.toNat hc
  · have hle := Nat.le_of_not_lt hc
    rw [toLower_of_not_ascii hle]
    refine (List.map_id _).symm.trans (List.map_congr_left fun b hb => ?_)
    exact (lowerByte_of_not_ascii (le_of_mem_encodeChar hle hb)).symm

theorem encode_lowerAscii (text : String) :
    encode (String.ofList (lowerAscii text)) = lowerBytes (encode text) := by
  rw [encode, encode, String.toList_ofList, lowerAscii, List.flatMap_map, lowerBytes,
    List.map_flatMap]
  exact List.flatMap_congr fun c _ => encodeChar_toLower c

theorem lowerBytes_encode_inj :
    lowerBytes (encode text) = lowerBytes (encode text') ↔ lowerAscii text = lowerAscii text' := by
  rw [← encode_lowerAscii, ← encode_lowerAscii]
  constructor
  · intro h
    have htext := congrArg (String.toList ∘ decodeLossy) h
    simpa [decodeLossy_encode] using htext
  · intro h
    rw [h]

end Texts

def SameLetters (s t : Bytes) : Prop := lowerBytes s = lowerBytes t

/-- Mailboxes that differ in letter case only. -/
structure Mailbox.Alike (box box' : Mailbox) : Prop where
  name : List.Forall₂ SameLetters box.name box'.name
  localPart : List.Forall₂ SameLetters box.addr.localPart box'.addr.localPart
  domain : List.Forall₂ SameLetters box.addr.domain box'.addr.domain
  sameAs : (EmailAddress.ofSpec box.addr).sameAs (.ofSpec box'.addr) = true

inductive Address.Alike : Address → Address → Prop
  | mailbox {box box' : Mailbox} : box.Alike box' → Alike (.mailbox box) (.mailbox box')
  | group {name name' : List Bytes} {boxes boxes' : List Mailbox} :
      List.Forall₂ SameLetters name name' → List.Forall₂ Mailbox.Alike boxes boxes' →
      Alike (.group name boxes) (.group name' boxes')

section Alike

open Grammar (AllText SpecText MailboxText AddressText)

variable {α β : Type} {f : α → β} {xs ys : List α} {parts parts' : List Bytes}

theorem forall₂_of_map_eq {Kind : α → Prop} {R : α → α → Prop}
    (hR : ∀ {x y}, Kind x → Kind y → f x = f y → R x y) (hxs : ∀ x ∈ xs, Kind x)
    (hys : ∀ y ∈ ys, Kind y) (h : xs.map f = ys.map f) : List.Forall₂ R xs ys := by
  induction xs generalizing ys with
  | nil =>
    obtain rfl := List.map_eq_nil_iff.mp h.symm
    exact .nil
  | cons x xs ih =>
    obtain ⟨y, ys, rfl, hy, hmap⟩ := List.map_eq_cons_iff.mp h.symm
    obtain ⟨hx, hxs⟩ := List.forall_mem_cons.mp hxs
    obtain ⟨hky, hys⟩ := List.forall_mem_cons.mp hys
    exact .cons (hR hx hky hy.symm) (ih hxs hys hmap.symm)

theorem forall₂_sameLetters (h : parts.map lowerBytes = parts'.map lowerBytes) :
    List.Forall₂ SameLetters parts parts' :=
  forall₂_of_map_eq (fun _ _ h => h) (fun _ _ => trivial) (fun _ _ => trivial) h

theorem lowerBytes_intercalate (sep : Bytes) (parts : List Bytes) :
    lowerBytes (sep.intercalate parts) = (lowerBytes sep).intercalate (parts.map lowerBytes) := by
  induction parts with
  | nil => rfl
  | cons p parts ih =>
    cases parts with
    | nil => simp
    | cons q parts =>
      have happend : ∀ s t, lowerBytes (s ++ t) = lowerBytes s ++ lowerBytes t := fun _ _ =>
        List.map_append
      rw [List.intercalate_cons_cons, happend, happend, ih]
      simp only [List.map_cons, List.intercalate_cons_cons]

theorem lowerAscii_joinParts (hp : AllText parts) (hp' : AllText parts')
    (h : parts.map lowerBytes = parts'.map lowerBytes) :
    lowerAscii (EmailAddress.joinParts parts) = lowerAscii (EmailAddress.joinParts parts') := by
  rw [← lowerBytes_encode_inj, encode_joinParts hp, encode_joinParts hp', lowerBytes_intercalate,
    lowerBytes_intercalate, h]

theorem Mailbox.alike_of_lower (hbox : MailboxText box) (hbox' : MailboxText box')
    (h : lowerMailbox box = lowerMailbox box') : box.Alike box' := by
  obtain ⟨name, l, d⟩ := box
  obtain ⟨name', l', d'⟩ := box'
  obtain ⟨hname, hspec⟩ := Mailbox.mk.inj h
  obtain ⟨hl, hd⟩ := AddrSpec.mk.inj hspec
  refine ⟨forall₂_sameLetters hname, forall₂_sameLetters hl, forall₂_sameLetters hd, ?_⟩
  rw [EmailAddress.sameAs, Bool.and_eq_true, sameIgnoringCase_iff, sameIgnoringCase_iff]
  exact ⟨lowerAscii_joinParts hbox.addr.localPart hbox'.addr.localPart hl,
    lowerAscii_joinParts hbox.addr.domain hbox'.addr.domain hd⟩

theorem Address.alike_of_lower {a a' : Address} (ha : AddressText a) (ha' : AddressText a')
    (h : lowerAddress a = lowerAddress a') : a.Alike a' := by
  cases a with
  | mailbox box =>
    cases a' with
    | mailbox box' => exact .mailbox (Mailbox.alike_of_lower ha ha' (Address.mailbox.inj h))
    | group name' boxes' => cases h
  | group name boxes =>
    cases a' with
    | mailbox box' => cases h
    | group name' boxes' =>
      obtain ⟨hname, hboxes⟩ := Address.group.inj h
      exact .group (forall₂_sameLetters hname)
        (forall₂_of_map_eq Mailbox.alike_of_lower ha.2 ha'.2 hboxes)

theorem rel_of_map_eq {Kind : α → Prop} {R : α → α → Prop} {o o' : Option α}
    (hR : ∀ {x y}, Kind x → Kind y → f x = f y → R x y) (ho : ∀ x, o = some x → Kind x)
    (ho' : ∀ y, o' = some y → Kind y) (h : o.map f = o'.map f) : Option.Rel R o o' := by
  cases o with
  | none =>
    obtain rfl := Option.map_eq_none_iff.mp h.symm
    exact .none
  | some x =>
    obtain ⟨y, rfl, hy⟩ := Option.map_eq_some_iff.mp h.symm
    exact .some (hR (ho x rfl) (ho' y rfl) hy.symm)

theorem Mailbox.parse?_alike (h : lowerAscii text = lowerAscii text') :
    Option.Rel Mailbox.Alike (Mailbox.parse? (encode text)) (Mailbox.parse? (encode text')) := by
  refine rel_of_map_eq Mailbox.alike_of_lower
    (fun _ => mailboxText_of_parse (isText_encode text))
    (fun _ => mailboxText_of_parse (isText_encode text')) ?_
  rw [← Mailbox.parse?_lowerBytes, ← Mailbox.parse?_lowerBytes, lowerBytes_encode_inj.mpr h]

theorem parseAddresses?_alike (h : lowerAscii text = lowerAscii text') :
    Option.Rel (List.Forall₂ Address.Alike) (parseAddresses? (encode text))
      (parseAddresses? (encode text')) := by
  refine rel_of_map_eq (forall₂_of_map_eq Address.alike_of_lower)
    (fun _ => addressText_of_parse (isText_encode text))
    (fun _ => addressText_of_parse (isText_encode text')) ?_
  rw [← parseAddresses?_lowerBytes, ← parseAddresses?_lowerBytes, lowerBytes_encode_inj.mpr h]

end Alike

end MailSearch
