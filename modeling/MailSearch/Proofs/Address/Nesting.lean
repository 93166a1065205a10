import MailSearch.Proofs.Address.Depth
import MailSearch.Proofs.Address.Specs

/-! # How deep comments nest in a run

The grammar goes through a text in step with a scan that knows quoted text and domain literals: at
every byte that a production takes, as many comments are open as the scan has counted.
-/

namespace MailSearch.Address

open MailSearch.Parser

variable {base : Nat} {p : Place} {b : UInt8}

namespace Place

theorem next_inside_zero (hpair : b ≠ '\\'.toUInt8) (hopen : b ≠ '('.toUInt8)
    (hquote : b ≠ '"'.toUInt8) (hbracket : b ≠ '['.toUInt8) :
    (inside 0).next b = inside 0 := by
  simp [next, inside, hpair, hopen, hquote, hbracket]

theorem next_inside_succ (hpair : b ≠ '\\'.toUInt8) (hopen : b ≠ '('.toUInt8)
    (hclose : b ≠ ')'.toUInt8) : (inside (base + 1)).next b = inside (base + 1) := by
  simp [next, inside, hpair, hopen, hclose]

theorem next_upTo {closer : UInt8} (hpair : b ≠ '\\'.toUInt8) (hclose : b ≠ closer) :
    (upTo closer).next b = upTo closer := by
  simp [next, upTo, hpair, hclose]

theorem depth_inside_le : (inside base).depth ≤ base := Nat.le_refl _

theorem depth_upTo_le {closer : UInt8} : (upTo closer).depth ≤ 0 := Nat.le_refl _

theorem ne_of_class {c : UInt8 → Bool} {x : UInt8} (hx : c x = false) (hb : c b = true) :
    b ≠ x := by
  rintro rfl
  rw [hx] at hb
  cases hb

end Place

open Place

namespace Tracks

theorem quotedPair (hb : p.depth ≤ base) (hp : p.escaped = false) :
    Tracks base p p quotedPair quotedPair := by
  have hopen : p.next '\\'.toUInt8 = { p with escaped := true } := by simp [Place.next, hp]
  have hclose : ∀ b, ({ p with escaped := true } : Place).next b = p := by
    intro b
    obtain ⟨d, c, e⟩ := p
    obtain rfl : e = false := hp
    rfl
  refine (byte hb hopen).bind fun _ => Tracks.bind (q := p) ?_ fun b => pure [b]
  exact satisfy hb fun b _ => hclose b

theorem blank (hb : p.depth ≤ base) (hp : ∀ b, isSpace b = true → p.next b = p) :
    Tracks base p p blank blank :=
  (run hb hp).bind fun _ => pure _

theorem content {closer : UInt8} {isText : UInt8 → Bool} (hpair : isText '\\'.toUInt8 = false)
    (hclose : isText closer = false) (hspace : isSpace closer = false) :
    Tracks 0 (upTo closer) (upTo closer) (content isText) (content isText) := by
  refine Tracks.bind (Tracks.many ?_) fun parts => pure _
  refine (run depth_upTo_le fun b hb => ?_).orElse (.orElse ?_ ?_)
  · exact next_upTo (ne_of_class hpair hb) (ne_of_class hclose hb)
  · exact Tracks.quotedPair depth_upTo_le rfl
  · refine Tracks.blank depth_upTo_le fun b hb => ?_
    exact next_upTo (ne_of_class rfl hb) (ne_of_class hspace hb)

theorem comment (bound : Bytes) :
    Tracks base (inside base) (inside base) (comment bound) (comment bound) := by
  induction bound generalizing base with
  | nil => exact failure
  | cons x bound ih =>
    have hopen : (inside base).next '('.toUInt8 = inside (base + 1) := rfl
    have hclose : (inside (base + 1)).next ')'.toUInt8 = inside base := rfl
    refine (byte depth_inside_le hopen).bind fun _ => nested ?_ (Nat.lt_succ_self _)
    refine Tracks.bind (Tracks.many ?_) fun _ => byte depth_inside_le hclose
    refine Tracks.orElse (Tracks.bind (q := inside (base + 1)) ?_ fun _ => pure ()) ih
    refine (run depth_inside_le fun b hb => ?_).orElse (.orElse ?_ ?_)
    · exact next_inside_succ (ne_of_class rfl hb) (ne_of_class rfl hb) (ne_of_class rfl hb)
    · exact Tracks.quotedPair depth_inside_le rfl
    · refine Tracks.blank depth_inside_le fun b hb => ?_
      exact next_inside_succ (ne_of_class rfl hb) (ne_of_class rfl hb) (ne_of_class rfl hb)

end Tracks

abbrev TracksOutside {α : Type} (probed : ByteParserT Probe α) (parser : ByteParser α) : Prop :=
  Tracks 0 (inside 0) (inside 0) probed parser

theorem tracks_byte {ch : Char} (h : (inside 0).next ch.toUInt8 = inside 0) :
    TracksOutside (byte ch) (byte ch) := .byte depth_inside_le h

theorem tracks_filler : TracksOutside filler filler := by
  refine Tracks.get.bind fun s =>
    Tracks.bind (Tracks.many (.orElse ?_ (.comment s))) fun _ => .pure ()
  refine Tracks.bind (q := inside 0) (.blank depth_inside_le fun b hb => ?_) fun _ => .pure ()
  exact next_inside_zero (ne_of_class rfl hb) (ne_of_class rfl hb) (ne_of_class rfl hb)
    (ne_of_class rfl hb)

theorem tracks_atom : TracksOutside atom atom := by
  refine tracks_filler.bind fun _ => Tracks.bind (q := inside 0) ?_ fun v =>
    tracks_filler.bind fun _ => .pure v
  refine .run depth_inside_le fun b hb => ?_
  exact next_inside_zero (ne_of_class rfl hb) (ne_of_class rfl hb) (ne_of_class rfl hb)
    (ne_of_class rfl hb)

theorem tracks_enclosed {α : Type} {opener closer : Char} {isText : UInt8 → Bool} {g : Bytes → α}
    (hopen : (inside 0).next opener.toUInt8 = upTo closer.toUInt8)
    (hclose : (upTo closer.toUInt8).next closer.toUInt8 = inside 0)
    (hcontent : Tracks 0 (upTo closer.toUInt8) (upTo closer.toUInt8) (content isText)
      (content isText)) :
    TracksOutside (enclosed opener closer isText g) (enclosed opener closer isText g) :=
  tracks_filler.bind fun _ => Tracks.bind (.byte depth_inside_le hopen) fun _ =>
    hcontent.bind fun v => Tracks.bind (.byte depth_upTo_le hclose) fun _ =>
      tracks_filler.bind fun _ => .pure (g v)

theorem tracks_quotedString : TracksOutside quotedString quotedString :=
  tracks_enclosed rfl rfl (.content rfl rfl rfl)

theorem tracks_word : TracksOutside word word := tracks_atom.orElse tracks_quotedString

theorem tracks_phrase : TracksOutside phrase phrase :=
  tracks_word.bind fun _ => Tracks.bind (Tracks.many (tracks_word.orElse
    ((tracks_byte rfl).bind fun _ => tracks_filler.bind fun _ => .pure _)))
      fun _ => .pure _

theorem tracks_localPart : TracksOutside localPart localPart :=
  .sepBy1 (tracks_byte rfl) tracks_word

theorem tracks_domainLiteral : TracksOutside domainLiteral domainLiteral :=
  tracks_enclosed rfl rfl (.content rfl rfl rfl)

theorem tracks_domain : TracksOutside domain domain :=
  (Tracks.sepBy1 (tracks_byte rfl) tracks_atom).orElse tracks_domainLiteral

theorem tracks_addrSpec : TracksOutside addrSpec addrSpec :=
  tracks_localPart.bind fun _ => (tracks_byte rfl).bind fun _ =>
    tracks_domain.bind fun _ => .pure _

theorem tracks_delimiter : TracksOutside delimiter delimiter :=
  (Tracks.many1 (tracks_filler.bind fun _ => (tracks_byte rfl).bind fun _ => tracks_filler)).bind
    fun _ => .pure ()

theorem tracks_route : TracksOutside route route :=
  (Tracks.sepBy1 tracks_delimiter ((tracks_byte rfl).bind fun _ => tracks_domain)).bind
    fun _ => tracks_byte rfl

theorem tracks_angleAddr : TracksOutside angleAddr angleAddr :=
  tracks_filler.bind fun _ => (tracks_byte rfl).bind fun _ => tracks_route.optional.bind fun _ =>
    tracks_addrSpec.bind fun spec => (tracks_byte rfl).bind fun _ =>
      tracks_filler.bind fun _ => .pure spec

theorem tracks_mailboxRule : TracksOutside mailboxRule mailboxRule :=
  (tracks_phrase.optional.bind fun _ => tracks_angleAddr.bind fun _ =>
    .pure _).orElse (tracks_addrSpec.bind fun _ => .pure _)

theorem tracks_listOf {α : Type} {probed : ByteParserT Probe α} {parser : ByteParser α}
    (h : TracksOutside probed parser) : TracksOutside (listOf probed) (listOf parser) :=
  tracks_delimiter.optional.bind fun _ => (Tracks.sepBy1 tracks_delimiter h).bind fun vs =>
    tracks_delimiter.optional.bind fun _ => .pure vs

theorem tracks_groupRule : TracksOutside groupRule groupRule :=
  tracks_phrase.bind fun _ => (tracks_byte rfl).bind fun _ =>
    (tracks_listOf tracks_mailboxRule).optional.bind fun _ => tracks_filler.bind fun _ =>
      (tracks_byte rfl).bind fun _ => tracks_filler.bind fun _ => .pure _

theorem tracks_addressRule : TracksOutside addressRule addressRule :=
  tracks_mailboxRule.map.orElse tracks_groupRule

def mailboxNesting (s : Bytes) : Nat := ((mailboxRule : ByteParserT Probe Mailbox) s).depth

def listNesting (s : Bytes) : Nat :=
  ((listOf addressRule : ByteParserT Probe (List Address)) s).depth

/-- To ask how deep the reading goes does not change what is read. -/
theorem probed_value (s : Bytes) :
    ((mailboxRule : ByteParserT Probe Mailbox) s).value? = mailboxRule s ∧
      ((listOf addressRule : ByteParserT Probe (List Address)) s).value? = listOf addressRule s :=
  ⟨tracks_mailboxRule.value s, (tracks_listOf tracks_addressRule).value s⟩

section Nesting

variable {α : Type} {probed : ByteParserT Probe α} {parser : ByteParser α}

theorem TracksOutside.depth_le (h : TracksOutside probed parser) (s : Bytes) :
    (probed s).depth ≤ deepest (inside 0) s := by
  have hle := h.le s
  omega

theorem TracksOutside.depth_eq (h : TracksOutside probed parser)
    (hs : (parser.parseAll s).isSome = true) : (probed s).depth = deepest (inside 0) s := by
  have hle := h.depth_le s
  unfold parseAll at hs
  split at hs
  · rename_i a hread
    have hrest := (h.rest hread).2
    have hnil : deepest (inside 0) [] = 0 := rfl
    omega
  · cases hs

end Nesting

end MailSearch.Address
