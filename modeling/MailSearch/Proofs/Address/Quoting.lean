import MailSearch.Address.Email
import MailSearch.Proofs.Address.Guard
import MailSearch.Proofs.Address.Joining
import MailSearch.Proofs.Text.Utf8

/-! # Addresses as they are written

Every text can be a local part: in quotation marks, with backslashes in front of white space,
quotation marks and backslashes, it is read as it was. A text that needs no quotation marks means
the same with them and without. So does the address in angle brackets, whatever name and whatever
route come before it.
-/

namespace MailSearch.Address

variable {limit depth : Nat} {s v : Bytes} {cs : List Char} {c : Char} {b : UInt8}

def escapedChars : List Char := ['"', '\\', ' ', '\t', '\r', '\n']

def escapeChar (c : Char) : List Char := if c ∈ escapedChars then ['\\', c] else [c]

def quote (text : String) : String :=
  "\"" ++ String.ofList (text.toList.flatMap escapeChar) ++ "\""

/-- Atoms with dots between them, and nothing else. -/
def IsDotAtom (text : String) : Prop :=
  ∃ parts : List String, parts ≠ [] ∧
    (∀ p ∈ parts, p ≠ "" ∧ ∀ b ∈ Utf8.encode p, isAtomText b = true) ∧ text = ".".intercalate parts

/-- The forms in which a local part may be written. -/
inductive Writes (text : String) : String → Prop
  | quoted : Writes text (quote text)
  | bare : IsDotAtom text → Writes text text

theorem toNat_lt_of_escaped (h : c ∈ escapedChars) : c.toNat < 0x80 := by
  simp only [escapedChars, List.mem_cons, List.not_mem_nil, or_false] at h
  rcases h with rfl | rfl | rfl | rfl | rfl | rfl <;> decide

theorem exists_escaped_of_not_text (h : isQuotedText b = false) :
    ∃ c ∈ escapedChars, c.toUInt8 = b := by
  simp only [isQuotedText, isSpace, isOneOf, List.any_cons, List.any_nil, Bool.or_false,
    Bool.and_eq_false_iff, Bool.not_eq_false', Bool.or_eq_true, beq_iff_eq] at h
  rcases h with (rfl | rfl | rfl | rfl) | rfl | rfl <;> exact ⟨_, by decide, rfl⟩

theorem isQuotedText_of_mem_encodeChar (hc : c ∉ escapedChars)
    (hb : b ∈ String.utf8EncodeChar c) : isQuotedText b = true := by
  cases htext : isQuotedText b with
  | true => rfl
  | false =>
    obtain ⟨d, hd, rfl⟩ := exists_escaped_of_not_text htext
    obtain rfl := (Utf8.toUInt8_mem_encodeChar (toNat_lt_of_escaped hd)).mp hb
    exact absurd hd hc

theorem encode_escapeChar_of_mem (h : c ∈ escapedChars) :
    (escapeChar c).flatMap String.utf8EncodeChar = ['\\'.toUInt8, c.toUInt8] := by
  rw [escapeChar, if_pos h]
  simp [Utf8.encodeChar_ascii (toNat_lt_of_escaped h),
    Utf8.encodeChar_ascii (c := '\\') (by decide)]

theorem encode_escapeChar_of_not_mem (h : c ∉ escapedChars) :
    (escapeChar c).flatMap String.utf8EncodeChar = String.utf8EncodeChar c := by
  rw [escapeChar, if_neg h]
  simp

end MailSearch.Address

namespace MailSearch.Grammar

open MailSearch.Address MailSearch.Parser Utf8
open Relation (TransGen)

variable {s t v rest : Bytes} {vs : List Bytes} {cs : List Char} {α : Type}

theorem Content.escaped (cs : List Char) (h : Content isQuotedText s v rest) :
    Content isQuotedText ((cs.flatMap escapeChar).flatMap String.utf8EncodeChar ++ s)
      (cs.flatMap String.utf8EncodeChar ++ v) rest := by
  induction cs with
  | nil => exact h
  | cons c cs ih =>
    rw [List.flatMap_cons, List.flatMap_append, List.append_assoc, List.flatMap_cons,
      List.append_assoc]
    by_cases hc : c ∈ escapedChars
    · rw [encode_escapeChar_of_mem hc, encodeChar_ascii (toNat_lt_of_escaped hc)]
      exact pair ih
    · rw [encode_escapeChar_of_not_mem hc]
      exact ih.append_text fun b hb => isQuotedText_of_mem_encodeChar hc hb

theorem encode_quote (text : String) :
    encode (quote text) = '"'.toUInt8 ::
      ((text.toList.flatMap escapeChar).flatMap String.utf8EncodeChar ++ ['"'.toUInt8]) := by
  have hmark : encode "\"" = ['"'.toUInt8] := rfl
  rw [quote, encode_append, encode_append, hmark, List.singleton_append, List.cons_append]
  simp [encode]

theorem quotedString_quote (text : String) (rest : Bytes) :
    QuotedString (encode (quote text) ++ rest) (encode text) rest := by
  have hvalue := Content.escaped text.toList
    (.nil : Content isQuotedText ('"'.toUInt8 :: rest) [] _)
  rw [List.append_nil] at hvalue
  refine ⟨_, rest, ?_, hvalue, .nil⟩
  rw [encode_quote, List.cons_append, List.append_assoc]
  exact .nil

theorem encode_ne_nil {text : String} (h : text ≠ "") : encode text ≠ [] := by
  intro hnil
  have hempty : encode text = encode "" := hnil
  have htext := congrArg decodeLossy hempty
  rw [decodeLossy_encode, decodeLossy_encode] at htext
  exact h htext

section SepBy

variable {Sep : Bytes → Bytes → Prop} {R : Bytes → α → Bytes → Prop} {x : α} {xs : List α}

theorem SepBy.imp {S : Bytes → α → Bytes → Prop} (h : SepBy Sep R s xs rest)
    (hRS : ∀ {s x rest}, R s x rest → S s x rest) : SepBy Sep S s xs rest := by
  obtain ⟨x, others, a, rfl, hx, hothers⟩ := h
  refine ⟨x, others, a, rfl, hRS hx, hothers.imp ?_⟩
  rintro s x rest ⟨b, hb, hx⟩
  exact ⟨b, hb, hRS hx⟩

theorem SepBy.cons {a b : Bytes} (hx : R s x a) (hsep : Sep a b) (h : SepBy Sep R b xs rest) :
    SepBy Sep R s (x :: xs) rest :=
  SepBy.join (.single hx) hsep h

end SepBy

theorem dottedDomain_of_parts {parts : List String} (hne : parts ≠ [])
    (hparts : ∀ p ∈ parts, p ≠ "" ∧ ∀ b ∈ encode p, isAtomText b = true) (hrest : BreaksAtom rest) :
    DottedDomain (encode (".".intercalate parts) ++ rest) (parts.map encode) rest := by
  have hatom : ∀ {p t}, p ≠ "" ∧ (∀ b ∈ encode p, isAtomText b = true) → BreaksAtom t →
      Atom (encode p ++ t) (encode p) t := by
    rintro p t ⟨hp, hall⟩ ht
    exact ⟨_, t, .nil, ⟨rfl, encode_ne_nil hp, hall, ht⟩, .nil⟩
  induction parts with
  | nil => exact absurd rfl hne
  | cons p parts ih =>
    obtain ⟨hp, hparts⟩ := List.forall_mem_cons.mp hparts
    cases parts with
    | nil =>
      rw [String.intercalate_singleton]
      exact SepBy.single (hatom hp hrest)
    | cons q parts =>
      have hdot : encode "." = ['.'.toUInt8] := rfl
      rw [String.intercalate_cons_cons, encode_append, encode_append, hdot, List.append_assoc,
        List.append_assoc]
      exact SepBy.cons (hatom hp (breaksAtom_cons rfl)) rfl (ih (List.cons_ne_nil _ _) hparts)

/-- An address in either form is derived as what was written. -/
theorem exists_addrSpec_of_writes {l d form : String} (hl : Writes l form) (hd : IsDotAtom d)
    (hrest : BreaksAtom rest) :
    ∃ spec, AddrSpec (encode (form ++ "@" ++ d) ++ rest) spec rest ∧
      EmailAddress.ofSpec spec = ⟨l, d⟩ := by
  obtain ⟨parts, hne, hparts, rfl⟩ := hd
  have hjoin : ∀ ts : List String, EmailAddress.joinParts (ts.map encode) = ".".intercalate ts := by
    intro ts
    simp [EmailAddress.joinParts, Function.comp_def, decodeLossy_encode]
  have hat : encode "@" = ['@'.toUInt8] := rfl
  have hdomain := dottedDomain_of_parts hne hparts hrest
  rw [encode_append, encode_append, hat, List.append_assoc, List.append_assoc]
  cases hl with
  | quoted =>
    have hlocal := quotedString_quote l ('@'.toUInt8 :: (encode (".".intercalate parts) ++ rest))
    refine ⟨⟨[encode l], parts.map encode⟩, ⟨_, _, .single (.inr hlocal), rfl, .inl hdomain⟩, ?_⟩
    rw [EmailAddress.ofSpec, hjoin parts]
    exact congrArg (EmailAddress.mk · _) ((hjoin [l]).trans String.intercalate_singleton)
  | bare hl =>
    obtain ⟨words, hwne, hwords, rfl⟩ := hl
    have hmark : BreaksAtom ('@'.toUInt8 :: (encode (".".intercalate parts) ++ rest)) :=
      breaksAtom_cons rfl
    have hlocal := dottedDomain_of_parts hwne hwords hmark
    refine ⟨⟨words.map encode, parts.map encode⟩,
      ⟨_, _, SepBy.imp hlocal .inl, rfl, .inl hdomain⟩, ?_⟩
    rw [EmailAddress.ofSpec, hjoin words, hjoin parts]

section Routes

variable {Sep : Bytes → Bytes → Prop} {R : Bytes → α → Bytes → Prop} {xs : List α}

theorem Filler.ne_nil (h : Filler s rest) (hrest : rest ≠ []) : s ≠ [] := by
  cases h with
  | nil => exact hrest
  | space _ _ => exact List.cons_ne_nil _ _
  | comment _ _ => exact List.cons_ne_nil _ _

theorem SepBy.extend_followed (h : SepBy Sep R s xs rest) (hrest : rest ≠ [])
    (hne : ∀ {s rest}, Sep s rest → s ≠ [])
    (hsep : ∀ {s rest}, Sep s rest → Sep (s ++ t) (rest ++ t))
    (hR : ∀ {s x rest}, R s x rest → rest ≠ [] → R (s ++ t) x (rest ++ t)) :
    SepBy Sep R (s ++ t) xs (rest ++ t) := by
  obtain ⟨x, others, a, rfl, hx, hothers⟩ := h
  have hstart : ∀ {s x rest}, (∃ b, Sep s b ∧ R b x rest) → s ≠ [] := by
    rintro s x rest ⟨b, hb, -⟩
    exact hne hb
  have ha : a ≠ [] := by
    cases hothers with
    | nil => exact hrest
    | cons hx _ => exact hstart hx
  refine ⟨x, others, a ++ t, rfl, hR hx ha, (hothers.followed hstart hrest).map (· ++ t) ?_⟩
  rintro s x rest ⟨⟨b, hb, hx⟩, hrest⟩
  exact ⟨b ++ t, hsep hb, hR hx hrest⟩

theorem Atom.extend_followed (h : Atom s v rest) (hrest : rest ≠ []) (t : Bytes) :
    Atom (s ++ t) v (rest ++ t) := by
  obtain ⟨a, b, hs, hv, hb⟩ := h
  obtain ⟨x, b, rfl⟩ := List.exists_cons_of_ne_nil (hb.ne_nil hrest)
  exact ⟨a ++ t, _, hs.extend t, hv.extend hv.stops, hb.extend t⟩

theorem RouteHost.extend_followed (h : RouteHost s vs rest) (hrest : rest ≠ []) (t : Bytes) :
    RouteHost (s ++ t) vs (rest ++ t) := by
  obtain ⟨a, rfl, hdotted | hliteral⟩ := h
  · have hdomain : DottedDomain (a ++ t) vs (rest ++ t) :=
      SepBy.extend_followed hdotted hrest (fun h => h ▸ List.cons_ne_nil _ _)
        (congrArg (· ++ t)) fun hv hne => hv.extend_followed hne t
    exact ⟨a ++ t, rfl, .inl hdomain⟩
  · exact ⟨a ++ t, rfl, .inr (hliteral.extend t)⟩

theorem Route.extend_colon (h : Route s rest) (t : Bytes) : Route (s ++ t) (rest ++ t) := by
  obtain ⟨hosts, a, hhosts, rfl⟩ := h
  have hne : ∀ {s rest}, TransGen Delimiter s rest → s ≠ [] := by
    intro s rest hd
    obtain ⟨a, ⟨b, hs, -⟩, -⟩ := TransGen.head'_iff.mp hd
    exact hs.ne_nil (List.cons_ne_nil _ _)
  exact ⟨hosts, _, hhosts.extend_followed (List.cons_ne_nil _ _) hne
    (fun hd => transGen_extend hd t) fun hx hrest => hx.extend_followed hrest t, rfl⟩

end Routes

end MailSearch.Grammar

namespace MailSearch.Address

open Grammar

variable {limit : Nat} {s v : Bytes} {l d form : String}

def isGuardMark (b : UInt8) : Bool := isOneOf ['\\', '"', '(', ')'] b

theorem shallow_append_plain (hv : ∀ b ∈ v, isGuardMark b = false) :
    shallow limit 0 false false (v ++ s) = shallow limit 0 false false s := by
  induction v with
  | nil => rfl
  | cons b v ih =>
    obtain ⟨hb, hv⟩ := List.forall_mem_cons.mp hv
    simp only [isGuardMark, isOneOf, List.any_cons, List.any_nil, Bool.or_false,
      Bool.or_eq_false_iff, beq_eq_false_iff_ne] at hb
    obtain ⟨hpair, hquote, hopen, hclose⟩ := hb
    rw [List.cons_append, shallow]
    simp [Ne.symm hpair, Ne.symm hquote, Ne.symm hopen, Ne.symm hclose, ih hv]

theorem not_guardMark_of_quotedText {b : UInt8} (hb : isQuotedText b = true) :
    b ≠ '"'.toUInt8 ∧ b ≠ '\\'.toUInt8 := by
  refine ⟨?_, (plain_isQuotedText b hb).2⟩
  rintro rfl
  exact absurd hb (by decide)

theorem shallow_append_escaped (cs : List Char) :
    shallow limit 0 true false ((cs.flatMap escapeChar).flatMap String.utf8EncodeChar ++ s) =
      shallow limit 0 true false s := by
  induction cs with
  | nil => rfl
  | cons c cs ih =>
    rw [List.flatMap_cons, List.flatMap_append, List.append_assoc]
    by_cases hc : c ∈ escapedChars
    · rw [encode_escapeChar_of_mem hc, ← ih]
      rfl
    · rw [encode_escapeChar_of_not_mem hc, ← ih]
      exact shallow_append_quoted fun b hb =>
        not_guardMark_of_quotedText (isQuotedText_of_mem_encodeChar hc hb)

theorem isGuardMark_of_isAtomText {b : UInt8} (hb : isAtomText b = true) :
    isGuardMark b = false := by
  cases hmark : isGuardMark b with
  | false => rfl
  | true =>
    simp only [isGuardMark, isOneOf, List.any_cons, List.any_nil, Bool.or_false, Bool.or_eq_true,
      beq_iff_eq] at hmark
    rcases hmark with rfl | rfl | rfl | rfl <;> exact absurd hb (by decide)

theorem not_guardMark_of_dotAtom (hd : IsDotAtom d) :
    ∀ b ∈ Utf8.encode d, isGuardMark b = false := by
  obtain ⟨parts, -, hparts, rfl⟩ := hd
  induction parts with
  | nil => simp [Utf8.encode]
  | cons p parts ih =>
    obtain ⟨⟨-, hp⟩, hparts⟩ := List.forall_mem_cons.mp hparts
    have hp : ∀ b ∈ Utf8.encode p, isGuardMark b = false := fun b hb =>
      isGuardMark_of_isAtomText (hp b hb)
    have hdot : ∀ b ∈ ['.'.toUInt8], isGuardMark b = false := List.forall_mem_singleton.mpr rfl
    cases parts with
    | nil => rwa [String.intercalate_singleton]
    | cons q parts =>
      rw [String.intercalate_cons_cons, Utf8.encode_append, Utf8.encode_append]
      exact List.forall_mem_append.mpr ⟨List.forall_mem_append.mpr ⟨hp, hdot⟩, ih hparts⟩

theorem shallow_append_written (hl : Writes l form) :
    shallow limit 0 false false (Utf8.encode form ++ s) = shallow limit 0 false false s := by
  cases hl with
  | quoted =>
    rw [encode_quote, List.cons_append, List.append_assoc]
    exact shallow_append_escaped l.toList
  | bare hl => exact shallow_append_plain (not_guardMark_of_dotAtom hl)

/-- An address that stands alone has no comments. -/
theorem commentsShallow_written (hl : Writes l form) (hd : IsDotAtom d) :
    commentsShallow (Utf8.encode (form ++ "@" ++ d)) = true := by
  have hmark : Utf8.encode "@" = ['@'.toUInt8] := rfl
  have hat : ∀ b ∈ ['@'.toUInt8], isGuardMark b = false := List.forall_mem_singleton.mpr rfl
  have hend : shallow commentLimit 0 false false (Utf8.encode d ++ []) = true :=
    shallow_append_plain (not_guardMark_of_dotAtom hd)
  rw [List.append_nil] at hend
  rw [commentsShallow, Utf8.encode_append, Utf8.encode_append, List.append_assoc,
    shallow_append_written hl, hmark, shallow_append_plain hat, hend]

end MailSearch.Address

namespace MailSearch

open Address Utf8

variable {l d form : String}

theorem EmailAddress.parse_of_mailbox {text : String} {box : Mailbox}
    (hshallow : commentsShallow (encode text) = true)
    (hbox : Grammar.Mailbox (encode text) box []) :
    EmailAddress.parse text = .ok (.ofSpec box.addr) := by
  rw [EmailAddress.parse, Mailbox.parse?_eq_some_iff.mpr ⟨hshallow, hbox⟩]

theorem Grammar.exists_mailbox_of_angle {name route spec : Bytes} {addr : MailSearch.AddrSpec}
    (hname : name = [] ∨ ∃ words, Phrase name words []) (hroute : route = [] ∨ Route route [])
    (haddr : Grammar.AddrSpec (spec ++ ['>'.toUInt8]) addr ['>'.toUInt8]) :
    ∃ words, Grammar.Mailbox (name ++ '<'.toUInt8 :: (route ++ (spec ++ ['>'.toUInt8])))
      ⟨words, addr⟩ [] := by
  have hinside : spec ++ ['>'.toUInt8] = route ++ (spec ++ ['>'.toUInt8]) ∨
      Route (route ++ (spec ++ ['>'.toUInt8])) (spec ++ ['>'.toUInt8]) := by
    rcases hroute with rfl | hroute
    · exact .inl rfl
    · exact .inr (hroute.extend_colon _)
  have hangle : AngleAddr ('<'.toUInt8 :: (route ++ (spec ++ ['>'.toUInt8]))) addr [] :=
    ⟨_, _, [], .nil, hinside, haddr, .nil⟩
  rcases hname with rfl | ⟨words, hname⟩
  · exact ⟨[], .angle hangle⟩
  · exact ⟨words, .named (hname.extend (breaksAtom_cons rfl)) hangle⟩

/-- A written address is read again as itself, alone or in angle brackets behind any name and route.
-/
theorem EmailAddress.parse_written (hl : Writes l form) (hd : IsDotAtom d) :
    EmailAddress.parse (form ++ "@" ++ d) = .ok ⟨l, d⟩ ∧
    ∀ name route : String,
      name = "" ∨ (∃ words, Grammar.Phrase (encode name) words []) →
      route = "" ∨ Grammar.Route (encode route) [] →
      commentsShallow (encode (name ++ "<" ++ route ++ form ++ "@" ++ d ++ ">")) = true →
      EmailAddress.parse (name ++ "<" ++ route ++ form ++ "@" ++ d ++ ">") = .ok ⟨l, d⟩ := by
  constructor
  · have hend : Grammar.BreaksAtom [] := by rintro b ⟨⟩
    obtain ⟨spec, hspec, hmeans⟩ := Grammar.exists_addrSpec_of_writes hl hd hend
    rw [List.append_nil] at hspec
    rw [← hmeans]
    exact parse_of_mailbox (commentsShallow_written hl hd) (.bare hspec)
  · intro name route hname hroute hshallow
    have hend : Grammar.BreaksAtom ['>'.toUInt8] := Grammar.breaksAtom_cons rfl
    obtain ⟨spec, hspec, hmeans⟩ := Grammar.exists_addrSpec_of_writes hl hd hend
    have hname : encode name = [] ∨ ∃ words, Grammar.Phrase (encode name) words [] :=
      hname.imp_left (congrArg encode)
    have hroute : encode route = [] ∨ Grammar.Route (encode route) [] :=
      hroute.imp_left (congrArg encode)
    obtain ⟨words, hbox⟩ := Grammar.exists_mailbox_of_angle hname hroute hspec
    have hopen : encode "<" = ['<'.toUInt8] := rfl
    have hclose : encode ">" = ['>'.toUInt8] := rfl
    have htext : encode (name ++ "<" ++ route ++ form ++ "@" ++ d ++ ">") = encode name ++
        '<'.toUInt8 :: (encode route ++ (encode (form ++ "@" ++ d) ++ ['>'.toUInt8])) := by
      simp only [encode_append, hopen, hclose, List.append_assoc, List.cons_append,
        List.nil_append]
    rw [← hmeans]
    exact parse_of_mailbox hshallow (htext ▸ hbox)

/-- Parentheses that are no comments, and a local part of two words. -/
theorem EmailAddress.parse_written_decorated :
    EmailAddress.parse
        ("J. \"(\" " ++ "<" ++ "@x,,@[(] :" ++ quote "(\u00e9 \"" ++ "@" ++ "d.e" ++ ">") =
      .ok ⟨"(\u00e9 \"", "d.e"⟩ := by
  have hd : IsDotAtom "d.e" := ⟨["d", "e"], by decide, by decide +kernel, by decide⟩
  have hname : Grammar.Phrase (encode "J. \"(\" ") [encode "J", encode ".", encode "("] [] :=
    reads_phrase.sound (by decide +kernel)
  have hread : (route : ByteParser Unit) (encode "@x,,@[(] :") = some ((), []) := by
    decide +kernel
  exact (EmailAddress.parse_written .quoted hd).2 _ _ (.inr ⟨_, hname⟩)
    (.inr (route_sound hread)) (by decide +kernel)

end MailSearch
