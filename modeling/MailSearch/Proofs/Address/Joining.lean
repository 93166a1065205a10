import MailSearch.Proofs.Address.Mailboxes

/-! # Address lists joined

A derivation goes through with more text behind it, provided that the text does not go on with an
atom: nothing else in the grammar looks past its own end. A comma does not, so that two lists with a
comma between them are one list.
-/

namespace MailSearch.Grammar

open MailSearch.Address MailSearch.Parser
open Relation (ReflTransGen TransGen)

variable {s mid rest v t : Bytes} {vs : List Bytes} {isText : UInt8 → Bool} {α : Type}

theorem CommentBody.extend (h : CommentBody s rest) (t : Bytes) :
    CommentBody (s ++ t) (rest ++ t) := by
  induction h with
  | close => exact close
  | text hb _ ih => exact text hb ih
  | pair _ ih => exact pair ih
  | comment _ _ ih ih' => exact comment ih ih'

theorem Filler.extend (h : Filler s rest) (t : Bytes) : Filler (s ++ t) (rest ++ t) := by
  induction h with
  | nil => exact nil
  | space hb _ ih => exact space hb ih
  | comment hc _ ih => exact comment (hc.extend t) ih

theorem Run.extend {c : UInt8 → Bool} (h : Run c s v rest)
    (ht : ∀ b ∈ (rest ++ t).head?, c b = false) : Run c (s ++ t) v (rest ++ t) where
  append := by rw [h.append, List.append_assoc]
  nonempty := h.nonempty
  all := h.all
  stops := ht

theorem Content.ne_nil (h : Content isText s v rest) (hrest : rest ≠ []) : s ≠ [] := by
  cases h with
  | nil => exact hrest
  | text => exact List.cons_ne_nil _ _
  | pair => exact List.cons_ne_nil _ _
  | space hr _ =>
    obtain ⟨b, t, rfl, -⟩ := hr.exists_cons
    exact List.cons_ne_nil _ _

theorem Content.extend (h : Content isText s v rest) (hrest : rest ≠ []) (t : Bytes) :
    Content isText (s ++ t) v (rest ++ t) := by
  induction h with
  | nil => exact nil
  | text hb _ ih => exact text hb (ih hrest)
  | pair _ ih => exact pair (ih hrest)
  | space hr hmid ih =>
    obtain ⟨b, mid, rfl⟩ := List.exists_cons_of_ne_nil (hmid.ne_nil hrest)
    exact space (hr.extend hr.stops) (ih hrest)

theorem QuotedString.extend (h : QuotedString s v rest) (t : Bytes) :
    QuotedString (s ++ t) v (rest ++ t) := by
  obtain ⟨a, b, hs, hv, hb⟩ := h
  exact ⟨a ++ t, b ++ t, hs.extend t, hv.extend (List.cons_ne_nil _ _) t, hb.extend t⟩

theorem DomainLiteral.extend (h : DomainLiteral s vs rest) (t : Bytes) :
    DomainLiteral (s ++ t) vs (rest ++ t) := by
  obtain ⟨a, b, v, hs, hv, hb, hvs⟩ := h
  exact ⟨a ++ t, b ++ t, v, hs.extend t, hv.extend (List.cons_ne_nil _ _) t, hb.extend t, hvs⟩

theorem NameDot.extend (h : NameDot s v rest) (t : Bytes) : NameDot (s ++ t) v (rest ++ t) := by
  obtain ⟨a, rfl, ha, hv⟩ := h
  exact ⟨a ++ t, rfl, ha.extend t, hv⟩

theorem Delimiter.extend (h : Delimiter s rest) (t : Bytes) : Delimiter (s ++ t) (rest ++ t) := by
  obtain ⟨a, hs, ha⟩ := h
  exact ⟨a ++ t, hs.extend t, ha.extend t⟩

theorem transGen_extend (h : TransGen Delimiter s rest) (t : Bytes) :
    TransGen Delimiter (s ++ t) (rest ++ t) :=
  h.lift (· ++ t) fun _ _ hd => hd.extend t

theorem reflTransGen_extend (h : ReflTransGen Delimiter s rest) (t : Bytes) :
    ReflTransGen Delimiter (s ++ t) (rest ++ t) :=
  h.lift (· ++ t) fun _ _ hd => hd.extend t

section SepBy

variable {Sep : Bytes → Bytes → Prop} {R : Bytes → α → Bytes → Prop} {xs ys : List α}

theorem SepBy.extend (h : SepBy Sep R s xs rest)
    (hsep : ∀ {s rest}, Sep s rest → Sep (s ++ t) (rest ++ t))
    (hR : ∀ {s x rest}, R s x rest → R (s ++ t) x (rest ++ t)) :
    SepBy Sep R (s ++ t) xs (rest ++ t) := by
  obtain ⟨x, others, a, rfl, hx, hothers⟩ := h
  refine ⟨x, others, a ++ t, rfl, hR hx, hothers.map (· ++ t) ?_⟩
  rintro s x rest ⟨b, hb, hx⟩
  exact ⟨b ++ t, hsep hb, hR hx⟩

theorem ListOf.extend (h : ListOf R s xs rest)
    (hR : ∀ {s x rest}, R s x rest → R (s ++ t) x (rest ++ t)) :
    ListOf R (s ++ t) xs (rest ++ t) := by
  obtain ⟨a, b, hbefore, hxs, hafter⟩ := h
  exact ⟨a ++ t, b ++ t, reflTransGen_extend hbefore t,
    hxs.extend (fun hd => transGen_extend hd t) hR, reflTransGen_extend hafter t⟩

theorem SepBy.join {mid' : Bytes} (h : SepBy Sep R s xs mid) (hsep : Sep mid mid')
    (h' : SepBy Sep R mid' ys rest) : SepBy Sep R s (xs ++ ys) rest := by
  obtain ⟨x, others, a, rfl, hx, hothers⟩ := h
  obtain ⟨y, others', b, rfl, hy, hothers'⟩ := h'
  exact ⟨x, others ++ y :: others', a, rfl, hx, hothers.append (.cons ⟨mid', hsep, hy⟩ hothers')⟩

/-- The delimiters at the two ends become one with the delimiter between. -/
theorem ListOf.join {mid' : Bytes} (h : ListOf R s xs mid) (hd : Delimiter mid mid')
    (h' : ListOf R mid' ys rest) : ListOf R s (xs ++ ys) rest := by
  obtain ⟨a, b, hbefore, hxs, hafter⟩ := h
  obtain ⟨a', b', hbefore', hys, hafter'⟩ := h'
  have hbetween : TransGen Delimiter b a' := .trans_left (.tail' hafter hd) hbefore'
  exact ⟨a, b', hbefore, hxs.join hbetween hys, hafter'⟩

theorem SepBy.single {x : α} (h : R s x rest) : SepBy Sep R s [x] rest :=
  ⟨x, [], rest, rfl, h, .nil⟩

theorem ListOf.single {x : α} (h : R s x rest) : ListOf R s [x] rest :=
  ⟨s, rest, .refl, .single h, .refl⟩

end SepBy

/-- Nothing that continues an atom is at the front. -/
def BreaksAtom (t : Bytes) : Prop := ∀ b ∈ t.head?, isAtomText b = false

theorem BreaksAtom.stops (ht : BreaksAtom t) (h : ∀ b ∈ rest.head?, isAtomText b = false) :
    ∀ b ∈ (rest ++ t).head?, isAtomText b = false := by
  cases rest with
  | nil => exact ht
  | cons b rest => exact h

section Productions

variable {name : List Bytes} {spec : MailSearch.AddrSpec} {boxes : List MailSearch.Mailbox}
variable {box : MailSearch.Mailbox} {address : MailSearch.Address} (ht : BreaksAtom t)
include ht

theorem Atom.extend (h : Atom s v rest) : Atom (s ++ t) v (rest ++ t) := by
  obtain ⟨a, b, hs, hv, hb⟩ := h
  exact ⟨a ++ t, b ++ t, hs.extend t, hv.extend (ht.stops hv.stops), hb.extend t⟩

theorem Word.extend (h : Word s v rest) : Word (s ++ t) v (rest ++ t) := by
  rcases h with h | h
  · exact .inl (h.extend ht)
  · exact .inr (h.extend t)

theorem Phrase.extend (h : Phrase s name rest) : Phrase (s ++ t) name (rest ++ t) := by
  obtain ⟨v, others, a, rfl, hv, hothers⟩ := h
  refine ⟨v, others, a ++ t, rfl, hv.extend ht, hothers.map (· ++ t) ?_⟩
  rintro s v rest (hv | hv)
  · exact .inl (hv.extend ht)
  · exact .inr (hv.extend t)

theorem Domain.extend (h : Domain s vs rest) : Domain (s ++ t) vs (rest ++ t) := by
  rcases h with h | h
  · exact .inl (SepBy.extend h (congrArg (· ++ t)) fun hv => hv.extend ht)
  · exact .inr (h.extend t)

theorem AddrSpec.extend (h : AddrSpec s spec rest) : AddrSpec (s ++ t) spec (rest ++ t) := by
  obtain ⟨a, b, hlocal, rfl, hdomain⟩ := h
  exact ⟨_, b ++ t, SepBy.extend hlocal (congrArg (· ++ t)) fun hv => hv.extend ht, rfl,
    hdomain.extend ht⟩

theorem RouteHost.extend (h : RouteHost s vs rest) : RouteHost (s ++ t) vs (rest ++ t) := by
  obtain ⟨a, rfl, hdomain⟩ := h
  exact ⟨a ++ t, rfl, hdomain.extend ht⟩

theorem Route.extend (h : Route s rest) : Route (s ++ t) (rest ++ t) := by
  obtain ⟨hosts, a, hhosts, rfl⟩ := h
  exact ⟨hosts, _, hhosts.extend (fun hd => transGen_extend hd t) fun hv => hv.extend ht, rfl⟩

theorem AngleAddr.extend (h : AngleAddr s spec rest) : AngleAddr (s ++ t) spec (rest ++ t) := by
  obtain ⟨a, b, c, hs, hroute, hspec, hc⟩ := h
  refine ⟨a ++ t, b ++ t, c ++ t, hs.extend t, ?_, hspec.extend ht, hc.extend t⟩
  rcases hroute with rfl | hroute
  · exact .inl rfl
  · exact .inr (hroute.extend ht)

theorem Mailbox.extend (h : Mailbox s box rest) : Mailbox (s ++ t) box (rest ++ t) := by
  cases h with
  | named hname hspec => exact named (hname.extend ht) (hspec.extend ht)
  | angle hspec => exact angle (hspec.extend ht)
  | bare hspec => exact bare (hspec.extend ht)

theorem Members.extend (h : Members s boxes rest) : Members (s ++ t) boxes (rest ++ t) := by
  cases h with
  | none hs => exact none (hs.extend t)
  | some hboxes ha => exact some (hboxes.extend fun hbox => hbox.extend ht) (ha.extend t)

theorem Address.extend (h : Address s address rest) : Address (s ++ t) address (rest ++ t) := by
  cases h with
  | mailbox hbox => exact mailbox (hbox.extend ht)
  | group hname hboxes hb => exact group (hname.extend ht) (hboxes.extend ht) (hb.extend t)

end Productions

theorem breaksAtom_cons {c : Char} (hc : isAtomText c.toUInt8 = false) :
    BreaksAtom (c.toUInt8 :: s) := by
  rintro b ⟨⟩
  exact hc

theorem breaksAtom_comma (s : Bytes) : BreaksAtom (','.toUInt8 :: s) := breaksAtom_cons rfl

end MailSearch.Grammar

namespace MailSearch

open Address

variable {s a b : Bytes} {box : Mailbox} {xs ys : List MailSearch.Address}

/-- A comma between two address lists makes one list of them. -/
theorem parseAddresses_append_comma (ha : parseAddresses? a = some xs)
    (hb : parseAddresses? b = some ys) (h : commentsShallow (a ++ ','.toUInt8 :: b) = true) :
    parseAddresses? (a ++ ','.toUInt8 :: b) = some (xs ++ ys) := by
  obtain ⟨-, hxs⟩ := parseAddresses?_eq_some_iff.mp ha
  obtain ⟨-, hys⟩ := parseAddresses?_eq_some_iff.mp hb
  have hfirst : Grammar.ListOf Grammar.Address (a ++ ','.toUInt8 :: b) xs (','.toUInt8 :: b) :=
    hxs.extend fun hx => hx.extend (Grammar.breaksAtom_comma b)
  have hcomma : Grammar.Delimiter (','.toUInt8 :: b) b := ⟨b, .nil, .nil⟩
  exact parseAddresses?_eq_some_iff.mpr ⟨h, hfirst.join hcomma hys⟩

/-- Both lists have commas where they meet, one of them in a comment. -/
theorem parseAddresses_append_comma_group :
    parseAddresses? (Utf8.encode "G:\"x,\"@y,;(,),") =
        some [.group [Utf8.encode "G"] [⟨[], ⟨[Utf8.encode "x,"], [Utf8.encode "y"]⟩⟩]] ∧
      parseAddresses? (Utf8.encode ",z@[,]") =
        some [.mailbox ⟨[], ⟨[Utf8.encode "z"], [Utf8.encode "[,]"]⟩⟩] ∧
      commentsShallow
        (Utf8.encode "G:\"x,\"@y,;(,)," ++ ','.toUInt8 :: Utf8.encode ",z@[,]") = true ∧
      parseAddresses? (Utf8.encode "G:\"x,\"@y,;(,)," ++ ','.toUInt8 :: Utf8.encode ",z@[,]") =
        some ([.group [Utf8.encode "G"] [⟨[], ⟨[Utf8.encode "x,"], [Utf8.encode "y"]⟩⟩]] ++
          [.mailbox ⟨[], ⟨[Utf8.encode "z"], [Utf8.encode "[,]"]⟩⟩]) := by
  refine ⟨?group, ?mailbox, ?shallow, parseAddresses_append_comma ?group ?mailbox ?shallow⟩ <;>
    decide +kernel

end MailSearch
