import MailSearch.Proofs.Address.Joining

/-! # Empty list elements

A list may have more commas in it than it needs: several in a row between two elements, some before
the first and some after the last. So may the list of members of a group. They stand for nothing,
however many there are, as long as there is an element: commas alone are no list, nor are they the
members of a group.
-/

namespace MailSearch.Grammar

open MailSearch.Address MailSearch.Parser
open Relation (ReflTransGen TransGen)

def Gap (s : Bytes) : Prop := ∀ b ∈ s, isSpace b = true

/-- That many commas, with any white space around them. -/
inductive Commas : Nat → Bytes → Prop
  | none : Commas 0 []
  | more {n : Nat} {before after rest : Bytes} : Gap before → Gap after → Commas n rest →
      Commas (n + 1) (before ++ ','.toUInt8 :: (after ++ rest))

inductive Elements {α : Type} (W : α → Bytes → Prop) : List α → Bytes → Prop
  | one {x : α} {s : Bytes} : W x s → Elements W [x] s
  | more {n : Nat} {x : α} {xs : List α} {s commas rest : Bytes} : W x s → Commas (n + 1) commas →
      Elements W xs rest → Elements W (x :: xs) (s ++ commas ++ rest)

/-- Elements, with further commas before the first and after the last. -/
inductive Listing {α : Type} (W : α → Bytes → Prop) : List α → Bytes → Prop
  | intro {n m : Nat} {xs : List α} {before s after : Bytes} : Commas n before → Elements W xs s →
      Commas m after → Listing W xs (before ++ s ++ after)

/-- A mailbox by any text that is read as it, a group by its name and members. -/
inductive WritesAddress : MailSearch.Address → Bytes → Prop
  | mailbox {box : MailSearch.Mailbox} {s : Bytes} : Mailbox.parse? s = some box →
      WritesAddress (.mailbox box) s
  | emptyGroup {name : List Bytes} {s gap : Bytes} : parseAll phrase s = some name → Gap gap →
      WritesAddress (.group name []) (s ++ ':'.toUInt8 :: (gap ++ [';'.toUInt8]))
  | group {name : List Bytes} {boxes : List MailSearch.Mailbox} {s members : Bytes} :
      parseAll phrase s = some name →
      Listing (fun box s => Mailbox.parse? s = some box) boxes members →
      WritesAddress (.group name boxes) (s ++ ':'.toUInt8 :: (members ++ [';'.toUInt8]))

variable {s t rest : Bytes} {n : Nat} {name : List Bytes}

theorem Gap.delimiter {before after : Bytes} (hbefore : Gap before) (hafter : Gap after) :
    Delimiter (before ++ ','.toUInt8 :: (after ++ rest) ++ t) (rest ++ t) := by
  refine ⟨after ++ (rest ++ t), ?_, .of_spaces hafter⟩
  simpa using Filler.of_spaces hbefore

theorem Commas.reflTransGen (h : Commas n s) : ReflTransGen Delimiter (s ++ t) t := by
  induction h with
  | none => exact .refl
  | more hbefore hafter _ ih => exact .head (hbefore.delimiter hafter) ih

theorem Commas.transGen (h : Commas (n + 1) s) : TransGen Delimiter (s ++ t) t := by
  cases h with
  | more hbefore hafter hrest => exact .head' (hbefore.delimiter hafter) hrest.reflTransGen

theorem isAtomText_of_isSpace {b : UInt8} (h : isSpace b = true) : isAtomText b = false := by
  rw [Bool.eq_false_iff]
  intro hb
  have hfiller := opensFiller_of_isAtomText hb
  rw [opensFiller, h] at hfiller
  cases hfiller

theorem Gap.breaksAtom (h : Gap s) (ht : BreaksAtom t) : BreaksAtom (s ++ t) := by
  cases s with
  | nil => exact ht
  | cons b s =>
    rintro b ⟨⟩
    exact isAtomText_of_isSpace (h b List.mem_cons_self)

theorem Commas.breaksAtom_succ (h : Commas (n + 1) s) : BreaksAtom (s ++ t) := by
  cases h with
  | more hbefore =>
    rw [List.append_assoc]
    exact hbefore.breaksAtom (breaksAtom_comma _)

theorem Commas.breaksAtom (h : Commas n s) (ht : BreaksAtom t) : BreaksAtom (s ++ t) := by
  cases n with
  | zero =>
    cases h
    exact ht
  | succ n => exact h.breaksAtom_succ

section Lists

variable {α : Type} {W : α → Bytes → Prop} {R : Bytes → α → Bytes → Prop} {xs : List α}
variable (hW : ∀ {x s t}, W x s → BreaksAtom t → R (s ++ t) x t)
include hW

theorem Elements.sepBy (h : Elements W xs s) (ht : BreaksAtom t) :
    SepBy (TransGen Delimiter) R (s ++ t) xs t := by
  induction h with
  | one hx => exact .single (hW hx ht)
  | more hx hcommas _ ih =>
    rw [List.append_assoc, List.append_assoc]
    exact (SepBy.single (hW hx hcommas.breaksAtom_succ)).join hcommas.transGen ih

theorem Listing.listOf (h : Listing W xs s) (ht : BreaksAtom t) : ListOf R (s ++ t) xs t := by
  obtain ⟨hbefore, hxs, hafter⟩ := h
  rw [List.append_assoc, List.append_assoc]
  exact ⟨_, _, hbefore.reflTransGen, hxs.sepBy hW (hafter.breaksAtom ht), hafter.reflTransGen⟩

end Lists

theorem mailbox_append {box : MailSearch.Mailbox} (h : Mailbox.parse? s = some box)
    (ht : BreaksAtom t) : Mailbox (s ++ t) box t :=
  (Mailbox.parse?_eq_some_iff.mp h).2.extend ht

theorem phrase_append (h : parseAll phrase s = some name) (ht : BreaksAtom t) :
    Phrase (s ++ t) name t := by
  have hend : phrasePart [] = none := phrasePart_of_marked marked_nil (avoids_nil _)
  exact ((reads_phrase.parseAll_eq_some leads_phrase hend).mp h).extend ht

theorem WritesAddress.append {address : MailSearch.Address} (h : WritesAddress address s)
    (ht : BreaksAtom t) : Address (s ++ t) address t := by
  cases h with
  | mailbox hbox => exact .mailbox (mailbox_append hbox ht)
  | emptyGroup hname hgap =>
    simp only [List.append_assoc, List.cons_append, List.nil_append]
    exact .group (phrase_append hname (breaksAtom_cons rfl)) (.none (.of_spaces hgap)) .nil
  | group hname hboxes =>
    have hmembers := hboxes.listOf mailbox_append (breaksAtom_cons (c := ';') (s := t) rfl)
    simp only [List.append_assoc, List.cons_append, List.nil_append]
    exact .group (phrase_append hname (breaksAtom_cons rfl)) (.some hmembers .nil) .nil

end MailSearch.Grammar

namespace MailSearch.Address

open MailSearch.Parser Grammar

variable {s rest : Bytes} {n : Nat} {α : Type} {p : ByteParser α}

theorem listOf_of_commas (hl : Leads p) (h : Commas n s) (hcomma : Avoids ',' (skip rest))
    (hp : p (skip rest) = none) : listOf p (s ++ rest) = none := by
  obtain ⟨o, ho⟩ := optional_delimiter (h.reflTransGen (t := rest)) hcomma
  have helements : sepBy1 delimiter p (skip rest) = none := bind_of_eq_none hp
  rw [← hl.listOf (s ++ rest), listOf, bind_of_eq_some ho, bind_of_eq_none helements]

theorem groupRule_of_commas {name : List Bytes} {commas : Bytes}
    (hname : Phrase s name (':'.toUInt8 :: (commas ++ ';'.toUInt8 :: rest)))
    (h : Commas (n + 1) commas) :
    (groupRule : ByteParser MailSearch.Address) (skip s) = none := by
  have hsemi : skip (';'.toUInt8 :: rest) = ';'.toUInt8 :: rest := skip_cons rfl
  have hmembers : listOf mailboxRule (commas ++ ';'.toUInt8 :: rest) = none := by
    apply listOf_of_commas leads_mailboxRule h
    · rw [hsemi]
      exact avoids_cons rfl
    · rw [hsemi]
      exact mailboxRule_of_marked (marked_cons rfl) (avoids_cons rfl)
  obtain ⟨t, ht⟩ := exists_skip_of_delimiter (h.transGen (t := ';'.toUInt8 :: rest))
  have hstop : (byte ';' : ByteParser Unit) (','.toUInt8 :: t) = none :=
    byte_of_avoids (avoids_cons rfl)
  rw [groupRule, bind_of_eq_some (phrase_of_colon hname), bind_of_eq_some (byte_cons _),
    bind_of_eq_some (optional_of_eq_none hmembers), filler_bind, ht, bind_of_eq_none hstop]

end MailSearch.Address

namespace MailSearch

open Address Grammar MailSearch.Parser

variable {s commas rest : Bytes} {n : Nat} {name : List Bytes} {xs : List MailSearch.Address}

/-- Commas that nothing stands between make no difference, in a list or in a group. -/
theorem parseAddresses_listing (h : Listing WritesAddress xs s)
    (hs : commentsShallow s = true) : parseAddresses? s = some xs := by
  have hlist : ListOf Grammar.Address (s ++ []) xs [] :=
    h.listOf WritesAddress.append (by rintro b ⟨⟩)
  rw [List.append_nil] at hlist
  exact parseAddresses?_eq_some_iff.mpr ⟨hs, hlist⟩

/-- A group without members, a group of one, and a fold between two commas. -/
theorem parseAddresses_listing_groups :
    Listing WritesAddress
        [.group [Utf8.encode "E"] [],
          .group [Utf8.encode "G"] [⟨[], ⟨[Utf8.encode "a"], [Utf8.encode "b"]⟩⟩]]
        (Utf8.encode ",E: ;,\r\n ,G:,a@b,;,") ∧
      commentsShallow (Utf8.encode ",E: ;,\r\n ,G:,a@b,;,") = true ∧
      parseAddresses? (Utf8.encode ",E: ;,\r\n ,G:,a@b,;,") =
        some [.group [Utf8.encode "E"] [],
          .group [Utf8.encode "G"] [⟨[], ⟨[Utf8.encode "a"], [Utf8.encode "b"]⟩⟩]] := by
  have hnone : Gap [] := by simp [Gap]
  have hcomma : Commas 1 (Utf8.encode ",") := by
    rw [show Utf8.encode "," = [] ++ ','.toUInt8 :: ([] ++ []) by decide]
    exact .more hnone hnone .none
  have hfold : Commas 2 (Utf8.encode ",\r\n ,") := by
    rw [show Utf8.encode ",\r\n ," = [] ++ ','.toUInt8 :: (Utf8.encode "\r\n " ++ Utf8.encode ",")
      by decide]
    exact .more hnone (List.all_eq_true.mp (by decide)) hcomma
  have hempty : WritesAddress (.group [Utf8.encode "E"] []) (Utf8.encode "E: ;") := by
    rw [show Utf8.encode "E: ;" = Utf8.encode "E" ++ ':'.toUInt8 :: (Utf8.encode " " ++
      [';'.toUInt8]) by decide]
    exact .emptyGroup (by decide +kernel) (List.all_eq_true.mp (by decide))
  have hmembers : Listing (fun box s => Mailbox.parse? s = some box)
      [⟨[], ⟨[Utf8.encode "a"], [Utf8.encode "b"]⟩⟩] (Utf8.encode ",a@b,") := by
    rw [show Utf8.encode ",a@b," = Utf8.encode "," ++ Utf8.encode "a@b" ++ Utf8.encode ","
      by decide]
    exact .intro hcomma (.one (by decide +kernel)) hcomma
  have hgroup : WritesAddress
      (.group [Utf8.encode "G"] [⟨[], ⟨[Utf8.encode "a"], [Utf8.encode "b"]⟩⟩])
      (Utf8.encode "G:,a@b,;") := by
    rw [show Utf8.encode "G:,a@b,;" = Utf8.encode "G" ++ ':'.toUInt8 :: (Utf8.encode ",a@b," ++
      [';'.toUInt8]) by decide]
    exact .group (by decide +kernel) hmembers
  have htext : Utf8.encode ",E: ;,\r\n ,G:,a@b,;," = Utf8.encode "," ++ (Utf8.encode "E: ;" ++
      Utf8.encode ",\r\n ," ++ Utf8.encode "G:,a@b,;") ++ Utf8.encode "," := by decide
  have hlisting : Listing WritesAddress
      [.group [Utf8.encode "E"] [],
        .group [Utf8.encode "G"] [⟨[], ⟨[Utf8.encode "a"], [Utf8.encode "b"]⟩⟩]]
      (Utf8.encode ",E: ;,\r\n ,G:,a@b,;,") := by
    rw [htext]
    exact .intro hcomma (.more hempty hfold (.one hgroup)) hcomma
  have hshallow : commentsShallow (Utf8.encode ",E: ;,\r\n ,G:,a@b,;,") = true := by
    decide +kernel
  exact ⟨hlisting, hshallow, parseAddresses_listing hlisting hshallow⟩

theorem parseAddresses?_of_listOf
    (h : (listOf addressRule : ByteParser (List MailSearch.Address)) s = none) :
    parseAddresses? s = none := by
  rw [parseAddresses?, parseAll, h, ite_self]

theorem parseAddresses_commas (h : Commas n s) : parseAddresses? s = none := by
  have hstop : (addressRule : ByteParser MailSearch.Address) (skip []) = none := by
    rw [skip_nil]
    exact addressRule_of_marked marked_nil (avoids_nil _)
  have hlist : (listOf addressRule : ByteParser (List MailSearch.Address)) (s ++ []) = none :=
    listOf_of_commas leads_addressRule h (by rw [skip_nil]; exact avoids_nil _) hstop
  rw [List.append_nil] at hlist
  exact parseAddresses?_of_listOf hlist

/-- A group without members has no commas either. -/
theorem parseAddresses_commas_in_group (hname : parseAll phrase s = some name)
    (h : Commas (n + 1) commas) :
    parseAddresses? (s ++ ':'.toUInt8 :: (commas ++ ';'.toUInt8 :: rest)) = none := by
  have hphrase := phrase_append hname (t := ':'.toUInt8 :: (commas ++ ';'.toUInt8 :: rest))
    (breaksAtom_cons rfl)
  generalize s ++ ':'.toUInt8 :: (commas ++ ';'.toUInt8 :: rest) = text at hphrase ⊢
  have haddress : (addressRule : ByteParser MailSearch.Address) (skip text) = none := by
    have hbox := mailboxRule_of_phrase (phrase_of_colon hphrase)
    rw [addressRule, orElse_of_eq_none (map_eq_none.mpr hbox), groupRule_of_commas hphrase h]
  have hcomma : Avoids ',' (skip text) := by
    obtain ⟨v, others, a, -, hv, -⟩ := hphrase
    exact avoids_of_word hv
  apply parseAddresses?_of_listOf
  rw [← leads_addressRule.listOf text]
  exact listOf_of_settled (settled_skip text) hcomma haddress

end MailSearch
