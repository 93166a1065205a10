import MailSearch.Proofs.Address.LetterCase
import MailSearch.Proofs.Search.AddressCriteria
import MailSearch.Search

/-! # Letter case in a search for addresses

Two runs of one search, of which the second has other letters in its parameter and in the address
fields of its messages. They find the same messages, unless the parameter is no address in either.
-/

namespace MailSearch

variable {text text' value value' : String} {a a' b b' : EmailAddress} {m m' : Message}
variable {messages messages' : List Message} {t t' : Term}

abbrev EmailAddress.Same (a b : EmailAddress) : Prop := a.sameAs b = true

namespace EmailAddress

theorem same_iff : a.Same b ↔
    lowerAscii a.localPart = lowerAscii b.localPart ∧
      lowerAscii a.domain = lowerAscii b.domain := by
  simp [Same, sameAs]

theorem sameAs_congr (ha : a.Same a') (hb : b.Same b') : a.sameAs b = a'.sameAs b' := by
  obtain ⟨hlocal, hdomain⟩ := same_iff.mp ha
  obtain ⟨hlocal', hdomain'⟩ := same_iff.mp hb
  rw [sameAs, sameAs, sameIgnoringCase, sameIgnoringCase, sameIgnoringCase, sameIgnoringCase,
    hlocal, hdomain, hlocal', hdomain']

theorem any_sameAs_congr {as as' : List EmailAddress} (h : List.Forall₂ Same as as')
    (hb : b.Same b') : as.any (·.sameAs b) = as'.any (·.sameAs b') := by
  induction h with
  | nil => rfl
  | cons ha _ ih => rw [List.any_cons, List.any_cons, sameAs_congr ha hb, ih]

theorem parse_alike (h : lowerAscii text = lowerAscii text') :
    Option.Rel Same (parse text).toOption (parse text').toOption := by
  have hbox := Mailbox.parse?_alike h
  rw [parse, parse]
  generalize Mailbox.parse? (Utf8.encode text) = o at hbox
  generalize Mailbox.parse? (Utf8.encode text') = o' at hbox
  cases hbox with
  | none => exact .none
  | some hbox => exact .some hbox.sameAs

end EmailAddress

theorem Address.Alike.mailboxes {x x' : Address} (h : x.Alike x') :
    List.Forall₂ Mailbox.Alike x.mailboxes x'.mailboxes := by
  cases h with
  | mailbox hbox => exact .cons hbox .nil
  | group _ hboxes => exact hboxes

theorem addressesIn_alike (h : lowerAscii value = lowerAscii value') :
    List.Forall₂ EmailAddress.Same (addressesIn value) (addressesIn value') := by
  have hfound := parseAddresses?_alike h
  rw [addressesIn, addressesIn]
  generalize parseAddresses? (Utf8.encode value) = o at hfound
  generalize parseAddresses? (Utf8.encode value') = o' at hfound
  cases hfound with
  | none => exact .nil
  | some hxs =>
    refine List.rel_flatMap hxs fun x x' hx => ?_
    rw [List.forall₂_map_left_iff, List.forall₂_map_right_iff]
    exact hx.mailboxes.imp fun _ _ hbox => hbox.sameAs

/-- Fields whose values differ only in the letter case of addresses. -/
structure HeaderField.Alike (f f' : HeaderField) : Prop where
  name : lowerAscii f.name = lowerAscii f'.name
  value : ∀ role : Role, lowerAscii f.name = lowerAscii role.headerName →
    lowerAscii f.value = lowerAscii f'.value

def Message.Alike (m m' : Message) : Prop :=
  ∃ added added', Message.Built m added ∧ Message.Built m' added' ∧
    List.Forall₂ HeaderField.Alike added added'

theorem Message.Alike.addresses (h : m.Alike m') (role : Role) :
    List.Forall₂ EmailAddress.Same (m.addresses role) (m'.addresses role) := by
  obtain ⟨added, added', hm, hm', hfields⟩ := h
  rw [hm.mirrors role, hm'.mirrors role, values_eq, values_eq, hm.fields_eq, hm'.fields_eq]
  clear hm hm'
  induction hfields with
  | nil => exact .nil
  | @cons f f' fs fs' hf _ ih =>
    by_cases hname : lowerAscii f.name = lowerAscii role.headerName
    · have hname' := hf.name.symm.trans hname
      rw [List.filter_cons_of_pos (by simpa using hname),
        List.filter_cons_of_pos (by simpa using hname')]
      exact List.rel_append (addressesIn_alike (hf.value role hname)) ih
    · have hname' : ¬ lowerAscii f'.name = lowerAscii role.headerName := hf.name ▸ hname
      rw [List.filter_cons_of_neg (by simpa using hname),
        List.filter_cons_of_neg (by simpa using hname')]
      exact ih

theorem Term.searchIn_congr
    (h : messages.map (fun m => t.eval m) = messages'.map fun m => t'.eval m)
    (order : List Nat) : t.searchIn messages order = t'.searchIn messages' order := by
  have hverdict : ∀ i : Nat, messages[i]?.map (fun m => t.eval m) =
      messages'[i]?.map fun m => t'.eval m := by
    intro i
    rw [← List.getElem?_map, h, List.getElem?_map]
  have hholds : ∀ i : Nat, messages[i]?.map t.holds = messages'[i]?.map t'.holds := by
    intro i
    have hmap := congrArg (Option.map Verdict.hit) (hverdict i)
    rwa [Option.map_map, Option.map_map] at hmap
  have hwarnings : ∀ i : Nat, messages[i]?.map (fun m => (t.eval m).warnings) =
      messages'[i]?.map fun m => (t'.eval m).warnings := by
    intro i
    have hmap := congrArg (Option.map Verdict.warnings) (hverdict i)
    rwa [Option.map_map, Option.map_map] at hmap
  simp only [searchIn, hholds, hwarnings]

theorem Term.eval_addressIs_alike (hb : b.Same b') (role : Role) (h : m.Alike m') :
    (Term.addressIs role b).eval m = (Term.addressIs role b').eval m' := by
  rw [Term.eval, Term.eval, EmailAddress.any_sameAs_congr (h.addresses role) hb]

theorem Term.searchIn_addressIs_alike (hb : b.Same b') (role : Role)
    (h : List.Forall₂ Message.Alike messages messages') (order : List Nat) :
    (Term.addressIs role b).searchIn messages order =
      (Term.addressIs role b').searchIn messages' order := by
  apply Term.searchIn_congr
  induction h with
  | nil => rfl
  | cons hm _ ih => rw [List.map_cons, List.map_cons, eval_addressIs_alike hb role hm, ih]

/-- Letter case of ASCII makes no difference to what an address text is read as, nor to what it
finds. -/
theorem letter_case_ignored [MatcherLimit] (h : lowerAscii text = lowerAscii text') :
    Option.Rel EmailAddress.Same (EmailAddress.parse text).toOption
      (EmailAddress.parse text').toOption ∧
    Option.Rel (List.Forall₂ Address.Alike) (parseAddresses? (Utf8.encode text))
      (parseAddresses? (Utf8.encode text')) ∧
    ∀ (role : Role) token strictness, lowerAscii role.searchKey.name = lowerAscii token →
      Option.Rel
        (fun t t' => ∀ messages messages' order, List.Forall₂ Message.Alike messages messages' →
          t.searchIn messages order = t'.searchIn messages' order)
        (compile strictness [token, text]).toOption
        (compile strictness [token, text']).toOption := by
  refine ⟨EmailAddress.parse_alike h, parseAddresses?_alike h, ?_⟩
  intro role token strictness hk
  have hparse := EmailAddress.parse_alike h
  rw [compile_addressKey hk, compile_addressKey hk]
  generalize EmailAddress.parse text = r at hparse
  generalize EmailAddress.parse text' = r' at hparse
  cases r with
  | error e =>
    cases r' with
    | error e' => exact .none
    | ok b' => cases hparse
  | ok b =>
    cases r' with
    | error e' => cases hparse
    | ok b' =>
      cases hparse with
      | some hb =>
        exact .some fun _ _ order hm => Term.searchIn_addressIs_alike hb role hm order

/-- A member of a group is asked for in other letters. -/
theorem letter_case_ignored_group :
    let m := Message.empty.addField ⟨"To", "G: \u00c9.x@D;"⟩
    let m' := Message.empty.addField ⟨"TO", "g: \u00c9.X@d;"⟩
    ∃ t t', compile ⟨true, true⟩ ["to", "N <\u00c9.X@D>"] = .ok t ∧
      compile ⟨true, true⟩ ["to", "n <\u00c9.x@D>"] = .ok t' ∧
      (t.searchIn [m] [0]).positions = [0] ∧ t.searchIn [m] [0] = t'.searchIn [m'] [0] := by
  intro m m'
  have hkey : lowerAscii Role.recipient.searchKey.name = lowerAscii "to" := by decide +kernel
  have hp : EmailAddress.parse "N <\u00c9.X@D>" = .ok ⟨"\u00c9.X", "D"⟩ := by decide +kernel
  have hp' : EmailAddress.parse "n <\u00c9.x@D>" = .ok ⟨"\u00c9.x", "D"⟩ := by decide +kernel
  have halike : m.Alike m' := by
    refine ⟨_, _, .addField _ .empty, .addField _ .empty, .cons ⟨?_, fun _ _ => ?_⟩ .nil⟩
    · decide +kernel
    · decide +kernel
  have hletters : lowerAscii "N <\u00c9.X@D>" = lowerAscii "n <\u00c9.x@D>" := by decide +kernel
  have hsearch := (letter_case_ignored hletters).2.2 .recipient "to" ⟨true, true⟩ hkey
  rw [compile_address hkey hp, compile_address hkey hp'] at hsearch
  cases hsearch with
  | some hsearch =>
    exact ⟨_, _, compile_address hkey hp, compile_address hkey hp', by decide +kernel,
      hsearch [m] [m'] [0] (.cons halike .nil)⟩

end MailSearch
