import MailSearch.Needle.Weight
import MailSearch.Proofs.Address.Joining
import MailSearch.Proofs.Message.Addresses
import MailSearch.Proofs.Search.Outcome

/-! # Addresses asked for and addresses found

A criterion names its address as a mailbox, and a header holds an address list. Both readings give
the same address wherever the first gives one, and so a header of one address is found by that
address, however it is written, and by no other.
-/

namespace MailSearch

def Role.searchKey : Role → SearchKey
  | sender => .sender
  | recipient => .recipient
  | cc => .cc
  | bcc => .bcc

variable {s : Bytes} {box : Mailbox} {p q token : String} {a b : EmailAddress} {role : Role}
variable {m : Message} {added : List HeaderField} {strictness : Strictness}

theorem parseAddresses?_of_mailbox (h : Mailbox.parse? s = some box) :
    parseAddresses? s = some [.mailbox box] := by
  obtain ⟨hguard, hbox⟩ := Mailbox.parse?_eq_some_iff.mp h
  exact parseAddresses?_eq_some_iff.mpr ⟨hguard, Grammar.ListOf.single (.mailbox hbox)⟩

theorem EmailAddress.exists_of_parse (h : parse p = .ok a) :
    ∃ box, Mailbox.parse? (Utf8.encode p) = some box ∧ ofSpec box.addr = a := by
  rw [parse] at h
  split at h
  · rename_i box hbox
    exact ⟨box, hbox, Except.ok.inj h⟩
  · cases h

theorem addressesIn_of_parse (h : EmailAddress.parse p = .ok a) : addressesIn p = [a] := by
  obtain ⟨box, hbox, rfl⟩ := EmailAddress.exists_of_parse h
  rw [addressesIn_of_eq_some (parseAddresses?_of_mailbox hbox)]
  rfl

theorem Message.Built.addresses_of_only (hm : Built m added)
    (honly : m.values role.headerName = [p]) (hp : EmailAddress.parse p = .ok a) :
    m.addresses role = [a] := by
  rw [hm.mirrors role, honly, List.flatMap_singleton, addressesIn_of_parse hp]

theorem holds_addressIs_of_only (ha : m.addresses role = [a]) :
    (Term.addressIs role b).holds m = true ↔
      lowerAscii a.localPart = lowerAscii b.localPart ∧
        lowerAscii a.domain = lowerAscii b.domain := by
  simp [Term.holds, Term.eval, ha, EmailAddress.sameAs]

section

variable [MatcherLimit]

theorem compile_addressKey (hk : lowerAscii role.searchKey.name = lowerAscii token) (q : String) :
    compile strictness [token, q] = (EmailAddress.parse q).map (.addressIs role) := by
  have hcount : [q].length = role.searchKey.parameterCount := by cases role <;> rfl
  have htest : Criterion.addressTest role q = (EmailAddress.parse q).map (.addressIs role) := by
    rw [Criterion.addressTest]
    cases EmailAddress.parse q <;> rfl
  rw [compile_criterion hk hcount, ← htest]
  cases role <;> rfl

theorem compile_address (hk : lowerAscii role.searchKey.name = lowerAscii token)
    (hq : EmailAddress.parse q = .ok b) :
    compile strictness [token, q] = .ok (.addressIs role b) := by
  rw [compile_addressKey hk, hq]
  rfl

/-- A mailbox is an address list of one, and a message with it meets the criteria that give the same
address. -/
theorem mailbox_and_list_agree :
    (∀ s box, Mailbox.parse? s = some box → parseAddresses? s = some [.mailbox box]) ∧
    ∀ (p q : String) (a b : EmailAddress), EmailAddress.parse p = .ok a →
      EmailAddress.parse q = .ok b →
      ∀ (m : Message) (added : List HeaderField) (role : Role), Message.Built m added →
        m.values role.headerName = [p] →
        ∀ token strictness, lowerAscii role.searchKey.name = lowerAscii token →
          (∃ t, compile strictness [token, q] = .ok t ∧
            (t.holds m = true ↔ lowerAscii a.localPart = lowerAscii b.localPart ∧
              lowerAscii a.domain = lowerAscii b.domain)) ∧
          ∃ t, compile strictness [token, p] = .ok t ∧ t.holds m = true := by
  refine ⟨fun s box => parseAddresses?_of_mailbox, ?_⟩
  intro p q a b hp hq m added role hm honly token strictness hk
  have ha := hm.addresses_of_only honly hp
  refine ⟨⟨_, compile_address hk hq, holds_addressIs_of_only ha⟩, _, compile_address hk hp, ?_⟩
  exact (holds_addressIs_of_only ha).mpr ⟨rfl, rfl⟩

end

/-- A quoted local part with a name and a comment, asked for in other letters. -/
theorem mailbox_and_list_agree_quoted :
    ∃ m added t, Message.Built m added ∧
      m.values "Cc" = ["\"N, M\" <(;) \"x.Y\"@Z.de>"] ∧
      compile ⟨true, true⟩ ["cc", "X.y@z.DE"] = .ok t ∧ t.holds m = true := by
  have hp : EmailAddress.parse "\"N, M\" <(;) \"x.Y\"@Z.de>" = .ok ⟨"x.Y", "Z.de"⟩ := by
    decide +kernel
  have hq : EmailAddress.parse "X.y@z.DE" = .ok ⟨"X.y", "z.DE"⟩ := by decide +kernel
  have hm := ((Message.Built.empty.addField ⟨"cC", "\"N, M\" <(;) \"x.Y\"@Z.de>"⟩).setFlag
    (.keyword "k")).addField ⟨"To", "c@d"⟩
  obtain ⟨⟨t, ht, hholds⟩, -⟩ :=
    mailbox_and_list_agree.2 _ _ _ _ hp hq _ _ .cc hm (by decide +kernel) "cc" ⟨true, true⟩
      (by decide +kernel)
  exact ⟨_, _, t, hm, by decide +kernel, ht, hholds.mpr (by decide +kernel)⟩

end MailSearch
