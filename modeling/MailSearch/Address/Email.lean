import MailSearch.Address.Grammar
import MailSearch.Error
import MailSearch.Text.Ascii

/-! # Email addresses

What is left of a mailbox when only its address counts: local part and domain as text. Two addresses
are the same when they agree up to ASCII letter case.
-/

namespace MailSearch

structure EmailAddress where
  localPart : String
  domain : String
deriving DecidableEq

namespace EmailAddress

/-- The parts with a dot between them. What is not UTF-8 in a part is replaced. -/
def joinParts (parts : List Bytes) : String := ".".intercalate (parts.map Utf8.decodeLossy)

def ofSpec (spec : AddrSpec) : EmailAddress := ⟨joinParts spec.localPart, joinParts spec.domain⟩

def parse (s : String) : Except SearchError EmailAddress :=
  match Mailbox.parse? (Utf8.encode s) with
  | some box => .ok (ofSpec box.addr)
  | none => .error (.invalidAddress s)

def text (a : EmailAddress) : String := a.localPart ++ "@" ++ a.domain

/-- Whether mail to `a` is mail to `b`. -/
def sameAs (a b : EmailAddress) : Bool :=
  sameIgnoringCase a.localPart b.localPart && sameIgnoringCase a.domain b.domain

end EmailAddress

/-- The addresses that a header value lists, members of groups among them. A value that is no
address list has none. -/
def addressesIn (value : String) : List EmailAddress :=
  ((parseAddresses? (Utf8.encode value)).getD []).flatMap fun a =>
    a.mailboxes.map fun box => .ofSpec box.addr

end MailSearch
