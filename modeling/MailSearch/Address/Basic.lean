import MailSearch.Text.Utf8

/-! # What an address field names

Parts are kept as the bytes that remain once quoting, comments and folding are gone.
-/

namespace MailSearch

structure AddrSpec where
  localPart : List Bytes
  domain : List Bytes
deriving DecidableEq

/-- One recipient: the words of the name shown for it, if any, and its address. -/
structure Mailbox where
  name : List Bytes
  addr : AddrSpec
deriving DecidableEq

inductive Address
  | mailbox (box : Mailbox)
  | group (name : List Bytes) (boxes : List Mailbox)
deriving DecidableEq

/-- The mailboxes that an address stands for; a group stands for its members. -/
def Address.mailboxes : Address → List Mailbox
  | mailbox box => [box]
  | group _ boxes => boxes

end MailSearch
