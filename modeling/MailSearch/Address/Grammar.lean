import MailSearch.Address.Basic
import MailSearch.Address.Lexical

/-! # Mailboxes, groups and address lists

The structural half of the address grammar, with its obsolete forms: blanks and comments around
dots, routes inside angle brackets, empty list elements. `Mailbox.parse?` and `parseAddresses?` read
a whole field.
-/

namespace MailSearch

namespace Address

open MailSearch.Parser

variable {m : Type → Type} [Attempt m]

/-- Words with dots between them; unquoted addresses and quoted ones are both of this form. -/
def localPart : ByteParserT m (List Bytes) := sepBy1 (byte '.') word

def dottedDomain : ByteParserT m (List Bytes) := sepBy1 (byte '.') atom

/-- A domain in square brackets, which stay part of it. -/
def domainLiteral : ByteParserT m (List Bytes) := do
  filler
  byte '['
  let text ← content isDomainText
  byte ']'
  filler
  return ['['.toUInt8 :: text ++ [']'.toUInt8]]

def domain : ByteParserT m (List Bytes) := dottedDomain <|> domainLiteral

def addrSpec : ByteParserT m AddrSpec := do
  let l ← localPart
  byte '@'
  let d ← domain
  return ⟨l, d⟩

/-- One comma or more, with fillers around each. -/
def delimiter : ByteParserT m Unit := do
  let _ ← many1 do
    filler
    byte ','
    filler

/-- The hosts that a message was to travel through. They are read and dropped. -/
def route : ByteParserT m Unit := do
  let _ ← sepBy1 delimiter do
    byte '@'
    domain
  byte ':'

def angleAddr : ByteParserT m AddrSpec := do
  filler
  byte '<'
  let _ ← optional route
  let spec ← addrSpec
  byte '>'
  filler
  return spec

def namedMailbox : ByteParserT m Mailbox := do
  let name ← optional phrase
  let spec ← angleAddr
  return ⟨name.getD [], spec⟩

def bareMailbox : ByteParserT m Mailbox := do
  let spec ← addrSpec
  return ⟨[], spec⟩

def mailboxRule : ByteParserT m Mailbox := namedMailbox <|> bareMailbox

/-- Elements between delimiters, with further delimiters before the first and after the last. -/
def listOf {α : Type} (element : ByteParserT m α) : ByteParserT m (List α) := do
  let _ ← optional delimiter
  let elements ← sepBy1 delimiter element
  let _ ← optional delimiter
  return elements

def groupRule : ByteParserT m Address := do
  let name ← phrase
  byte ':'
  let boxes ← optional (listOf mailboxRule)
  filler
  byte ';'
  filler
  return .group name (boxes.getD [])

def addressRule : ByteParserT m Address := mailbox <$> mailboxRule <|> groupRule

/-- The deepest nesting of comments that is read. -/
def commentLimit : Nat := 64

/-- A look at the parentheses of a field before it is read: no point lies inside more than `limit`
of them. Backslashes quote, and outside parentheses so do double quotes. -/
def shallow (limit : Nat) : (depth : Nat) → (quoted escaped : Bool) → Bytes → Bool
  | _, _, _, [] => true
  | depth, quoted, escaped, b :: s =>
    if escaped then shallow limit depth quoted false s
    else if b = '\\'.toUInt8 then shallow limit depth quoted true s
    else if quoted then shallow limit depth (b != '"'.toUInt8) false s
    else if b = '"'.toUInt8 ∧ depth = 0 then shallow limit depth true false s
    else if b = '('.toUInt8 then
      if limit < depth + 1 then false else shallow limit (depth + 1) false false s
    else if b = ')'.toUInt8 then shallow limit (depth - 1) false false s
    else shallow limit depth false false s

def commentsShallow (s : Bytes) : Bool := shallow commentLimit 0 false false s

end Address

/-- Reads a field that names exactly one mailbox. -/
def Mailbox.parse? (s : Bytes) : Option Mailbox :=
  if Address.commentsShallow s then Parser.parseAll Address.mailboxRule s else none

/-- Reads a field that lists addresses. -/
def parseAddresses? (s : Bytes) : Option (List Address) :=
  if Address.commentsShallow s then Parser.parseAll (Address.listOf Address.addressRule) s else none

end MailSearch
