import MailSearch.Parser
import MailSearch.Text.Utf8

/-! # Words of an address field

The lexical half of the address grammar of Internet mail: white space and comments, atoms and quoted
strings. Bytes from 0x80 up belong to text everywhere, and a backslash takes any byte after it.
-/

namespace MailSearch.Address

open MailSearch.Parser

abbrev ByteParserT := ParserT UInt8

abbrev ByteParser := Parser UInt8

variable {m : Type → Type} [Attempt m]

/-- The byte that encodes an ASCII character. -/
def byte (c : Char) : ByteParserT m Unit := symbol c.toUInt8

def isOneOf (cs : List Char) (b : UInt8) : Bool := cs.any (·.toUInt8 == b)

/-- Line ends count as white space, so that a folded field needs no unfolding. -/
def isSpace (b : UInt8) : Bool := isOneOf [' ', '\t', '\r', '\n'] b

def isCommentText (b : UInt8) : Bool := !isSpace b && !isOneOf ['(', ')', '\\'] b

def isQuotedText (b : UInt8) : Bool := !isSpace b && !isOneOf ['"', '\\'] b

def isDomainText (b : UInt8) : Bool := !isSpace b && !isOneOf ['[', ']', '\\'] b

def isAlphanumeric (b : UInt8) : Bool :=
  (0x30 ≤ b && b ≤ 0x39) || (0x41 ≤ b && b ≤ 0x5a) || (0x61 ≤ b && b ≤ 0x7a)

def atomMarks : List Char :=
  ['!', '#', '$', '%', '&', '\x27', '*', '+', '-', '/', '=', '?', '^', '_', '\x60', '\x7b', '|',
    '\x7d', '~']

def isAtomText (b : UInt8) : Bool := isAlphanumeric b || isOneOf atomMarks b || 0x80 ≤ b

/-- A backslash and the byte that it quotes. -/
def quotedPair : ByteParserT m Bytes := do
  byte '\\'
  let b ← satisfy fun _ => true
  return [b]

/-- White space, however long, counts as one space. -/
def blank : ByteParserT m Bytes := do
  let _ ← run isSpace
  return [' '.toUInt8]

/-- A comment with no more levels of parentheses than `bound` is long. Its level begins after its
opening parenthesis. -/
def comment : (bound : Bytes) → ByteParserT m Unit
  | [] => failure
  | _ :: bound => do
    byte '('
    nested do
      let _ ← many do
        (do let _ ← run isCommentText <|> quotedPair <|> blank) <|> comment bound
      byte ')'

/-- Comments and white space, if any. No comment nests deeper than the input is long. -/
def filler : ByteParserT m Unit := do
  let s ← get
  let _ ← many do
    (do let _ ← blank) <|> comment s

/-- Text of a class with quoted pairs resolved and white space brought down to single spaces. -/
def content (isText : UInt8 → Bool) : ByteParserT m Bytes := do
  let parts ← many (run isText <|> quotedPair <|> blank)
  return parts.flatten

def atom : ByteParserT m Bytes := do
  filler
  let text ← run isAtomText
  filler
  return text

def quotedString : ByteParserT m Bytes := do
  filler
  byte '"'
  let text ← content isQuotedText
  byte '"'
  filler
  return text

def word : ByteParserT m Bytes := atom <|> quotedString

/-- A dot between the words of a name, kept as a word of its own. -/
def nameDot : ByteParserT m Bytes := do
  byte '.'
  filler
  return ['.'.toUInt8]

def phrase : ByteParserT m (List Bytes) := do
  let first ← word
  let others ← many (word <|> nameDot)
  return first :: others

end MailSearch.Address
