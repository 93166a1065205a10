import MailSearch.Parser

/-! # Tokens of a TOML document

White space is a token of its own, since dates may hold a space. Names, numbers, dates and the words
`true` and `false` are all bare tokens here; what they are is for the grammar to tell.
-/

namespace MailSearch.Toml

inductive Token
  | blank (text : List Char)
  | lineEnd
  | comment
  | equals | dot | comma | colon | plus
  | leftBrace | rightBrace | leftBracket | rightBracket
  | bare (text : List Char)
  | string (text : List Char)
  | multilineString (text : List Char)
deriving DecidableEq

open MailSearch.Parser

abbrev CharParser := Parser Char

def isBareChar (c : Char) : Bool :=
  ('A' ≤ c && c ≤ 'Z') || ('a' ≤ c && c ≤ 'z') || ('0' ≤ c && c ≤ '9') || c == '-' || c == '_'

/-- No control characters but the tab. -/
def isCommentChar (c : Char) : Bool := c == '\t' || ' ' ≤ c

def isTextChar (c : Char) : Bool := isCommentChar c && c != '\x7f'

def isBlankChar (c : Char) : Bool := c == ' ' || c == '\t'

def hexValue? (c : Char) : Option Nat :=
  if '0' ≤ c ∧ c ≤ '9' then some (c.toNat - '0'.toNat)
  else if 'a' ≤ c ∧ c ≤ 'f' then some (c.toNat - 'a'.toNat + 10)
  else if 'A' ≤ c ∧ c ≤ 'F' then some (c.toNat - 'A'.toNat + 10)
  else none

def char (c : Char) : CharParser Unit := symbol c

/-- A character given by a fixed number of hexadecimal digits, which has to exist. -/
def numericEscape : (digits : Nat) → (value : Nat) → CharParser (List Char)
  | 0, value => if value.isValidChar then return [Char.ofNat value] else failure
  | digits + 1, value => do
    let c ← satisfy fun c => (hexValue? c).isSome
    numericEscape digits (value * 16 + (hexValue? c).getD 0)

/-- What a backslash and the characters after it stand for. -/
def escape : CharParser (List Char) := do
  char '\\'
  let c ← satisfy fun _ => true
  match c with
  | '"' | '\\' => return [c]
  | 'b' => return ['\x08']
  | 'f' => return ['\x0c']
  | 'n' => return ['\n']
  | 'r' => return ['\r']
  | 't' => return ['\t']
  | 'u' => numericEscape 4 0
  | 'U' => numericEscape 8 0
  | _ => failure

/-- A backslash at the end of a line takes that end with it, and all blanks up to the next text. -/
def lineContinuation : CharParser (List Char) := do
  char '\\'
  let _ ← span isBlankChar
  if (← get).head?.all (· == '\n') then
    let _ ← span fun c => isBlankChar c || c == '\n'
    return []
  else failure

/-- Text up to a quote. Inside double quotes, backslashes escape. -/
def plainText (quote : Char) : CharParser (List Char) :=
  run fun c => isTextChar c && c != quote && (quote == '\x27' || c != '\\')

def shortText (quote : Char) : CharParser (List Char) := do
  let parts ← many (plainText quote <|> if quote == '"' then escape else failure)
  char quote
  return parts.flatten

/-- One or two quotes inside a text that three would end. -/
def innerQuotes (quote : Char) : CharParser (List Char) := do
  let quotes ← run (· == quote)
  if quotes.length ≤ 2 then return quotes else failure

/-- Text up to three quotes. Up to two more belong to the text. -/
def longText (quote : Char) : CharParser (List Char) := do
  let _ ← optional (char '\n')
  let parts ← many (plainText quote <|> run (· == '\n') <|> innerQuotes quote <|>
    if quote == '"' then lineContinuation <|> escape else failure)
  char quote
  char quote
  char quote
  let more ← optional (satisfy (· == quote))
  let still ← optional (satisfy (· == quote))
  return parts.flatten ++ more.toList ++ still.toList

/-- A string in quotes of one kind. Three quotes open a text of several lines. -/
def quotedToken (quote : Char) : CharParser Token := do
  let rest ← get
  if rest.take 3 = [quote, quote, quote] then
    set (rest.drop 3)
    .multilineString <$> longText quote
  else
    char quote
    .string <$> shortText quote

def token : CharParser Token := do
  let rest ← get
  match rest.head? with
  | none => failure
  | some '"' => quotedToken '"'
  | some '\x27' => quotedToken '\x27'
  | some c =>
    if isBareChar c then .bare <$> run isBareChar
    else if isBlankChar c then .blank <$> run isBlankChar
    else
      set rest.tail
      match c with
      | '\n' => return .lineEnd
      | '#' => do
        let _ ← span isCommentChar
        return .comment
      | '=' => return .equals
      | '.' => return .dot
      | ',' => return .comma
      | ':' => return .colon
      | '+' => return .plus
      | '\x7b' => return .leftBrace
      | '\x7d' => return .rightBrace
      | '[' => return .leftBracket
      | ']' => return .rightBracket
      | _ => failure

/-- A carriage return counts only as part of a line end. -/
def foldLineEnds : List Char → List Char
  | '\r' :: '\n' :: cs => '\n' :: foldLineEnds cs
  | c :: cs => c :: foldLineEnds cs
  | [] => []

/-- A mark of the byte order at the very beginning says nothing. -/
def dropByteOrderMark (cs : List Char) : List Char :=
  if cs.head? = some (Char.ofNat 0xfeff) then cs.tail else cs

def tokens? (cs : List Char) : Option (List Token) :=
  parseAll (many token) (foldLineEnds (dropByteOrderMark cs))

end MailSearch.Toml
