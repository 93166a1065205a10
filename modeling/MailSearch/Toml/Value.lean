import MailSearch.Toml.Number
import MailSearch.Toml.Token

/-! # TOML values

The values of keys, as far as a reader of settings needs to tell them apart: the contents of numbers
and of dates are checked for their form and dropped.
-/

namespace MailSearch.Toml

/-- How a table comes about: by dotted keys, in braces or under a header. Dotted keys may add to a
table of their own kind only. -/
inductive TableForm
  | dotted | braced | headed
deriving DecidableEq

/-- Tables are lists of keys with values in the order of the document. -/
inductive Value
  | string (text : String)
  | integer
  | float
  | boolean (value : Bool)
  | datetime
  | array (values : List Value)
  | table (form : TableForm) (entries : List (String × Value))

abbrev Entries := List (String × Value)

open MailSearch.Parser

abbrev TokenParser := Parser Token

def skipBlank : TokenParser Unit := do
  let _ ← optional (satisfy fun t => t matches .blank _)

def bareText : TokenParser (List Char) := do
  match ← satisfy fun t => t matches .bare _ with
  | .bare text => return text
  | _ => failure

/-- The end of a line, after a comment or without one. The document's end will do. -/
def endOfLine : TokenParser Unit := do
  let _ ← optional (symbol .comment)
  match ← get with
  | [] => return ()
  | _ => symbol .lineEnd

def key : TokenParser String := do
  match ← satisfy fun _ => true with
  | .bare text | .string text => return String.ofList text
  | _ => failure

/-- Keys with dots between them, blanks around each allowed. -/
def dottedKey : TokenParser (List String) := do
  let first ← key
  skipBlank
  let others ← many do
    symbol .dot
    skipBlank
    let k ← key
    skipBlank
    return k
  return first :: others

/-- Adds the value of a dotted key. The keys before its last one name dotted tables or new ones;
the last one is not compared with keys already there. -/
def addDotted (path : List String) (value : Value) (entries : Entries) : Option Entries :=
  match path with
  | [] => none
  | [k] => some (entries ++ [(k, value)])
  | k :: ks =>
    match entries.span (·.1 != k) with
    | (before, (_, .table .dotted inner) :: after) => do
      let inner ← addDotted ks value inner
      return before ++ (k, .table .dotted inner) :: after
    | (_, _ :: _) => none
    | (_, []) => do
      let inner ← addDotted ks value []
      return entries ++ [(k, .table .dotted inner)]

/-- The part of a date and time after its first word: one space and an hour, and then, after a
colon, minutes, seconds, their fraction and an offset. Only the form is read. -/
def timeParts (colonTaken : Bool) : TokenParser Unit := do
  let _ ← optional do
    symbol (.blank [' '])
    bareText
  let colon ← if colonTaken then pure (some ()) else optional (symbol .colon)
  if colon.isSome then
    let _ ← bareText
    symbol .colon
    let _ ← bareText
    for part in [Token.dot, .plus, .colon] do
      if (← optional (symbol part)).isSome then
        let _ ← bareText

/-- The exponent of a float whose digits end in `e`: a bare word of its own after a plus sign, or
the rest of the same word. -/
def exponentPart (suffix : List Char) : TokenParser Int := do
  match suffix with
  | [] => return 0
  | e :: rest =>
    if e != 'e' && e != 'E' then failure
    else if rest.isEmpty then
      let _ ← optional (symbol .plus)
      exponent? false (← bareText)
    else exponent? true rest

/-- A float from the word before its point and the word after it. -/
def floatValue (word : List Char) (fraction : Option (List Char)) : TokenParser Value := do
  let whole ← digits? 10 false (takeMinus word).2
  match fraction with
  | none =>
    let e ← exponentPart whole.rest
    if isFiniteDouble (valueOf 10 whole.values) e then return .float else failure
  | some cs =>
    if !whole.rest.isEmpty then failure
    else
      let part ← digits? 10 true cs
      let e ← exponentPart part.rest
      if isFiniteDouble (valueOf 10 (whole.values ++ part.values)) (e - part.values.length) then
        return .float
      else failure

def numberValue (word : List Char) : TokenParser Value := do
  let integer (radix : Nat) (cs : List Char) : TokenParser Value :=
    if isInteger radix cs then return .integer else failure
  match word with
  | '0' :: 'x' :: cs => integer 16 cs
  | '0' :: 'o' :: cs => integer 8 cs
  | '0' :: 'b' :: cs => integer 2 cs
  | _ =>
    if word.any fun c => c == 'e' || c == 'E' then floatValue word none
    else if (← optional (symbol .dot)).isSome then floatValue word (some (← bareText))
    else if (takeMinus word).2 = ['i', 'n', 'f'] ∨ (takeMinus word).2 = ['n', 'a', 'n'] then
      return .float
    else integer 10 word

/-- Whether a word has the look of a date: a `T`, or a minus sign that is neither at its front nor
part of an exponent. -/
def looksLikeDate (word : List Char) : Bool :=
  word.any (fun c => c == 'T' || c == 't') ||
    (word.drop 1).contains '-' && !(word.zip (word.drop 1)).any fun p =>
      (p.1 == 'e' || p.1 == 'E') && p.2 == '-'

/-- A value that is a bare word or starts with one. -/
def wordValue (word : List Char) : TokenParser Value := do
  if word = "true".toList then return .boolean true
  else if word = "false".toList then return .boolean false
  else
    let first := word.head?.getD ' '
    if first == '-' || isDigit first || word = "inf".toList || word = "nan".toList then
      if looksLikeDate word then
        timeParts false
        return .datetime
      else if (← optional (symbol .colon)).isSome then
        timeParts true
        return .datetime
      else numberValue word
    else failure

/-- Line ends, comments and blanks between the elements of an array. -/
def arrayGap : TokenParser Unit := do
  let _ ← many ((do let _ ← satisfy fun t => t matches .blank _)
    <|> symbol .lineEnd
    <|> (do symbol .comment; endOfLine))

/-- A value that nests arrays and inline tables no deeper than `bound` is long. -/
def valueWithin : (bound : List Token) → TokenParser Value
  | [] => failure
  | _ :: bound => do
    match ← satisfy fun _ => true with
    | .string text | .multilineString text => return .string (String.ofList text)
    | .bare word => wordValue word
    | .plus => numberValue (← bareText)
    | .leftBracket =>
      arrayGap
      let first ← optional (valueWithin bound)
      arrayGap
      let others ← match first with
        | none => pure []
        | some _ => do
          let vs ← many do
            symbol .comma
            arrayGap
            let v ← valueWithin bound
            arrayGap
            return v
          let _ ← optional (symbol .comma)
          arrayGap
          pure vs
      symbol .rightBracket
      return .array (first.toList ++ others)
    | .leftBrace =>
      skipBlank
      let pair := do
        let path ← dottedKey
        symbol .equals
        skipBlank
        let v ← valueWithin bound
        skipBlank
        return (path, v)
      let first ← optional pair
      let others ← match first with
        | none => pure []
        | some _ => many do
            symbol .comma
            skipBlank
            pair
      symbol .rightBrace
      let entries ← (first.toList ++ others).foldlM (fun es p => addDotted p.1 p.2 es) []
      return .table .braced entries
    | _ => failure

/-- A value. None nests deeper than there are tokens. -/
def value : TokenParser Value := do
  valueWithin (← get)

end MailSearch.Toml
