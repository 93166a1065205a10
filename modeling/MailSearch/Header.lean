import MailSearch.Address.Lexical
import MailSearch.Text.Blank

/-! # Header fields

A message opens with its header block, which ends at the first empty line. A field starts at the
beginning of a line with a name and a colon and runs on over the lines that follow it with a blank
at their front. Other lines are passed over.
-/

namespace MailSearch

structure HeaderField where
  name : String
  value : String
deriving DecidableEq

namespace HeaderField

open MailSearch.Parser
open Address (ByteParser byte)

def isLineFeed (b : UInt8) : Bool := b == '\n'.toUInt8

/-- Visible ASCII other than the colon. -/
def isNameByte (b : UInt8) : Bool := 0x21 ≤ b && b ≤ 0x7e && b != ':'.toUInt8

def isMargin (b : UInt8) : Bool := b == ' '.toUInt8 || b == '\t'.toUInt8

/-- Whether the line at the front of `s` is empty, a carriage return not counted. -/
def startsBlankLine (s : Bytes) : Bool :=
  let rest := if s.head? = some '\r'.toUInt8 then s.tail else s
  rest.head?.all isLineFeed

/-- The lines before the first blank one. -/
def block (s : Bytes) : Bytes :=
  if startsBlankLine s then []
  else
    let rest := s.dropWhile (!isLineFeed ·)
    s.takeWhile (!isLineFeed ·) ++ rest.take 1 ++ block (rest.drop 1)
termination_by s.length
decreasing_by
  rename_i h
  have hs : s ≠ [] := by rintro rfl; simp [startsBlankLine] at h
  have h1 : 0 < s.length := List.length_pos_iff.mpr hs
  have h2 := (List.dropWhile_suffix (l := s) (!isLineFeed ·)).length_le
  simp only [List.length_drop]; omega

def lineText : ByteParser Bytes := span (!isLineFeed ·)

/-- A line end and the line after it, if that starts with a blank. -/
def continuation : ByteParser Bytes := do
  byte '\n'
  let b ← satisfy isMargin
  let text ← lineText
  return '\n'.toUInt8 :: b :: text

/-- A field with its value as it stands in the message. -/
def rawField : ByteParser (Bytes × Bytes) := do
  let name ← run isNameByte
  let _ ← span isMargin
  byte ':'
  let text ← lineText
  let more ← many continuation
  return (name, text ++ more.flatten)

/-- A line that no field claims. -/
def strayLine : ByteParser Unit :=
  (do let _ ← run (!isLineFeed ·)
      let _ ← optional (byte '\n'))
    <|> byte '\n'

/-- Undoes folding: line ends go, and so do blanks around what is left. -/
def unfolded (value : Bytes) : String :=
  let text := (Utf8.decodeLossy value).toList.filter fun c => c != '\r' && c != '\n'
  String.ofList (trimChars text)

def ofRaw (field : Bytes × Bytes) : HeaderField :=
  ⟨Utf8.decodeLossy field.1, unfolded field.2⟩

/-- The lines of a header block, each a field or nothing. After a field the line end is left, and
passes as a stray line. -/
def entries : ByteParser (List (Option HeaderField)) :=
  many ((do let field ← rawField; return some (ofRaw field)) <|> (do strayLine; return none))

/-- All fields of a message, in order. -/
def parseBlock (s : Bytes) : List HeaderField :=
  match entries (block s) with
  | some (fields, _) => fields.filterMap id
  | none => []

end HeaderField

end MailSearch
