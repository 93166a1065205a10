/-! # Bytes and characters

Mail is bytes, its text UTF-8. `Utf8.scan` reads bytes as characters and yields `none` once for
every longest run that starts a character without finishing it, and for every byte that starts
none. `decode?` refuses such runs, `decodeLossy` shows each as U+FFFD.
-/

namespace MailSearch

abbrev Bytes := List UInt8

namespace Utf8

/-- The UTF-8 form of a text. -/
def encode (s : String) : Bytes := s.toList.flatMap String.utf8EncodeChar

/-- What a lead byte asks for: how many bytes follow, and the bounds of the first of them. -/
structure Tail where
  count : Nat
  low : UInt8
  high : UInt8

/-- The well-formed sequences, by lead byte: nothing overlong, no surrogate, nothing above
U+10FFFF. Bytes that lead no longer sequence have no tail. -/
def tail? (lead : UInt8) : Option Tail :=
  if 0xc2 ≤ lead ∧ lead ≤ 0xdf then some ⟨1, 0x80, 0xbf⟩
  else if lead = 0xe0 then some ⟨2, 0xa0, 0xbf⟩
  else if lead = 0xed then some ⟨2, 0x80, 0x9f⟩
  else if 0xe1 ≤ lead ∧ lead ≤ 0xef then some ⟨2, 0x80, 0xbf⟩
  else if lead = 0xf0 then some ⟨3, 0x90, 0xbf⟩
  else if 0xf1 ≤ lead ∧ lead ≤ 0xf3 then some ⟨3, 0x80, 0xbf⟩
  else if lead = 0xf4 then some ⟨3, 0x80, 0x8f⟩
  else none

/-- The bytes at the front of `s` that continue a character, at most `count` of them. -/
def continuation : (count : Nat) → (low high : UInt8) → (s : Bytes) → Bytes
  | 0, _, _, _ => []
  | _ + 1, _, _, [] => []
  | n + 1, low, high, b :: s =>
    if low ≤ b ∧ b ≤ high then b :: continuation n 0x80 0xbf s else []

/-- The code point of a lead byte followed by its whole tail. -/
def codePoint (lead : UInt8) (rest : Bytes) : Nat :=
  let top := lead.toNat % (64 >>> rest.length)
  rest.foldl (fun n b => n * 64 + b.toNat % 64) top

/-- The character that `lead` starts, and how many bytes of `s` belong to it. -/
def readChar (lead : UInt8) (s : Bytes) : Option Char × Nat :=
  if lead < 0x80 then (some (Char.ofNat lead.toNat), 0)
  else
    match tail? lead with
    | none => (none, 0)
    | some t =>
      let rest := continuation t.count t.low t.high s
      (if rest.length = t.count then some (Char.ofNat (codePoint lead rest)) else none, rest.length)

def scan : Bytes → List (Option Char)
  | [] => []
  | b :: s =>
    let (c, n) := readChar b s
    c :: scan (s.drop n)
termination_by s => s.length
decreasing_by simp only [List.length_drop, List.length_cons]; omega

def replacement : Char := Char.ofNat 0xfffd

/-- Reads what it can and puts U+FFFD for what is not UTF-8. -/
def decodeLossy (s : Bytes) : String := String.ofList ((scan s).map (·.getD replacement))

/-- The text, if all of it is UTF-8. -/
def decode? (s : Bytes) : Option String := ((scan s).mapM id).map String.ofList

end Utf8

end MailSearch
