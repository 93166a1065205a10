import MailSearch.UidSet.Text

/-! # TOML numbers

Digits may be parted by single underscores. A decimal number has no leading zeros; an integer fits
into 64 bits with its sign; a float is finite when rounded to double precision.
-/

namespace MailSearch.Toml

def digitValue? (radix : Nat) (c : Char) : Option Nat :=
  let n :=
    if '0' ≤ c ∧ c ≤ '9' then c.toNat - '0'.toNat
    else if 'a' ≤ c ∧ c ≤ 'z' then c.toNat - 'a'.toNat + 10
    else if 'A' ≤ c ∧ c ≤ 'Z' then c.toNat - 'A'.toNat + 10
    else radix
  if n < radix then some n else none

/-- A number without its sign, and what follows it. -/
structure Digits where
  values : List Nat
  rest : List Char

/-- The digits that a text starts with, underscores between them dropped. -/
def digits? (radix : Nat) (leadingZeros : Bool) (cs : List Char) : Option Digits :=
  let isPart := fun c => c == '_' || (digitValue? radix c).isSome
  let part := cs.takeWhile isPart
  let values := part.filterMap (digitValue? radix)
  if (splitOn '_' part).any List.isEmpty then none
  else if !leadingZeros && values.head? = some 0 && 1 < values.length then none
  else some ⟨values, cs.dropWhile isPart⟩

def valueOf (radix : Nat) (values : List Nat) : Nat := values.foldl (fun n d => n * radix + d) 0

/-- Whether a text starts with a minus sign, and the text without it. -/
def takeMinus (cs : List Char) : Bool × List Char :=
  match cs with
  | '-' :: rest => (true, rest)
  | _ => (false, cs)

/-- Whether a text is an integer of a radix and of 64 bits. Only decimal ones have a sign. -/
def isInteger (radix : Nat) (cs : List Char) : Bool :=
  let (negative, body) := if radix = 10 then takeMinus cs else (false, cs)
  match digits? radix (radix != 10) body with
  | some d =>
    d.rest.isEmpty && valueOf radix d.values < 9223372036854775808 + (if negative then 1 else 0)
  | none => false

/-- Whether `significand` times ten to the power of `exponent` rounds to a finite double. The least
number that does not is half a unit above the greatest double. -/
def isFiniteDouble (significand : Nat) (exponent : Int) : Bool :=
  let bound := Nat.pow 2 1024 - Nat.pow 2 970
  let magnitude := (toString significand).length + exponent
  if significand = 0 then true
  else if magnitude ≤ 300 then true
  else if 320 ≤ magnitude then false
  else if 0 ≤ exponent then significand * Nat.pow 10 exponent.toNat < bound
  else significand < bound * Nat.pow 10 (-exponent).toNat

/-- An exponent in digits with an optional minus sign. -/
def exponent? (allowSign : Bool) (cs : List Char) : Option Int := do
  let (negative, body) := if allowSign then takeMinus cs else (false, cs)
  let d ← digits? 10 true body
  if d.rest.isEmpty then
    let n : Int := valueOf 10 d.values
    return if negative then -n else n
  else none

end MailSearch.Toml
