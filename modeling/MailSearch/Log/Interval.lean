import MailSearch.Parser
import MailSearch.Text.Ascii
import MailSearch.Text.Blank

/-! # Intervals of time

An interval is written as numbers with units, as in `1h 30min`. Blanks may stand around each number
and inside it, but not inside a unit. Seconds and nanoseconds are counted in 64 bits each, and an
interval with more of them has no value.
-/

namespace MailSearch

structure Interval where
  seconds : Nat
  nanoseconds : Nat
deriving DecidableEq

namespace Interval

open MailSearch.Parser

def zero : Interval := ⟨0, 0⟩

def wordLimit : Nat := 18446744073709551616

def billion : Nat := 1000000000

/-- How much one of a unit is. A month has 30.44 days, a year 365.25. -/
def unit? (name : String) : Option Interval :=
  if ["nanos", "nsec", "ns"].contains name then some ⟨0, 1⟩
  else if ["usec", "us"].contains name then some ⟨0, 1000⟩
  else if ["millis", "msec", "ms"].contains name then some ⟨0, 1000000⟩
  else if ["seconds", "second", "secs", "sec", "s"].contains name then some ⟨1, 0⟩
  else if ["minutes", "minute", "mins", "min", "m"].contains name then some ⟨60, 0⟩
  else if ["hours", "hour", "hrs", "hr", "h"].contains name then some ⟨3600, 0⟩
  else if ["days", "day", "d"].contains name then some ⟨86400, 0⟩
  else if ["weeks", "week", "w"].contains name then some ⟨604800, 0⟩
  else if ["months", "month", "M"].contains name then some ⟨2630016, 0⟩
  else if ["years", "year", "y"].contains name then some ⟨31557600, 0⟩
  else none

/-- A number that fits into a word. -/
def word? (n : Nat) : Option Nat := if n < wordLimit then some n else none

/-- Adds `n` of a unit. Nanoseconds beyond a billion are carried over. -/
def addUnits (total : Interval) (n : Nat) (unit : Interval) : Option Interval := do
  let n ← word? n
  let seconds ← word? (n * unit.seconds)
  let nanoseconds ← word? (n * unit.nanoseconds)
  let nanoseconds ← word? (total.nanoseconds + nanoseconds)
  let carry := if billion < nanoseconds then nanoseconds / billion else 0
  let seconds ← word? (total.seconds + seconds + carry)
  return ⟨seconds, nanoseconds - carry * billion⟩

/-- A number and the name of its unit, with the blanks after it. -/
def amount : Parser Char (Nat × String) := do
  let first ← satisfy isDigit
  let more ← span fun c => isDigit c || isBlank c
  let name ← run Char.isAlpha
  let _ ← span isBlank
  return ((first :: more.filter isDigit).foldl (fun n c => n * 10 + (c.toNat - 48)) 0,
    String.ofList name)

def amounts : Parser Char (List (Nat × String)) := do
  let _ ← span isBlank
  many1 amount

def parse? (text : String) : Option Interval := do
  let found ← amounts.parseAll text.toList
  found.foldlM (fun total a => do total.addUnits a.1 (← unit? a.2)) zero

end Interval

end MailSearch
