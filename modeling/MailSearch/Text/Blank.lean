/-! # White space

`isBlank` holds of the Unicode white space characters, `isFolding` of the four that a folded header
line can hold. `trim` takes the blanks off both ends of a text.
-/

namespace MailSearch

/-- The Unicode property White_Space. -/
def isBlank (c : Char) : Bool :=
  let n := c.toNat
  (0x09 ≤ n && n ≤ 0x0d) || n == 0x20 || n == 0x85 || n == 0xa0 || n == 0x1680 ||
    (0x2000 ≤ n && n ≤ 0x200a) || n == 0x2028 || n == 0x2029 || n == 0x202f || n == 0x205f ||
    n == 0x3000

/-- Space, tab, carriage return and line feed. -/
def isFolding (c : Char) : Bool :=
  c == ' ' || c == '\t' || c == '\r' || c == '\n'

theorem isBlank_of_isFolding {c : Char} (h : isFolding c) : isBlank c := by
  simp only [isFolding, Bool.or_eq_true, beq_iff_eq] at h
  rcases h with ((rfl | rfl) | rfl) | rfl <;> rfl

def trimChars (cs : List Char) : List Char :=
  ((cs.dropWhile isBlank).reverse.dropWhile isBlank).reverse

/-- The text without the blanks at its ends. -/
def trim (s : String) : String := String.ofList (trimChars s.toList)

end MailSearch
