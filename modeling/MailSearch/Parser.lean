/-! # Parsers

A parser takes symbols off the front of a list and yields a value, or fails. Choice is ordered: the
second of two parsers is tried only where the first one fails, and what comes after a choice does
not reopen it. A parser runs in any monad of attempts, for the most part in `Option`.
-/

namespace MailSearch

/-- A monad that knows failure and choice, and is told where a computation goes one level deeper. -/
class Attempt (m : Type → Type) extends Monad m, Alternative m where
  deeper {α : Type} : m α → m α

/-- Where nobody asks for levels, nothing is told. -/
instance : Attempt Option where
  deeper x := x

abbrev ParserT (τ : Type) (m : Type → Type) := StateT (List τ) m

abbrev Parser (τ : Type) := ParserT τ Option

namespace Parser

variable {τ α β : Type} {m : Type → Type} [Attempt m]

/-- One symbol of a class. -/
def satisfy (p : τ → Bool) : ParserT τ m τ
  | a :: s => if p a then pure (a, s) else failure
  | [] => failure

/-- The longest run of symbols of a class, which may be empty. -/
def span (p : τ → Bool) : ParserT τ m (List τ) := fun s => pure (s.takeWhile p, s.dropWhile p)

/-- The longest run of symbols of a class, if there is one at all. -/
def run (p : τ → Bool) : ParserT τ m (List τ) := do
  let a ← satisfy p
  let as ← span p
  return a :: as

def symbol [BEq τ] (a : τ) : ParserT τ m Unit := do
  let _ ← satisfy (· == a)

/-- A parser that works one level deeper. -/
def nested (p : ParserT τ m α) : ParserT τ m α := fun s => Attempt.deeper (p s)

/-- As many occurrences as there are, up to the length of `bound`. -/
def manyWithin (p : ParserT τ m α) : (bound : List τ) → ParserT τ m (List α)
  | [] => return []
  | _ :: bound => do
    match ← optional p with
    | some a => return a :: (← manyWithin p bound)
    | none => return []

/-- As many occurrences as there are. Each takes a symbol at least, so there are no more of them
than symbols. -/
def many (p : ParserT τ m α) : ParserT τ m (List α) := fun s => manyWithin p s s

def many1 (p : ParserT τ m α) : ParserT τ m (List α) := do
  let a ← p
  let as ← many p
  return a :: as

/-- Occurrences of `p` with a separator between them. A separator that no further occurrence follows
is left where it is. -/
def sepBy1 (sep : ParserT τ m β) (p : ParserT τ m α) : ParserT τ m (List α) := do
  let a ← p
  let as ← many do
    let _ ← sep
    p
  return a :: as

/-- The value of a parser that takes all of its input. -/
def parseAll (p : Parser τ α) (s : List τ) : Option α :=
  match p s with
  | some (a, []) => some a
  | _ => none

end Parser

end MailSearch
