import MailSearch.Term

/-! # Criteria

A criterion is a search key with its parameters. It takes any parameters while it is put together;
only building its term checks their number and what they say.
-/

namespace MailSearch

structure Criterion where
  key : SearchKey
  parameters : List String := []
  strictness : Strictness

namespace Criterion

def ofToken (token : String) (strictness : Strictness) : Except SearchError Criterion :=
  match SearchKey.ofToken? token with
  | some key => .ok { key, strictness }
  | none => .error (.unknownKey token)

def add (c : Criterion) (parameter : String) : Criterion :=
  { c with parameters := c.parameters ++ [parameter] }

def wantsParameter (c : Criterion) : Bool := c.parameters.length < c.key.parameterCount

/-- Takes tokens off the list for as long as the criterion wants one. -/
def fill (c : Criterion) : List String → Except SearchError (Criterion × List String)
  | [] => if c.wantsParameter then .error (.missingParameter c.key) else .ok (c, [])
  | token :: rest => if c.wantsParameter then (c.add token).fill rest else .ok (c, token :: rest)

theorem length_of_fill {c filled : Criterion} {tokens rest : List String}
    (h : c.fill tokens = .ok (filled, rest)) : rest.length ≤ tokens.length := by
  induction tokens generalizing c with
  | nil =>
    rw [fill] at h
    split at h <;> cases h
    exact Nat.le_refl 0
  | cons token tokens ih =>
    rw [fill] at h
    split at h
    · exact Nat.le_succ_of_le (ih h)
    · cases h
      exact Nat.le_refl _

def parameter? (c : Criterion) (i : Nat) : Option String := c.parameters[i]?

def description (c : Criterion) : String :=
  "SearchTermBuilder \x7b key: " ++ c.key.caption ++ ", parameters: [" ++
    ", ".intercalate (c.parameters.map quoted) ++ "], options: " ++ c.strictness.description ++
    " \x7d"

def flagTest (flag : SystemFlag) (present : Bool) : Except SearchError Term :=
  .ok (.flagIs (.system flag) present)

def keywordTest (name : String) (present : Bool) : Except SearchError Term :=
  match Flag.ofName? name with
  | some flag => .ok (.flagIs flag present)
  | none => .error .emptyFlagName

def addressTest (role : Role) (text : String) : Except SearchError Term :=
  return .addressIs role (← EmailAddress.parse text)

def uidTest (text : String) : Except SearchError Term :=
  return .uidIn (← UidSet.parse text)

variable [MatcherLimit]

def headerTest (field text : String) (strictness : Strictness) : Except SearchError Term :=
  return .headerContains field (← Needle.ofText text strictness)

/-- What each key makes of the parameters, which it looks up by their positions. There is nothing if
a position that it looks at has no parameter. -/
def strategy (key : SearchKey) (strictness : Strictness) (parameter? : Nat → Option String) :
    Option (Except SearchError Term) :=
  match key with
  | .all => some (.ok .all)
  | .answered => some (flagTest .answered true)
  | .deleted => some (flagTest .deleted true)
  | .draft => some (flagTest .draft true)
  | .flagged => some (flagTest .flagged true)
  | .seen => some (flagTest .seen true)
  | .unanswered => some (flagTest .answered false)
  | .undeleted => some (flagTest .deleted false)
  | .undraft => some (flagTest .draft false)
  | .unflagged => some (flagTest .flagged false)
  | .unseen => some (flagTest .seen false)
  | .new => some do return (← flagTest .recent true).conj (← flagTest .seen false)
  | .old => some (flagTest .recent false)
  | .recent => some (flagTest .recent true)
  | .bcc => return addressTest .bcc (← parameter? 0)
  | .cc => return addressTest .cc (← parameter? 0)
  | .sender => return addressTest .sender (← parameter? 0)
  | .recipient => return addressTest .recipient (← parameter? 0)
  | .subject => return headerTest "Subject" (← parameter? 0) strictness
  | .header => return headerTest (← parameter? 0) (← parameter? 1) strictness
  | .keyword => return keywordTest (← parameter? 0) true
  | .unkeyword => return keywordTest (← parameter? 0) false
  | .uid => return uidTest (← parameter? 0)

/-- The term that the criterion stands for. -/
def build (c : Criterion) : Except SearchError Term :=
  let term? :=
    if c.parameters.length = c.key.parameterCount then strategy c.key c.strictness c.parameter?
    else none
  term?.getD (.error (.wrongParameterCount c.key c.key.parameterCount c.parameters.length))

end Criterion

variable [MatcherLimit]

/-- Reads criteria off a list of tokens, one after the other, and adds their terms to `term`. -/
def compileOnto (strictness : Strictness) (term : Term) : List String → Except SearchError Term
  | [] => .ok term
  | token :: rest => do
    let c ← Criterion.ofToken token strictness
    match _h : c.fill rest with
    | .error e => .error e
    | .ok (c, rest) => compileOnto strictness (term.conj (← c.build)) rest
termination_by tokens => tokens.length
decreasing_by exact Nat.lt_succ_of_le (Criterion.length_of_fill _h)

/-- The conjunction of all criteria in a list of tokens: each key with as many tokens after it as it
has parameters. No criteria at all hold of every message. -/
def compile (strictness : Strictness) (tokens : List String) : Except SearchError Term :=
  compileOnto strictness .all tokens

end MailSearch
