import MailSearch.Criterion

/-! # Searching

A search evaluates a term on every message once. The order in which it does so is free, unless it is
to be that of the messages; the hits are given in the order of the messages.
-/

namespace MailSearch

structure Hits where
  positions : List Nat
  warnings : List Warning
deriving DecidableEq

/-- Evaluates the messages at the positions listed in `order`, in that order. -/
def Term.searchIn (t : Term) (messages : List Message) (order : List Nat) : Hits where
  positions :=
    (order.filter fun i => (messages[i]?.map t.holds).getD false).mergeSort (· ≤ ·)
  warnings := order.flatMap fun i => (messages[i]?.map fun m => (t.eval m).warnings).getD []

/-- Evaluates the messages from first to last. -/
def Term.search (t : Term) (messages : List Message) : Hits :=
  t.searchIn messages (List.range messages.length)

/-- In which order workers get to so many messages. -/
class WorkerPool where
  order : (count : Nat) → List Nat
  perm (count : Nat) : (order count).Perm (List.range count)

def Term.searchBy [WorkerPool] (sequential : Bool) (t : Term) (messages : List Message) : Hits :=
  if sequential then t.search messages
  else t.searchIn messages (WorkerPool.order messages.length)

end MailSearch
