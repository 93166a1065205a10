import MailSearch.Message
import MailSearch.Needle
import MailSearch.UidSet.Text

/-! # Search terms

A term is a condition on messages, built from tests by conjunction. Conjunctions are decided from
left to right, and what stands to the right of a test that fails is not looked at.
-/

namespace MailSearch

inductive Term
  | all
  | flagIs (flag : Flag) (present : Bool)
  | headerContains (field : String) (needle : Needle)
  | addressIs (role : Role) (address : EmailAddress)
  | uidIn (set : UidSet)
  | and (left right : Term)

/-- What is worth telling of an evaluation besides its outcome. -/
inductive Warning
  | noUid (logName : String)
deriving DecidableEq

def Warning.message : Warning → String
  | noUid logName => logName ++ " has no UID; excluding it from UID search"

structure Verdict where
  hit : Bool
  warnings : List Warning := []
deriving DecidableEq

namespace Term

/-- Conjunction in which `all` leaves no trace. -/
def conj : Term → Term → Term
  | all, t => t
  | t, all => t
  | t, u => and t u

def eval (m : Message) : Term → Verdict
  | all => ⟨true, []⟩
  | flagIs flag present => ⟨present == m.hasFlag flag, []⟩
  | headerContains field needle => ⟨(m.values field).any needle.isFoundIn, []⟩
  | addressIs role address => ⟨(m.addresses role).any (·.sameAs address), []⟩
  | uidIn set =>
    match m.uid with
    | some uid => ⟨set.contains uid, []⟩
    | none => ⟨false, [.noUid m.logName]⟩
  | and t u =>
    let left := t.eval m
    if left.hit then
      let right := u.eval m
      ⟨right.hit, left.warnings ++ right.warnings⟩
    else left

def holds (t : Term) (m : Message) : Bool := (t.eval m).hit

def text : Term → String
  | all => "ALL"
  | flagIs flag true => "FLAG " ++ flag.text
  | flagIs flag false => "NOT FLAG " ++ flag.text
  | headerContains field needle => "HEADER " ++ field ++ " CONTAINS " ++ quoted needle.text
  | addressIs role address => role.headerName ++ " IS " ++ address.text
  | uidIn set => "UID IN " ++ set.text
  | and t u => "(" ++ t.text ++ " AND " ++ u.text ++ ")"

/-- Equality test by test, up to what needles and addresses count as the same. -/
def sameAs : Term → Term → Bool
  | all, all => true
  | flagIs f p, flagIs f' p' => f == f' && p == p'
  | headerContains f n, headerContains f' n' => f == f' && n.sameAs n'
  | addressIs r a, addressIs r' a' => r == r' && a.sameAs a'
  | uidIn s, uidIn s' => s == s'
  | and t u, and t' u' => t.sameAs t' && u.sameAs u'
  | _, _ => false

end Term

end MailSearch
