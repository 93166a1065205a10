import MailSearch.Text.Ascii

/-! # Search keys

Each criterion of a search opens with a key, which settles how many parameters follow.
-/

namespace MailSearch

inductive SearchKey
  | all | answered | bcc | cc | deleted | draft | flagged | sender | header | keyword | new | old
  | recent | seen | subject | recipient | uid | unanswered | undeleted | undraft | unflagged
  | unkeyword | unseen
deriving DecidableEq

namespace SearchKey

def listing : List SearchKey :=
  [all, answered, bcc, cc, deleted, draft, flagged, sender, header, keyword, new, old, recent, seen,
    subject, recipient, uid, unanswered, undeleted, undraft, unflagged, unkeyword, unseen]

def name : SearchKey → String
  | all => "ALL"
  | answered => "ANSWERED"
  | bcc => "BCC"
  | cc => "CC"
  | deleted => "DELETED"
  | draft => "DRAFT"
  | flagged => "FLAGGED"
  | sender => "FROM"
  | header => "HEADER"
  | keyword => "KEYWORD"
  | new => "NEW"
  | old => "OLD"
  | recent => "RECENT"
  | seen => "SEEN"
  | subject => "SUBJECT"
  | recipient => "TO"
  | uid => "UID"
  | unanswered => "UNANSWERED"
  | undeleted => "UNDELETED"
  | undraft => "UNDRAFT"
  | unflagged => "UNFLAGGED"
  | unkeyword => "UNKEYWORD"
  | unseen => "UNSEEN"

/-- The name with one capital letter, as a criterion's description shows it. -/
def caption (k : SearchKey) : String :=
  match k.name.toList with
  | [] => ""
  | c :: cs => String.ofList (c :: cs.map Char.toLower)

/-- The number of parameters that follow the key. -/
def parameterCount : SearchKey → Nat
  | header => 2
  | bcc | cc | sender | keyword | subject | recipient | uid | unkeyword => 1
  | all | answered | deleted | draft | flagged | new | old | recent | seen | unanswered | undeleted
  | undraft | unflagged | unseen => 0

/-- The key that a token names, in letters of either case. -/
def ofToken? (s : String) : Option SearchKey := listing.find? fun k => sameIgnoringCase k.name s

theorem mem_listing (k : SearchKey) : k ∈ listing := by cases k <;> decide

end SearchKey

end MailSearch
