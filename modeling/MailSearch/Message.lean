import MailSearch.Address.Email
import MailSearch.Flag
import MailSearch.Header
import MailSearch.Role
import MailSearch.Uid

/-! # Messages

What a search may ask of a message: its header fields, the addresses in them, its flags and its UID.
Addresses are read once, when their field is added.
-/

namespace MailSearch

structure Message where
  fields : List HeaderField := []
  addresses : Role → List EmailAddress := fun _ => []
  flags : Flags := {}
  uid : Option Uid := none

namespace Message

def empty : Message := {}

/-- Appends a field. One that carries addresses adds to those of its role. -/
def addField (m : Message) (field : HeaderField) : Message :=
  { m with
    fields := m.fields ++ [field]
    addresses :=
      match Role.ofHeader? field.name with
      | none => m.addresses
      | some role =>
        let found := m.addresses role ++ addressesIn field.value
        fun r => if r = role then found else m.addresses r }

def setFlag (m : Message) (flag : Flag) : Message := { m with flags := m.flags.set flag }

def setUid (m : Message) (uid : Option Uid) : Message := { m with uid := uid }

def hasFlag (m : Message) (flag : Flag) : Bool := m.flags.has flag

/-- The values of all fields of a name, in order. -/
def values (m : Message) (name : String) : List String :=
  (m.fields.filter fun f => sameIgnoringCase f.name name).map HeaderField.value

/-- A message as it stands in a file: its header block, and no flags and no UID. -/
def parse (raw : Bytes) : Message := (HeaderField.parseBlock raw).foldl addField empty

/-- How a message is called when there is something to say about it. -/
def logName (m : Message) : String :=
  match m.uid with
  | some uid => "UID " ++ toString uid.toNat
  | none => (m.values "Message-ID").head?.getD "<no Message-ID>"

end Message

end MailSearch
