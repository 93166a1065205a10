import MailSearch.Text.Ascii

/-! # Address roles

The four header fields whose values are address lists.
-/

namespace MailSearch

inductive Role
  | sender | recipient | cc | bcc
deriving DecidableEq

namespace Role

def all : List Role := [sender, recipient, cc, bcc]

def headerName : Role → String
  | sender => "From"
  | recipient => "To"
  | cc => "Cc"
  | bcc => "Bcc"

def ofHeader? (name : String) : Option Role :=
  all.find? fun role => sameIgnoringCase role.headerName name

theorem mem_all (role : Role) : role ∈ all := by cases role <;> decide

end Role

end MailSearch
