import MailSearch.SearchKey

/-! # What can go wrong

The causes for which a search is refused or cannot be carried out, what is said about each, and the
exit status that tells a script of it.
-/

namespace MailSearch

/-- Why a file could not be read. -/
inductive FileFault
  | notFound | isDirectory | notADirectory | nameTooLong
  | other (message : String)
deriving DecidableEq

namespace FileFault

def message : FileFault → String
  | notFound => "No such file or directory (os error 2)"
  | isDirectory => "Is a directory (os error 21)"
  | notADirectory => "Not a directory (os error 20)"
  | nameTooLong => "File name too long (os error 36)"
  | other message => message

end FileFault

inductive SearchError
  | unknownKey (token : String)
  | wrongParameterCount (key : SearchKey) (expected actual : Nat)
  | missingParameter (key : SearchKey)
  | invalidAddress (text : String)
  | invalidUidRange (text : String)
  | emptyFlagName
  | unsearchableText
  | badConfiguration
  | unreadable (fault : FileFault)
deriving DecidableEq

namespace SearchError

def message : SearchError → String
  | unknownKey token => "Unknown search key: " ++ token
  | wrongParameterCount key expected actual =>
    key.name ++ " takes " ++ toString expected ++ " parameter(s), but " ++ toString actual ++
      " were given"
  | missingParameter key =>
    "Search criteria ended before " ++ key.name ++ " received its parameters"
  | invalidAddress text => "Address is not correct: " ++ text
  | invalidUidRange text => "Invalid UID range: " ++ text
  | emptyFlagName => "Can not convert empty string to mail flag"
  | unsearchableText => "Search text cannot be matched"
  | badConfiguration => "Bad configuration"
  | unreadable fault => fault.message

/-- Whether the criteria are at fault, and not what is around them. -/
def isBadCriteria : SearchError → Bool
  | unknownKey _ | wrongParameterCount .. | missingParameter _ | invalidAddress _
  | invalidUidRange _ | emptyFlagName | unsearchableText => true
  | badConfiguration | unreadable _ => false

end SearchError

/-- Exit statuses in the mailers' convention, and that of a program which is broken off. -/
inductive ExitStatus
  | ok | usage | noInput | ioError | configuration | aborted
deriving DecidableEq

namespace ExitStatus

def code : ExitStatus → Nat
  | ok => 0
  | usage => 64
  | noInput => 66
  | ioError => 74
  | configuration => 78
  | aborted => 134

def ofError : SearchError → ExitStatus
  | .unknownKey _ | .wrongParameterCount .. | .missingParameter _ | .invalidAddress _
  | .invalidUidRange _ | .emptyFlagName | .unsearchableText => usage
  | .badConfiguration => configuration
  | .unreadable .notFound => noInput
  | .unreadable _ => ioError

end ExitStatus

end MailSearch
