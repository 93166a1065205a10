import MailSearch.Text.Split
import MailSearch.Text.Utf8

/-! # Paths

A path is bytes, which need not be UTF-8. Slashes part its names.
-/

namespace MailSearch

abbrev Path := Bytes

namespace Path

def names (path : Path) : List Bytes := splitOn 0x2f path

/-- The names in a path that lead somewhere. -/
def steps (path : Path) : List Bytes :=
  path.names.filter fun name => name != [] && name != Utf8.encode "."

/-- The last of a path's names, unless it leads back up. -/
def lastName? (steps : List Bytes) : Option Bytes :=
  steps.getLast?.filter (· != Utf8.encode "..")

def display (path : Path) : String := Utf8.decodeLossy path

end Path

end MailSearch
