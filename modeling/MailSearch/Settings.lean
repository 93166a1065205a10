import MailSearch.Needle
import MailSearch.Text.Utf8

/-! # Settings

How searches are carried out, as far as a settings file has a say in it.
-/

namespace MailSearch

/-- `sequential` has messages worked through one by one. -/
structure Settings where
  caseSensitive : Bool := false
  exactWhitespace : Bool := false
  sequential : Bool := false
deriving DecidableEq

/-- A reader of settings files. -/
class SettingsFormat where
  read? : Bytes → Option Settings

namespace Settings

def strictness (s : Settings) : Strictness := ⟨s.caseSensitive, s.exactWhitespace⟩

variable [SettingsFormat]

/-- The settings in a file of these bytes. -/
def parse (raw : Bytes) : Except SearchError Settings :=
  match SettingsFormat.read? raw with
  | some s => .ok s
  | none => .error .badConfiguration

/-- The settings in a file, if there is one to read. -/
def load (file : Except FileFault Bytes) : Except SearchError Settings :=
  match file with
  | .ok raw => parse raw
  | .error fault => .error (.unreadable fault)

end Settings

end MailSearch
