import MailSearch.Settings
import MailSearch.Toml.Document

/-! # Settings in TOML

The one table of a settings file that counts is `search`; what else it holds is not looked at, so
long as the document is well-formed.
-/

namespace MailSearch.Settings

open Toml

/-- The value of a key that may be missing, but not be there twice. -/
def single? (name : String) (entries : Entries) : Option (Option Value) :=
  match entries.filter (·.1 = name) with
  | [] => some none
  | [(_, v)] => some (some v)
  | _ => none

def asBoolean? : Value → Option Bool
  | .boolean b => some b
  | _ => none

def switch? (name : String) (entries : Entries) : Option Bool := do
  match ← single? name entries with
  | none => return false
  | some v => asBoolean? v

/-- The settings in the value of `search`: a table of them, or a list of their values in order. A
date counts as a table of nothing known. -/
def ofValue? : Value → Option Settings
  | .table _ entries => do
    let caseSensitive ← switch? "case_sensitive" entries
    let exactWhitespace ← switch? "exact_whitespace" entries
    let sequential ← switch? "sequential" entries
    return { caseSensitive, exactWhitespace, sequential }
  | .array values => do
    match ← values.mapM asBoolean? with
    | [] => return {}
    | [a] => return ⟨a, false, false⟩
    | [a, b] => return ⟨a, b, false⟩
    | [a, b, c] => return ⟨a, b, c⟩
    | _ => none
  | .datetime => some {}
  | _ => none

def ofEntries? (entries : Entries) : Option Settings := do
  match ← single? "search" entries with
  | none => return {}
  | some v => ofValue? v

instance : SettingsFormat where
  read? raw := Utf8.decode? raw >>= Toml.parse? >>= fun d => ofEntries? d.entries

end MailSearch.Settings
