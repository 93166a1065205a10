import MailSearch.Text.Ascii
import MailSearch.Text.Blank

/-! # Message flags

A flag is one of six system flags or a keyword. System flags are named without regard to case and
with or without their backslash; a keyword is compared by its exact spelling. A message keeps its
system flags as bits of one number, and its keywords as a list without repetitions.
-/

namespace MailSearch

inductive SystemFlag
  | answered | deleted | draft | flagged | recent | seen
deriving DecidableEq

namespace SystemFlag

def all : List SystemFlag := [answered, deleted, draft, flagged, recent, seen]

/-- The name without its backslash. -/
def name : SystemFlag → String
  | answered => "Answered"
  | deleted => "Deleted"
  | draft => "Draft"
  | flagged => "Flagged"
  | recent => "Recent"
  | seen => "Seen"

def ofName? (s : String) : Option SystemFlag := all.find? fun f => sameIgnoringCase f.name s

/-- The flag's place in a number that stands for system flags. -/
def bit : SystemFlag → Nat
  | answered => 1
  | deleted => 2
  | draft => 4
  | flagged => 8
  | recent => 16
  | seen => 32

end SystemFlag

inductive Flag
  | system (flag : SystemFlag)
  | keyword (name : String)
deriving DecidableEq

namespace Flag

/-- The flag as it is written in a message store. -/
def text : Flag → String
  | system f => "\\" ++ f.name
  | keyword s => s

/-- A name less one leading backslash. -/
def bareName (cs : List Char) : List Char :=
  match cs with
  | '\\' :: rest => rest
  | _ => cs

/-- The flag that a name stands for, blanks around it aside. A name that is no system flag is a
keyword, backslash included; nothing, or a backslash alone, is no name. -/
def ofName? (s : String) : Option Flag :=
  let name := trimChars s.toList
  let bare := String.ofList (bareName name)
  if bare = "" then none
  else
    match SystemFlag.ofName? bare with
    | some f => some (system f)
    | none => some (keyword (String.ofList name))

def systemBit? : Flag → Option Nat
  | system f => some f.bit
  | keyword _ => none

end Flag

structure Flags where
  systemBits : Nat := 0
  keywords : List String := []

namespace Flags

def hasBits (flags : Flags) (bits : Nat) : Bool := flags.systemBits &&& bits == bits

def hasKeyword (flags : Flags) (name : String) : Bool := flags.keywords.contains name

def set (flags : Flags) (flag : Flag) : Flags :=
  match flag.systemBit? with
  | some bit => { flags with systemBits := flags.systemBits ||| bit }
  | none =>
    match flag with
    | .keyword name => { flags with keywords := flags.keywords.insert name }
    | .system _ => flags

def has (flags : Flags) (flag : Flag) : Bool :=
  match flag.systemBit? with
  | some bit => flags.hasBits bit
  | none =>
    match flag with
    | .keyword name => flags.hasKeyword name
    | .system _ => false

end Flags

end MailSearch
