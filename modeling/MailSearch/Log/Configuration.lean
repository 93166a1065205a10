import MailSearch.Log.Interval
import MailSearch.Log.Record
import MailSearch.Toml.Settings

/-! # Log configuration files

A TOML document may take over where log records go: it gives a root logger, named loggers and
appenders. What an appender needs besides its kind and its filters is not checked. Of the appenders
those on the console are followed that the root logger names, as far as they have no filters and
write by a pattern of texts, messages, levels and line ends.
-/

namespace MailSearch.LogConfiguration

open Toml MailSearch.Parser

def asString? : Value → Option String
  | .string s => some s
  | _ => none

def isString (v : Value) : Bool := (asString? v).isSome

def isHeaded : Value → Bool
  | .table .headed _ => true
  | _ => false

/-- A field of a record: its name, whether it may be missing, and the values it may have. -/
structure Field where
  name : String
  mayMiss : Bool
  accepts : Value → Bool

/-- Each key is that of a field, at most once there, with a value for it, and no field is missing
that has to be there. -/
def holdsFields (fields : List Field) (entries : Entries) : Bool :=
  (entries.all fun e =>
    (fields.find? (·.name = e.1)).any (·.accepts e.2) &&
      (entries.filter (·.1 = e.1)).length = 1) &&
    fields.all fun f => f.mayMiss || entries.any (·.1 = f.name)

/-- A record is written as a table of its fields, or as a list of their values in order, from which
fields at the end may be missing. An array of tables is no such list. -/
def isRecord (fields : List Field) : Value → Bool
  | .table _ entries => holdsFields fields entries
  | .array values =>
    !values.any isHeaded && values.length ≤ fields.length &&
      (fields.zip values).all (fun p => p.1.accepts p.2) &&
      (fields.drop values.length).all (·.mayMiss)
  | _ => false

/-- Values under names of the writer's choice. -/
def isTableOf (element : Value → Bool) : Value → Bool
  | .table _ entries => entries.all fun e => element e.2
  | _ => false

/-- How far down a log goes that is named by a level. -/
def depth? (s : String) : Option Nat :=
  ["off", "error", "warn", "info", "debug", "trace"].findIdx? fun name => sameIgnoringCase name s

/-- The level that a document gives in place of a value: it is one empty section, and the last name
in its header is that of the level. -/
def depthOfHeader? : List Section → Option Nat
  | [s] => if s.entries.isEmpty then s.path.getLast? >>= depth? else none
  | _ => none

/-- A level is written by its name, or by its name with an empty table in braces around it. -/
def depthOf? (sections : List Section) : Value → Option Nat
  | .string s => depth? s
  | .table .braced [(name, .table _ [])] => depth? name
  | .table .headed _ => depthOfHeader? sections
  | _ => none

def isLevel (sections : List Section) (v : Value) : Bool := (depthOf? sections v).isSome

def isNameList : Value → Bool
  | .array vs => vs.all isString
  | _ => false

def isInterval (v : Value) : Bool := (asString? v).any fun s => (Interval.parse? s).isSome

def isBoolean (v : Value) : Bool := (Settings.asBoolean? v).isSome

def rootFields (sections : List Section) : List Field :=
  [⟨"level", true, isLevel sections⟩, ⟨"appenders", true, isNameList⟩]

def loggerFields (sections : List Section) : List Field :=
  [⟨"level", false, isLevel sections⟩, ⟨"appenders", true, isNameList⟩,
    ⟨"additive", true, isBoolean⟩]

/-- The value of a key; of several, the last one counts. -/
def last? (name : String) (entries : Entries) : Option Value := entries.reverse.lookup name

def isFilter : Value → Bool
  | .table _ entries => (last? "kind" entries).any isString
  | _ => false

def isFilterList : Value → Bool
  | .array vs => vs.all isFilter
  | _ => false

/-- An appender says what kind it is of, and may have filters that do. -/
def isAppender : Value → Bool
  | .table _ entries =>
    (last? "kind" entries).any isString && (last? "filters" entries).all isFilterList
  | _ => false

def documentFields (sections : List Section) : List Field :=
  [⟨"refresh_rate", true, isInterval⟩,
    ⟨"root", true, isRecord (rootFields sections)⟩,
    ⟨"appenders", true, isTableOf isAppender⟩,
    ⟨"loggers", true, isTableOf (isRecord (loggerFields sections))⟩]

def isConfiguration (d : Document) : Bool := holdsFields (documentFields d.sections) d.entries

/-- The value of a record's field. -/
def fieldOf? (fields : List Field) (name : String) : Value → Option Value
  | .table _ entries => last? name entries
  | .array values => values[fields.findIdx (·.name = name)]?
  | _ => none

/-- What a pattern is made of. -/
inductive Part
  | char (c : Char)
  | message | level | lineEnd

def Part.write (r : LogRecord) : Part → List Char
  | char c => [c]
  | message => r.text.toList
  | level => r.level.name.toList
  | lineEnd => ['\n']

def part : Parser Char Part := do
  match ← satisfy (· != '\x7d') with
  | '\x7b' =>
    let name ← run Char.isAlpha
    symbol '\x7d'
    match String.ofList name with
    | "m" | "message" => return .message
    | "l" | "level" => return .level
    | "n" => return .lineEnd
    | _ => failure
  | c => return .char c

structure ConsoleAppender where
  onStandardError : Bool
  pattern : List Part

def holdsOnly (names : List String) (entries : Entries) : Bool :=
  entries.all fun e => names.contains e.1

/-- The encoder of an appender writes by a pattern, unless it says otherwise. -/
def pattern? : Value → Option (List Part)
  | .table _ entries => do
    let kind := (last? "kind" entries).elim (some "pattern") asString?
    if kind = some "pattern" && holdsOnly ["kind", "pattern"] entries then
      parseAll (many part) (← last? "pattern" entries >>= asString?).toList
    else none
  | _ => none

def console? : Value → Option ConsoleAppender
  | .table _ entries => do
    let kind ← last? "kind" entries >>= asString?
    let target ← (last? "target" entries).elim (some "stdout") asString?
    let pattern ← last? "encoder" entries >>= pattern?
    if kind = "console" && ["stdout", "stderr"].contains target &&
        holdsOnly ["kind", "target", "encoder"] entries then
      return ⟨target = "stderr", pattern⟩
    else none
  | _ => none

structure RootLogger where
  depth : Nat
  appenders : List ConsoleAppender

/-- Without a level of its own, the root logger goes down to `debug`. -/
def rootLogger (d : Document) : RootLogger :=
  let field? := fun name => last? "root" d.entries >>= fieldOf? (rootFields d.sections) name
  let names :=
    match field? "appenders" with
    | some (.array vs) => vs.filterMap asString?
    | _ => []
  let console := fun name => do
    match ← last? "appenders" d.entries with
    | .table _ entries => last? name entries >>= console?
    | _ => none
  { depth := (field? "level" >>= depthOf? d.sections).getD 4
    appenders := names.filterMap console }

def RootLogger.admitted (root : RootLogger) (log : List LogRecord) : List LogRecord :=
  log.filter fun r => r.level.depth ≤ root.depth

def RootLogger.sink (root : RootLogger) : LogSink where
  shown log := if root.appenders.any (·.onStandardError) then root.admitted log else []
  printed log :=
    String.ofList <| (root.admitted log).flatMap fun r =>
      (root.appenders.filter (!·.onStandardError)).flatMap fun a => a.pattern.flatMap (Part.write r)
  printed_nil := rfl

/-- The part of a file name after its last dot; a dot at the front does not count. -/
def extension? (path : Path) : Option Bytes := do
  let name ← Path.lastName? path.steps
  let pieces := splitOn 0x2e name
  let first ← pieces.head?
  let last ← pieces.getLast?
  if pieces.length < 2 || (pieces.length = 2 && first.isEmpty) then none
  else some last

instance : LogFormat where
  read? path raw := do
    if extension? path != some (Utf8.encode "toml") then none
    let d ← Utf8.decode? raw >>= Toml.parse?
    if isConfiguration d then some (rootLogger d).sink else none

end MailSearch.LogConfiguration
