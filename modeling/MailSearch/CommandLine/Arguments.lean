import MailSearch.Flag
import MailSearch.Path

/-! # Command-line arguments

A command is followed by options, switches and operands in any order. Values follow their option as
the next argument or in the same one. After `--` all arguments are operands. Arguments are bytes;
only flags and criteria have to be text.
-/

namespace MailSearch.CommandLine

/-- Options that take a value. -/
inductive ValueOption
  | config | logConfig | flag | message
deriving DecidableEq

inductive Switch
  | verbose | maildirFlags | noUids
deriving DecidableEq

inductive OptionKind
  | value (name : ValueOption)
  | switch (name : Switch)
  | help
  | version
deriving DecidableEq

inductive Command
  | search | explain
deriving DecidableEq

namespace Command

def name : Command → String
  | search => "search"
  | explain => "explain"

def ofName? (name : Bytes) : Option Command :=
  [search, explain].find? fun c => Utf8.encode c.name == name

/-- The options of a command by their long names. -/
def longOptions : Command → List (String × OptionKind)
  | search =>
    [("config", .value .config), ("log-config", .value .logConfig), ("flag", .value .flag),
      ("message", .value .message), ("verbose", .switch .verbose),
      ("maildir-flags", .switch .maildirFlags), ("no-uids", .switch .noUids), ("help", .help),
      ("version", .version)]
  | explain => [("config", .value .config), ("help", .help), ("version", .version)]

def longOption? (command : Command) (name : Bytes) : Option OptionKind :=
  (command.longOptions.find? fun o => Utf8.encode o.1 == name).map (·.2)

def shortOptions : Command → List (Char × OptionKind)
  | search =>
    [('f', .value .flag), ('m', .value .message), ('v', .switch .verbose), ('h', .help),
      ('V', .version)]
  | explain => [('h', .help), ('V', .version)]

def shortOption? (command : Command) (letter : UInt8) : Option OptionKind :=
  command.shortOptions.lookup (Char.ofNat letter.toNat)

end Command

/-- Why arguments make no request. Where text is asked for and not given, the program is broken
off. -/
inductive Halt
  | misuse
  | notText
  | help
  | version (command : Option Command)
deriving DecidableEq

/-- What has been read so far. An option that waits for its value takes the next argument, unless
that looks like an option itself. -/
structure Collected where
  options : List ValueOption := []
  values : List (ValueOption × Bytes) := []
  switches : List Switch := []
  operands : List Bytes := []
  waiting : Option ValueOption := none
  operandsOnly : Bool := false

def dash : UInt8 := 0x2d

def equals : UInt8 := 0x3d

namespace Collected

def addValue (c : Collected) (o : ValueOption) (value : Bytes) : Collected :=
  { c with values := c.values ++ [(o, value)], waiting := none }

/-- An option with the rest of its argument, if that holds its value. Equals signs may stand between
the two. -/
def addOption (c : Collected) (o : ValueOption) (rest : Option Bytes) : Collected :=
  let c := { c with options := c.options ++ [o] }
  match rest with
  | none => { c with waiting := some o }
  | some value => c.addValue o (value.dropWhile (· == equals))

def addSwitch (c : Collected) (s : Switch) : Collected :=
  { c with switches := c.switches ++ [s], waiting := none }

/-- An argument that starts with two dashes. What a switch is set equal to does not count. -/
def addLong (command : Command) (c : Collected) (arg : Bytes) : Except Halt Collected :=
  let body := arg.dropWhile (· == dash)
  let rest := if arg.contains equals then some ((body.dropWhile (· != equals)).drop 1) else none
  match command.longOption? (body.takeWhile (· != equals)) with
  | some (.value o) => .ok (c.addOption o rest)
  | some (.switch s) => .ok (c.addSwitch s)
  | some .help => .error .help
  | some .version => .error (.version command)
  | none => .error .misuse

/-- The letters after a single dash: switches, up to an option that takes the rest as its value. -/
def addShort (command : Command) (c : Collected) : Bytes → Except Halt Collected
  | [] => .ok c
  | letter :: rest =>
    match command.shortOption? letter with
    | some (.value o) => .ok (c.addOption o (if rest.isEmpty then none else some rest))
    | some (.switch s) => addShort command (c.addSwitch s) rest
    | some .help => .error .help
    | some .version => .error (.version command)
    | none => .error .misuse

def add (command : Command) (c : Collected) (arg : Bytes) : Except Halt Collected :=
  if c.operandsOnly then .ok { c with operands := c.operands ++ [arg] }
  else if arg = [dash, dash] then .ok { c with operandsOnly := true }
  else if arg.take 2 = [dash, dash] then c.addLong command arg
  else if arg.head? = some dash && arg != [dash] then c.addShort command arg.tail
  else
    match c.waiting with
    | some o => .ok (c.addValue o arg)
    | none => .ok { c with operands := c.operands ++ [arg] }

def valuesOf (c : Collected) (o : ValueOption) : List Bytes :=
  (c.values.filter (·.1 = o)).map (·.2)

/-- No option lacks a value altogether, and only flags and messages are given more than once. -/
def wellUsed (c : Collected) : Bool :=
  c.options.all (fun o => !(c.valuesOf o).isEmpty) &&
    c.options.count .config ≤ 1 && c.options.count .logConfig ≤ 1 &&
    c.switches.all fun s => c.switches.count s ≤ 1

end Collected

structure SearchRequest where
  config : Option Path
  logConfig : Option Path
  verbose : Bool
  maildirFlags : Bool
  flags : List Flag
  noUids : Bool
  messages : List Path
  criteria : List String
deriving DecidableEq

structure ExplainRequest where
  config : Option Path
  criteria : List String
deriving DecidableEq

inductive Request
  | search (request : SearchRequest)
  | explain (request : ExplainRequest)
deriving DecidableEq

def collect (command : Command) (args : List Bytes) : Except Halt Collected := do
  let c ← args.foldlM (Collected.add command) {}
  if c.wellUsed then return c else throw .misuse

def texts (args : List Bytes) : Except Halt (List String) :=
  match args.mapM Utf8.decode? with
  | some texts => .ok texts
  | none => .error .notText

/-- A search names at least one message, and all flags it gives have to be names of flags as far as
they can be read. -/
def searchRequest (args : List Bytes) : Except Halt Request := do
  let c ← collect .search args
  if c.valuesOf .message = [] then throw .misuse
  if (c.valuesOf .flag).any fun name => (Flag.ofName? (Utf8.decodeLossy name)).isNone then
    throw .misuse
  let names ← texts (c.valuesOf .flag)
  let criteria ← texts c.operands
  return .search {
    config := (c.valuesOf .config).head?
    logConfig := (c.valuesOf .logConfig).head?
    verbose := c.switches.contains .verbose
    maildirFlags := c.switches.contains .maildirFlags
    flags := names.filterMap Flag.ofName?
    noUids := c.switches.contains .noUids
    messages := c.valuesOf .message
    criteria }

def explainRequest (args : List Bytes) : Except Halt Request := do
  let c ← collect .explain args
  let criteria ← texts c.operands
  return .explain { config := (c.valuesOf .config).head?, criteria }

/-- The halt that options in place of a command lead to. -/
def withoutCommand (arg : Bytes) : Halt :=
  let name := (arg.dropWhile (· == dash)).takeWhile (· != equals)
  if arg.take 2 = [dash, dash] then
    if name = Utf8.encode "help" then .help
    else if name = Utf8.encode "version" then .version none
    else .misuse
  else if arg.take 2 = Utf8.encode "-h" then .help
  else if arg.take 2 = Utf8.encode "-V" then .version none
  else .misuse

/-- The command `help` may name a command to explain. -/
def helpOn (topics : List Bytes) : Halt :=
  match topics with
  | [] => .help
  | [topic] =>
    if topic = Utf8.encode "help" ∨ (Command.ofName? topic).isSome then .help else .misuse
  | _ => .misuse

def parse (args : List Bytes) : Except Halt Request :=
  match args with
  | [] => .error .misuse
  | first :: rest =>
    match Command.ofName? first with
    | some .search => searchRequest rest
    | some .explain => explainRequest rest
    | none => .error (if first = Utf8.encode "help" then helpOn rest else withoutCommand first)

end MailSearch.CommandLine
