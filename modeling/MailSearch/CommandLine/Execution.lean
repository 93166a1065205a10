import MailSearch.CommandLine.Arguments
import MailSearch.Log.Record
import MailSearch.Maildir
import MailSearch.Search
import MailSearch.Settings

/-! # Executing a command

What a command line does, over any way of reading files and whatever reads the two configuration
files: its steps in order, each of which may end it, and what it has to show at the end. Nothing is
answered by an execution that fails.
-/

namespace MailSearch.CommandLine

def programName : String := "crysearch"

def versionNumber : String := "0.1.0"

def versionLine (command : Option Command) : String :=
  let title :=
    match command with
    | none => programName
    | some c => programName ++ "-" ++ c.name
  title ++ " " ++ versionNumber

def helpText : String :=
  programName ++ " " ++ versionNumber ++ "\n\n" ++
    "search [-v] [--config FILE] [--log-config FILE] [-f FLAG]... [--maildir-flags]\n" ++
    "       [--no-uids] -m FILE... [--] CRITERIA...\n" ++
    "explain [--config FILE] [--] CRITERIA..."

inductive Reply
  | nothing
  | help
  | line (text : String)
deriving DecidableEq

def Reply.text : Reply → String
  | nothing => ""
  | help => helpText ++ "\n"
  | line text => text ++ "\n"

/-- What an execution leaves behind. A complaint says why it failed; its records go to `sink`. -/
structure Outcome where
  status : ExitStatus
  answer : Reply
  records : List LogRecord := []
  complaint : Option String := none
  sink : LogSink := .standardError .info

namespace Outcome

def success (answer : Reply) (records : List LogRecord) : Outcome :=
  { status := .ok, answer, records }

def failure (status : ExitStatus) (complaint : String) (records : List LogRecord) : Outcome :=
  { status, answer := .nothing, records, complaint := some complaint }

def refusal (e : SearchError) (records : List LogRecord) : Outcome :=
  failure (.ofError e) e.message records

/-- The records on standard error. -/
def log (o : Outcome) : List LogRecord := o.sink.shown o.records

/-- What records leave on standard output. -/
def printed (o : Outcome) : String := o.sink.printed o.records

/-- Standard output: the answer comes after all records. -/
def output (o : Outcome) : String := o.printed ++ o.answer.text

/-- Standard output as one reply, for readers that take it line by line. -/
def reply (o : Outcome) : Reply :=
  if o.printed = "" then o.answer
  else
    let text := o.output.toList
    .line (String.ofList (if text.getLast? = some '\n' then text.dropLast else text))

end Outcome

def Halt.outcome : Halt → Outcome
  | .misuse => .failure .usage "These arguments are not understood; see --help" []
  | .notText => .failure .aborted "Some arguments are not text" []
  | .help => .success .help []
  | .version command => .success (.line (versionLine command)) []

/-- The message that a file holds, as the request wants it: numbered by its place, and with flags
from the command line and from its path. -/
def SearchRequest.message (r : SearchRequest) (position : Nat) (path : Path) (raw : Bytes) :
    Message :=
  let m := (Message.parse raw).setUid (if r.noUids then none else Uid.ofNat? position)
  let named := if r.maildirFlags then Maildir.flagsOf path else []
  (r.flags ++ named).foldl Message.setFlag m

/-- The answer to a search: the places of the hits, counted from one. -/
def responseLine (positions : List Nat) : String :=
  "* SEARCH" ++ String.join (positions.map fun i => " " ++ toString (i + 1))

/-- How an execution ends that has a term and all messages at hand. -/
def answerSearch [WorkerPool] (sequential : Bool) (term : Term) (messages : List Message) :
    List LogRecord × Reply :=
  let hits := term.searchBy sequential messages
  let count := toString messages.length
  let log :=
    ⟨.info, "Loaded " ++ count ++ " message(s)"⟩ ::
      hits.warnings.map (fun w => ⟨.warn, w.message⟩) ++
      [⟨.debug, toString hits.positions.length ++ " of " ++ count ++ " messages matched"⟩]
  (log, .line (responseLine hits.positions))

def compiledRecord (term : Term) : LogRecord :=
  ⟨.debug, "Compiled search criteria: " ++ term.text⟩

def loadedRecord (path : Path) (position : Nat) : LogRecord :=
  ⟨.debug, "Loaded '" ++ path.display ++ "' as message " ++ toString position⟩

/-- The record of a file that cannot be read. -/
def faultRecord (path : Path) (fault : FileFault) : LogRecord :=
  ⟨.error, "Failed to read '" ++ path.display ++ "': " ++ fault.message⟩

section

variable {m : Type → Type} [Monad m] (read : Path → m (Except FileFault Bytes))

/-- Reads message files in order, up to the first that cannot be read. -/
def loadMessages (r : SearchRequest) (position : Nat) :
    List Path → m (List LogRecord × Except FileFault (List Message))
  | [] => return ([], .ok [])
  | path :: paths => do
    match ← read path with
    | .error fault => return ([faultRecord path fault], .error fault)
    | .ok raw =>
      let (log, rest) ← loadMessages r (position + 1) paths
      return (loadedRecord path position :: log, rest.map (r.message position path raw :: ·))

/-- The settings to go by; without a file, the usual ones. A file that gives none is a fault of the
configuration, also where it is missing. -/
def loadSettings [SettingsFormat] (path : Option Path) : m (Except Outcome Settings) := do
  match path with
  | none => return .ok {}
  | some path =>
    match Settings.load (← read path) with
    | .ok settings => return .ok settings
    | .error e =>
      let complaint := "Error in config file at '" ++ path.display ++ "': " ++ e.message
      return .error (.failure .configuration complaint [])

/-- Where the records of a search go: to standard error, or where a configuration has them go. -/
def openLog [LogFormat] (r : SearchRequest) : m (Except Outcome LogSink) := do
  match r.logConfig with
  | none => return .ok (.standardError (if r.verbose then .debug else .info))
  | some path =>
    match LogSink.load? path (← read path) with
    | some sink => return .ok sink
    | none =>
      let complaint := "Error in log config file at '" ++ path.display ++ "'"
      return .error (.failure .configuration complaint [])

variable [SettingsFormat] [MatcherLimit]

/-- A search once its log is in place: settings, criteria, messages, answer. -/
def searchWith [WorkerPool] (r : SearchRequest) : m Outcome := do
  match ← loadSettings read r.config with
  | .error outcome => return outcome
  | .ok settings =>
    match compile settings.strictness r.criteria with
    | .error e => return .refusal e []
    | .ok term =>
      let (log, loaded) ← loadMessages read r 1 r.messages
      match loaded with
      | .error fault => return .refusal (.unreadable fault) (compiledRecord term :: log)
      | .ok messages =>
        let (more, answer) := answerSearch settings.sequential term messages
        return .success answer (compiledRecord term :: log ++ more)

def executeSearch [WorkerPool] [LogFormat] (r : SearchRequest) : m Outcome := do
  match ← openLog read r with
  | .error outcome => return outcome
  | .ok sink =>
    let outcome ← searchWith read r
    return { outcome with sink }

/-- Shows the term that criteria stand for. -/
def executeExplain (r : ExplainRequest) : m Outcome := do
  match ← loadSettings read r.config with
  | .error outcome => return outcome
  | .ok settings =>
    match compile settings.strictness r.criteria with
    | .error e => return .refusal e []
    | .ok term => return .success (.line term.text) []

def execute [WorkerPool] [LogFormat] (args : List Bytes) : m Outcome := do
  match parse args with
  | .error halt => return halt.outcome
  | .ok (.search r) => executeSearch read r
  | .ok (.explain r) => executeExplain read r

end

end MailSearch.CommandLine
