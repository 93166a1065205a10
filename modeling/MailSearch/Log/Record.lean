import MailSearch.Error
import MailSearch.Path

/-! # Log records

What a run tells of its progress: texts of four levels of gravity. By itself a log goes to standard
error down to one level, which leaves out the records below it and keeps the order of the others. A
file may have it go elsewhere, and that may be standard output.
-/

namespace MailSearch

inductive LogLevel
  | error | warn | info | debug
deriving DecidableEq

namespace LogLevel

def name : LogLevel → String
  | error => "ERROR"
  | warn => "WARN"
  | info => "INFO"
  | debug => "DEBUG"

/-- How far down a level is from the gravest. -/
def depth : LogLevel → Nat
  | error => 1
  | warn => 2
  | info => 3
  | debug => 4

end LogLevel

structure LogRecord where
  level : LogLevel
  text : String
deriving DecidableEq

namespace LogRecord

def line (r : LogRecord) : String := r.level.name ++ " " ++ r.text

/-- The records at least as grave as a level. -/
def upTo (level : LogLevel) (log : List LogRecord) : List LogRecord :=
  log.filter fun r => r.level.depth ≤ level.depth

end LogRecord

/-- Where records go: those that are shown on standard error, and what they leave on standard
output. Without records nothing is left there. -/
structure LogSink where
  shown : List LogRecord → List LogRecord
  printed : List LogRecord → String
  printed_nil : printed [] = ""

def LogSink.standardError (level : LogLevel) : LogSink where
  shown := LogRecord.upTo level
  printed _ := ""
  printed_nil := rfl

/-- A reader of log configuration files. -/
class LogFormat where
  read? : Path → Bytes → Option LogSink

/-- Where a log configuration has records go, if the file that it is in can be used. -/
def LogSink.load? [LogFormat] (path : Path) (file : Except FileFault Bytes) : Option LogSink :=
  match file with
  | .ok raw => LogFormat.read? path raw
  | .error _ => none

end MailSearch
