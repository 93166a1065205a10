import MailSearch.CommandLine.Run

/-! # The command line program -/

namespace MailSearch.CommandLine

def readFile (path : Path) : IO (Except FileFault Bytes) := do
  match Utf8.decode? path with
  | none => return .error .notFound
  | some name =>
    try
      let raw ← IO.FS.readBinFile name
      return .ok raw.toList
    catch
      | .noFileOrDirectory .. => return .error .notFound
      | .inappropriateType .. => return .error .isDirectory
      | e => return .error (.other (toString e))

end MailSearch.CommandLine

/-- Shown records and complaints go to standard error. -/
def main (args : List String) : IO UInt32 := do
  let outcome ← MailSearch.CommandLine.run MailSearch.CommandLine.readFile args
  for record in outcome.log do
    IO.eprintln record.line
  for complaint in outcome.complaint do
    IO.eprintln complaint
  IO.print outcome.output
  return UInt32.ofNat outcome.status.code
