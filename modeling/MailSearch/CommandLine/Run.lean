import MailSearch.CommandLine.Execution
import MailSearch.FileTree
import MailSearch.Log.Configuration
import MailSearch.Needle.Weight

/-! # Running a command line

The program with its own readers of configuration files, for arguments that are text. It looks at
messages one after the other.
-/

namespace MailSearch.CommandLine

instance : WorkerPool where
  order := List.range
  perm _ := .refl _

def run {m : Type → Type} [Monad m] (read : Path → m (Except FileFault Bytes))
    (args : List String) : m Outcome :=
  execute read (args.map Utf8.encode)

/-- The outcome in a directory that holds the files of a tree. -/
def runIn (tree : FileTree) (args : List String) : Outcome :=
  Id.run (run (fun path => pure (tree.read path)) args)

end MailSearch.CommandLine
