import MailSearch.Error
import MailSearch.Path

/-! # File trees

What paths lead to. A tree holds the files below the directory that a command is run in, all of them
with names that are text; a directory is there if a file lies below it. Nothing is known of the
world outside, but that it is a directory.
-/

namespace MailSearch

/-- The names that lead along a path which is text. -/
def pathSteps (path : String) : List String :=
  (Path.steps (Utf8.encode path)).filterMap Utf8.decode?

/-- Files by the names that lead to them from the top. -/
abbrev FileTree := List (List String × Bytes)

namespace FileTree

/-- A later file replaces an earlier one of the same path. -/
def file? (t : FileTree) (steps : List String) : Option Bytes :=
  (t.reverse.find? (·.1 = steps)).map (·.2)

def isDirectory (t : FileTree) (steps : List String) : Bool :=
  steps.isEmpty || t.any fun f => f.1.take steps.length = steps && steps.length < f.1.length

/-- A point in the tree, or some directory outside. -/
inductive Place
  | inside (steps : List String)
  | outside

def maxNameLength : Nat := 255

def maxPathLength : Nat := 4095

def step (t : FileTree) (place : Place) (name : Bytes) : Except FileFault Place :=
  match place, Utf8.decode? name with
  | .outside, some "" | .outside, some "." | .outside, some ".." => .ok .outside
  | .outside, _ => .error .notFound
  | .inside steps, text? =>
    if (t.file? steps).isSome then .error .notADirectory
    else if maxNameLength < name.length then .error .nameTooLong
    else
      match text? with
      | none => .error .notFound
      | some "" | some "." => .ok place
      | some ".." => .ok (if steps.isEmpty then .outside else .inside steps.dropLast)
      | some text =>
        let next := steps ++ [text]
        if (t.file? next).isSome || t.isDirectory next then .ok (.inside next)
        else .error .notFound

/-- The contents of the file that a path leads to. -/
def read (t : FileTree) (path : Path) : Except FileFault Bytes :=
  if path = [] then .error .notFound
  else if maxPathLength < path.length then .error .nameTooLong
  else do
    let start := if path.head? = some 0x2f then Place.outside else .inside []
    match ← path.names.foldlM t.step start with
    | .inside steps =>
      match t.file? steps with
      | some raw => .ok raw
      | none => .error .isDirectory
    | .outside => .error .isDirectory

end FileTree

end MailSearch
