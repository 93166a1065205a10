import MailSearch.Toml.Value

/-! # TOML documents

A document is a run of sections, each under a header that names a table or a new element of an
array of tables. `parse?` puts them together into one table. A table has one header at most, and a
name is either that of a table or that of an array of tables.
-/

namespace MailSearch.Toml

open MailSearch.Parser

/-- A section's header and what comes under it. The keys before the first header, if there are any,
form a section with an empty path. -/
structure Section where
  path : List String
  isElement : Bool
  entries : Entries

inductive Line
  | header (path : List String) (isElement : Bool)
  | entry (path : List String) (value : Value)
  | nothing

def headerLine : TokenParser Line := do
  symbol .leftBracket
  let element ← optional (symbol .leftBracket)
  skipBlank
  let path ← dottedKey
  symbol .rightBracket
  if element.isSome then symbol .rightBracket
  skipBlank
  endOfLine
  return .header path element.isSome

def entryLine : TokenParser Line := do
  let path ← dottedKey
  symbol .equals
  skipBlank
  let v ← value
  skipBlank
  endOfLine
  return .entry path v

/-- What separates lines with something on them. -/
def idleLine : TokenParser Line := do
  (do let _ ← satisfy fun t => t matches .blank _)
    <|> symbol .lineEnd
    <|> (do symbol .comment; endOfLine)
  return .nothing

def lines : TokenParser (List Line) := many (idleLine <|> headerLine <|> entryLine)

/-- Gathers lines into sections. The last section is the one being filled. -/
def addLine (filled : List Section × Section) : Line → Option (List Section × Section)
  | .nothing => some filled
  | .header path isElement => some (filled.1 ++ [filled.2], ⟨path, isElement, []⟩)
  | .entry path v => do
    let entries ← addDotted path v filled.2.entries
    return (filled.1, { filled.2 with entries })

def sections? (lines : List Line) : Option (List Section) := do
  let (closed, last) ← lines.foldlM addLine ([], ⟨[], false, []⟩)
  return (closed ++ [last]).filter fun s => !(s.path.isEmpty && s.entries.isEmpty)

/-- The sections below a name, their paths counted from there. -/
def below (name : String) (sections : List Section) : List Section :=
  sections.filterMap fun s =>
    match s.path with
    | [] => none
    | k :: path => if k = name then some { s with path } else none

/-- The first names of the sections' paths in the order of their first appearance. Sections with an
empty path have none. -/
def heads (sections : List Section) : List (Option String) :=
  (sections.map (·.path.head?)).eraseDups

def Section.opensElement (s : Section) : Bool := s.path.isEmpty && s.isElement

/-- Cuts sections into the elements of an array; each starts with a header of its own. -/
def elements : List Section → List (List Section)
  | [] => []
  | s :: ss =>
    match elements ss with
    | [] => [[s]]
    | e :: es =>
      if (e.head?.map Section.opensElement).getD false then [s] :: e :: es else (s :: e) :: es

/-- The header of an element counts as that of a table. -/
def openElement : List Section → List Section
  | [] => []
  | s :: ss => { s with isElement := false } :: ss

/-- The entries of a table that come under its own header, of which there is one at most. -/
def own? : List Section → Option Entries
  | [] => some []
  | [s] => if s.opensElement then none else some s.entries
  | _ => none

/-- The table that sections describe, for paths of at most `depth` names. -/
def table? : (depth : Nat) → List Section → Option Entries
  | 0, sections => own? sections
  | depth + 1, sections => do
    let parts ← (heads sections).mapM fun head => do
      match head with
      | none => own? (sections.filter (·.path.isEmpty))
      | some name =>
        let inner := below name sections
        if (inner.head?.map Section.opensElement).getD false then
          let vs ← (elements inner).mapM fun e => do
            return Value.table .headed (← table? depth (openElement e))
          return [(name, Value.array vs)]
        else
          return [(name, Value.table .headed (← table? depth inner))]
    return parts.flatten

/-- A document as it is written, and the table that it describes. -/
structure Document where
  sections : List Section
  entries : Entries

/-- Reads a whole document. -/
def parse? (text : String) : Option Document := do
  let tokens ← tokens? text.toList
  let ls ← lines.parseAll tokens
  let sections ← sections? ls
  let entries ← table? (sections.foldl (fun n s => max n s.path.length) 0) sections
  return { sections, entries }

end MailSearch.Toml
