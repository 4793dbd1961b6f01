/-
Faults of a build: what is wrong in a file or in the graph of modules, where, and the one line that
says so. Readers of the pieces of a build file have causes of their own, which become faults here.
-/
import BuildOrder.Position

namespace BuildOrder

namespace Fault

/-- What a fault is about. -/
inductive Kind where
  /-- A fault of the build as a whole. -/
  | general
  /-- A text that is no sequence of tokens. -/
  | lexical
  | unterminatedString
  | unterminatedComment
  /-- A sequence of tokens that is no module block. -/
  | grammar
  /-- A second file for a module name; `first` is the path of the file that keeps the name. -/
  | duplicateModule (name : String) (first : Option String)
  /-- Modules that need each other in a ring. -/
  | cycle (names : List String)
deriving DecidableEq, Repr

/-- The name of the kind. -/
def Kind.name : Kind → String
  | .general => "BuildError"
  | .lexical => "LexError"
  | .unterminatedString => "UnterminatedString"
  | .unterminatedComment => "UnterminatedComment"
  | .grammar => "ParseError"
  | .duplicateModule _ _ => "DuplicateModuleError"
  | .cycle _ => "CycleError"

end Fault

/-- A fault: its kind, its message, the file and the position it concerns. -/
structure Fault where
  kind : Fault.Kind
  message : String
  path : Option String := none
  position : Position := .unknown
deriving DecidableEq, Repr

namespace Fault

/-- A string that is not closed. -/
def unterminatedString (position : Position) : Fault where
  kind := .unterminatedString
  message := "Unterminated string"
  position := position

/-- A block comment that is not closed. -/
def unterminatedComment (position : Position) : Fault where
  kind := .unterminatedComment
  message := "Unterminated block comment"
  position := position

/-- The same fault, said of the file at `path`. -/
def withPath (f : Fault) (path : String) : Fault := { f with path := some path }

/-- Two files give one module name: the one at `path` comes after the one at `first`. -/
def duplicate (name first path : String) : Fault where
  kind := .duplicateModule name (some first)
  message := s!"Duplicate module: {name} (first defined in {first})"
  path := some path

/-- A closed walk along dependencies. -/
def ofCycle (names : List String) : Fault where
  kind := .cycle names
  message := "Dependency cycle detected: " ++ " -> ".intercalate names

/-- The text of a fault: an absent and an empty path are both left out, and line zero is no line. -/
def render (f : Fault) : String :=
  let path := f.path.getD ""
  if path ≠ "" then
    s!"{path}({f.position.line},{f.position.column}): {f.message}"
  else if f.position.line ≠ 0 then
    s!"{f.position.line}:{f.position.column}: {f.message}"
  else
    f.message

end Fault

end BuildOrder
