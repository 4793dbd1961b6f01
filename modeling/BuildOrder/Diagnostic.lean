/-
Diagnostics: what a run has to say, and the log that collects it. A log only grows, except that it
can be cleared; faults enter it as errors, with the place they concern.
-/
import BuildOrder.Fault

namespace BuildOrder

/-- How grave a diagnostic is. -/
inductive Severity where
  | info
  | warning
  | error
deriving DecidableEq, Repr

/-- The name of a severity. -/
def Severity.name : Severity → String
  | .info => "Info"
  | .warning => "Warning"
  | .error => "Error"

/-- One thing that a run has to say, of a file and a position if it concerns any. -/
structure Diagnostic where
  severity : Severity
  message : String
  path : Option String := none
  position : Position := .unknown
deriving DecidableEq, Repr

namespace Diagnostic

/-- The line for a diagnostic. Line zero is no line, while an empty path is a path. -/
def render (d : Diagnostic) : String :=
  match d.path with
  | none => s!"[{d.severity.name}] {d.message}"
  | some path =>
    if d.position.line = 0 then s!"{path}: [{d.severity.name}] {d.message}"
    else s!"{path}({d.position.line},{d.position.column}): [{d.severity.name}] {d.message}"

/-- The error that a fault becomes. -/
def ofFault (f : Fault) : Diagnostic := ⟨.error, f.message, f.path, f.position⟩

/-- Whether a diagnostic stands against the run. -/
def isError (d : Diagnostic) : Bool := d.severity = .error

end Diagnostic

/-- The diagnostics of a run, oldest first. -/
structure Log where
  entries : List Diagnostic := []
deriving DecidableEq, Repr

namespace Log

/-- Nothing said yet. -/
def empty : Log := {}

/-- One more diagnostic at the end. -/
def add (log : Log) (d : Diagnostic) : Log := ⟨log.entries ++ [d]⟩

/-- More diagnostics at the end, in their order. -/
def addAll (log : Log) (ds : List Diagnostic) : Log := ⟨log.entries ++ ds⟩

/-- A message of no file. -/
def info (log : Log) (message : String) : Log := log.add ⟨.info, message, none, .unknown⟩

/-- A warning, about a file if need be. -/
def warning (log : Log) (message : String) (path : Option String := none)
    (position : Position := .unknown) : Log :=
  log.add ⟨.warning, message, path, position⟩

/-- An error, about a file if need be. -/
def error (log : Log) (message : String) (path : Option String := none)
    (position : Position := .unknown) : Log :=
  log.add ⟨.error, message, path, position⟩

/-- A fault, as an error at its place. -/
def report (log : Log) (f : Fault) : Log := log.add (.ofFault f)

/-- The errors among the diagnostics. -/
def errors (log : Log) : List Diagnostic := log.entries.filter (·.isError)

/-- The warnings among the diagnostics. -/
def warnings (log : Log) : List Diagnostic := log.entries.filter (·.severity = .warning)

/-- Whether anything stands against the run. -/
def hasErrors (log : Log) : Bool := log.entries.any (·.isError)

@[simp] theorem entries_add (log : Log) (d : Diagnostic) :
    (log.add d).entries = log.entries ++ [d] := rfl

@[simp] theorem entries_addAll (log : Log) (ds : List Diagnostic) :
    (log.addAll ds).entries = log.entries ++ ds := rfl

theorem hasErrors_add (log : Log) (d : Diagnostic) :
    (log.add d).hasErrors = (log.hasErrors || d.isError) := by
  simp [hasErrors]

end Log

end BuildOrder
