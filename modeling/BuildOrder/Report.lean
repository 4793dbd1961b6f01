/-
What a command prints: lines on two channels, where a line may hold line feeds of its own.
-/
import BuildOrder.Diagnostic
import BuildOrder.Json
import BuildOrder.Refusal
import BuildOrder.Text.Split

namespace BuildOrder

/-- Where a line is printed. -/
inductive Channel where
  | output
  | error
deriving DecidableEq, Repr

/-- One printed line. -/
structure Line where
  channel : Channel
  text : String
deriving DecidableEq, Repr

/-- Printed lines, in their order. -/
abbrev Report := List Line

namespace Report

/-- A line on the output channel. -/
def out (text : String) : Line := ⟨.output, text⟩

/-- A line on the error channel. -/
def err (text : String) : Line := ⟨.error, text⟩

/-- All that is printed on a channel. -/
def textOn (channel : Channel) (report : Report) : String :=
  .join ((report.filter (·.channel = channel)).map (·.text ++ "\n"))

/-- Names with commas between them. -/
def list (names : List String) : String :=
  if names = [] then "(none)" else ", ".intercalate names

/-- A title, underlined, behind an empty line. -/
def header (title : String) : Report :=
  [out ("\n" ++ title), out (.ofList (List.replicate title.length '-'))]

/-- Diagnostics, errors apart from the rest. -/
def diagnostics (ds : List Diagnostic) : Report :=
  ds.map fun d => if d.isError then err d.render else out d.render

/-- Names, one a line. -/
def names (names : List String) : Report := names.map out

/-- A JSON value. -/
def json (value : Json) : Report := [out value.render]

/-- What a module needs and what needs it. -/
def dependencies (name : String) (needs neededBy : List String) : Report :=
  header name ++ [out ("Depends on: " ++ list needs), out ("Needed by: " ++ list neededBy)]

/-- The figures of a run, which fails if it has errors. -/
def summary (modules errors warnings : Int) : Report :=
  let status := if errors ≠ 0 then "FAILED" else "OK"
  [out s!"\n{status}: {modules} module(s), {errors} error(s), {warnings} warning(s)"]

/-- A mistake of the user, with details and perhaps a suggestion; an empty suggestion is none. -/
def mistake (title message : String) (details : List String) (suggestion : Option String) :
    Report :=
  [err ("\nERROR: " ++ title), err message] ++ details.map (fun d => err ("  " ++ d)) ++
    match suggestion with
    | none | some "" => []
    | some text => [err ("\n" ++ text)]

/-- A note that only a debugging run prints. -/
def note (debug : Bool) (message : String) : Report :=
  if debug then [err ("[DEBUG] " ++ message)] else []

/-- What stopped a run: its text. In a debugging run its kind stands in front, below the heading of
a trace; of a text over several lines only the last one that is not empty is shown there. -/
def failure (debug : Bool) (kind text : String) : Report :=
  if debug then
    let lines := Text.words '\n' (if text = "" then kind else kind ++ ": " ++ text)
    [err "Traceback (most recent call last):", err (lines.getLastD "")]
  else
    [err ("Error: " ++ text)]

/-- A fault that stopped a run. -/
def fault (debug : Bool) (f : Fault) : Report :=
  failure debug ("dotbuild.errors." ++ f.kind.name) f.render

/-- A refusal that stopped a run. -/
def refusal (debug : Bool) (r : Refusal) : Report := failure debug r.kind r.message

end Report

end BuildOrder
