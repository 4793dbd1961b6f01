/-
Running a command: what it prints, its exit code, and the file tree that it leaves. All commands but
the one that deletes outputs leave the tree as it is.
-/
import BuildOrder.Clean
import BuildOrder.CommandLine.Invocation
import BuildOrder.Report
import BuildOrder.Resolution

namespace BuildOrder

/-- What a command prints, and its exit code. -/
structure Outcome where
  report : Report := []
  exitCode : Nat := 0
deriving DecidableEq, Repr

namespace Outcome

/-- The exit code of a run: zero for a good one. -/
def codeOf (ok : Bool) : Nat := if ok then 0 else 1

/-- The build order for other tools. Modules are listed only if the run succeeds. -/
def orderJson (r : Resolution) (log : Log) : Json :=
  let modules := if r.ok then (r.catalog.map (·.rows)).getD [] else []
  .object [
    ("ok", .bool r.ok),
    ("order", .array (r.order.map .string)),
    ("modules", .object (modules.map fun (name, m) => (name, m.toJson))),
    ("diagnostics", .array (log.entries.map fun d => .string d.render))]

/-- The build order in a format. -/
def order (format : Format) (r : Resolution) (log : Log) : Outcome where
  report := match format with
    | .json => Report.json (orderJson r log)
    | .text =>
      Report.diagnostics log.entries ++
        if r.ok then Report.header "BUILD ORDER" ++ Report.names r.order else []
  exitCode := codeOf r.ok

/-- The figures of a run. -/
def check (r : Resolution) (log : Log) : Outcome where
  report := Report.diagnostics log.entries ++
    Report.summary ((r.catalog.map (·.size)).getD 0 : Nat) (log.errors.length : Nat)
      (log.warnings.length : Nat)
  exitCode := codeOf r.ok

/-- What one module needs and what needs it. A name that is only needed will do. Of an unknown name
the known ones are told, unless there is nothing to see of them. -/
def deps (name : String) (r : Resolution) (log : Log) : Outcome :=
  let said := Report.diagnostics log.entries
  match r.catalog with
  | none => ⟨said, 1⟩
  | some catalog =>
    if log.hasErrors then ⟨said, 1⟩
    else
      let graph := catalog.graph
      if name ∈ graph.nodes then
        let needs := graph.dependenciesOf name
        ⟨said ++ Report.dependencies name needs (graph.dependentsOf name), 0⟩
      else
        let known := ", ".intercalate catalog.names
        ⟨said ++ Report.mistake "Unknown module" s!"No module named '{name}' was found."
          ["Known modules: " ++ if known = "" then "(none)" else known] none, 1⟩

/-- Resolves the modules below some roots and goes on with the result; a refusal is the end
of it. -/
def ofResolution (t : FileTree) (debug : Bool) (roots : List String) (workers : Option Int)
    (next : Resolution → Log → Outcome) : Outcome :=
  let begun := Report.note debug ("Scanning roots: " ++ ", ".intercalate roots)
  match t.resolveAll roots workers .empty with
  | .error refusal _ => ⟨begun ++ Report.refusal debug refusal, 1⟩
  | .ok r log =>
    let ok := if r.ok then "True" else "False"
    let outcome := next r log
    let ended := Report.note debug s!"Resolution finished (ok={ok})"
    ⟨begun ++ ended ++ outcome.report, outcome.exitCode⟩

/-- What there is to say after cleaning. -/
def ofCleaning (c : Cleaning) : Outcome :=
  ⟨Report.diagnostics c.log.entries, codeOf (!c.log.hasErrors)⟩

end Outcome

/-- Runs a command in a tree. Answers the tree that it leaves, and what it prints or why it was
refused. -/
def Invocation.run (i : Invocation) (t : FileTree) : FileTree × Except Refusal Outcome :=
  match i.command with
  | .order roots workers format => (t, .ok (.ofResolution t i.debug roots workers (.order format)))
  | .check roots workers => (t, .ok (.ofResolution t i.debug roots workers .check))
  | .deps name roots workers => (t, .ok (.ofResolution t i.debug roots workers (.deps name)))
  | .clean root =>
    match t.clean root with
    | (c, none) => (c.tree, .ok (.ofCleaning c))
    | (c, some fault) => (c.tree, .error (.system fault))

end BuildOrder
