/-
From roots to a build order: find the build files, load them, warn of unknown names, and order the
modules unless a cycle rules that out. The order is given only if nothing stands against the run.
-/
import BuildOrder.Catalog.Dependencies
import BuildOrder.Loading

namespace BuildOrder

/-- What a run comes to. There is no catalog if no build file was found, and no order unless the run
succeeds. -/
structure Resolution where
  catalog : Option Catalog := none
  order : List String := []
  ok : Bool := false

/-- The warnings for names that are needed but unknown. -/
def Catalog.unknownWarnings (c : Catalog) : List Diagnostic :=
  (c.unknownNames c.graph).flatMap fun (name, users) =>
    users.map fun user =>
      ⟨.warning, s!"Module '{user}' depends on unknown module '{name}'", none, .unknown⟩

/-- Orders the modules of a catalog. -/
def Catalog.resolve (c : Catalog) (log : Log) : Resolution × Log :=
  let log := (log.info s!"Loaded {c.size} modules").addAll c.unknownWarnings
  match c.buildOrder with
  | .error cycle => ({ catalog := some c }, log.report (.ofCycle cycle))
  | .ok order =>
    ({ catalog := some c, order := order, ok := true },
      log.info s!"Resolved build order for {order.length} modules")

/-- Resolves all that lies below some roots. An error that is in the log already counts as one of
this run. -/
def FileTree.resolveAll (t : FileTree) (roots : List String) (workers : Option Int) :
    Logged Resolution := do
  let files ← t.discover roots
  if files.isEmpty then
    modify (·.error "No .build files found")
    return {}
  else
    modify (·.info s!"Found {files.length} build files")
    let catalog ← t.loadAll files workers
    if (← get).hasErrors then return { catalog := some catalog }
    else modifyGet catalog.resolve

end BuildOrder
