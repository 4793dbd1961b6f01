/-
Loading build files into a catalog. Each file by itself gives a module or an error. Then the modules
are put together in the order of the files: the first module of a name stays, and every later one is
reported.
-/
import BuildOrder.Catalog
import BuildOrder.Discovery
import BuildOrder.Text.Decoded

namespace BuildOrder

namespace FileTree

/-- The module of one build file, or the error that says why there is none. -/
def loadModule (t : FileTree) (path : String) : Except Refusal (Except Diagnostic Module) := do
  let unread (reason : String) : Diagnostic :=
    ⟨.error, s!"Failed to read {path}: {reason}", none, .unknown⟩
  match ← t.read (.ofString path) with
  | .error e => return .error (unread e.render)
  | .ok bytes =>
    match Text.decodeFile bytes with
    | .error e => return .error (unread e.render)
    | .ok source =>
      match Module.ofSource (BuildFile.moduleName path) (BuildFile.moduleDirectory path) source with
      | .error e => return .error (.ofFault (e.withPath path))
      | .ok m => return .ok m

end FileTree

/-- Modules that are being put together, and for each the file that it comes from. -/
structure Merge where
  catalog : Catalog := .empty
  origins : List (String × String) := []
  duplicates : List Fault := []

namespace Merge

/-- One more file with its module. -/
def add (m : Merge) (path : String) (module : Module) : Merge :=
  match m.origins.lookup module.name with
  | some first => { m with duplicates := m.duplicates ++ [.duplicate module.name first path] }
  | none =>
    { m with
      catalog := m.catalog.insert module.name module
      origins := m.origins ++ [(module.name, path)] }

/-- The files with their modules, in order. -/
def ofList (loaded : List (String × Module)) : Merge :=
  loaded.foldl (fun m file => m.add file.1 file.2) {}

end Merge

/-- What became of the files: the errors of those that could not be loaded, the first refusal, and
the files that gave a module. -/
structure Outcomes where
  errors : List Diagnostic := []
  refusal : Option Refusal := none
  loaded : List (String × Module) := []

namespace FileTree

/-- Loads each file by itself. -/
def loadEach (t : FileTree) : List String → Outcomes
  | [] => {}
  | path :: paths =>
    let rest := t.loadEach paths
    match t.loadModule path with
    | .error refusal => { rest with refusal := some refusal }
    | .ok (.error d) => { rest with errors := d :: rest.errors }
    | .ok (.ok m) => { rest with loaded := (path, m) :: rest.loaded }

/-- Loads build files into a catalog. All files are tried and their errors logged before a refusal
of any of them counts. The number of workers has to be positive if it is given; the result is the
same for any. -/
def loadAll (t : FileTree) (files : List String) (workers : Option Int) : Logged Catalog :=
  fun log =>
  if workers.getD 1 ≤ 0 then .error .noWorkers log
  else
    let outcomes := t.loadEach files
    let log := log.addAll outcomes.errors
    match outcomes.refusal with
    | some refusal => .error refusal log
    | none =>
      let merge := Merge.ofList outcomes.loaded
      .ok merge.catalog (log.addAll (merge.duplicates.map .ofFault))

end FileTree

end BuildOrder
