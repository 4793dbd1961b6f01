/-
The program. It reads the part of the disk that a command line speaks of into a file tree, runs the
command there, prints the report and deletes what the command has deleted.
-/
import BuildOrder.CommandLine.Run

namespace BuildOrder.Disk

/-- The names that lead to an absolute path. -/
def placeOf (path : String) : List String := (Path.ofString path).parts

/-- The absolute path of something on the disk, all links followed; nothing if it leads nowhere. -/
def real? (path : String) : IO (Option String) := do
  try return some (toString (← IO.FS.realPath path)) catch _ => return none

/-- Reads an entry. Only build files are read with their bytes. A link leads to where it ends on the
disk, or, if it ends nowhere, to itself. -/
partial def readEntry (entry : IO.FS.DirEntry) : IO FileTree.Entry := do
  let path := entry.path
  match (← path.symlinkMetadata).type with
  | .symlink => return .link ((← real? (toString path)).getD entry.fileName)
  | .dir =>
    let entries ← try path.readDir catch _ => pure #[]
    return .directory (← entries.toList.mapM fun e => return (e.fileName, ← readEntry e))
  | _ =>
    if BuildFile.isName entry.fileName then return .file (← IO.FS.readBinFile path).toList
    else return .file []

mutual

/-- Where the links in an entry lead. -/
def targets : FileTree.Entry → List String
  | .link target => [target]
  | .directory entries => targetsOf entries
  | .file _ => []

/-- Where the links in some entries lead. -/
def targetsOf : FileTree.Entries → List String
  | [] => []
  | (_, e) :: entries => targets e ++ targetsOf entries

end

/-- Adds what lies at some absolute paths to the tree, and what the links there lead to; `known` are
the places that are in the tree with all that they hold. -/
partial def addAll (t : FileTree) (known : List (List String)) : List String → IO FileTree
  | [] => return t
  | path :: paths => do
    let place := placeOf path
    if known.any (·.isPrefixOf place) then addAll t known paths
    else
      match place.getLast? with
      | none => addAll t known paths
      | some name =>
        let front := (Path.mk 1 place.dropLast).toString
        let entry ← try readEntry ⟨front, name⟩ catch _ => pure (.link name)
        addAll (t.put place entry) (place :: known) (targets entry ++ paths)

/-- The roots that a command looks below. -/
def rootsOf : Command → List String
  | .order roots _ _ => roots
  | .check roots _ => roots
  | .deps _ roots _ => roots
  | .clean root => [root]

/-- The file tree that a command is run in. -/
def treeFor (command : Command) : IO FileTree := do
  let here := toString (← IO.currentDir)
  let roots ← (rootsOf command).filterMapM real?
  addAll (.empty (placeOf here)) [] (here :: roots)

/-- Deletes what is in the first tree but not in the second, each directory after all that it
held. -/
def deleteMissing (before after : FileTree) : IO Unit := do
  let left := after.top.paths "/"
  for path in ((before.top.paths "/").filter (· ∉ left)).reverse do
    if path.endsWith "/" then IO.FS.removeDir path else IO.FS.removeFile path

/-- Prints a report. -/
def print (report : Report) : IO Unit := do
  for line in report do
    match line.channel with
    | .output => IO.println line.text
    | .error => IO.eprintln line.text

/-- Runs a command on the disk. -/
def run (i : Invocation) : IO UInt32 := do
  let before ← treeFor i.command
  let (after, result) := i.run before
  deleteMissing before after
  match result with
  | .ok outcome =>
    print outcome.report
    return outcome.exitCode.toUInt32
  | .error refusal =>
    print (Report.refusal i.debug refusal)
    return 1

end BuildOrder.Disk

open BuildOrder in
/-- Runs the command that the arguments ask for. -/
def main (args : List String) : IO UInt32 := do
  let names := ["DOTBUILD_ROOTS", "DOTBUILD_WORKERS", "DOTBUILD_FORMAT"]
  let env ← names.mapM fun name => return (name, ← IO.getEnv name)
  match Settings.ofEnvironment fun name => (env.lookup name).join with
  | .error refusal =>
    Disk.print (Report.refusal false refusal)
    return 1
  | .ok settings =>
    match Invocation.ofArguments settings args with
    | .error fault =>
      IO.eprintln ("Error: " ++ fault.message)
      return 2
    | .ok invocation => Disk.run invocation
