/-
Deleting build outputs. Below a root two directories are deleted with all they hold; links in them
are removed and never followed, and a link in place of one of them is left alone. Nothing else is
touched. The working directory is taken to lie in neither of them.
-/
import BuildOrder.Diagnostic
import BuildOrder.FileTree.Walk
import BuildOrder.Text.Slash

namespace BuildOrder

/-- The names of the directories that a build writes. -/
def outputDirectories : List String := ["Intermediate", "Binaries"]

namespace FileTree

/-- Deletes a directory: first all that it holds, then, under its path as it leads by then, the
directory itself. Answers the tree that is left, and the reason if the directory is still there. -/
def removeDirectory (t : FileTree) (path : Path) : FileTree × Option String :=
  let reason (cause : SystemFault.Cause) := (SystemFault.mk cause path.toString).render
  match t.locate path with
  | .error cause => (t, some (reason cause))
  | .ok place =>
    match t.get? place with
    | some (.directory _) =>
      let emptied := t.clear place
      match emptied.locate path with
      | .error cause => (emptied, some (reason cause))
      | .ok place => (emptied.erase place, none)
    | _ => (t, some "Cannot call rmtree on a symbolic link")

end FileTree

/-- The state of a cleaning: the tree that is left and what there is to say. -/
structure Cleaning where
  tree : FileTree
  log : Log := .empty

namespace Cleaning

/-- Deletes the output directory of a name, if there is one below the root. -/
def target (c : Cleaning) (root name : String) : Except SystemFault Cleaning := do
  let path := Path.ofString (Text.joinPaths root name)
  match ← c.tree.directory? path with
  | none => return c
  | some _ =>
    match c.tree.removeDirectory path with
    | (tree, none) => return ⟨tree, c.log.info ("Deleted " ++ path.toString)⟩
    | (tree, some reason) =>
      return ⟨tree, c.log.error ("Failed to delete " ++ path.toString ++ ": " ++ reason)⟩

/-- Deletes the output directories of some names. A path that the file system refuses ends the work;
what is done by then stays done. -/
def targets (c : Cleaning) (root : String) : List String → Cleaning × Option SystemFault
  | [] => (c, none)
  | name :: names =>
    match c.target root name with
    | .error fault => (c, some fault)
    | .ok c => c.targets root names

/-- Says that there was nothing to do, if there was nothing to say. -/
def conclude (c : Cleaning) : Cleaning :=
  if c.log.entries = [] then { c with log := c.log.info "Nothing to clean" } else c

end Cleaning

/-- Deletes the build outputs below a root. -/
def FileTree.clean (t : FileTree) (root : String) : Cleaning × Option SystemFault :=
  match (Cleaning.mk t .empty).targets root outputDirectories with
  | (c, none) => (c.conclude, none)
  | (c, some fault) => (c, some fault)

end BuildOrder
