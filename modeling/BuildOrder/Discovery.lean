/-
Finding build files. Below each root the files of a directory come before those of its
subdirectories, both by name; links are followed, and count against the limit of the path that
reaches them. A link takes one of the links that are left and a directory lies deeper in the tree,
so the search ends, also where links lead in a ring.
-/
import BuildOrder.BuildFile
import BuildOrder.Diagnostic
import BuildOrder.FileTree.Walk

namespace BuildOrder

/-- Work that writes to the log, and may be refused; what was written before a refusal stays. -/
abbrev Logged := EStateM Refusal Log

/-- Fails where the file system refuses. -/
def Logged.ofSystem {α : Type} : Except SystemFault α → Logged α
  | .ok a => fun log => .ok a log
  | .error e => fun log => .error (.system e) log

namespace FileTree

/-- The entries of a directory by name, in the order of code points. -/
def sorted (entries : Entries) : Entries := entries.mergeSort fun a b => decide (a.1 ≤ b.1)

theorem sizeOf_lt_of_mem_sorted {entries sub : Entries} {name : String}
    (h : (name, Entry.directory sub) ∈ sorted entries) : sizeOf sub < sizeOf entries := by
  have := List.sizeOf_lt_of_mem ((List.mergeSort_perm _ _).mem_iff.mp h)
  simp at this
  omega

/-- The build file that a single entry of a directory is, if it is one. A link is what it leads to.
A fault is an entry whose path is too long, and a link that leads along a name that is too long. -/
def buildFileAt (t : FileTree) (links : Nat) (place : List String) (shown : Path) (name : String)
    (e : Entry) : Except SystemFault (Option String) :=
  let path := shown.child name
  let found := if BuildFile.isName name then some (Text.forwardSlashes path.toString) else none
  if !t.admits path then .error ⟨.nameTooLong, path.toString⟩
  else
    match e with
    | .file _ => .ok found
    | .directory _ => .ok none
    | .link target =>
      match t.follow links place target with
      | .error .nameTooLong => .error ⟨.nameTooLong, path.toString⟩
      | .error _ => .ok none
      | .ok reached =>
        match t.get? reached.place with
        | some (.file _) => .ok found
        | _ => .ok none

/-- The build files in and below a directory: `place` is where the directory lies, `links` the links
that are left on the way to it, and `shown` the path by which it was reached. -/
def buildFiles (t : FileTree) (links : Nat) (place : List String) (shown : Path)
    (entries : Entries) : Except SystemFault (List String) := do
  let files ← (sorted entries).filterMapM fun (name, e) => t.buildFileAt links place shown name e
  let below ← (sorted entries).attach.mapM fun ⟨(name, e), _h⟩ =>
    match e with
    | .file _ => pure []
    | .directory sub => t.buildFiles links (place ++ [name]) (shown.child name) sub
    | .link target =>
      match _hf : t.follow links place target with
      | .error _ => pure []
      | .ok reached =>
        match t.get? reached.place with
        | some (.directory sub) => t.buildFiles reached.links reached.place (shown.child name) sub
        | _ => pure []
  return files ++ below.flatten
termination_by (links, sizeOf entries)
decreasing_by
  · exact Prod.Lex.right _ (sizeOf_lt_of_mem_sorted _h)
  · exact Prod.Lex.left _ _ (follow_links_lt _hf)

/-- The build files below some roots, root by root. A root that is no directory is worth a
warning. -/
def discover (t : FileTree) : List String → Logged (List String)
  | [] => return []
  | root :: roots => do
    let path := Path.ofString root
    let files ← match ← Logged.ofSystem (t.directory? path) with
      | none => do
        modify (·.warning ("Directory not found: " ++ root))
        pure []
      | some d => Logged.ofSystem (t.buildFiles d.reached.links d.reached.place path d.entries)
    return files ++ (← t.discover roots)

end FileTree

end BuildOrder
