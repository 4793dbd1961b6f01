/-
Following paths through a file tree. A part is looked up in the directory reached so far; `..` leads
to the directory above, and a link is replaced by the path that it stands for. At most forty links
are followed on the way of one path, so every walk ends. What is counted as a walk's links is handed
on: a walk that goes on from a place has the links that are left.
-/
import BuildOrder.FileTree
import BuildOrder.Path
import BuildOrder.SystemFault
import BuildOrder.Refusal

namespace BuildOrder.FileTree

/-- How many links are followed on the way of one path. -/
def maxLinks : Nat := 40

/-- How many bytes a name may have. -/
def maxNameBytes : Nat := 255

/-- A place that a walk has reached, and how many more links it may follow. -/
structure Reached where
  place : List String
  links : Nat
deriving DecidableEq, Repr

/-- The steps that the target of a link asks for: its parts, and at the end of a target with a slash
behind it one step more, which only a directory can make. -/
def linkSteps (target : String) : List String :=
  let parts := Text.words '/' target
  if target.toList.getLast? = some '/' then parts ++ ["."] else parts

/-- Where the target of a link begins: at the top, or in the directory that holds the link. -/
def linkStart (target : String) (directory : List String) : List String :=
  if target.toList.head? = some '/' then [] else directory

/-- Goes on from a place with some steps. -/
def walk (t : FileTree) (links : Nat) (place : List String) (steps : List String) :
    Except SystemFault.Cause Reached :=
  match steps with
  | [] => .ok ⟨place, links⟩
  | name :: steps =>
    match t.get? place with
    | some (.directory entries) =>
      if name = "." then t.walk links place steps
      else if name = ".." then t.walk links place.dropLast steps
      else if maxNameBytes < name.utf8ByteSize then .error .nameTooLong
      else
        match entries.lookup name with
        | none => .error .noEntry
        | some (.link target) =>
          match links with
          | 0 => .error .tooManyLinks
          | links + 1 => t.walk links (linkStart target place) (linkSteps target ++ steps)
        | some _ => t.walk links (place ++ [name]) steps
    | _ => .error .notDirectory
termination_by (links, steps.length)
decreasing_by
  · exact Prod.Lex.right _ (Nat.lt_succ_self _)
  · exact Prod.Lex.right _ (Nat.lt_succ_self _)
  · exact Prod.Lex.left _ _ (Nat.lt_succ_self _)
  · exact Prod.Lex.right _ (Nat.lt_succ_self _)

theorem walk_links_le {t : FileTree} {links : Nat} {place steps : List String} {r : Reached}
    (h : t.walk links place steps = .ok r) : r.links ≤ links := by
  fun_induction t.walk links place steps with
  | case1 => cases h; exact Nat.le_refl _
  | case7 => rename_i ih; exact Nat.le_succ_of_le (ih h)
  | case2 => rename_i ih; exact ih h
  | case3 => rename_i ih; exact ih h
  | case8 => rename_i ih; exact ih h
  | _ => cases h

/-- What a link in a directory leads to. -/
def follow (t : FileTree) (links : Nat) (directory : List String) (target : String) :
    Except SystemFault.Cause Reached :=
  match links with
  | 0 => .error .tooManyLinks
  | links + 1 => t.walk links (linkStart target directory) (linkSteps target)

/-- Following a link uses it up. -/
theorem follow_links_lt {t : FileTree} {links : Nat} {directory : List String} {target : String}
    {r : Reached} (h : t.follow links directory target = .ok r) : r.links < links := by
  unfold follow at h
  split at h
  · cases h
  · exact Nat.lt_succ_of_le (walk_links_le h)

/-- Where the walk along a path begins. -/
def startOf (t : FileTree) (path : Path) : List String := if path.isAbsolute then [] else t.here

/-- Whether a path is short enough to be followed at all. -/
def admits (t : FileTree) (path : Path) : Bool :=
  match t.pathLimit with
  | none => true
  | some limit => path.toString.utf8ByteSize ≤ limit

/-- Without a limit every path is short enough. -/
theorem admits_of_pathLimit_eq_none {t : FileTree} (h : t.pathLimit = none) (path : Path) :
    t.admits path = true := by
  simp [admits, h]

/-- The place that a path leads to. A path that is too long is refused before its first part is
looked up. -/
def resolve (t : FileTree) (path : Path) : Except SystemFault.Cause Reached :=
  if t.admits path then t.walk maxLinks (t.startOf path) path.parts else .error .nameTooLong

/-- The place of the entry that a path names, where a link at the end of the path is the entry
itself. -/
def locate (t : FileTree) (path : Path) : Except SystemFault.Cause (List String) :=
  match path.parts.getLast? with
  | none => .ok (t.startOf path)
  | some ".." => (t.resolve path).map (·.place)
  | some name => do
    let parent ← t.walk maxLinks (t.startOf path) path.parts.dropLast
    match t.get? parent.place with
    | some (.directory entries) =>
      if maxNameBytes < name.utf8ByteSize then throw .nameTooLong
      else if (entries.lookup name).isSome then return parent.place ++ [name]
      else throw .noEntry
    | _ => throw .notDirectory

/-- A directory that a walk has reached. -/
structure Directory where
  reached : Reached
  entries : Entries
deriving Repr

/-- The directory that a path leads to, if it leads to one. Only a name or a path that is too long
is a fault; any other path that leads nowhere just is no directory, like a path with a null
character. -/
def directory? (t : FileTree) (path : Path) : Except SystemFault (Option Directory) :=
  if '\x00' ∈ path.toString.toList then .ok none
  else
    match t.resolve path with
    | .error .nameTooLong => .error ⟨.nameTooLong, path.toString⟩
    | .error _ => .ok none
    | .ok reached =>
      match t.get? reached.place with
      | some (.directory entries) => .ok (some ⟨reached, entries⟩)
      | _ => .ok none

/-- The bytes of the file that a path leads to. -/
def read (t : FileTree) (path : Path) : Except Refusal (Except SystemFault (List UInt8)) :=
  if '\x00' ∈ path.toString.toList then .error .nullInPath
  else
    match t.resolve path with
    | .error cause => .ok (.error ⟨cause, path.toString⟩)
    | .ok reached =>
      match t.get? reached.place with
      | some (.file content) => .ok (.ok content)
      | _ => .ok (.error ⟨.isDirectory, path.toString⟩)

end BuildOrder.FileTree
