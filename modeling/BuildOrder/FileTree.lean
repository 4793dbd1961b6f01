/-
File trees: directories of named entries, files of bytes and symbolic links, with the directory that
relative paths begin at and the limit on the length of a path. A place in the tree is the list of
names that lead to it from the top without any link; a link may be an entry at a place, but no place
lies below it.

These trees are the file systems that there are here. There are no permissions: what a path leads to
can be listed, read and deleted, so no listing fails once its directory is found. A tree is changed
by nothing but the program that runs in it. Names and paths are texts, so there are no names of
bytes that no text is written in. A tree may be of any depth, and nothing bounds how deep a search
may go. The working directory is taken to lie outside the directories that are deleted: no relative
path leads anywhere here once it is gone itself, where a file system may still lead from there to
the directory above.
-/

namespace BuildOrder

namespace FileTree

/-- An entry of a directory. -/
inductive Entry where
  | file (content : List UInt8)
  | directory (entries : List (String × Entry))
  /-- A symbolic link with the path that it stands for. -/
  | link (target : String)
deriving Inhabited, Repr

/-- The entries of a directory. -/
abbrev Entries := List (String × Entry)

namespace Entry

/-- The entry at a place below this one. -/
def get? (e : Entry) : List String → Option Entry
  | [] => some e
  | name :: names =>
    match e with
    | .directory entries => (entries.lookup name).bind (·.get? names)
    | _ => none

end Entry

/-- The entries with `f` done to the one of a name, or to `new` where the name is missing. -/
def alter (name : String) (new : Entry) (f : Entry → Entry) : Entries → Entries
  | [] => [(name, f new)]
  | (n, e) :: entries =>
    if name = n then (n, f e) :: entries else (n, e) :: alter name new f entries

namespace Entry

/-- The tree with an entry at a place; directories on the way are made where they are missing, and a
directory that is there takes a new one in. -/
def put (new : Entry) : List String → Entry → Entry
  | [], old =>
    match new, old with
    | .directory [], .directory entries => .directory entries
    | new, _ => new
  | name :: names, .directory entries =>
    .directory (alter name (.directory []) (new.put names) entries)
  | name :: names, _ => .directory (alter name (.directory []) (new.put names) [])

/-- The tree with `f` done to the entry at a place, if there is one. -/
def modify (f : Entry → Entry) : List String → Entry → Entry
  | [], e => f e
  | name :: names, .directory entries =>
    .directory (entries.map fun row => if row.1 = name then (row.1, modify f names row.2) else row)
  | _ :: _, e => e

/-- A directory without the entry of a name. -/
def without (name : String) : Entry → Entry
  | .directory entries => .directory (entries.filter (·.1 ≠ name))
  | e => e

/-- The tree without the entry at a place. The top is an entry of nothing and stays. -/
def erase (place : List String) (e : Entry) : Entry :=
  match place.getLast? with
  | none => e
  | some name => e.modify (without name) place.dropLast

mutual

/-- The paths of all entries below a directory, where `front` is the text before their names. A
directory has a slash behind its name, and links are not followed. -/
def paths (front : String) : Entry → List String
  | .directory entries => pathsOf front entries
  | _ => []

/-- The paths of entries and of all that lies below them. -/
def pathsOf (front : String) : Entries → List String
  | [] => []
  | (name, .directory entries) :: rest =>
    (front ++ name ++ "/") ::
      (paths (front ++ name ++ "/") (.directory entries) ++ pathsOf front rest)
  | (name, _) :: rest => (front ++ name) :: pathsOf front rest

end

end Entry

end FileTree

/-- A file tree, the place of its working directory, and how many bytes a path may have where that
is limited at all. -/
structure FileTree where
  top : FileTree.Entry
  here : List String
  pathLimit : Option Nat := some 4095
deriving Inhabited, Repr

namespace FileTree

/-- The tree whose working directory holds nothing. -/
def empty (here : List String) : FileTree where
  top := (Entry.directory []).put here (.directory [])
  here := here

/-- The entry at a place. -/
def get? (t : FileTree) (place : List String) : Option Entry := t.top.get? place

/-- The tree with an entry at a place. -/
def put (t : FileTree) (place : List String) (e : Entry) : FileTree :=
  { t with top := e.put place t.top }

/-- The tree without the entry at a place. -/
def erase (t : FileTree) (place : List String) : FileTree :=
  { t with top := t.top.erase place }

/-- The tree with the directory at a place emptied. -/
def clear (t : FileTree) (place : List String) : FileTree :=
  { t with top := t.top.modify (fun _ => .directory []) place }

end FileTree

end BuildOrder
