/-
Proper file trees, and paths through them. A path and a longer one are followed in the same way as
far as they agree, so what an entry of a directory leads to is told by the directory and the entry
alone: the path of the entry need not be followed from its beginning again.

A directory in a directory either lies deeper in the tree or is behind a link, and a link takes one of
those that may still be followed. So the step from a directory to those in it cannot be repeated for
ever, also where links lead in a ring.
-/
import BuildOrder.Proofs.Discovery
import Mathlib.Data.List.Basic
import Mathlib.Data.Prod.Lex

namespace BuildOrder

/-- The text of a path with forward slashes only. -/
def Path.normalized (p : Path) : String := Text.forwardSlashes p.toString

namespace FileTree

/-! ## Proper trees -/

/-- A name as an entry of a directory has it. -/
structure IsName (name : String) : Prop where
  ne_empty : name ≠ ""
  ne_dot : name ≠ "."
  ne_dots : name ≠ ".."
  slash_not_mem : '/' ∉ name.toList
  null_not_mem : '\x00' ∉ name.toList
  short : name.utf8ByteSize ≤ maxNameBytes

instance (name : String) : Decidable (IsName name) :=
  decidable_of_iff (name ≠ "" ∧ name ≠ "." ∧ name ≠ ".." ∧ '/' ∉ name.toList ∧
      '\x00' ∉ name.toList ∧ name.utf8ByteSize ≤ maxNameBytes)
    ⟨fun ⟨h₁, h₂, h₃, h₄, h₅, h₆⟩ => ⟨h₁, h₂, h₃, h₄, h₅, h₆⟩,
      fun ⟨h₁, h₂, h₃, h₄, h₅, h₆⟩ => ⟨h₁, h₂, h₃, h₄, h₅, h₆⟩⟩

namespace Entry

/-- An entry below which every directory holds entries of different names, as file systems have
them. -/
inductive Proper : Entry → Prop
  | file (content : List UInt8) : Proper (.file content)
  | link (target : String) : Proper (.link target)
  | directory {entries : Entries} (nodup : (entries.map (·.1)).Nodup)
      (names : ∀ row ∈ entries, IsName row.1) (below : ∀ row ∈ entries, Proper row.2) :
      Proper (.directory entries)

theorem get?_append (e : Entry) (front back : List String) :
    e.get? (front ++ back) = (e.get? front).bind (·.get? back) := by
  induction front generalizing e with
  | nil => rfl
  | cons name front ih =>
    cases e with
    | file content => rfl
    | link target => rfl
    | directory entries =>
      rw [List.cons_append, get?, get?]
      cases entries.lookup name with
      | none => rfl
      | some e => exact ih e

theorem mem_of_lookup {entries : Entries} {name : String} {e : Entry}
    (h : entries.lookup name = some e) : (name, e) ∈ entries := by
  obtain ⟨before, after, rfl, -⟩ := List.lookup_eq_some_iff.1 h
  exact List.mem_append_right _ (List.mem_cons_self ..)

theorem lookup_of_mem {entries : Entries} (hn : (entries.map (·.1)).Nodup) {row : String × Entry}
    (h : row ∈ entries) : entries.lookup row.1 = some row.2 := by
  induction entries with
  | nil => cases h
  | cons first entries ih =>
    rw [List.map_cons, List.nodup_cons] at hn
    rw [List.lookup_cons]
    rcases List.mem_cons.1 h with rfl | h
    · simp
    · have hne : row.1 ≠ first.1 := fun he => hn.1 (he ▸ List.mem_map_of_mem h)
      rw [beq_eq_false_iff_ne.2 hne]
      exact ih hn.2 h

theorem Proper.get? {e e' : Entry} {place : List String} (h : e.Proper)
    (hg : e.get? place = some e') : e'.Proper := by
  induction place generalizing e with
  | nil =>
    cases hg
    exact h
  | cons name place ih =>
    cases h with
    | file content => cases hg
    | link target => cases hg
    | directory nodup names below =>
      obtain ⟨sub, hl, hs⟩ := Option.bind_eq_some_iff.1 hg
      exact ih (below _ (mem_of_lookup hl)) hs

end Entry

/-- A tree as file systems have them. -/
def Proper (t : FileTree) : Prop := t.top.Proper

theorem get?_concat {t : FileTree} {place : List String} {entries : Entries} {name : String}
    {e : Entry} (hd : t.get? place = some (.directory entries))
    (hl : entries.lookup name = some e) : t.get? (place ++ [name]) = some e := by
  unfold FileTree.get? at hd ⊢
  rw [Entry.get?_append, hd, Option.bind_some, Entry.get?, hl]
  rfl

/-! ## Longer walks -/

/-- A walk goes on where the walk along its first steps has ended. -/
theorem walk_append (t : FileTree) (links : Nat) (place steps more : List String) :
    t.walk links place (steps ++ more) =
      t.walk links place steps >>= fun r => t.walk r.links r.place more := by
  fun_induction t.walk links place steps with
  | case1 => rfl
  | case2 links place rest entries hd ih =>
    rw [List.cons_append, walk, hd]
    exact ih
  | case3 links place rest entries hd hdot ih =>
    simp only [List.cons_append, walk, hd, if_neg hdot]
    exact ih
  | case4 links place name rest entries hd hdot hdots hlong =>
    simp only [List.cons_append, walk, hd, if_neg hdot, if_neg hdots, if_pos hlong]
    rfl
  | case5 links place name rest entries hd hdot hdots hlong hl =>
    simp only [List.cons_append, walk, hd, if_neg hdot, if_neg hdots, if_neg hlong, hl]
    rfl
  | case6 place name rest entries hd hdot hdots hlong target hl =>
    simp only [List.cons_append, walk, hd, if_neg hdot, if_neg hdots, if_neg hlong, hl]
    rfl
  | case7 place name rest entries hd hdot hdots hlong target hl links ih =>
    simp only [List.cons_append, walk, hd, if_neg hdot, if_neg hdots, if_neg hlong, hl]
    rw [← List.append_assoc]
    exact ih
  | case8 links place name rest entries hd hdot hdots hlong e hlink hl ih =>
    simp only [List.cons_append, walk, hd, if_neg hdot, if_neg hdots, if_neg hlong, hl]
    exact ih
  | case9 links place name rest hd =>
    rw [List.cons_append, walk]
    split
    · rename_i entries hg
      exact absurd hg (hd entries)
    · rfl

/-- What an entry of a directory leads to. -/
def enter (t : FileTree) (directory : Reached) (name : String) :
    Entry → Except SystemFault.Cause Reached
  | .link target => t.follow directory.links directory.place target
  | _ => .ok ⟨directory.place ++ [name], directory.links⟩

/-- A step by the name of an entry. -/
theorem walk_name {t : FileTree} {place : List String} {entries : Entries} {name : String} {e : Entry}
    (hd : t.get? place = some (.directory entries)) (hn : IsName name)
    (hl : entries.lookup name = some e) (links : Nat) :
    t.walk links place [name] = t.enter ⟨place, links⟩ name e := by
  have hshort : ¬ maxNameBytes < name.utf8ByteSize := Nat.not_lt.2 hn.short
  rw [walk, hd]
  simp only [if_neg hn.ne_dot, if_neg hn.ne_dots, if_neg hshort, hl]
  cases e with
  | file content => simp only [walk, enter]
  | directory sub => simp only [walk, enter]
  | link target =>
    cases links with
    | zero => rfl
    | succ links =>
      dsimp only [enter, follow]
      rw [List.append_nil]

theorem walk_of_missing {t : FileTree} {place : List String} {entries : Entries} {name : String}
    (hd : t.get? place = some (.directory entries)) (hn : IsName name)
    (hl : entries.lookup name = none) (links : Nat) (steps : List String) :
    t.walk links place (name :: steps) = .error .noEntry := by
  have hshort : ¬ maxNameBytes < name.utf8ByteSize := Nat.not_lt.2 hn.short
  rw [walk, hd]
  simp only [if_neg hn.ne_dot, if_neg hn.ne_dots, if_neg hshort, hl]

/-- A walk along names goes straight ahead if no link stands in its way. -/
theorem walk_of_get? {t : FileTree} {place names : List String} {e : Entry}
    (hn : ∀ name ∈ names, IsName name) (hg : t.get? (place ++ names) = some e)
    (hlink : ∀ target, e ≠ .link target) (links : Nat) :
    t.walk links place names = .ok ⟨place ++ names, links⟩ := by
  induction names generalizing place with
  | nil => rw [walk, List.append_nil]
  | cons name names ih =>
    rw [List.forall_mem_cons] at hn
    obtain ⟨d, hd, hrest⟩ := Option.bind_eq_some_iff.1 ((Entry.get?_append ..).symm.trans hg)
    cases d with
    | file content => cases hrest
    | link target => cases hrest
    | directory entries =>
      obtain ⟨sub, hl, hsub⟩ := Option.bind_eq_some_iff.1 hrest
      have hstep : t.walk links place [name] = .ok ⟨place ++ [name], links⟩ := by
        rw [walk_name hd hn.1 hl]
        cases sub with
        | file content => rfl
        | directory entries => rfl
        | link target =>
          -- nothing lies below a link, so it would be the end
          cases names with
          | nil => exact absurd (Option.some.inj hsub).symm (hlink target)
          | cons _ _ => cases hsub
      rw [← List.singleton_append, ← List.append_assoc] at hg ⊢
      rw [walk_append, hstep]
      exact ih hn.2 hg

/-! ## Places that paths name -/

/-- The place of a name below a path is in the directory that the path leads to. -/
theorem locate_child_iff {t : FileTree} {path : Path} {name : String} (hn : IsName name)
    {place : List String} :
    t.locate (path.child name) = .ok place ↔ ∃ parent entries e,
      t.walk maxLinks (t.startOf path) path.parts = .ok parent ∧
      t.get? parent.place = some (.directory entries) ∧ entries.lookup name = some e ∧
      parent.place ++ [name] = place := by
  have hlast : (path.child name).parts.getLast? = some name := List.getLast?_concat
  have hfront : (path.child name).parts.dropLast = path.parts := List.dropLast_concat
  have hstart : t.startOf (path.child name) = t.startOf path := rfl
  have hshort : ¬ maxNameBytes < name.utf8ByteSize := Nat.not_lt.2 hn.short
  unfold locate
  rw [hlast, hfront, hstart]
  split
  · contradiction
  · rename_i hdots
    exact absurd (Option.some.inj hdots) hn.ne_dots
  · rename_i name' _ hname
    obtain rfl := Option.some.inj hname
    cases t.walk maxLinks (t.startOf path) path.parts with
    | error cause => simp [bind, Except.bind]
    | ok parent =>
      dsimp only [bind, Except.bind]
      cases hg : t.get? parent.place with
      | none => simp [throw, throwThe, MonadExceptOf.throw, hg]
      | some e =>
        cases e with
        | file content => simp [throw, throwThe, MonadExceptOf.throw, hg]
        | link target => simp [throw, throwThe, MonadExceptOf.throw, hg]
        | directory entries =>
          dsimp only
          rw [if_neg hshort]
          cases hl : entries.lookup name with
          | none => simp [throw, throwThe, MonadExceptOf.throw, hg, hl]
          | some e => simp [pure, Except.pure, hg, hl]

theorem locate_child_of_error {t : FileTree} {path : Path} {name : String} (hn : IsName name)
    {cause : SystemFault.Cause}
    (hw : t.walk maxLinks (t.startOf path) path.parts = .error cause) :
    t.locate (path.child name) = .error cause := by
  have hlast : (path.child name).parts.getLast? = some name := List.getLast?_concat
  have hfront : (path.child name).parts.dropLast = path.parts := List.dropLast_concat
  have hstart : t.startOf (path.child name) = t.startOf path := rfl
  unfold locate
  rw [hlast, hfront, hstart, hw]
  split
  · contradiction
  · rename_i hdots
    exact absurd (Option.some.inj hdots) hn.ne_dots
  · rfl

/-- A directory at the place that a path locates is what the path leads to. -/
theorem place_of_locate_child {t : FileTree} {path : Path} {name : String} (hn : IsName name)
    {place : List String} {entries : Entries} {d : Directory}
    (hl : t.locate (path.child name) = .ok place) (hg : t.get? place = some (.directory entries))
    (hd : t.directory? (path.child name) = .ok (some d)) : d.reached.place = place := by
  obtain ⟨parent, siblings, e, hwalk, hparent, hlookup, rfl⟩ := (locate_child_iff hn).1 hl
  obtain rfl : e = .directory entries :=
    Option.some.inj ((get?_concat hparent hlookup).symm.trans hg)
  have hresolve := (directory?_eq_some_iff.1 hd).2.1
  unfold resolve at hresolve
  split at hresolve
  · have hstart : t.startOf (path.child name) = t.startOf path := rfl
    rw [hstart, show (path.child name).parts = path.parts ++ [name] from rfl, walk_append, hwalk]
      at hresolve
    have hstep := (walk_name hparent hn hlookup parent.links).symm.trans hresolve
    exact congrArg Reached.place (Except.ok.inj hstep).symm
  · cases hresolve

/-! ## What a path leads to -/

/-- A path that the file system can be asked about. -/
def Askable (t : FileTree) (path : Path) : Prop := ∃ d?, t.directory? path = .ok d?

theorem askable_iff {t : FileTree} {path : Path} :
    t.Askable path ↔ ('\x00' ∉ path.toString.toList → t.resolve path ≠ .error .nameTooLong) :=
  exists_directory?_iff

theorem read_eq_ok_iff {t : FileTree} {path : Path} {content : List UInt8} :
    t.read path = .ok (.ok content) ↔ '\x00' ∉ path.toString.toList ∧
      ∃ reached, t.resolve path = .ok reached ∧ t.get? reached.place = some (.file content) := by
  unfold read
  constructor
  · intro h
    split at h
    · cases h
    · rename_i hnull
      split at h
      · cases h
      · rename_i reached hr
        split at h
        · rename_i content' hg
          cases h
          exact ⟨hnull, reached, hr, hg⟩
        · cases h
  · rintro ⟨hnull, reached, hr, hg⟩
    rw [if_neg hnull, hr]
    dsimp only
    rw [hg]

theorem read_of_error {t : FileTree} {path : Path} {cause : SystemFault.Cause}
    (hnull : '\x00' ∉ path.toString.toList) (hr : t.resolve path = .error cause) :
    t.read path = .ok (.error ⟨cause, path.toString⟩) := by
  unfold read
  rw [if_neg hnull, hr]

theorem directory?_of_noEntry {t : FileTree} {path : Path} (hr : t.resolve path = .error .noEntry) :
    t.directory? path = .ok none := by
  unfold directory?
  rw [hr]
  exact ite_self _

/-! ## Straight paths -/

section Straight

variable {t : FileTree} {path : Path}

theorem resolve_of_get? {e : Entry} (ha : t.admits path = true)
    (hn : ∀ name ∈ path.parts, IsName name) (hg : t.get? (t.startOf path ++ path.parts) = some e)
    (hlink : ∀ target, e ≠ .link target) :
    t.resolve path = .ok ⟨t.startOf path ++ path.parts, maxLinks⟩ := by
  unfold resolve
  rw [if_pos ha, walk_of_get? hn hg hlink]

theorem directory?_of_get? {entries : Entries} (hnull : '\x00' ∉ path.toString.toList)
    (ha : t.admits path = true) (hn : ∀ name ∈ path.parts, IsName name)
    (hg : t.get? (t.startOf path ++ path.parts) = some (.directory entries)) :
    t.directory? path = .ok (some ⟨⟨t.startOf path ++ path.parts, maxLinks⟩, entries⟩) :=
  directory?_eq_some_iff.2 ⟨hnull, resolve_of_get? ha hn hg nofun, hg⟩

theorem read_of_get? {content : List UInt8} (hnull : '\x00' ∉ path.toString.toList)
    (ha : t.admits path = true) (hn : ∀ name ∈ path.parts, IsName name)
    (hg : t.get? (t.startOf path ++ path.parts) = some (.file content)) :
    t.read path = .ok (.ok content) :=
  read_eq_ok_iff.2 ⟨hnull, _, resolve_of_get? ha hn hg nofun, hg⟩

end Straight

/-- Whether a path leads to a directory. -/
def isDirectory (t : FileTree) (path : Path) : Bool :=
  match t.directory? path with
  | .ok (some _) => true
  | _ => false

/-- Whether a path leads to a file. -/
def isFile (t : FileTree) (path : Path) : Bool :=
  match t.read path with
  | .ok (.ok _) => true
  | _ => false

theorem isDirectory_eq_true_iff {t : FileTree} {path : Path} :
    t.isDirectory path = true ↔ ∃ d, t.directory? path = .ok (some d) := by
  unfold isDirectory
  split
  · rename_i d h
    exact ⟨fun _ => ⟨d, h⟩, fun _ => rfl⟩
  · rename_i hne
    refine ⟨nofun, fun ⟨d, h⟩ => absurd h (hne d)⟩

theorem isFile_eq_true_iff {t : FileTree} {path : Path} :
    t.isFile path = true ↔ ∃ content, t.read path = .ok (.ok content) := by
  unfold isFile
  split
  · rename_i content h
    exact ⟨fun _ => ⟨content, h⟩, fun _ => rfl⟩
  · rename_i hne
    refine ⟨nofun, fun ⟨content, h⟩ => absurd h (hne content)⟩

theorem isFile_of_resolve {t : FileTree} {path : Path} {reached : Reached}
    (hnull : '\x00' ∉ path.toString.toList) (hr : t.resolve path = .ok reached) :
    t.isFile path = match t.get? reached.place with
      | some (.file _) => true
      | _ => false := by
  unfold isFile read
  rw [if_neg hnull, hr]
  dsimp only
  rcases t.get? reached.place with _ | content | sub | target <;> rfl

theorem isFile_of_error {t : FileTree} {path : Path} {cause : SystemFault.Cause}
    (hr : t.resolve path = .error cause) : t.isFile path = false := by
  unfold isFile read
  rw [hr]
  split
  · rename_i content h
    split at h <;> cases h
  · rfl

/-! ## Entries of a directory -/

theorem directoryAt?_eq_some_iff {t : FileTree} {links : Nat} {place : List String} {name : String}
    {e : Entry} (hg : t.get? (place ++ [name]) = some e) {sub : Directory} :
    t.directoryAt? links place name e = some sub ↔ t.enter ⟨place, links⟩ name e = .ok sub.reached ∧
      t.get? sub.reached.place = some (.directory sub.entries) := by
  obtain ⟨reached, entries⟩ := sub
  unfold directoryAt? enter
  cases e with
  | file content =>
    refine ⟨nofun, ?_⟩
    rintro ⟨hr, hsub⟩
    obtain rfl := Except.ok.inj hr
    rw [hg] at hsub
    cases hsub
  | directory entries' =>
    constructor
    · intro hsub
      cases hsub
      exact ⟨rfl, hg⟩
    · rintro ⟨hr, hsub⟩
      obtain rfl := Except.ok.inj hr
      rw [hg] at hsub
      obtain rfl := Entry.directory.inj (Option.some.inj hsub)
      rfl
  | link target =>
    dsimp only
    constructor
    · intro hsub
      split at hsub
      · cases hsub
      · rename_i reached' hr
        split at hsub
        · rename_i entries' hg'
          cases hsub
          exact ⟨hr, hg'⟩
        · cases hsub
    · rintro ⟨hr, hsub⟩
      rw [hr]
      dsimp only
      rw [hsub]

/-- What the search of a directory makes of a build file in it. -/
theorem buildFileAt_file {t : FileTree} {links : Nat} {place : List String} {shown : Path}
    {name : String} {content : List UInt8} (ha : t.admits (shown.child name) = true)
    (hb : BuildFile.isName name = true) :
    t.buildFileAt links place shown name (.file content) =
      .ok (some (shown.child name).normalized) := by
  unfold buildFileAt
  dsimp only
  rw [ha, hb]
  rfl

theorem buildFileAt_directory {t : FileTree} {links : Nat} {place : List String} {shown : Path}
    {name : String} {sub : Entries} (ha : t.admits (shown.child name) = true) :
    t.buildFileAt links place shown name (.directory sub) = .ok none := by
  unfold buildFileAt
  dsimp only
  rw [ha]
  rfl

section Entries

variable {t : FileTree} {path : Path} {d : Directory} {row : String × Entry}

theorem isName_of_mem (ht : t.Proper) (h : t.directory? path = .ok (some d)) (hm : row ∈ d.entries) :
    IsName row.1 := by
  cases Entry.Proper.get? ht (directory?_eq_some_iff.1 h).2.2 with
  | directory nodup names below => exact names row hm

theorem lookup_of_directory? (ht : t.Proper) (h : t.directory? path = .ok (some d))
    (hm : row ∈ d.entries) : d.entries.lookup row.1 = some row.2 := by
  cases Entry.Proper.get? ht (directory?_eq_some_iff.1 h).2.2 with
  | directory nodup names below => exact Entry.lookup_of_mem nodup hm

/-- What an entry leads to is told by the directory that it is in. -/
theorem resolve_child (ht : t.Proper) (h : t.directory? path = .ok (some d)) (hm : row ∈ d.entries) :
    t.resolve (path.child row.1) =
      if t.admits (path.child row.1) then t.enter d.reached row.1 row.2
      else .error .nameTooLong := by
  obtain ⟨-, hr, hg⟩ := directory?_eq_some_iff.1 h
  unfold resolve at hr ⊢
  split at hr
  · have hstart : t.startOf (path.child row.1) = t.startOf path := rfl
    have hwalk : t.walk maxLinks (t.startOf path) (path.parts ++ [row.1]) =
        t.walk d.reached.links d.reached.place [row.1] := by
      rw [walk_append, hr]
      rfl
    rw [hstart, show (path.child row.1).parts = path.parts ++ [row.1] from rfl, hwalk,
      walk_name hg (isName_of_mem ht h hm) (lookup_of_directory? ht h hm)]
  · cases hr

theorem null_not_mem_child (ht : t.Proper) (h : t.directory? path = .ok (some d))
    (hm : row ∈ d.entries) : '\x00' ∉ (path.child row.1).toString.toList := by
  rw [Path.mem_toString_child_iff (by decide) (by decide), not_or]
  exact ⟨(directory?_eq_some_iff.1 h).1, (isName_of_mem ht h hm).null_not_mem⟩

theorem get?_entry (ht : t.Proper) (h : t.directory? path = .ok (some d)) (hm : row ∈ d.entries) :
    t.get? (d.reached.place ++ [row.1]) = some row.2 :=
  get?_concat (directory?_eq_some_iff.1 h).2.2 (lookup_of_directory? ht h hm)

/-- An entry can be asked about in the search of its directory exactly if its path can be asked
about. -/
theorem answers_iff (ht : t.Proper) (h : t.directory? path = .ok (some d)) (hm : row ∈ d.entries) :
    t.Answers d.reached.links d.reached.place path row.1 row.2 ↔ t.Askable (path.child row.1) := by
  rw [askable_iff, forall_prop_of_true (null_not_mem_child ht h hm), resolve_child ht h hm]
  by_cases ha : t.admits (path.child row.1) = true
  · rw [if_pos ha]
    obtain ⟨name, e⟩ := row
    cases e with
    | file content => exact ⟨fun _ => nofun, fun _ => ⟨ha, nofun⟩⟩
    | directory sub => exact ⟨fun _ => nofun, fun _ => ⟨ha, nofun⟩⟩
    | link target =>
      refine ⟨fun hans => hans.follows target rfl, fun hf => ⟨ha, fun target' he => ?_⟩⟩
      cases he
      exact hf
  · rw [if_neg ha]
    exact ⟨fun hans => absurd hans.admits ha, fun hne => absurd rfl hne⟩

theorem directory?_child_iff (ht : t.Proper) (h : t.directory? path = .ok (some d))
    (hm : row ∈ d.entries) {sub : Directory} :
    t.directory? (path.child row.1) = .ok (some sub) ↔ t.admits (path.child row.1) = true ∧
      t.directoryAt? d.reached.links d.reached.place row.1 row.2 = some sub := by
  rw [directory?_eq_some_iff, and_iff_right (null_not_mem_child ht h hm), resolve_child ht h hm,
    directoryAt?_eq_some_iff (get?_entry ht h hm)]
  by_cases ha : t.admits (path.child row.1) = true
  · rw [if_pos ha, and_iff_right ha]
  · rw [if_neg ha]
    exact ⟨fun hsub => (by cases hsub.1), fun hsub => absurd hsub.1 ha⟩

/-- What the search of a directory makes of an entry that can be asked about. -/
theorem buildFileAt_of_askable (ht : t.Proper) (h : t.directory? path = .ok (some d))
    (hm : row ∈ d.entries) (ha : t.Askable (path.child row.1)) :
    t.buildFileAt d.reached.links d.reached.place path row.1 row.2 =
      .ok (if BuildFile.isName row.1 && t.isFile (path.child row.1) then
        some (path.child row.1).normalized else none) := by
  have hnull := null_not_mem_child ht h hm
  have hans := (answers_iff ht h hm).2 ha
  have hr := resolve_child ht h hm
  rw [if_pos hans.admits] at hr
  have hg := get?_entry ht h hm
  unfold buildFileAt
  dsimp only
  rw [hans.admits]
  obtain ⟨name, e⟩ := row
  cases e with
  | file content =>
    rw [isFile_of_resolve hnull hr, hg, Bool.and_true]
    rfl
  | directory sub =>
    rw [isFile_of_resolve hnull hr, hg, Bool.and_false]
    rfl
  | link target =>
    have hne := hans.follows target rfl
    dsimp only [enter] at hr ⊢
    cases hf : t.follow d.reached.links d.reached.place target with
    | error cause =>
      rw [isFile_of_error (hr.trans hf), Bool.and_false]
      cases cause with
      | nameTooLong => exact absurd hf hne
      | _ => rfl
    | ok reached =>
      rw [isFile_of_resolve hnull (hr.trans hf)]
      dsimp only
      rcases t.get? reached.place with _ | content | sub | target' <;>
        simp only [Bool.and_true, Bool.and_false] <;> rfl

end Entries

/-! ## Directories in directories -/

/-- One path leads to a directory that is an entry of the directory of the other path, or behind a
link that is. -/
inductive Subdirectory (t : FileTree) : Path → Path → Prop
  | intro {path : Path} {d sub : Directory} {row : String × Entry}
      (directory : t.directory? path = .ok (some d)) (entry : row ∈ d.entries)
      (leads : t.directory? (path.child row.1) = .ok (some sub)) :
      Subdirectory t (path.child row.1) path

/-- The links that are left on the way to a directory, and how much lies in it. -/
noncomputable def Directory.room (d : Directory) : Nat × Nat := (d.reached.links, sizeOf d.entries)

theorem room_directoryAt?_lt {t : FileTree} {links : Nat} {place : List String} {entries : Entries}
    {row : String × Entry} (hm : row ∈ entries) {sub : Directory}
    (h : t.directoryAt? links place row.1 row.2 = some sub) :
    Prod.Lex (· < ·) (· < ·) sub.room (links, sizeOf entries) := by
  obtain ⟨name, e⟩ := row
  unfold directoryAt? at h
  cases e with
  | file content => cases h
  | directory entries' =>
    cases h
    exact .right _ (sizeOf_lt_of_mem_sorted (mem_sorted.2 hm))
  | link target =>
    dsimp only at h
    split at h
    · cases h
    · rename_i reached hf
      split at h
      · cases h
        exact .left _ _ (follow_links_lt hf)
      · cases h

/-- There is no endless way from directories to those in them, whatever links there are. -/
theorem wellFounded_subdirectory {t : FileTree} (ht : t.Proper) : WellFounded t.Subdirectory := by
  let room (path : Path) : Nat × Nat :=
    match t.directory? path with
    | .ok (some d) => d.room
    | _ => (0, 0)
  have hroom : ∀ {path d}, t.directory? path = .ok (some d) → room path = d.room := by
    intro path d h
    show (match t.directory? path with
      | .ok (some d) => d.room
      | _ => (0, 0)) = d.room
    rw [h]
  have hlex : WellFounded (Prod.Lex (· < ·) (· < ·) : Nat × Nat → Nat × Nat → Prop) :=
    WellFounded.prod_lex Nat.lt_wfRel.wf Nat.lt_wfRel.wf
  refine Subrelation.wf ?_ (InvImage.wf room hlex)
  rintro _ path ⟨hd, hm, hsub⟩
  show Prod.Lex _ _ (room _) (room _)
  rw [hroom hd, hroom hsub]
  exact room_directoryAt?_lt hm ((directory?_child_iff ht hd hm).1 hsub).2

end FileTree

end BuildOrder
