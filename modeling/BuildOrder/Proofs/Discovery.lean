/-
What a search for build files comes to. It returns exactly if no path that it asks the file system
about is too long; then each root gives the files below it, whatever the other roots are, and each
root that is no directory gives one warning and no file.

The search goes below an entry and behind a link in the same way, so one induction along the search
settles which paths it asks about. The roots are then taken one after the other.
-/
import BuildOrder.Proofs.Log
import BuildOrder.Proofs.Path

namespace BuildOrder

open Steps

/-! ## Lists of steps that may fail -/

section Lists

variable {ε α β : Type}

theorem bind_eq_ok_iff {x : Except ε α} {f : α → Except ε β} {b : β} :
    (x >>= f) = .ok b ↔ ∃ a, x = .ok a ∧ f a = .ok b := by
  cases x with
  | error e => simp [bind, Except.bind]
  | ok a => simp [bind, Except.bind]

theorem exists_mapM_ok_iff {f : α → Except ε β} {l : List α} :
    (∃ ys, l.mapM f = .ok ys) ↔ ∀ x ∈ l, ∃ y, f x = .ok y := by
  induction l with
  | nil => simp [pure, Except.pure]
  | cons x l ih =>
    rw [List.forall_mem_cons, ← ih, List.mapM_cons]
    constructor
    · rintro ⟨ys, h⟩
      obtain ⟨y, hy, h⟩ := bind_eq_ok_iff.1 h
      obtain ⟨ys', hys, -⟩ := bind_eq_ok_iff.1 h
      exact ⟨⟨y, hy⟩, ys', hys⟩
    · rintro ⟨⟨y, hy⟩, ys, hys⟩
      exact ⟨y :: ys, bind_eq_ok_iff.2 ⟨y, hy, bind_eq_ok_iff.2 ⟨ys, hys, rfl⟩⟩⟩

theorem exists_filterMapM_ok_iff {f : α → Except ε (Option β)} {l : List α} :
    (∃ ys, l.filterMapM f = .ok ys) ↔ ∀ x ∈ l, ∃ y, f x = .ok y := by
  induction l with
  | nil => simp [pure, Except.pure]
  | cons x l ih =>
    rw [List.forall_mem_cons, ← ih, List.filterMapM_cons]
    constructor
    · rintro ⟨ys, h⟩
      obtain ⟨y, hy, h⟩ := bind_eq_ok_iff.1 h
      refine ⟨⟨y, hy⟩, ?_⟩
      cases y with
      | none => exact ⟨ys, h⟩
      | some y =>
        obtain ⟨ys', hys, -⟩ := bind_eq_ok_iff.1 h
        exact ⟨ys', hys⟩
    · rintro ⟨⟨y, hy⟩, ys, hys⟩
      cases y with
      | none => exact ⟨ys, bind_eq_ok_iff.2 ⟨none, hy, hys⟩⟩
      | some y => exact ⟨y :: ys, bind_eq_ok_iff.2 ⟨some y, hy, bind_eq_ok_iff.2 ⟨ys, hys, rfl⟩⟩⟩

end Lists

theorem Log.addAll_nil (log : Log) : log.addAll [] = log := by simp [addAll]

namespace Logged

theorem ofSystem_ok {α : Type} (a : α) (log : Log) : ofSystem (.ok a) log = .ok a log := rfl

theorem ofSystem_error {α : Type} (e : SystemFault) (log : Log) :
    (ofSystem (.error e) : Logged α) log = .error (.system e) log := rfl

end Logged

namespace FileTree

/-! ## Below a directory -/

/-- The directory that an entry is or leads to, if there is one. -/
def directoryAt? (t : FileTree) (links : Nat) (place : List String) (name : String) (e : Entry) :
    Option Directory :=
  match e with
  | .file _ => none
  | .directory sub => some ⟨⟨place ++ [name], links⟩, sub⟩
  | .link target =>
    match t.follow links place target with
    | .error _ => none
    | .ok reached =>
      match t.get? reached.place with
      | some (.directory sub) => some ⟨reached, sub⟩
      | _ => none

/-- The build files below an entry. -/
def buildFilesIn (t : FileTree) (links : Nat) (place : List String) (shown : Path) (name : String)
    (e : Entry) : Except SystemFault (List String) :=
  match t.directoryAt? links place name e with
  | none => .ok []
  | some d => t.buildFiles d.reached.links d.reached.place (shown.child name) d.entries

/-- The build files of a directory stand before those of what lies below it. -/
theorem buildFiles_eq (t : FileTree) (links : Nat) (place : List String) (shown : Path)
    (entries : Entries) : t.buildFiles links place shown entries = do
      let files ← (sorted entries).filterMapM fun row => t.buildFileAt links place shown row.1 row.2
      let below ← (sorted entries).mapM fun row => t.buildFilesIn links place shown row.1 row.2
      return files ++ below.flatten := by
  rw [buildFiles]
  -- the search carries the membership of each entry along, for its termination only
  refine congrArg _ (funext fun files => ?_)
  refine congrArg (· >>= fun below : List (List String) => pure (files ++ below.flatten)) ?_
  refine (List.mapM_subtype fun row h => ?_).trans
    (congrArg (List.mapM fun row : String × Entry => t.buildFilesIn links place shown row.1 row.2)
      List.unattach_attach)
  obtain ⟨name, e⟩ := row
  unfold buildFilesIn directoryAt?
  cases e with
  | file content => rfl
  | directory sub => rfl
  | link target =>
    dsimp only
    cases t.follow links place target with
    | error cause => rfl
    | ok reached =>
      dsimp only
      rcases t.get? reached.place with _ | content | sub | target <;> rfl

theorem mem_sorted {row : String × Entry} {entries : Entries} :
    row ∈ sorted entries ↔ row ∈ entries := (List.mergeSort_perm _ _).mem_iff

theorem exists_buildFiles_ok_iff {t : FileTree} {links : Nat} {place : List String} {shown : Path}
    {entries : Entries} :
    (∃ files, t.buildFiles links place shown entries = .ok files) ↔
      (∀ row ∈ entries, ∃ found, t.buildFileAt links place shown row.1 row.2 = .ok found) ∧
      ∀ row ∈ entries, ∃ files, t.buildFilesIn links place shown row.1 row.2 = .ok files := by
  have hfiles := exists_filterMapM_ok_iff (l := sorted entries)
    (f := fun row => t.buildFileAt links place shown row.1 row.2)
  have hbelow := exists_mapM_ok_iff (l := sorted entries)
    (f := fun row => t.buildFilesIn links place shown row.1 row.2)
  simp only [mem_sorted] at hfiles hbelow
  rw [buildFiles_eq, ← hfiles, ← hbelow]
  constructor
  · rintro ⟨_, h⟩
    obtain ⟨files, hf, h⟩ := bind_eq_ok_iff.1 h
    obtain ⟨below, hb, -⟩ := bind_eq_ok_iff.1 h
    exact ⟨⟨files, hf⟩, below, hb⟩
  · rintro ⟨⟨files, hf⟩, below, hb⟩
    exact ⟨_, bind_eq_ok_iff.2 ⟨files, hf, bind_eq_ok_iff.2 ⟨below, hb, rfl⟩⟩⟩

theorem exists_buildFilesIn_ok_iff {t : FileTree} {links : Nat} {place : List String} {shown : Path}
    {name : String} {e : Entry} :
    (∃ files, t.buildFilesIn links place shown name e = .ok files) ↔
      ∀ d ∈ t.directoryAt? links place name e, ∃ files,
        t.buildFiles d.reached.links d.reached.place (shown.child name) d.entries = .ok files := by
  unfold buildFilesIn
  cases t.directoryAt? links place name e with
  | none => simp
  | some d => simp

/-! ## Limits -/

/-- An entry that can be asked about: its path is not too long, nor is a name on the way of a
link. -/
structure Answers (t : FileTree) (links : Nat) (place : List String) (shown : Path) (name : String)
    (e : Entry) : Prop where
  admits : t.admits (shown.child name) = true
  follows : ∀ target, e = .link target → t.follow links place target ≠ .error .nameTooLong

theorem exists_buildFileAt_ok_iff {t : FileTree} {links : Nat} {place : List String} {shown : Path}
    {name : String} {e : Entry} :
    (∃ found, t.buildFileAt links place shown name e = .ok found) ↔
      t.Answers links place shown name e := by
  unfold buildFileAt
  dsimp only
  constructor
  · rintro ⟨found, h⟩
    split at h
    · cases h
    rename_i ha
    refine ⟨by simpa using ha, ?_⟩
    rintro target rfl hf
    dsimp only at h
    rw [hf] at h
    cases h
  · rintro ⟨ha, hlink⟩
    rw [ha]
    cases e with
    | file content => exact ⟨_, rfl⟩
    | directory sub => exact ⟨_, rfl⟩
    | link target =>
      have hf := hlink target rfl
      dsimp only
      split
      · contradiction
      · split
        · contradiction
        · exact ⟨_, rfl⟩
        · split <;> exact ⟨_, rfl⟩

/-- A directory that can be searched: every entry can be asked about, in it and in the directories
that its entries are or lead to. -/
inductive WithinLimits (t : FileTree) : Nat → List String → Path → Entries → Prop
  | intro {links : Nat} {place : List String} {shown : Path} {entries : Entries}
      (answers : ∀ row ∈ entries, t.Answers links place shown row.1 row.2)
      (below : ∀ row ∈ entries, ∀ d ∈ t.directoryAt? links place row.1 row.2,
        WithinLimits t d.reached.links d.reached.place (shown.child row.1) d.entries) :
      WithinLimits t links place shown entries

/-- The search below a directory ends with a list exactly if nothing on its way is too long. -/
theorem exists_buildFiles_ok_iff_withinLimits (t : FileTree) (links : Nat) (place : List String)
    (shown : Path) (entries : Entries) :
    (∃ files, t.buildFiles links place shown entries = .ok files) ↔
      t.WithinLimits links place shown entries := by
  induction links, place, shown, entries using buildFiles.induct t with
  | case1 links place shown entries ihbelow ihbehind =>
    -- the two hypotheses are one, of the directory that an entry is or leads to
    have ih : ∀ row ∈ entries, ∀ d ∈ t.directoryAt? links place row.1 row.2,
        (∃ files, t.buildFiles d.reached.links d.reached.place (shown.child row.1) d.entries =
          .ok files) ↔
        t.WithinLimits d.reached.links d.reached.place (shown.child row.1) d.entries := by
      rintro ⟨name, e⟩ hm d hd
      unfold directoryAt? at hd
      cases e with
      | file content => cases hd
      | directory sub =>
        cases hd
        exact ihbelow name sub (mem_sorted.2 hm)
      | link target =>
        dsimp only at hd
        split at hd
        · cases hd
        · rename_i reached hf
          split at hd
          · cases hd
            exact ihbehind name target reached hf _
          · cases hd
    rw [exists_buildFiles_ok_iff]
    constructor
    · rintro ⟨hfiles, hbelow⟩
      refine .intro (fun row hm => exists_buildFileAt_ok_iff.1 (hfiles row hm)) ?_
      intro row hm d hd
      exact (ih row hm d hd).1 (exists_buildFilesIn_ok_iff.1 (hbelow row hm) d hd)
    · rintro ⟨hanswers, hbelow⟩
      refine ⟨fun row hm => exists_buildFileAt_ok_iff.2 (hanswers row hm), fun row hm => ?_⟩
      exact exists_buildFilesIn_ok_iff.2 fun d hd => (ih row hm d hd).2 (hbelow row hm d hd)

/-! ## What a path leads to -/

theorem directory?_eq_some_iff {t : FileTree} {path : Path} {d : Directory} :
    t.directory? path = .ok (some d) ↔ '\x00' ∉ path.toString.toList ∧
      t.resolve path = .ok d.reached ∧ t.get? d.reached.place = some (.directory d.entries) := by
  unfold directory?
  constructor
  · intro h
    split at h
    · cases h
    · rename_i hnull
      split at h
      · cases h
      · cases h
      · rename_i reached hr
        split at h
        · rename_i entries hg
          cases h
          exact ⟨hnull, hr, hg⟩
        · cases h
  · rintro ⟨hnull, hr, hg⟩
    rw [if_neg hnull, hr]
    dsimp only
    rw [hg]

/-- Only a name or a path that is too long keeps a path from being asked about. -/
theorem exists_directory?_iff {t : FileTree} {path : Path} :
    (∃ d?, t.directory? path = .ok d?) ↔
      ('\x00' ∉ path.toString.toList → t.resolve path ≠ .error .nameTooLong) := by
  unfold directory?
  split
  · rename_i hnull
    exact ⟨fun _ h => absurd hnull h, fun _ => ⟨_, rfl⟩⟩
  · rename_i hnull
    rw [forall_prop_of_true hnull]
    split
    · rename_i hr
      rw [hr]
      simp
    · rename_i cause hne hr
      rw [hr]
      refine ⟨fun _ h => ?_, fun _ => ⟨_, rfl⟩⟩
      cases h
      exact hne rfl
    · rename_i reached hr
      rw [hr]
      refine ⟨fun _ h => (by cases h), fun _ => ?_⟩
      split <;> exact ⟨_, rfl⟩

/-! ## Roots -/

/-- What a root gives by itself: the build files below it, or nothing if it is no directory. -/
def searchRoot (t : FileTree) (root : String) : Except SystemFault (Option (List String)) :=
  match t.directory? (.ofString root) with
  | .error e => .error e
  | .ok none => .ok none
  | .ok (some d) =>
    (t.buildFiles d.reached.links d.reached.place (.ofString root) d.entries).map some

/-- The build files of a root. -/
def filesOf (t : FileTree) (root : String) : List String :=
  match t.searchRoot root with
  | .ok (some files) => files
  | _ => []

/-- What is said of a root. -/
def warningsOf (t : FileTree) (root : String) : List Diagnostic :=
  match t.searchRoot root with
  | .ok none => [⟨.warning, "Directory not found: " ++ root, none, .unknown⟩]
  | _ => []

/-- A root that leads to a directory. -/
def IsDirectory (t : FileTree) (root : String) : Prop :=
  '\x00' ∉ root.toList ∧ ∃ reached entries, t.resolve (.ofString root) = .ok reached ∧
    t.get? reached.place = some (.directory entries)

/-- A root that can be searched: neither it nor anything on the way of the search is too long. -/
structure Searchable (t : FileTree) (root : String) : Prop where
  resolves : '\x00' ∉ root.toList → t.resolve (.ofString root) ≠ .error .nameTooLong
  below : ∀ d, t.directory? (.ofString root) = .ok (some d) →
    t.WithinLimits d.reached.links d.reached.place (.ofString root) d.entries

theorem exists_directory?_ok_iff {t : FileTree} {root : String} :
    (∃ d?, t.directory? (.ofString root) = .ok d?) ↔
      ('\x00' ∉ root.toList → t.resolve (.ofString root) ≠ .error .nameTooLong) := by
  rw [exists_directory?_iff, Path.null_mem_toString_iff]

theorem isDirectory_iff {t : FileTree} {root : String} :
    t.IsDirectory root ↔ ∃ d, t.directory? (.ofString root) = .ok (some d) := by
  simp only [IsDirectory, directory?_eq_some_iff, Path.null_mem_toString_iff]
  constructor
  · rintro ⟨hnull, reached, entries, hr, hg⟩
    exact ⟨⟨reached, entries⟩, hnull, hr, hg⟩
  · rintro ⟨d, hnull, hr, hg⟩
    exact ⟨hnull, d.reached, d.entries, hr, hg⟩

theorem exists_searchRoot_ok_iff {t : FileTree} {root : String} :
    (∃ found, t.searchRoot root = .ok found) ↔ t.Searchable root := by
  unfold searchRoot
  constructor
  · rintro ⟨found, h⟩
    cases hd : t.directory? (.ofString root) with
    | error e => rw [hd] at h; cases h
    | ok d? =>
      refine ⟨exists_directory?_ok_iff.1 ⟨d?, hd⟩, fun d hsome => ?_⟩
      cases hd.symm.trans hsome
      rw [hd] at h
      refine (t.exists_buildFiles_ok_iff_withinLimits ..).1 ?_
      dsimp only at h
      cases hf : t.buildFiles d.reached.links d.reached.place (.ofString root) d.entries with
      | error e => rw [hf] at h; cases h
      | ok files => exact ⟨files, rfl⟩
  · rintro ⟨hr, hbelow⟩
    obtain ⟨d?, hd⟩ := exists_directory?_ok_iff.2 hr
    rw [hd]
    cases d? with
    | none => exact ⟨_, rfl⟩
    | some d =>
      obtain ⟨files, hf⟩ := (t.exists_buildFiles_ok_iff_withinLimits ..).2 (hbelow d hd)
      refine ⟨some files, ?_⟩
      dsimp only
      rw [hf]
      rfl

/-- The roots behind the first one are searched in the same way, whatever the first one gives. -/
theorem discover_cons (t : FileTree) (root : String) (roots : List String) (log : Log) :
    t.discover (root :: roots) log =
      match t.searchRoot root with
      | .error e => .error (.system e) log
      | .ok _ =>
        match t.discover roots (log.addAll (t.warningsOf root)) with
        | .error refusal log' => .error refusal log'
        | .ok files log' => .ok (t.filesOf root ++ files) log' := by
  -- what is left to do when the first root has given its files
  have hrest : ∀ (front : List String) (log : Log),
      (t.discover roots >>= fun files => pure (front ++ files)) log =
        match t.discover roots log with
        | .error refusal log' => .error refusal log'
        | .ok files log' => .ok (front ++ files) log' := by
    intro front log
    cases h : t.discover roots log with
    | error refusal log' => exact bind_of_error h
    | ok files log' => exact bind_of_ok h
  unfold filesOf warningsOf searchRoot
  rw [discover]
  cases t.directory? (.ofString root) with
  | error e => exact bind_of_error (Logged.ofSystem_error e log)
  | ok d? =>
    refine (bind_of_ok (Logged.ofSystem_ok d? log)).trans ?_
    cases d? with
    | none => exact hrest [] _
    | some d =>
      dsimp only
      cases t.buildFiles d.reached.links d.reached.place (.ofString root) d.entries with
      | error e => exact bind_of_error (Logged.ofSystem_error e log)
      | ok files =>
        refine (bind_of_ok (Logged.ofSystem_ok files log)).trans ((hrest files log).trans ?_)
        simp only [Except.map, Log.addAll_nil]

theorem discover_cons_of_ok {t : FileTree} {root : String} {files : List String}
    (h : t.searchRoot root = .ok (some files)) {roots more : List String} {log log' : Log}
    (hrest : t.discover roots log = .ok more log') :
    t.discover (root :: roots) log = .ok (files ++ more) log' := by
  have hlog : t.warningsOf root = [] := by
    unfold warningsOf
    rw [h]
  have hfiles : t.filesOf root = files := by
    unfold filesOf
    rw [h]
  rw [discover_cons, h, hlog, Log.addAll_nil, hrest, hfiles]

theorem discover_cons_of_missing {t : FileTree} {root : String} (h : t.searchRoot root = .ok none)
    {roots more : List String} {log log' : Log}
    (hrest : t.discover roots (log.warning ("Directory not found: " ++ root)) = .ok more log') :
    t.discover (root :: roots) log = .ok more log' := by
  have hlog : t.warningsOf root = [⟨.warning, "Directory not found: " ++ root, none, .unknown⟩] := by
    unfold warningsOf
    rw [h]
  have hfiles : t.filesOf root = [] := by
    unfold filesOf
    rw [h]
  have hsaid : log.addAll [⟨.warning, "Directory not found: " ++ root, none, .unknown⟩] =
      log.warning ("Directory not found: " ++ root) := rfl
  rw [discover_cons, h, hlog, hsaid, hrest, hfiles]
  rfl

theorem discover_singleton {t : FileTree} {root : String} {files : List String}
    (h : t.searchRoot root = .ok (some files)) (log : Log) :
    t.discover [root] log = .ok files log := by
  rw [discover_cons_of_ok h (show t.discover [] log = .ok [] log from rfl), List.append_nil]

/-- Roots that can be searched are searched each by itself. -/
theorem discover_of_searchable {t : FileTree} {roots : List String} {log : Log}
    (h : ∀ root ∈ roots, t.Searchable root) :
    t.discover roots log =
      .ok (roots.flatMap t.filesOf) (log.addAll (roots.flatMap t.warningsOf)) := by
  induction roots generalizing log with
  | nil =>
    rw [List.flatMap_nil, List.flatMap_nil, Log.addAll_nil]
    rfl
  | cons root roots ih =>
    rw [List.forall_mem_cons] at h
    obtain ⟨found, hs⟩ := exists_searchRoot_ok_iff.2 h.1
    rw [discover_cons, hs, ih h.2, Log.addAll_addAll, List.flatMap_cons, List.flatMap_cons]

theorem searchable_of_discover {t : FileTree} {roots files : List String} {log log' : Log}
    (h : t.discover roots log = .ok files log') : ∀ root ∈ roots, t.Searchable root := by
  induction roots generalizing files log log' with
  | nil => exact List.forall_mem_nil _
  | cons root roots ih =>
    rw [discover_cons] at h
    rw [List.forall_mem_cons]
    split at h
    · cases h
    · rename_i found hs
      split at h
      · cases h
      · rename_i hrest
        exact ⟨exists_searchRoot_ok_iff.1 ⟨found, hs⟩, ih hrest⟩

/-- A search ends with a list exactly if each root can be searched. -/
theorem exists_discover_iff {t : FileTree} {roots : List String} {log : Log} :
    (∃ files log', t.discover roots log = .ok files log') ↔ ∀ root ∈ roots, t.Searchable root := by
  constructor
  · rintro ⟨files, log', h⟩
    exact searchable_of_discover h
  · intro hs
    exact ⟨_, _, discover_of_searchable hs⟩

theorem searchRoot_of_not_isDirectory {t : FileTree} {root : String} (hs : t.Searchable root)
    (hd : ¬ t.IsDirectory root) : t.searchRoot root = .ok none := by
  rw [isDirectory_iff] at hd
  obtain ⟨d?, h⟩ := exists_directory?_ok_iff.2 hs.resolves
  cases d? with
  | none =>
    unfold searchRoot
    rw [h]
  | some d => exact absurd ⟨d, h⟩ hd

theorem searchRoot_of_isDirectory {t : FileTree} {root : String} (hs : t.Searchable root)
    (hd : t.IsDirectory root) : ∃ files, t.searchRoot root = .ok (some files) := by
  obtain ⟨d, h⟩ := isDirectory_iff.1 hd
  obtain ⟨files, hf⟩ := (t.exists_buildFiles_ok_iff_withinLimits ..).2 (hs.below d h)
  refine ⟨files, ?_⟩
  unfold searchRoot
  rw [h]
  dsimp only
  rw [hf]
  rfl

end FileTree

end BuildOrder
