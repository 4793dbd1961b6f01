/-
The listing of a directory is what a search for build files below it should find: first the build
files among its entries by name, then the listings of the directories among its entries by name, links
taken for what they lead to. It is told by paths alone, each of which is followed from its beginning.

The search keeps places and the links that are left instead, and comes to the same: every directory
has exactly one listing, and where all paths on the way can be asked about, the search below the
directory returns it. The induction is along the way from directories to those in them, which is
never endless.
-/
import BuildOrder.Proofs.FileTree.Walk
import BuildOrder.Proofs.Loading.Contained
import Mathlib.Data.List.Forall2
import Mathlib.Data.String.Basic
import Mathlib.Logic.Relation

namespace BuildOrder

open Relation

/-! ## Steps that all succeed -/

section Lists

variable {ε α β : Type}

theorem mapM_eq_ok {f : α → Except ε β} {g : α → β} {l : List α} (h : ∀ x ∈ l, f x = .ok (g x)) :
    l.mapM f = .ok (l.map g) := by
  induction l with
  | nil => rfl
  | cons x l ih =>
    rw [List.forall_mem_cons] at h
    rw [List.mapM_cons, h.1, ih h.2]
    rfl

theorem filterMapM_eq_ok {f : α → Except ε (Option β)} {g : α → Option β} {l : List α}
    (h : ∀ x ∈ l, f x = .ok (g x)) : l.filterMapM f = .ok (l.filterMap g) := by
  induction l with
  | nil => rfl
  | cons x l ih =>
    rw [List.forall_mem_cons] at h
    rw [List.filterMapM_cons, h.1, ih h.2, List.filterMap_cons]
    cases g x <;> rfl

theorem filterMap_ite_some (p : α → Bool) (f : α → β) (l : List α) :
    (l.filterMap fun x => if p x then some (f x) else none) = (l.filter p).map f := by
  induction l with
  | nil => rfl
  | cons x l ih =>
    rw [List.filterMap_cons, List.filter_cons, ih]
    cases p x <;> rfl

theorem flatMap_filter (p : α → Bool) (f : α → List β) (l : List α) :
    (l.filter p).flatMap f = l.flatMap fun x => if p x then f x else [] := by
  induction l with
  | nil => rfl
  | cons x l ih =>
    rw [List.flatMap_cons, ← ih, List.filter_cons]
    split
    · rw [List.flatMap_cons]
    · rfl

end Lists

namespace FileTree

theorem eq_of_directory? {t : FileTree} {path : Path} {d d' : Directory}
    (h : t.directory? path = .ok (some d)) (h' : t.directory? path = .ok (some d')) : d = d' :=
  Option.some.inj (Except.ok.inj (h.symm.trans h'))

/-! ## Listings -/

/-- The build files among the entries of a directory, for some names of entries. -/
def filesAt (t : FileTree) (path : Path) (names : List String) : List Path :=
  (names.filter fun name => BuildFile.isName name && t.isFile (path.child name)).map path.child

/-- The directories among the entries of a directory, for some names of entries. -/
def directoriesAt (t : FileTree) (path : Path) (names : List String) : List Path :=
  (names.map path.child).filter t.isDirectory

/-- The paths of the build files in and below the directory that a path leads to. -/
inductive Listing (t : FileTree) : Path → List Path → Prop
  | intro {path : Path} {d : Directory} {names : List String} {below : Path → List Path}
      (directory : t.directory? path = .ok (some d)) (perm : names.Perm (d.entries.map (·.1)))
      (ordered : names.Pairwise (· < ·))
      (sub : ∀ p ∈ t.directoriesAt path names, Listing t p (below p)) :
      Listing t path (t.filesAt path names ++ (t.directoriesAt path names).flatMap below)

theorem mem_directoriesAt {t : FileTree} {path p : Path} {names : List String} :
    p ∈ t.directoriesAt path names ↔
      ∃ name ∈ names, path.child name = p ∧ ∃ sub, t.directory? p = .ok (some sub) := by
  unfold directoriesAt
  rw [List.mem_filter, List.mem_map, isDirectory_eq_true_iff]
  constructor
  · rintro ⟨⟨name, hn, hp⟩, hsub⟩
    exact ⟨name, hn, hp, hsub⟩
  · rintro ⟨name, hn, hp, hsub⟩
    exact ⟨⟨name, hn, hp⟩, hsub⟩

theorem mem_filesAt {t : FileTree} {path p : Path} {names : List String} :
    p ∈ t.filesAt path names ↔
      ∃ name ∈ names, path.child name = p ∧ BuildFile.isName name = true ∧ t.isFile p = true := by
  unfold filesAt
  simp only [List.mem_map, List.mem_filter, Bool.and_eq_true]
  constructor
  · rintro ⟨name, ⟨hn, hb, hf⟩, rfl⟩
    exact ⟨name, hn, rfl, hb, hf⟩
  · rintro ⟨name, hn, rfl, hb, hf⟩
    exact ⟨name, ⟨hn, hb, hf⟩, rfl⟩

theorem subdirectory_of_mem {t : FileTree} {path p : Path} {d : Directory} {names : List String}
    (h : t.directory? path = .ok (some d)) (hperm : names.Perm (d.entries.map (·.1)))
    (hp : p ∈ t.directoriesAt path names) : t.Subdirectory p path := by
  obtain ⟨name, hn, rfl, sub, hsub⟩ := mem_directoriesAt.1 hp
  obtain ⟨row, hm, rfl⟩ := List.mem_map.1 (hperm.mem_iff.1 hn)
  exact .intro h hm hsub

theorem mem_of_subdirectory {t : FileTree} {path p : Path} {d : Directory} {names : List String}
    (h : t.directory? path = .ok (some d)) (hperm : names.Perm (d.entries.map (·.1)))
    (hp : t.Subdirectory p path) : p ∈ t.directoriesAt path names := by
  obtain ⟨hd, hm, hsub⟩ := hp
  obtain rfl := eq_of_directory? h hd
  exact mem_directoriesAt.2 ⟨_, hperm.mem_iff.2 (List.mem_map_of_mem hm), rfl, _, hsub⟩

theorem map_sorted_perm (entries : Entries) :
    ((sorted entries).map (·.1)).Perm (entries.map (·.1)) := (List.mergeSort_perm entries _).map _

/-- The names of a proper directory in their order. -/
theorem pairwise_names_sorted {entries : Entries} (hn : (entries.map (·.1)).Nodup) :
    ((sorted entries).map (·.1)).Pairwise (· < ·) := by
  have hle : (sorted entries).Pairwise fun a b => decide (a.1 ≤ b.1) = true := by
    refine List.pairwise_mergeSort (fun a b c hab hbc => ?_) (fun a b => ?_) entries
    · exact decide_eq_true (le_trans (of_decide_eq_true hab) (of_decide_eq_true hbc))
    · simpa only [Bool.or_eq_true, decide_eq_true_eq] using le_total a.1 b.1
  have hne : (sorted entries).Pairwise fun a b => a.1 ≠ b.1 :=
    List.pairwise_map.1 ((map_sorted_perm entries).nodup_iff.2 hn)
  exact List.pairwise_map.2 (hle.imp₂ (fun a b hab hne => lt_of_le_of_ne (of_decide_eq_true hab) hne) hne)

theorem nodup_names {t : FileTree} {path : Path} {d : Directory} (ht : t.Proper)
    (h : t.directory? path = .ok (some d)) : (d.entries.map (·.1)).Nodup := by
  cases Entry.Proper.get? ht (directory?_eq_some_iff.1 h).2.2 with
  | directory nodup names below => exact nodup

/-- There is only one order of the entries. -/
theorem names_eq_of_perm {names names' : List String} (hperm : names.Perm names')
    (h : names.Pairwise (· < ·)) (h' : names'.Pairwise (· < ·)) : names = names' :=
  List.Perm.eq_of_pairwise (fun _ _ _ _ hab hba => absurd hba (lt_asymm hab)) h h' hperm

theorem Listing.directory {t : FileTree} {path : Path} {paths : List Path}
    (h : t.Listing path paths) : ∃ d, t.directory? path = .ok (some d) := by
  cases h with
  | @intro _ d names below hd hperm hord hsub => exact ⟨d, hd⟩

/-- A directory has no two listings. -/
theorem Listing.unique {t : FileTree} {path : Path} {paths paths' : List Path}
    (h : t.Listing path paths) (h' : t.Listing path paths') : paths = paths' := by
  induction h generalizing paths' with
  | @intro path d names below hd hperm hord hsub ih =>
    cases h' with
    | @intro _ d' names' below' hd' hperm' hord' hsub' =>
      obtain rfl := eq_of_directory? hd hd'
      obtain rfl := names_eq_of_perm (hperm.trans hperm'.symm) hord hord'
      rw [List.append_cancel_left_eq]
      exact List.flatMap_congr fun p hp => ih p hp (hsub' p hp)

/-- Every directory has a listing. -/
theorem exists_listing {t : FileTree} (ht : t.Proper) {path : Path} {d : Directory}
    (h : t.directory? path = .ok (some d)) : ∃ paths, t.Listing path paths := by
  induction path using (wellFounded_subdirectory ht).induction generalizing d with
  | _ path ih =>
    have hperm := map_sorted_perm d.entries
    have hbelow : ∀ p, ∃ paths, p ∈ t.directoriesAt path ((sorted d.entries).map (·.1)) →
        t.Listing p paths := by
      intro p
      by_cases hp : p ∈ t.directoriesAt path ((sorted d.entries).map (·.1))
      · obtain ⟨-, -, -, sub, hsub⟩ := mem_directoriesAt.1 hp
        obtain ⟨paths, hl⟩ := ih p (subdirectory_of_mem h hperm hp) hsub
        exact ⟨paths, fun _ => hl⟩
      · exact ⟨[], fun hp' => absurd hp' hp⟩
    choose below hbelow using hbelow
    exact ⟨_, .intro h hperm (pairwise_names_sorted (nodup_names ht h)) hbelow⟩

/-! ## What the search returns -/

/-- Every entry that a search below a path comes to can be asked about. -/
def AllAskable (t : FileTree) (root : Path) : Prop :=
  ∀ path d, ReflTransGen t.Subdirectory path root → t.directory? path = .ok (some d) →
    ∀ row ∈ d.entries, t.Askable (path.child row.1)

theorem AllAskable.sub {t : FileTree} {path p : Path} (h : t.AllAskable path)
    (hp : t.Subdirectory p path) : t.AllAskable p :=
  fun q d hq => h q d (hq.tail hp)

theorem map_filesAt (t : FileTree) (path : Path) (entries : Entries) :
    (t.filesAt path (entries.map (·.1))).map Path.normalized = entries.filterMap fun row =>
      if BuildFile.isName row.1 && t.isFile (path.child row.1) then
        some (path.child row.1).normalized else none := by
  unfold filesAt
  rw [filterMap_ite_some (fun row : String × Entry =>
    BuildFile.isName row.1 && t.isFile (path.child row.1)), List.filter_map, List.map_map,
    List.map_map]
  simp only [Function.comp_def]

theorem map_directoriesAt (t : FileTree) (path : Path) (entries : Entries)
    (below : Path → List Path) :
    ((t.directoriesAt path (entries.map (·.1))).flatMap below).map Path.normalized =
      (entries.map fun row => if t.isDirectory (path.child row.1) then
        (below (path.child row.1)).map Path.normalized else []).flatten := by
  unfold directoriesAt
  rw [List.map_flatMap, flatMap_filter, List.flatMap_map, List.flatMap_map, List.flatMap_def]

/-- What the search of a directory makes of an entry with regard to what lies below it. -/
theorem buildFilesIn_eq {t : FileTree} (ht : t.Proper) {path : Path} {d : Directory}
    (hd : t.directory? path = .ok (some d)) {row : String × Entry} (hm : row ∈ d.entries)
    (ha : t.Askable (path.child row.1)) {paths : List Path}
    (hsub : ∀ sub, t.directory? (path.child row.1) = .ok (some sub) →
      t.buildFiles sub.reached.links sub.reached.place (path.child row.1) sub.entries =
        .ok (paths.map Path.normalized)) :
    t.buildFilesIn d.reached.links d.reached.place path row.1 row.2 =
      .ok (if t.isDirectory (path.child row.1) then paths.map Path.normalized else []) := by
  have hadmits := ((answers_iff ht hd hm).2 ha).admits
  unfold buildFilesIn
  cases hat : t.directoryAt? d.reached.links d.reached.place row.1 row.2 with
  | none =>
    have hno : ¬ t.isDirectory (path.child row.1) = true := by
      rw [isDirectory_eq_true_iff]
      rintro ⟨sub, h⟩
      have hsome := ((directory?_child_iff ht hd hm).1 h).2
      rw [hat] at hsome
      cases hsome
    rw [if_neg hno]
  | some sub =>
    have hsome := (directory?_child_iff ht hd hm).2 ⟨hadmits, hat⟩
    rw [if_pos (isDirectory_eq_true_iff.2 ⟨sub, hsome⟩)]
    exact hsub sub hsome

/-- Where all paths on the way can be asked about, the search below a directory returns its
listing. -/
theorem Listing.buildFiles {t : FileTree} (ht : t.Proper) {path : Path} {paths : List Path}
    (h : t.Listing path paths) (ha : t.AllAskable path) {d : Directory}
    (hd : t.directory? path = .ok (some d)) :
    t.buildFiles d.reached.links d.reached.place path d.entries =
      .ok (paths.map Path.normalized) := by
  induction h generalizing d with
  | @intro path d' names below hd' hperm hord hsub ih =>
    obtain rfl := eq_of_directory? hd' hd
    obtain rfl : names = (sorted d'.entries).map (·.1) :=
      names_eq_of_perm (hperm.trans (map_sorted_perm d'.entries).symm) hord
        (pairwise_names_sorted (nodup_names ht hd))
    have hask : ∀ row ∈ sorted d'.entries, t.Askable (path.child row.1) := fun row hm =>
      ha path d' .refl hd row (mem_sorted.1 hm)
    have hfile : ∀ row ∈ sorted d'.entries,
        t.buildFileAt d'.reached.links d'.reached.place path row.1 row.2 =
          .ok (if BuildFile.isName row.1 && t.isFile (path.child row.1) then
            some (path.child row.1).normalized else none) := by
      intro row hm
      have hfound := buildFileAt_of_askable ht hd (mem_sorted.1 hm) (hask row hm)
      exact hfound
    have hfiles := filterMapM_eq_ok hfile
    have hbelow := mapM_eq_ok (l := sorted d'.entries)
      (f := fun row => t.buildFilesIn d'.reached.links d'.reached.place path row.1 row.2)
      (g := fun row => if t.isDirectory (path.child row.1) then
        (below (path.child row.1)).map Path.normalized else []) fun row hm => by
        refine buildFilesIn_eq ht hd (mem_sorted.1 hm) (hask row hm) fun sub hs => ?_
        have hp : path.child row.1 ∈ t.directoriesAt path ((sorted d'.entries).map (·.1)) :=
          mem_directoriesAt.2 ⟨row.1, List.mem_map_of_mem hm, rfl, sub, hs⟩
        exact ih _ hp (ha.sub (subdirectory_of_mem hd hperm hp)) hs
    rw [buildFiles_eq, hfiles, hbelow]
    refine congrArg Except.ok ?_
    rw [List.map_append, map_filesAt, map_directoriesAt]

/-! ## Roots -/

theorem allAskable_iff {t : FileTree} {path : Path} {d : Directory}
    (hd : t.directory? path = .ok (some d)) :
    t.AllAskable path ↔ (∀ row ∈ d.entries, t.Askable (path.child row.1)) ∧
      ∀ p, t.Subdirectory p path → t.AllAskable p := by
  constructor
  · intro ha
    exact ⟨ha path d .refl hd, fun p hp => ha.sub hp⟩
  · rintro ⟨hask, hsub⟩ q d' hq hd'
    rcases ReflTransGen.cases_tail hq with rfl | ⟨p, hqp, hp⟩
    · obtain rfl := eq_of_directory? hd hd'
      exact hask
    · exact hsub p hp q d' hqp hd'

/-- The limits of a search, told by paths alone. -/
theorem withinLimits_iff {t : FileTree} (ht : t.Proper) {path : Path} {d : Directory}
    (hd : t.directory? path = .ok (some d)) :
    t.WithinLimits d.reached.links d.reached.place path d.entries ↔ t.AllAskable path := by
  induction path using (wellFounded_subdirectory ht).induction generalizing d with
  | _ path ih =>
    rw [allAskable_iff hd]
    constructor
    · rintro ⟨hanswers, hbelow⟩
      refine ⟨fun row hm => (answers_iff ht hd hm).1 (hanswers row hm), ?_⟩
      rintro _ ⟨hd', hm, hs⟩
      obtain rfl := eq_of_directory? hd hd'
      refine (ih _ (.intro hd hm hs) hs).1 (hbelow _ hm _ ?_)
      exact ((directory?_child_iff ht hd hm).1 hs).2
    · rintro ⟨hask, hsub⟩
      refine .intro (fun row hm => (answers_iff ht hd hm).2 (hask row hm)) ?_
      intro row hm sub hat
      have hadmits := ((answers_iff ht hd hm).2 (hask row hm)).admits
      have hs := (directory?_child_iff ht hd hm).2 ⟨hadmits, hat⟩
      exact (ih _ (.intro hd hm hs) hs).2 (hsub _ (.intro hd hm hs))

theorem allAskable_of_not_directory {t : FileTree} {path : Path}
    (hd : ¬ ∃ d, t.directory? path = .ok (some d)) : t.AllAskable path := by
  intro q d hq hqd
  rcases ReflTransGen.cases_tail hq with rfl | ⟨p, -, ⟨hpath, -, -⟩⟩
  · exact absurd ⟨d, hqd⟩ hd
  · exact absurd ⟨_, hpath⟩ hd

/-- A root can be searched if it and every entry below it can be asked about. -/
theorem searchable_iff {t : FileTree} (ht : t.Proper) {root : String} :
    t.Searchable root ↔ t.Askable (.ofString root) ∧ t.AllAskable (.ofString root) := by
  have hroot : t.Askable (.ofString root) ↔
      ('\x00' ∉ root.toList → t.resolve (.ofString root) ≠ .error .nameTooLong) :=
    exists_directory?_ok_iff
  rw [hroot]
  constructor
  · rintro ⟨hr, hbelow⟩
    refine ⟨hr, ?_⟩
    by_cases hd : ∃ d, t.directory? (.ofString root) = .ok (some d)
    · obtain ⟨d, hd⟩ := hd
      exact (withinLimits_iff ht hd).1 (hbelow d hd)
    · exact allAskable_of_not_directory hd
  · rintro ⟨hr, ha⟩
    exact ⟨hr, fun d hd => (withinLimits_iff ht hd).2 ha⟩

/-- A root that is a directory gives its listing. -/
theorem filesOf_of_directory {t : FileTree} (ht : t.Proper) {root : String}
    (hs : t.Searchable root) {paths : List Path} (hl : t.Listing (.ofString root) paths) :
    t.filesOf root = paths.map Path.normalized ∧ t.warningsOf root = [] := by
  have ha := ((searchable_iff ht).1 hs).2
  obtain ⟨d, hd⟩ := hl.directory
  have hroot : t.searchRoot root = .ok (some (paths.map Path.normalized)) := by
    unfold searchRoot
    rw [hd]
    dsimp only
    rw [hl.buildFiles ht ha hd]
    rfl
  unfold filesOf warningsOf
  rw [hroot]
  exact ⟨rfl, rfl⟩

/-- A root that is no directory gives a warning. -/
theorem filesOf_of_not_directory {t : FileTree} {root : String} (hs : t.Searchable root)
    (hd : ¬ t.isDirectory (.ofString root) = true) :
    t.filesOf root = [] ∧
      t.warningsOf root = [⟨.warning, "Directory not found: " ++ root, none, .unknown⟩] := by
  rw [isDirectory_eq_true_iff, ← isDirectory_iff] at hd
  have hroot := searchRoot_of_not_isDirectory hs hd
  unfold filesOf warningsOf
  rw [hroot]
  exact ⟨rfl, rfl⟩

theorem exists_listings {t : FileTree} (ht : t.Proper) {roots : List String}
    (hs : ∀ root ∈ roots, t.Searchable root) :
    ∃ listings, List.Forall₂ t.Listing ((roots.map Path.ofString).filter t.isDirectory) listings ∧
      roots.flatMap t.filesOf = listings.flatten.map Path.normalized := by
  induction roots with
  | nil => exact ⟨[], .nil, rfl⟩
  | cons root roots ih =>
    rw [List.forall_mem_cons] at hs
    obtain ⟨listings, hl, hfiles⟩ := ih hs.2
    rw [List.map_cons, List.flatMap_cons, hfiles]
    by_cases hd : t.isDirectory (.ofString root) = true
    · obtain ⟨d, hroot⟩ := isDirectory_eq_true_iff.1 hd
      obtain ⟨paths, hp⟩ := exists_listing ht hroot
      refine ⟨paths :: listings, ?_, ?_⟩
      · rw [List.filter_cons_of_pos hd]
        exact .cons hp hl
      · rw [(filesOf_of_directory ht hs.1 hp).1, List.flatten_cons, List.map_append]
    · refine ⟨listings, ?_, ?_⟩
      · rwa [List.filter_cons_of_neg hd]
      · rw [(filesOf_of_not_directory hs.1 hd).1, List.nil_append]

theorem warningsOf_eq {t : FileTree} (ht : t.Proper) {root : String} (hs : t.Searchable root) :
    t.warningsOf root = if t.isDirectory (.ofString root) then []
      else [⟨.warning, "Directory not found: " ++ root, none, .unknown⟩] := by
  by_cases hd : t.isDirectory (.ofString root) = true
  · obtain ⟨d, hroot⟩ := isDirectory_eq_true_iff.1 hd
    obtain ⟨paths, hp⟩ := exists_listing ht hroot
    rw [if_pos hd, (filesOf_of_directory ht hs hp).2]
  · rw [if_neg hd, (filesOf_of_not_directory hs hd).2]

theorem warnings_roots {t : FileTree} (ht : t.Proper) {roots : List String}
    (hs : ∀ root ∈ roots, t.Searchable root) :
    roots.flatMap t.warningsOf = (roots.filter fun root => !t.isDirectory (.ofString root)).map
      fun root => ⟨.warning, "Directory not found: " ++ root, none, .unknown⟩ := by
  rw [List.map_eq_flatMap, flatMap_filter]
  refine List.flatMap_congr fun root hm => ?_
  rw [warningsOf_eq ht (hs root hm)]
  cases t.isDirectory (.ofString root) <;> rfl

/-- Roots that have been searched: the listings of those that are directories are found, one after
the other, and there is a warning of each that is none. -/
structure Listed (t : FileTree) (roots : List String) (log : Log) (files : List String)
    (log' : Log) : Prop where
  files : ∃ listings, List.Forall₂ t.Listing
      ((roots.map Path.ofString).filter t.isDirectory) listings ∧
    files = listings.flatten.map Path.normalized
  log : log' = log.addAll ((roots.filter fun root => !t.isDirectory (.ofString root)).map
    fun root => ⟨.warning, "Directory not found: " ++ root, none, .unknown⟩)

theorem listed_of_discover {t : FileTree} (ht : t.Proper) {roots files : List String}
    {log log' : Log} (h : t.discover roots log = .ok files log') : t.Listed roots log files log' := by
  have hs := searchable_of_discover h
  rw [discover_of_searchable hs] at h
  cases h
  exact ⟨exists_listings ht hs, by rw [warnings_roots ht hs]⟩

/-- Directories are searched to the end, links in a ring or not, and each has one listing. A search
returns exactly if its roots and all entries below them can be asked about; without a limit on paths
only a link that leads along a name that is too long cannot. What a search returns is the listings of
the roots that are directories, with a warning of each other root. -/
theorem discover_listings {t : FileTree} (ht : t.Proper) :
    WellFounded t.Subdirectory ∧
    (∀ path, t.isDirectory path = true → ∃! paths, t.Listing path paths) ∧
    (∀ roots log, (∃ files log', t.discover roots log = .ok files log') ↔
      ∀ root ∈ roots, t.Askable (.ofString root) ∧ t.AllAskable (.ofString root)) ∧
    (t.pathLimit = none → ∀ path d, t.directory? path = .ok (some d) → ∀ row ∈ d.entries,
      (t.Askable (path.child row.1) ↔ ∀ target, row.2 = .link target →
        t.follow d.reached.links d.reached.place target ≠ .error .nameTooLong)) ∧
    ∀ roots log files log', t.discover roots log = .ok files log' →
      t.Listed roots log files log' := by
  refine ⟨wellFounded_subdirectory ht, fun path hd => ?_, fun roots log => ?_, ?_, ?_⟩
  · obtain ⟨d, hd⟩ := isDirectory_eq_true_iff.1 hd
    obtain ⟨paths, hl⟩ := exists_listing ht hd
    exact ⟨paths, hl, fun paths' hl' => hl'.unique hl⟩
  · rw [exists_discover_iff]
    exact forall₂_congr fun root hm => searchable_iff ht
  · intro hlimit path d hd row hm
    rw [← answers_iff ht hd hm]
    exact ⟨fun h => h.follows, fun h => ⟨admits_of_pathLimit_eq_none hlimit _, h⟩⟩
  · intro roots log files log' h
    exact listed_of_discover ht h

/-- The path of the working directory. -/
theorem directory?_here {t : FileTree} {entries : Entries} (hlimit : t.pathLimit = none)
    (hd : t.get? t.here = some (.directory entries)) :
    t.directory? (.ofString ".") = .ok (some ⟨⟨t.here, maxLinks⟩, entries⟩) := by
  have hpath : Path.ofString "." = ⟨0, []⟩ := by decide
  rw [hpath, directory?_eq_some_iff]
  refine ⟨by decide, ?_, hd⟩
  unfold resolve
  rw [if_pos (admits_of_pathLimit_eq_none hlimit _), walk]
  rfl

/-- A directory with a build file and a link to itself. -/
def ring : FileTree where
  top := .directory [("A.build", .file []), ("again", .link ".")]
  here := []
  pathLimit := none

theorem proper_ring : ring.Proper := by
  refine .directory (by decide) (by decide) ?_
  simp only [List.forall_mem_cons, List.not_mem_nil, false_implies, implies_true, and_true]
  exact ⟨.file _, .link _⟩

theorem follow_dot_ne_nameTooLong (t : FileTree) (links : Nat) (place : List String) :
    t.follow links place "." ≠ .error .nameTooLong := by
  have hstart : linkStart "." place = place := rfl
  have hsteps : linkSteps "." = ["."] := by decide
  unfold follow
  split
  · intro h
    cases h
  · rw [hstart, hsteps, walk]
    split
    · rw [if_pos rfl, walk]
      intro h
      cases h
    · intro h
      cases h

theorem entries_ring {place : List String} {entries : Entries}
    (h : ring.get? place = some (.directory entries)) :
    entries = [("A.build", .file []), ("again", .link ".")] := by
  cases place with
  | nil =>
    cases h
    rfl
  | cons name place =>
    obtain ⟨e, hl, he⟩ := Option.bind_eq_some_iff.1 h
    have hm := Entry.mem_of_lookup hl
    simp only [List.mem_cons, Prod.mk.injEq, List.not_mem_nil, or_false] at hm
    rcases hm with ⟨-, rfl⟩ | ⟨-, rfl⟩ <;> cases place <;> cases he

/-- The paths by which the ring's build file is found, with so many links left. -/
def ringFiles : Nat → Path → List String
  | 0, shown => [(shown.child "A.build").normalized]
  | links + 1, shown =>
    (shown.child "A.build").normalized :: ringFiles links (shown.child "again")

theorem follow_ring : ring.follow 0 [] "." = .error .tooManyLinks ∧
    ∀ links, ring.follow (links + 1) [] "." = .ok ⟨[], links⟩ := by
  refine ⟨rfl, fun links => ?_⟩
  have hsteps : linkSteps "." = ["."] := by decide
  change ring.walk links [] (linkSteps ".") = _
  rw [hsteps, walk]
  change (if "." = "." then ring.walk links [] [] else _) = _
  rw [if_pos rfl, walk]

/-- The search goes round as long as links are left. -/
theorem buildFiles_ring (links : Nat) (shown : Path) :
    ring.buildFiles links [] shown [("A.build", .file []), ("again", .link ".")] =
      .ok (ringFiles links shown) := by
  have hsorted : sorted [("A.build", Entry.file []), ("again", .link ".")] =
      [("A.build", .file []), ("again", .link ".")] := List.mergeSort_of_pairwise (by decide)
  have hnames : BuildFile.isName "A.build" = true ∧ BuildFile.isName "again" = false := by
    decide +kernel
  have hfile : ∀ links (shown : Path), ring.buildFileAt links [] shown "A.build" (.file []) =
      .ok (some (shown.child "A.build").normalized) := fun links shown =>
    buildFileAt_file (admits_of_pathLimit_eq_none rfl _) hnames.1
  have hlink : ∀ links (shown : Path), ring.buildFileAt links [] shown "again" (.link ".") =
      .ok none := by
    intro links shown
    unfold buildFileAt
    dsimp only
    rw [admits_of_pathLimit_eq_none rfl, hnames.2]
    cases links with
    | zero => rfl
    | succ links =>
      rw [follow_ring.2]
      rfl
  induction links generalizing shown with
  | zero =>
    rw [buildFiles_eq, hsorted, List.filterMapM_cons, List.filterMapM_cons]
    dsimp only
    rw [hfile, hlink]
    rfl
  | succ links ih =>
    have hbelow : ring.buildFilesIn (links + 1) [] shown "again" (.link ".") =
        .ok (ringFiles links (shown.child "again")) := by
      unfold buildFilesIn directoryAt?
      dsimp only
      rw [follow_ring.2]
      exact ih (shown.child "again")
    rw [buildFiles_eq, hsorted, List.filterMapM_cons, List.filterMapM_cons, List.mapM_cons,
      List.mapM_cons]
    dsimp only
    rw [hfile, hlink, hbelow]
    show Except.ok ([_] ++ ([] ++ (ringFiles links (shown.child "again") ++ []))) = _
    rw [List.append_nil]
    rfl

theorem searchRoot_ring : ring.searchRoot "." = .ok (some (ringFiles maxLinks (.ofString "."))) := by
  unfold searchRoot
  rw [directory?_here (t := ring) rfl rfl]
  dsimp only
  rw [show ring.here = [] from rfl, buildFiles_ring]
  rfl

theorem ringFiles_eq (links : Nat) (names : List String) :
    ringFiles links ⟨0, names⟩ = (List.range (links + 1)).map fun n =>
      Path.normalized ⟨0, names ++ (List.replicate n "again" ++ ["A.build"])⟩ := by
  induction links generalizing names with
  | zero => rfl
  | succ links ih =>
    have hchild : (Path.mk 0 names).child "again" = ⟨0, names ++ ["again"]⟩ := rfl
    rw [ringFiles, hchild, ih, List.range_succ_eq_map (n := links + 1), List.map_cons,
      List.map_map]
    refine congrArg ((Path.mk 0 (names ++ ["A.build"])).normalized :: ·)
      (List.map_congr_left fun n _ => ?_)
    rw [List.append_assoc]
    rfl

/-- The file is found by forty-one paths, since forty links are followed on the way of one. -/
theorem discover_ring : ring.discover ["."] .empty =
    .ok ((List.range 41).map fun n =>
      Path.normalized ⟨0, List.replicate n "again" ++ ["A.build"]⟩) .empty := by
  have hfiles := ringFiles_eq maxLinks []
  have hroot := searchRoot_ring
  rw [show Path.ofString "." = ⟨0, []⟩ by decide, hfiles] at hroot
  exact discover_singleton hroot .empty

theorem discover_listings_ring : ring.Proper ∧ ∃ files,
    files = ((List.range 41).map fun n =>
      Path.normalized ⟨0, List.replicate n "again" ++ ["A.build"]⟩) ∧
    ring.discover ["."] .empty = .ok files .empty ∧ ring.Listed ["."] .empty files .empty := by
  obtain ⟨-, -, hreturns, hask, hlisted⟩ := discover_listings proper_ring
  have hroot : ring.Askable (.ofString ".") := ⟨_, directory?_here rfl rfl⟩
  have hall : ring.AllAskable (.ofString ".") := by
    intro path d _ hd row hm
    rw [hask rfl path d hd row hm]
    rintro target he
    rw [entries_ring (directory?_eq_some_iff.1 hd).2.2] at hm
    simp only [List.mem_cons, List.not_mem_nil, or_false] at hm
    rcases hm with rfl | rfl
    · cases he
    · cases he
      exact follow_dot_ne_nameTooLong _ _ _
  obtain ⟨files, log', h⟩ := (hreturns ["."] .empty).2 (by simp [hroot, hall])
  have hl := hlisted _ _ _ _ h
  obtain ⟨rfl, rfl⟩ : _ = files ∧ Log.empty = log' :=
    EStateM.Result.ok.inj (discover_ring.symm.trans h)
  exact ⟨proper_ring, _, rfl, discover_ring, hl⟩

/-- A directory with a build file and a link along a name that is too long. -/
def stray : FileTree where
  top := .directory [("A.build", .file []), ("l", .link longName)]
  here := []
  pathLimit := none

theorem proper_stray : stray.Proper := by
  refine .directory (by decide) (by decide) ?_
  simp only [List.forall_mem_cons, List.not_mem_nil, false_implies, implies_true, and_true]
  exact ⟨.file _, .link _⟩

theorem follow_longName_stray : stray.follow maxLinks [] longName = .error .nameTooLong := by
  have hslash : '/' ∉ longName.toList := by simp [longName]
  have hempty : longName ≠ "" := by decide +kernel
  have hsteps : linkSteps longName = [longName] := by
    unfold linkSteps
    rw [if_neg fun hlast => hslash (List.mem_of_getLast? hlast), Text.words_of_not_mem hslash hempty]
  have hstart : linkStart longName [] = [] := ite_self []
  unfold maxLinks follow
  rw [hsteps, hstart]
  exact walk_of_nameTooLong rfl (by decide +kernel) (by decide +kernel) (by decide +kernel)

theorem resolve_stray : stray.resolve ⟨0, ["A.build"]⟩ = .ok ⟨["A.build"], maxLinks⟩ ∧
    stray.resolve ⟨0, ["l"]⟩ = .error .nameTooLong := by
  have hd := directory?_here (t := stray) rfl rfl
  constructor
  · exact resolve_child proper_stray hd (List.mem_cons_self ..)
  · exact (resolve_child proper_stray hd (List.mem_cons_of_mem _ (List.mem_cons_self ..))).trans
      follow_longName_stray

theorem listing_stray : stray.Listing (.ofString ".") [.ofString "A.build"] := by
  obtain ⟨hfile, hlink⟩ := resolve_stray
  have hisFile : stray.isFile ⟨0, ["A.build"]⟩ = true := isFile_of_resolve (by decide) hfile
  have hfiles : stray.filesAt (.ofString ".") ["A.build", "l"] = [.ofString "A.build"] := by
    have hnames : BuildFile.isName "A.build" = true ∧ BuildFile.isName "l" = false := by
      decide +kernel
    have hpath : Path.ofString "." = ⟨0, []⟩ ∧ Path.ofString "A.build" = ⟨0, ["A.build"]⟩ := by
      decide
    rw [hpath.1, hpath.2]
    simp [filesAt, Path.child, hnames, hisFile]
  have hdirs : stray.directoriesAt (.ofString ".") ["A.build", "l"] = [] := by
    rw [List.eq_nil_iff_forall_not_mem]
    intro p hp
    obtain ⟨name, hn, rfl, sub, hsub⟩ := mem_directoriesAt.1 hp
    obtain ⟨-, hr, hg⟩ := directory?_eq_some_iff.1 hsub
    simp only [List.mem_cons, List.not_mem_nil, or_false] at hn
    rcases hn with rfl | rfl
    · rw [← Except.ok.inj (hfile.symm.trans hr)] at hg
      cases hg
    · cases hlink.symm.trans hr
  have hbelow : ∀ p ∈ stray.directoriesAt (.ofString ".") ["A.build", "l"], stray.Listing p [] := by
    rw [hdirs]
    exact List.forall_mem_nil _
  have hl := Listing.intro (directory?_here (t := stray) rfl rfl) (.refl ["A.build", "l"])
    (by decide) hbelow
  rwa [hfiles, hdirs] at hl

theorem searchRoot_stray : stray.searchRoot "." = .error ⟨.nameTooLong, "l"⟩ := by
  have hsorted : sorted [("A.build", Entry.file []), ("l", .link longName)] =
      [("A.build", .file []), ("l", .link longName)] :=
    List.mergeSort_of_pairwise (by decide)
  have hfound : stray.buildFileAt maxLinks stray.here (.ofString ".") "A.build" (.file []) =
      .ok (some "A.build") := rfl
  have hfault : stray.buildFileAt maxLinks stray.here (.ofString ".") "l" (.link longName) =
      .error ⟨.nameTooLong, "l"⟩ := by
    have hshown : ((Path.ofString ".").child "l").toString = "l" := by decide
    have hfollow : stray.follow maxLinks stray.here longName = .error .nameTooLong :=
      follow_longName_stray
    unfold buildFileAt
    dsimp only
    rw [admits_of_pathLimit_eq_none rfl, hshown, hfollow]
    rfl
  unfold searchRoot
  rw [directory?_here (t := stray) rfl rfl]
  dsimp only
  rw [buildFiles_eq, hsorted, List.filterMapM_cons, List.filterMapM_cons]
  dsimp only
  rw [hfound, hfault]
  rfl

/-- A single link along a name that is too long keeps a search from returning the listing. -/
theorem discover_stray :
    stray.Listing (.ofString ".") [.ofString "A.build"] ∧
      stray.discover ["."] .empty = .error (.system ⟨.nameTooLong, "l"⟩) .empty := by
  refine ⟨listing_stray, ?_⟩
  rw [discover_cons, searchRoot_stray]

end FileTree

end BuildOrder
