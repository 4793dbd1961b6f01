/-
Failures stay with what they concern. A root or a file that is no good is reported and left out, and
what its siblings give is the same as without it.

There are two ways out of this, and they are exact: a root below which a path is too long to be
asked about, and a file whose path holds the null character, are refused and end the work.
-/
import BuildOrder.Proofs.Discovery
import BuildOrder.Proofs.Loading.Schedules

namespace BuildOrder

namespace FileTree

/-! ## Each file by itself -/

theorem loadModule_of_null {path : String} (t : FileTree) (h : '\x00' ∈ path.toList) :
    t.loadModule path = .error .nullInPath := by
  have hr : t.read (.ofString path) = .error .nullInPath :=
    if_pos (Path.null_mem_toString_iff.2 h)
  unfold loadModule
  rw [hr]
  rfl

theorem exists_resultOf_iff {t : FileTree} {path : String} :
    (∃ result, t.resultOf path = .ok result) ↔ '\x00' ∉ path.toList := by
  unfold resultOf
  constructor
  · rintro ⟨result, h⟩ hnull
    rw [t.loadModule_of_null hnull] at h
    cases h
  · intro hnull
    rcases t.loadModule_cases hnull with ⟨m, h, -⟩ | ⟨d, h, -⟩ <;> rw [h] <;> exact ⟨_, rfl⟩

/-- A file that gives a module has nothing said of it, and a file that gives none has one error. -/
theorem resultOf_saidOf {t : FileTree} {path : String} {result : Option Module}
    (h : t.resultOf path = .ok result) :
    (∃ m, result = some m ∧ t.saidOf path = []) ∨
      result = none ∧ ∃ d, t.saidOf path = [d] ∧ d.severity = .error := by
  unfold resultOf at h
  unfold saidOf
  cases hl : t.loadModule path with
  | error refusal =>
    rw [hl] at h
    cases h
  | ok outcome =>
    rw [hl] at h
    cases outcome with
    | ok m =>
      cases h
      exact .inl ⟨m, rfl, rfl⟩
    | error d =>
      cases h
      exact .inr ⟨rfl, d, rfl, of_decide_eq_true (isError_of_loadModule hl)⟩

/-! ## All files -/

theorem refusal_loadEach_eq_none_iff {t : FileTree} {files : List String} :
    (t.loadEach files).refusal = none ↔ ∀ path ∈ files, '\x00' ∉ path.toList := by
  induction files with
  | nil => exact ⟨fun _ => List.forall_mem_nil _, fun _ => rfl⟩
  | cons path files ih =>
    unfold loadEach
    rw [List.forall_mem_cons, ← ih]
    by_cases hnull : '\x00' ∈ path.toList
    · rw [t.loadModule_of_null hnull]
      exact ⟨fun h => (by cases h), fun h => absurd hnull h.1⟩
    · rw [and_iff_right hnull]
      rcases t.loadModule_cases hnull with ⟨m, h, -⟩ | ⟨d, h, -⟩ <;> rw [h]

theorem loaded_loadEach (t : FileTree) (files : List String) :
    (t.loadEach files).loaded = files.filterMap fun path => (t.moduleOf? path).map (path, ·) := by
  induction files with
  | nil => rfl
  | cons path files ih =>
    unfold loadEach
    rw [List.filterMap_cons, ← ih]
    unfold moduleOf?
    rcases t.loadModule path with refusal | d | m <;> rfl

/-- The files that give a module. -/
def good (t : FileTree) (files : List String) : List String :=
  files.filter fun path => (t.moduleOf? path).isSome

theorem loaded_loadEach_good (t : FileTree) (files : List String) :
    (t.loadEach (t.good files)).loaded = (t.loadEach files).loaded := by
  rw [loaded_loadEach, loaded_loadEach]
  unfold good
  rw [List.filterMap_filter]
  refine congrArg (List.filterMap · files) (funext fun path => ?_)
  cases t.moduleOf? path <;> rfl

theorem loadModule_of_mem_good {t : FileTree} {files : List String} {path : String}
    (h : path ∈ t.good files) : ∃ m, t.loadModule path = .ok (.ok m) := by
  have hsome := (List.mem_filter.1 h).2
  unfold moduleOf? at hsome
  rcases hl : t.loadModule path with refusal | d | m
  · rw [hl] at hsome
    cases hsome
  · rw [hl] at hsome
    cases hsome
  · exact ⟨m, rfl⟩

theorem errors_loadEach_good (t : FileTree) (files : List String) :
    (t.loadEach (t.good files)).errors = [] := by
  rw [errors_loadEach, List.flatMap_eq_nil_iff]
  intro path hm
  obtain ⟨m, hl⟩ := loadModule_of_mem_good hm
  unfold saidOf
  rw [hl]

theorem refusal_loadEach_good (t : FileTree) (files : List String) :
    (t.loadEach (t.good files)).refusal = none := by
  refine refusal_loadEach_eq_none_iff.2 fun path hm hnull => ?_
  obtain ⟨m, hl⟩ := loadModule_of_mem_good hm
  rw [t.loadModule_of_null hnull] at hl
  cases hl

theorem exists_loadAll_iff {t : FileTree} {files : List String} {workers : Option Int} {log : Log} :
    (∃ c log', t.loadAll files workers log = .ok c log') ↔
      (∀ n ∈ workers, 1 ≤ n) ∧ ∀ path ∈ files, '\x00' ∉ path.toList := by
  rw [← refusal_loadEach_eq_none_iff (t := t)]
  constructor
  · rintro ⟨c, log', h⟩
    have hworkers : ∀ n ∈ workers, 1 ≤ n := by
      rintro n rfl
      by_cases hn : n ≤ 0
      · have hno : t.loadAll files (some n) log = .error .noWorkers log := if_pos hn
        rw [hno] at h
        cases h
      · omega
    refine ⟨hworkers, ?_⟩
    rw [t.loadAll_of_pos files hworkers] at h
    split at h
    · cases h
    · assumption
  · rintro ⟨hworkers, hr⟩
    rw [t.loadAll_of_pos files hworkers, hr]
    exact ⟨_, _, rfl⟩

/-- Without the files that give no module the same modules are loaded, and only what is said of
those files is missing in the log. -/
theorem loadAll_good {t : FileTree} {files : List String} {workers : Option Int} {log log' : Log}
    {c : Catalog} (h : t.loadAll files workers log = .ok c log') :
    ∃ duplicates, log' = log.addAll (files.flatMap t.saidOf ++ duplicates) ∧
      t.loadAll (t.good files) workers log = .ok c (log.addAll duplicates) := by
  obtain ⟨hworkers, hnull⟩ := exists_loadAll_iff.1 ⟨c, log', h⟩
  have hr := (refusal_loadEach_eq_none_iff (t := t)).2 hnull
  rw [t.loadAll_of_pos files hworkers, hr] at h
  -- both merge the same modules, and only the errors of single files differ
  rw [t.loadAll_of_pos _ hworkers, refusal_loadEach_good, errors_loadEach_good,
    loaded_loadEach_good, Log.addAll_nil]
  cases h
  exact ⟨_, by rw [Log.addAll_addAll, errors_loadEach], rfl⟩

/-! ## What is contained, and what is not -/

/-- Roots that have been searched: each by itself, where one that is no directory gives a warning
and no file. -/
structure Found (t : FileTree) (roots : List String) (log : Log) (files : List String)
    (log' : Log) : Prop where
  files : files = roots.flatMap t.filesOf
  log : log' = log.addAll (roots.flatMap t.warningsOf)
  directory : ∀ root ∈ roots, t.IsDirectory root → t.warningsOf root = []
  missing : ∀ root ∈ roots, ¬ t.IsDirectory root → t.filesOf root = [] ∧
    t.warningsOf root = [⟨.warning, "Directory not found: " ++ root, none, .unknown⟩]

theorem found_of_discover {t : FileTree} {roots files : List String} {log log' : Log}
    (h : t.discover roots log = .ok files log') : t.Found roots log files log' := by
  have hs := searchable_of_discover h
  rw [discover_of_searchable hs] at h
  cases h
  refine ⟨rfl, rfl, fun root hm hd => ?_, fun root hm hd => ?_⟩
  · obtain ⟨files, hfiles⟩ := searchRoot_of_isDirectory (hs root hm) hd
    unfold warningsOf
    rw [hfiles]
  · have hnone := searchRoot_of_not_isDirectory (hs root hm) hd
    unfold filesOf warningsOf
    rw [hnone]
    exact ⟨rfl, rfl⟩

/-- A search of roots ends with a list exactly if all of them can be searched, and then each root
gives what it gives by itself. A file is loaded or reported with one error exactly if its path has no
null character. Files are loaded together exactly if there are workers and this holds of each path;
then the files that give no module are reported, and the others give the same catalog, with the same
duplicates, as without them. -/
theorem failures_contained (t : FileTree) :
    (∀ roots log, (∃ files log', t.discover roots log = .ok files log') ↔
      ∀ root ∈ roots, t.Searchable root) ∧
    (∀ roots log files log', t.discover roots log = .ok files log' →
      t.Found roots log files log') ∧
    (∀ path, (∃ result, t.resultOf path = .ok result) ↔ '\x00' ∉ path.toList) ∧
    (∀ path result, t.resultOf path = .ok result →
      (∃ m, result = some m ∧ t.saidOf path = []) ∨
        result = none ∧ ∃ d, t.saidOf path = [d] ∧ d.severity = .error) ∧
    (∀ files workers log, (∃ c log', t.loadAll files workers log = .ok c log') ↔
      (∀ n ∈ workers, 1 ≤ n) ∧ ∀ path ∈ files, '\x00' ∉ path.toList) ∧
    ∀ files workers log c log', t.loadAll files workers log = .ok c log' →
      ∃ duplicates, log' = log.addAll (files.flatMap t.saidOf ++ duplicates) ∧
        t.loadAll (t.good files) workers log = .ok c (log.addAll duplicates) := by
  refine ⟨?_, ?_, ?_, ?_, ?_, ?_⟩
  · intro roots log
    exact exists_discover_iff
  · intro roots log files log' h
    exact found_of_discover h
  · intro path
    exact exists_resultOf_iff
  · intro path result h
    exact resultOf_saidOf h
  · intro files workers log
    exact exists_loadAll_iff
  · intro files workers log c log' h
    exact loadAll_good h

/-- A name of one byte more than is allowed. -/
def longName : String := .ofList (List.replicate (maxNameBytes + 1) 'y')

theorem walk_of_nameTooLong {t : FileTree} {links : Nat} {place steps : List String} {name : String}
    {entries : Entries} (hd : t.get? place = some (.directory entries)) (hdot : name ≠ ".")
    (hdots : name ≠ "..") (hname : maxNameBytes < name.utf8ByteSize) :
    t.walk links place (name :: steps) = .error .nameTooLong := by
  rw [walk, hd]
  dsimp only
  rw [if_neg hdot, if_neg hdots, if_pos hname]

theorem searchRoot_of_nameTooLong {t : FileTree} {root : String} (hnull : '\x00' ∉ root.toList)
    (hr : t.resolve (.ofString root) = .error .nameTooLong) :
    t.searchRoot root = .error ⟨.nameTooLong, (Path.ofString root).toString⟩ := by
  unfold searchRoot directory?
  rw [if_neg (mt Path.null_mem_toString_iff.1 hnull), hr]

theorem searchRoot_longName : (empty []).searchRoot longName = .error ⟨.nameTooLong, longName⟩ := by
  have htext : longName.toList = List.replicate (maxNameBytes + 1) 'y' := String.toList_ofList ..
  have hnull : '\x00' ∉ longName.toList := by simp [htext]
  have hslash : '/' ∉ longName.toList := by simp [htext]
  have hdot : longName ≠ "." := by decide +kernel
  have hlong : maxNameBytes < longName.utf8ByteSize := by decide +kernel
  have hpath := Path.ofString_name hslash (by decide +kernel) hdot
  have hshort : (empty []).admits (.ofString longName) = true := by
    unfold admits
    rw [hpath, Path.toString_name]
    decide +kernel
  have hresolve : (empty []).resolve (.ofString longName) = .error .nameTooLong := by
    unfold resolve
    rw [if_pos hshort, hpath]
    exact walk_of_nameTooLong rfl hdot (by decide +kernel) hlong
  have hsearch := searchRoot_of_nameTooLong hnull hresolve
  rwa [hpath, Path.toString_name] at hsearch

/-- A file whose path has a null character and a root whose name is too long are refused, also in a
tree that holds nothing. -/
theorem failures_escape :
    (empty []).resultOf "a\x00.build" = .error .nullInPath ∧
      (empty []).loadAll ["a\x00.build"] none .empty = .error .nullInPath .empty ∧
      (empty []).discover [longName] .empty = .error (.system ⟨.nameTooLong, longName⟩) .empty := by
  have hload : (empty []).loadModule "a\x00.build" = .error .nullInPath :=
    loadModule_of_null _ (by decide)
  refine ⟨?_, ?_, ?_⟩
  · unfold resultOf
    rw [hload]
    rfl
  · rw [loadAll_of_pos _ _ (by rintro n ⟨⟩)]
    unfold loadEach
    rw [hload]
    rfl
  · rw [discover_cons, searchRoot_longName]

end FileTree

end BuildOrder
