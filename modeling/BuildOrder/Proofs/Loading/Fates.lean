/-
What becomes of each file when files are loaded one behind the other. A file that gives no module by
itself is reported with what is wrong in it; a file that gives one is kept if it is the first of its
name among the files that give one, and is reported as a duplicate of that first file otherwise.

The main statement is that loading does exactly this: the catalog has the modules of the files that
are kept, in the order of the files, and the log gets one error for each other file. The induction
over the files is carried by what a merge remembers: the origin of a name is the first file of that
name.
-/
import BuildOrder.Proofs.FileTree.Walk
import BuildOrder.Proofs.Loading
import BuildOrder.Proofs.Path
import Mathlib.Data.List.Basic

namespace BuildOrder

/-! ## Each file by itself -/

namespace Module

theorem name_assign (m : Module) (p : Property Node) : (m.assign p).name = m.name := by
  unfold assign
  split <;> rfl

theorem name_foldl_assign (ps : List (Property Node)) (m : Module) :
    (ps.foldl assign m).name = m.name := by
  induction ps generalizing m with
  | nil => rfl
  | cons p ps ih => rw [List.foldl_cons, ih, name_assign]

/-- The text of a file has no say in the name of its module. -/
theorem name_ofSource {name directory source : String} {m : Module}
    (h : ofSource name directory source = .ok m) : m.name = name := by
  unfold ofSource at h
  cases hb : ModuleBlock.ofSource source with
  | error f => rw [hb] at h; cases h
  | ok b =>
    rw [hb] at h
    cases h
    exact name_foldl_assign b.properties _

end Module

namespace FileTree

/-- What a file is reported with that gives no module by itself. -/
inductive Fails (t : FileTree) (path : String) : Diagnostic → Prop
  | unread {e : SystemFault} (hr : t.read (.ofString path) = .ok (.error e)) :
      Fails t path ⟨.error, s!"Failed to read {path}: {e.render}", none, .unknown⟩
  | undecoded {bytes : List UInt8} {e : Text.Utf8.Fault}
      (hr : t.read (.ofString path) = .ok (.ok bytes)) (hd : Text.decodeFile bytes = .error e) :
      Fails t path ⟨.error, s!"Failed to read {path}: {e.render}", none, .unknown⟩
  | faulty {bytes : List UInt8} {source : String} {f : Fault}
      (hr : t.read (.ofString path) = .ok (.ok bytes)) (hd : Text.decodeFile bytes = .ok source)
      (hs : Module.ofSource (BuildFile.moduleName path) (BuildFile.moduleDirectory path) source =
        .error f) : Fails t path (.ofFault (f.withPath path))

/-- A file gives a module by itself: it is read, decoded and parsed to it. -/
inductive Gives (t : FileTree) (path : String) : Module → Prop
  | parsed {bytes : List UInt8} {source : String} {m : Module}
      (hr : t.read (.ofString path) = .ok (.ok bytes)) (hd : Text.decodeFile bytes = .ok source)
      (hs : Module.ofSource (BuildFile.moduleName path) (BuildFile.moduleDirectory path) source =
        .ok m) : Gives t path m

theorem exists_read {path : String} (t : FileTree) (h : '\x00' ∉ path.toList) :
    ∃ content, t.read (.ofString path) = .ok content := by
  unfold read
  rw [if_neg (Path.null_not_mem_toString h)]
  split
  · exact ⟨_, rfl⟩
  · split <;> exact ⟨_, rfl⟩

theorem Fails.loadModule {t : FileTree} {path : String} {d : Diagnostic} (h : t.Fails path d) :
    t.loadModule path = .ok (.error d) := by
  unfold FileTree.loadModule
  cases h with
  | unread hr => simp only [hr, bind, Except.bind, pure, Except.pure]
  | undecoded hr hd => simp only [hr, hd, bind, Except.bind, pure, Except.pure]
  | faulty hr hd hs => simp only [hr, hd, hs, bind, Except.bind, pure, Except.pure]

theorem Gives.loadModule {t : FileTree} {path : String} {m : Module} (h : t.Gives path m) :
    t.loadModule path = .ok (.ok m) := by
  unfold FileTree.loadModule
  cases h with
  | parsed hr hd hs => simp only [hr, hd, hs, bind, Except.bind, pure, Except.pure]

theorem Gives.name_eq {t : FileTree} {path : String} {m : Module} (h : t.Gives path m) :
    m.name = BuildFile.moduleName path := by
  cases h with
  | parsed _ _ hs => exact Module.name_ofSource hs

theorem gives_of_loadModule {t : FileTree} {path : String} {m : Module}
    (h : t.loadModule path = .ok (.ok m)) : t.Gives path m := by
  unfold FileTree.loadModule at h
  cases hr : t.read (.ofString path) with
  | error refusal =>
    simp only [hr, bind, Except.bind] at h
    cases h
  | ok content =>
    simp only [hr, bind, Except.bind, pure, Except.pure] at h
    split at h
    · cases h
    · split at h
      · cases h
      · rename_i hd
        split at h
        · cases h
        · rename_i hs
          cases h
          exact .parsed hr hd hs

/-- A file gives a module, or it fails. -/
theorem loadModule_cases {path : String} (t : FileTree) (h : '\x00' ∉ path.toList) :
    (∃ m, t.loadModule path = .ok (.ok m) ∧ t.Gives path m) ∨
      ∃ d, t.loadModule path = .ok (.error d) ∧ t.Fails path d := by
  obtain ⟨content, hr⟩ := t.exists_read h
  unfold loadModule
  simp only [hr, bind, Except.bind, pure, Except.pure]
  split
  · exact .inr ⟨_, rfl, .unread hr⟩
  · split
    · rename_i hd
      exact .inr ⟨_, rfl, .undecoded hr hd⟩
    · rename_i hd
      split
      · rename_i hs
        exact .inr ⟨_, rfl, .faulty hr hd hs⟩
      · rename_i hs
        exact .inl ⟨_, rfl, .parsed hr hd hs⟩

/-- The module that a file gives by itself, if it gives one. -/
def moduleOf? (t : FileTree) (path : String) : Option Module :=
  match t.loadModule path with
  | .ok (.ok m) => some m
  | _ => none

theorem moduleOf?_eq_some_iff {t : FileTree} {path : String} {m : Module} :
    t.moduleOf? path = some m ↔ t.Gives path m := by
  constructor
  · intro h
    unfold moduleOf? at h
    split at h
    · rename_i hl
      cases h
      exact gives_of_loadModule hl
    · cases h
  · intro h
    unfold moduleOf?
    rw [h.loadModule]

theorem moduleOf?_of_error {t : FileTree} {path : String} {d : Diagnostic}
    (h : t.loadModule path = .ok (.error d)) : t.moduleOf? path = none := by
  unfold moduleOf?
  rw [h]

/-- The first of some files that gives a module of this name. -/
def firstOf? (t : FileTree) (files : List String) (name : String) : Option String :=
  files.find? fun path => (t.moduleOf? path).isSome && BuildFile.moduleName path = name

theorem firstOf?_concat_of_none {t : FileTree} {path : String} (h : t.moduleOf? path = none)
    (before : List String) (name : String) :
    t.firstOf? (before ++ [path]) name = t.firstOf? before name := by
  unfold firstOf?
  rw [List.find?_append, List.find?_singleton]
  simp [h]

theorem firstOf?_concat_of_some {t : FileTree} {path : String} {m : Module}
    (h : t.moduleOf? path = some m) (before : List String) (name : String) :
    t.firstOf? (before ++ [path]) name =
      (t.firstOf? before name).or (if name = BuildFile.moduleName path then some path else none) := by
  unfold firstOf?
  rw [List.find?_append, List.find?_singleton]
  simp [h, eq_comm]

end FileTree

/-! ## Fates -/

/-- What can become of a file. -/
inductive Fate where
  | kept (module : Module)
  | failed (error : Diagnostic)
  | dropped (duplicate : Fault)

namespace Fate

def kept? : Fate → Option Module
  | kept m => some m
  | _ => none

def failed? : Fate → Option Diagnostic
  | failed d => some d
  | _ => none

def dropped? : Fate → Option Fault
  | dropped f => some f
  | _ => none

end Fate

namespace FileTree

/-- The fate of a file that is loaded behind others. -/
inductive HasFate (t : FileTree) (before : List String) (path : String) : Fate → Prop
  | kept {m : Module} (hm : t.Gives path m) (hname : m.name = BuildFile.moduleName path)
      (hfirst : t.firstOf? before (BuildFile.moduleName path) = none) :
      HasFate t before path (.kept m)
  | failed {d : Diagnostic} (h : t.Fails path d) : HasFate t before path (.failed d)
  | dropped {m : Module} {first : String} (hm : t.Gives path m)
      (hfirst : t.firstOf? before (BuildFile.moduleName path) = some first) :
      HasFate t before path (.dropped (.duplicate (BuildFile.moduleName path) first path))

/-- The fates of files that are loaded one behind the other, and behind some others. -/
inductive Fates (t : FileTree) : List String → List String → List Fate → Prop
  | nil {before : List String} : Fates t before [] []
  | cons {before files : List String} {path : String} {fate : Fate} {fates : List Fate}
      (h : t.HasFate before path fate) (hs : t.Fates (before ++ [path]) files fates) :
      Fates t before (path :: files) (fate :: fates)

variable {t : FileTree} {before files : List String} {path : String}

theorem Gives.unique {m m' : Module} (h : t.Gives path m) (h' : t.Gives path m') : m = m' := by
  have heq := h.loadModule.symm.trans h'.loadModule
  cases heq
  rfl

theorem Fails.not_gives {d : Diagnostic} {m : Module} (h : t.Fails path d) : ¬ t.Gives path m := by
  intro h'
  have heq := h.loadModule.symm.trans h'.loadModule
  cases heq

/-- A file has one fate: it is not kept and reported, and not reported twice. -/
theorem HasFate.unique {fate fate' : Fate} (h : t.HasFate before path fate)
    (h' : t.HasFate before path fate') : fate = fate' := by
  cases h with
  | kept hm _ hfirst =>
    cases h' with
    | kept hm' => rw [hm.unique hm']
    | failed hd => exact absurd hm hd.not_gives
    | dropped _ hfirst' => rw [hfirst] at hfirst'; cases hfirst'
  | failed hd =>
    cases h' with
    | kept hm => exact absurd hm hd.not_gives
    | failed hd' =>
      have he := hd.loadModule.symm.trans hd'.loadModule
      cases he
      rfl
    | dropped hm => exact absurd hm hd.not_gives
  | dropped hm hfirst =>
    cases h' with
    | kept _ _ hfirst' => rw [hfirst] at hfirst'; cases hfirst'
    | failed hd => exact absurd hm hd.not_gives
    | dropped _ hfirst' => rw [hfirst] at hfirst'; cases hfirst'; rfl

theorem Fates.unique {fates fates' : List Fate} (h : t.Fates before files fates)
    (h' : t.Fates before files fates') : fates = fates' := by
  induction h generalizing fates' with
  | nil => cases h'; rfl
  | cons hf _ ih =>
    cases h' with
    | cons hf' hs' => rw [hf.unique hf', ih hs']

end FileTree

/-! ## Putting the modules together -/

/-- The rows of modules under their own names. -/
def Catalog.rowsOf (modules : List Module) : List (String × Module) :=
  modules.map fun m => (m.name, m)

/-- The state of a merge behind some files: the origin of a name is the first file that gives a
module of that name. -/
structure Merge.Follows (m : Merge) (t : FileTree) (before : List String) : Prop where
  accounts : ∃ n, m.Accounts n
  origins : ∀ name, m.origins.lookup name = t.firstOf? before name

namespace Merge

variable {m : Merge} {t : FileTree} {before : List String} {path : String} {module : Module}

theorem follows_empty (t : FileTree) : Follows {} t [] where
  accounts := ⟨0, accounts_empty⟩
  origins _ := rfl

theorem Follows.failed (h : m.Follows t before) (hm : t.moduleOf? path = none) :
    m.Follows t (before ++ [path]) where
  accounts := h.accounts
  origins name := by rw [h.origins, FileTree.firstOf?_concat_of_none hm]

/-- A file whose name has a first file already is reported with it. -/
theorem Follows.dropped (h : m.Follows t before) (hm : t.moduleOf? path = some module)
    (hname : module.name = BuildFile.moduleName path) {first : String}
    (hfirst : t.firstOf? before (BuildFile.moduleName path) = some first) :
    m.add path module = { m with duplicates :=
      m.duplicates ++ [.duplicate (BuildFile.moduleName path) first path] } ∧
    (m.add path module).Follows t (before ++ [path]) := by
  have hadd : m.add path module = { m with duplicates :=
      m.duplicates ++ [.duplicate (BuildFile.moduleName path) first path] } := by
    unfold add
    rw [h.origins, hname, hfirst]
  obtain ⟨n, ha⟩ := h.accounts
  refine ⟨hadd, ⟨n + 1, ha.add path module⟩, fun name => ?_⟩
  rw [FileTree.firstOf?_concat_of_some hm, hadd, h.origins]
  split
  · rename_i hn
    rw [hn, hfirst]
    rfl
  · rw [Option.or_none]

/-- The first file of a name gives the catalog its module. -/
theorem Follows.kept (h : m.Follows t before) (hm : t.moduleOf? path = some module)
    (hname : module.name = BuildFile.moduleName path)
    (hfirst : t.firstOf? before (BuildFile.moduleName path) = none) :
    (m.add path module).catalog.rows = m.catalog.rows ++ [(module.name, module)] ∧
    (m.add path module).duplicates = m.duplicates ∧
    (m.add path module).Follows t (before ++ [path]) := by
  obtain ⟨n, ha⟩ := h.accounts
  have hlookup : m.origins.lookup module.name = none := by rw [h.origins, hname, hfirst]
  have hadd : m.add path module = { m with
      catalog := m.catalog.insert module.name module
      origins := m.origins ++ [(module.name, path)] } := by
    unfold add
    rw [hlookup]
  refine ⟨?_, by rw [hadd], ⟨n + 1, ha.add path module⟩, fun name => ?_⟩
  · rw [hadd]
    exact Catalog.rows_insert (ha.not_mem_names hlookup) module
  · rw [FileTree.firstOf?_concat_of_some hm, hadd, List.lookup_append, h.origins, hname,
      List.lookup_cons]
    by_cases hn : name = BuildFile.moduleName path
    · simp [hn]
    · rw [if_neg hn, beq_eq_false_iff_ne.2 hn]
      rfl

end Merge

namespace FileTree

/-- Loading files behind others: each meets its fate, the modules that are kept join the catalog, and
the duplicates join the others, both in the order of the files. -/
theorem exists_fates {t : FileTree} {files before : List String}
    (hfiles : ∀ path ∈ files, '\x00' ∉ path.toList) {m : Merge} (h : m.Follows t before) :
    ∃ fates, t.Fates before files fates ∧ (t.loadEach files).refusal = none ∧
      (t.loadEach files).errors = fates.filterMap Fate.failed? ∧
      ((t.loadEach files).loaded.foldl (fun m file => m.add file.1 file.2) m).catalog.rows =
        m.catalog.rows ++ Catalog.rowsOf (fates.filterMap Fate.kept?) ∧
      ((t.loadEach files).loaded.foldl (fun m file => m.add file.1 file.2) m).duplicates =
        m.duplicates ++ fates.filterMap Fate.dropped? := by
  -- a file that has met its fate is one of those before, and the merge goes on from there
  induction files generalizing before m with
  | nil => exact ⟨[], .nil, rfl, rfl, (List.append_nil _).symm, (List.append_nil _).symm⟩
  | cons path files ih =>
    rw [List.forall_mem_cons] at hfiles
    unfold loadEach
    rcases t.loadModule_cases hfiles.1 with ⟨module, hl, hgives⟩ | ⟨d, hl, hd⟩
    · have hm := moduleOf?_eq_some_iff.2 hgives
      have hname := hgives.name_eq
      simp only [hl, List.foldl_cons]
      cases hfirst : t.firstOf? before (BuildFile.moduleName path) with
      | none =>
        obtain ⟨hrows, hdup, h'⟩ := h.kept hm hname hfirst
        obtain ⟨fates, hs, hr, he, hc, hd⟩ := ih hfiles.2 h'
        refine ⟨_, .cons (.kept hgives hname hfirst) hs, hr, he, ?_, ?_⟩
        · rw [hc, hrows, List.append_assoc]
          rfl
        · rw [hd, hdup]
          rfl
      | some first =>
        obtain ⟨hadd, h'⟩ := h.dropped hm hname hfirst
        obtain ⟨fates, hs, hr, he, hc, hd⟩ := ih hfiles.2 h'
        refine ⟨_, .cons (.dropped hgives hfirst) hs, hr, he, ?_, ?_⟩
        · rw [hc, hadd]
          rfl
        · rw [hd, hadd, List.append_assoc]
          rfl
    · simp only [hl]
      obtain ⟨fates, hs, hr, he, hc, hd'⟩ := ih hfiles.2 (h.failed (moduleOf?_of_error hl))
      refine ⟨_, .cons (.failed hd) hs, hr, ?_, hc, hd'⟩
      rw [he]
      rfl

/-- Files whose paths have no null character are loaded, whatever they hold. Each meets its fate: the
catalog has the modules of the files that are kept, in the order of the files and under their own
names, and the log gets one error for each other file and nothing else. -/
theorem loadAll_fates {files : List String} {workers : Option Int}
    (hfiles : ∀ path ∈ files, '\x00' ∉ path.toList) (hworkers : ∀ n ∈ workers, 1 ≤ n)
    (t : FileTree) (log : Log) :
    ∃ c new fates, t.loadAll files workers log = .ok c (log.addAll new) ∧ t.Fates [] files fates ∧
      c.rows = Catalog.rowsOf (fates.filterMap Fate.kept?) ∧
      new = fates.filterMap Fate.failed? ++ (fates.filterMap Fate.dropped?).map .ofFault ∧
      (∀ d ∈ new, d.severity = .error) ∧ c.size + new.length = files.length := by
  obtain ⟨fates, hs, hr, he, hc, hd⟩ := exists_fates hfiles (Merge.follows_empty t)
  have hload := t.loadAll_of_pos files hworkers log
  rw [hr] at hload
  -- what the log gets is what the accounts count
  obtain ⟨-, new, hnew, herr, hcount⟩ := loadAll_accounts hload
  rw [Log.addAll_addAll] at hload hnew
  rw [Log.entries_addAll, List.append_cancel_left_eq] at hnew
  rw [hnew] at hload
  refine ⟨_, new, fates, hload, hs, hc, ?_, fun d hd => ?_, hcount⟩
  · rw [← hnew, he]
    exact congrArg (fates.filterMap Fate.failed? ++ ·.map Diagnostic.ofFault) hd
  · simpa [Diagnostic.isError] using herr d hd

/-- A tree in which one of three build files for a name is missing. -/
def twoOfThree : FileTree where
  top := .directory [
    ("b", .directory [("A.build", .file "module A \x7b\x7d".toUTF8.toList)]),
    ("c", .directory [("A.build", .file "module A \x7b\x7d".toUTF8.toList)])]
  here := []

theorem gives_twoOfThree :
    twoOfThree.Gives "b/A.build" { name := "A", directory := "b" } ∧
      twoOfThree.Gives "c/A.build" { name := "A", directory := "c" } := by
  have hdecode : Text.decodeFile "module A \x7b\x7d".toUTF8.toList = .ok "module A \x7b\x7d" := by
    decide +kernel
  have hb : Path.ofString "b/A.build" = ⟨0, ["b", "A.build"]⟩ := by decide
  have hc : Path.ofString "c/A.build" = ⟨0, ["c", "A.build"]⟩ := by decide
  constructor
  · refine .parsed ?_ hdecode (by decide +kernel)
    rw [hb]
    exact read_of_get? (by decide) (by decide +kernel) (by decide) rfl
  · refine .parsed ?_ hdecode (by decide +kernel)
    rw [hc]
    exact read_of_get? (by decide) (by decide +kernel) (by decide) rfl

theorem fails_twoOfThree : twoOfThree.Fails "a/A.build" ⟨.error,
    "Failed to read a/A.build: [Errno 2] No such file or directory: 'a/A.build'", none,
    .unknown⟩ := by
  have hpath : Path.ofString "a/A.build" = ⟨0, ["a", "A.build"]⟩ := by decide
  have hresolve : twoOfThree.resolve (.ofString "a/A.build") = .error .noEntry := by
    unfold resolve
    rw [hpath, if_pos (by decide +kernel)]
    exact walk_of_missing rfl (by decide) rfl _ _
  have hread := read_of_error (by decide) hresolve
  rw [show (Path.ofString "a/A.build").toString = "a/A.build" by decide] at hread
  exact .unread hread

theorem fates_twoOfThree : twoOfThree.Fates [] ["a/A.build", "b/A.build", "c/A.build"] [
    .failed ⟨.error, "Failed to read a/A.build: [Errno 2] No such file or directory: 'a/A.build'",
      none, .unknown⟩,
    .kept { name := "A", directory := "b" },
    .dropped (.duplicate "A" "b/A.build" "c/A.build")] := by
  obtain ⟨hb, hc⟩ := gives_twoOfThree
  have hnames : BuildFile.moduleName "b/A.build" = "A" ∧ BuildFile.moduleName "c/A.build" = "A" := by
    decide +kernel
  have hnone : twoOfThree.firstOf? ([] ++ ["a/A.build"]) "A" = none :=
    firstOf?_concat_of_none (moduleOf?_of_error fails_twoOfThree.loadModule) [] "A"
  have hfirst : twoOfThree.firstOf? ([] ++ ["a/A.build"] ++ ["b/A.build"]) "A" =
      some "b/A.build" := by
    rw [firstOf?_concat_of_some (moduleOf?_eq_some_iff.2 hb), hnone, hnames.1]
    rfl
  have hdropped := HasFate.dropped hc (hnames.2 ▸ hfirst)
  rw [hnames.2] at hdropped
  exact .cons (.failed fails_twoOfThree) (.cons (.kept hb hnames.1.symm (hnames.1 ▸ hnone))
    (.cons hdropped .nil))

theorem loadAll_fates_twoOfThree :
    let files := ["a/A.build", "b/A.build", "c/A.build"]
    let unread : Diagnostic := ⟨.error,
      "Failed to read a/A.build: [Errno 2] No such file or directory: 'a/A.build'", none, .unknown⟩
    let duplicate : Fault := .duplicate "A" "b/A.build" "c/A.build"
    (∀ path ∈ files, '\x00' ∉ path.toList) ∧ (∀ n ∈ some (2 : Int), 1 ≤ n) ∧
    ∃ c, twoOfThree.loadAll files (some 2) .empty =
        .ok c (Log.empty.addAll [unread, .ofFault duplicate]) ∧
      twoOfThree.Fates [] files
        [.failed unread, .kept { name := "A", directory := "b" }, .dropped duplicate] ∧
      c.rows = [("A", { name := "A", directory := "b" })] ∧ c.size + 2 = 3 := by
  have hfiles : ∀ path ∈ ["a/A.build", "b/A.build", "c/A.build"], '\x00' ∉ path.toList := by decide
  have hworkers : ∀ n ∈ some (2 : Int), 1 ≤ n := by simp
  obtain ⟨c, new, fates, hload, hs, hrows, rfl, -, hcount⟩ :=
    loadAll_fates hfiles hworkers twoOfThree .empty
  obtain rfl := hs.unique fates_twoOfThree
  exact ⟨hfiles, hworkers, c, hload, fates_twoOfThree, hrows, hcount⟩

end FileTree

end BuildOrder
