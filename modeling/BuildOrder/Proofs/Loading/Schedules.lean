/-
The schedule of the workers has no say in what loading comes to. Whatever the number of workers and
the order of their steps, the catalog is the same, the log gets the same errors of single files in
some order and then the same duplicates in the order of the files, and a single worker keeps the
errors in order too. A run that resolves some roots reads of the log only whether it has an error, so
it comes to the same resolution in every case.
-/
import BuildOrder.Proofs.Loading.Fates
import BuildOrder.Proofs.Loading.Pool
import BuildOrder.Resolution

namespace BuildOrder

open Steps

/-! ## Loading one file after the other -/

namespace FileTree

theorem errors_loadEach (t : FileTree) (files : List String) :
    (t.loadEach files).errors = files.flatMap t.saidOf := by
  induction files with
  | nil => rfl
  | cons path files ih =>
    rw [List.flatMap_cons]
    unfold loadEach
    rw [← ih]
    unfold saidOf
    rcases t.loadModule path with refusal | d | m <;> rfl

theorem gather_results (t : FileTree) (files : List String) :
    Pool.gather (files.map fun path => (path, t.resultOf path)) =
      match (t.loadEach files).refusal with
      | some refusal => .error refusal
      | none => .ok (t.loadEach files).loaded := by
  induction files with
  | nil => rfl
  | cons path files ih =>
    rw [List.map_cons]
    unfold loadEach resultOf
    rcases t.loadModule path with refusal | d | m
    · rfl
    · exact ih
    -- the module joins those of the files behind, unless one of these was refused
    · change (Pool.gather (files.map fun path => (path, t.resultOf path))).map _ = _
      rw [ih]
      dsimp only
      cases (t.loadEach files).refusal <;> rfl

theorem loadAll_eq_collect (t : FileTree) (files : List String) {workers : Nat} (hw : 1 ≤ workers)
    (log : Log) : t.loadAll files (some workers) log =
      Pool.collect (files.map fun path => (path, t.resultOf path))
        (log.addAll (files.flatMap t.saidOf)) := by
  have hpos : ∀ n ∈ some (workers : Int), 1 ≤ n := by
    rintro n hn
    cases hn
    omega
  unfold Pool.collect
  rw [t.loadAll_of_pos files hpos, t.gather_results, ← t.errors_loadEach]
  cases (t.loadEach files).refusal <;> rfl

/-! ## Any schedule -/

theorem LoadsAll.eq_collect {t : FileTree} {files : List String} {workers : Nat} {log : Log}
    {outcome : EStateM.Result Refusal Log Catalog} (h : t.LoadsAll files workers log outcome) :
    ∃ said, said.Perm (files.flatMap t.saidOf) ∧ (workers = 1 → said = files.flatMap t.saidOf) ∧
      outcome = Pool.collect (files.map fun path => (path, t.resultOf path)) (log.addAll said) := by
  obtain ⟨results, log', hsteps, rfl⟩ := h
  obtain ⟨rfl, said, rfl, hperm, hone⟩ := (Pool.Steps.loads hsteps).of_finished
  exact ⟨said, hperm, hone, rfl⟩

/-- The loading of one file after the other is what one worker does, and any number of workers may
do. -/
theorem loadsAll_loadAll (t : FileTree) (files : List String) {workers : Nat} (hw : 1 ≤ workers)
    (log : Log) : t.LoadsAll files workers log (t.loadAll files (some workers) log) := by
  obtain ⟨results, log', hsteps⟩ :=
    Pool.exists_steps_finished t (Nat.le_refl 1) (.start files log)
  obtain ⟨hresults, said, hlog, -, hone⟩ := (Pool.Steps.loads hsteps).of_finished
  refine ⟨results, log', Relation.ReflTransGen.mono (fun _ _ => Pool.Step.mono hw) _ _ hsteps, ?_⟩
  rw [t.loadAll_eq_collect files hw, hresults, hlog, hone rfl]

end FileTree

/-! ## The same up to the order of the log -/

/-- Two outcomes are the same up to the order of what is in the log. -/
def Logged.SameOutcome {α : Type} :
    EStateM.Result Refusal Log α → EStateM.Result Refusal Log α → Prop
  | .ok a log, .ok b log' => a = b ∧ log.entries.Perm log'.entries
  | .error e log, .error e' log' => e = e' ∧ log.entries.Perm log'.entries
  | _, _ => False

open Logged

theorem Log.hasErrors_of_perm {log log' : Log} (h : log.entries.Perm log'.entries) :
    log.hasErrors = log'.hasErrors := h.any_eq

theorem Logged.SameOutcome.refl {α : Type} (r : EStateM.Result Refusal Log α) : SameOutcome r r := by
  cases r <;> exact ⟨rfl, .refl _⟩

theorem Pool.sameOutcome_collect (results : List (String × Except Refusal (Option Module)))
    {log log' : Log} (h : log.entries.Perm log'.entries) :
    SameOutcome (collect results log) (collect results log') := by
  unfold collect
  cases gather results with
  | error refusal => exact ⟨rfl, h⟩
  | ok loaded => exact ⟨rfl, h.append_right _⟩

theorem FileTree.LoadsAll.sameOutcome {t : FileTree} {files : List String} {n₁ n₂ : Nat} {log : Log}
    {r₁ r₂ : EStateM.Result Refusal Log Catalog} (h₁ : t.LoadsAll files n₁ log r₁)
    (h₂ : t.LoadsAll files n₂ log r₂) : SameOutcome r₁ r₂ := by
  obtain ⟨said₁, hperm₁, -, rfl⟩ := h₁.eq_collect
  obtain ⟨said₂, hperm₂, -, rfl⟩ := h₂.eq_collect
  exact Pool.sameOutcome_collect _ ((hperm₁.trans hperm₂.symm).append_left _)

/-! ## Resolving -/

/-- Ordering the modules of a catalog reads nothing of the log and adds the same to it. -/
theorem Catalog.resolve_perm (c : Catalog) {log log' : Log} (h : log.entries.Perm log'.entries) :
    (c.resolve log).1 = (c.resolve log').1 ∧
      (c.resolve log).2.entries.Perm (c.resolve log').2.entries := by
  have hloaded : ((log.info s!"Loaded {c.size} modules").addAll c.unknownWarnings).entries.Perm
      ((log'.info s!"Loaded {c.size} modules").addAll c.unknownWarnings).entries :=
    (h.append_right _).append_right _
  unfold resolve
  cases c.buildOrder with
  | error cycle => exact ⟨rfl, hloaded.append_right _⟩
  | ok order => exact ⟨rfl, hloaded.append_right _⟩

namespace FileTree

/-- Resolves all that lies below some roots, where `load` loads the files that are found. -/
def resolveWith (t : FileTree) (roots : List String) (load : List String → Logged Catalog) :
    Logged Resolution := do
  let files ← t.discover roots
  if files.isEmpty then
    modify (·.error "No .build files found")
    return {}
  else
    modify (·.info s!"Found {files.length} build files")
    let catalog ← load files
    if (← get).hasErrors then return { catalog := some catalog }
    else modifyGet catalog.resolve

theorem resolveAll_eq (t : FileTree) (roots : List String) (workers : Option Int) :
    t.resolveAll roots workers = t.resolveWith roots fun files => t.loadAll files workers := rfl

/-- What resolving some roots with so many workers may come to. -/
def Resolves (t : FileTree) (roots : List String) (workers : Nat) (log : Log)
    (outcome : EStateM.Result Refusal Log Resolution) : Prop :=
  ∃ load : List String → Logged Catalog,
    (∀ files log, t.LoadsAll files workers log (load files log)) ∧
      outcome = t.resolveWith roots load log

/-- What is left to do when the files are loaded. -/
def resolveLoaded : EStateM.Result Refusal Log Catalog → EStateM.Result Refusal Log Resolution
  | .error refusal log => .error refusal log
  | .ok c log =>
    if log.hasErrors then .ok { catalog := some c } log
    else .ok (c.resolve log).1 (c.resolve log).2

theorem resolveWith_of_ok {t : FileTree} {roots files : List String} {log found : Log}
    (h : t.discover roots log = .ok files found) (hne : files ≠ [])
    (load : List String → Logged Catalog) :
    t.resolveWith roots load log =
      resolveLoaded (load files (found.info s!"Found {files.length} build files")) := by
  have hcond : ¬ files.isEmpty = true := by rwa [List.isEmpty_iff]
  unfold resolveWith
  rw [bind_of_ok h, if_neg hcond]
  change (load files >>= _) (found.info s!"Found {files.length} build files") = _
  cases hl : load files (found.info s!"Found {files.length} build files") with
  | error refusal log' => rw [bind_of_error hl]; rfl
  | ok c log' =>
    rw [bind_of_ok hl]
    change (if log'.hasErrors then _ else _ : Logged Resolution) log' = _
    unfold resolveLoaded
    dsimp only
    split <;> rfl

theorem sameOutcome_resolveLoaded {r₁ r₂ : EStateM.Result Refusal Log Catalog}
    (h : SameOutcome r₁ r₂) : SameOutcome (resolveLoaded r₁) (resolveLoaded r₂) := by
  cases r₁ with
  | error e₁ log₁ =>
    cases r₂ with
    | error e₂ log₂ => exact h
    | ok c₂ log₂ => exact h.elim
  | ok c₁ log₁ =>
    cases r₂ with
    | error e₂ log₂ => exact h.elim
    | ok c₂ log₂ =>
      obtain ⟨rfl, hperm⟩ := h
      unfold resolveLoaded
      dsimp only
      rw [Log.hasErrors_of_perm hperm]
      split
      · exact ⟨rfl, hperm⟩
      · exact c₁.resolve_perm hperm

theorem Resolves.sameOutcome {t : FileTree} {roots : List String} {n₁ n₂ : Nat} {log : Log}
    {r₁ r₂ : EStateM.Result Refusal Log Resolution} (h₁ : t.Resolves roots n₁ log r₁)
    (h₂ : t.Resolves roots n₂ log r₂) : SameOutcome r₁ r₂ := by
  obtain ⟨load₁, hload₁, rfl⟩ := h₁
  obtain ⟨load₂, hload₂, rfl⟩ := h₂
  cases hd : t.discover roots log with
  | error refusal found =>
    unfold resolveWith
    rw [bind_of_error hd, bind_of_error hd]
    exact .refl _
  | ok files found =>
    by_cases hne : files = []
    · subst hne
      unfold resolveWith
      rw [bind_of_ok hd, bind_of_ok hd]
      exact .refl _
    · rw [resolveWith_of_ok hd hne, resolveWith_of_ok hd hne]
      exact sameOutcome_resolveLoaded ((hload₁ _ _).sameOutcome (hload₂ _ _))

/-! ## The schedule does not matter -/

/-- The loading of one file after the other is one of the schedules, and every schedule comes to the
same: the catalog of the files that are kept; the errors of single files in some order, which is that
of the files if there is one worker; and behind them the duplicates in the order of the files. What
resolving some roots comes to, its catalog, its order and whether it succeeds, is the same too. -/
theorem schedule_irrelevant (t : FileTree) :
    (∀ files workers log, 1 ≤ workers →
      t.LoadsAll files workers log (t.loadAll files (some workers) log)) ∧
    (∀ files, (∀ path ∈ files, '\x00' ∉ path.toList) →
      ∃ c fates, t.Fates [] files fates ∧ c.rows = Catalog.rowsOf (fates.filterMap Fate.kept?) ∧
        ∀ workers log outcome, t.LoadsAll files workers log outcome →
          ∃ errors, errors.Perm (fates.filterMap Fate.failed?) ∧
            (workers = 1 → errors = fates.filterMap Fate.failed?) ∧
            outcome = .ok c (log.addAll
              (errors ++ (fates.filterMap Fate.dropped?).map .ofFault))) ∧
    (∀ roots workers log, 1 ≤ workers →
      t.Resolves roots workers log (t.resolveAll roots (some workers) log)) ∧
    ∀ roots log n₁ n₂ r₁ r₂, t.Resolves roots n₁ log r₁ → t.Resolves roots n₂ log r₂ →
      SameOutcome r₁ r₂ := by
  refine ⟨fun files workers log hw => t.loadsAll_loadAll files hw log, fun files hfiles => ?_,
    fun roots workers log hw => ?_, fun roots log n₁ n₂ r₁ r₂ h₁ h₂ => h₁.sameOutcome h₂⟩
  · obtain ⟨fates, hs, hr, he, hc, hd⟩ := exists_fates hfiles (Merge.follows_empty t)
    refine ⟨(Merge.ofList (t.loadEach files).loaded).catalog, fates, hs, hc, ?_⟩
    intro workers log outcome h
    obtain ⟨said, hperm, hone, rfl⟩ := h.eq_collect
    rw [← errors_loadEach, he] at hperm hone
    refine ⟨said, hperm, hone, ?_⟩
    unfold Pool.collect
    rw [t.gather_results, hr]
    dsimp only
    rw [Log.addAll_addAll]
    exact congrArg (fun ds => EStateM.Result.ok _ (log.addAll (said ++ ds.map Diagnostic.ofFault))) hd
  · exact ⟨_, fun files log => t.loadsAll_loadAll files hw log, congrFun (t.resolveAll_eq ..) log⟩

end FileTree

end BuildOrder
