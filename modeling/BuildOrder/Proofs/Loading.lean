/-
Loading files keeps account of each of them: a file gives a module of the catalog or an error in the
log, never both and never neither, and nothing else enters the log. So the size of the catalog and
the number of new errors add up to the number of files.
-/
import BuildOrder.Loading
import BuildOrder.Proofs.Catalog.Names
import BuildOrder.Proofs.Log

namespace BuildOrder

/-! ## Each file by itself -/

namespace FileTree

theorem isError_of_loadModule {t : FileTree} {path : String} {d : Diagnostic}
    (h : t.loadModule path = .ok (.error d)) : d.isError = true := by
  unfold loadModule at h
  cases hr : t.read (.ofString path) with
  | error refusal => simp [hr, bind, Except.bind] at h
  | ok content =>
    simp only [hr, bind, Except.bind, pure, Except.pure] at h
    repeat' split at h
    all_goals cases h
    all_goals rfl

theorem isError_of_loadEach {t : FileTree} {files : List String} {d : Diagnostic}
    (h : d ∈ (t.loadEach files).errors) : d.isError = true := by
  induction files with
  | nil => cases h
  | cons path files ih =>
    unfold loadEach at h
    dsimp only at h
    split at h
    · exact ih h
    · rename_i e he
      rcases List.mem_cons.1 h with rfl | h
      · exact isError_of_loadModule he
      · exact ih h
    · exact ih h

/-- Unless a file is refused, each one gives an error or a module. -/
theorem length_loadEach {t : FileTree} {files : List String}
    (h : (t.loadEach files).refusal = none) :
    (t.loadEach files).loaded.length + (t.loadEach files).errors.length = files.length := by
  induction files with
  | nil => rfl
  | cons path files ih =>
    unfold loadEach at h ⊢
    dsimp only at h ⊢
    split at h
    · cases h
    · have := ih h
      simp only [List.length_cons]
      omega
    · have := ih h
      simp only [List.length_cons]
      omega

end FileTree

/-! ## Putting the modules together -/

/-- The state of a merge of `n` files: each is the origin of a module or a duplicate. -/
structure Merge.Accounts (m : Merge) (n : Nat) : Prop where
  byName : m.catalog.ByName
  origins : m.origins.map (·.1) = m.catalog.names
  count : m.catalog.size + m.duplicates.length = n

namespace Merge

theorem accounts_empty : Accounts {} 0 := ⟨Catalog.empty_byName, rfl, rfl⟩

/-- A name without an origin is new to the catalog. -/
theorem Accounts.not_mem_names {m : Merge} {n : Nat} (h : m.Accounts n) {name : String}
    (hnone : m.origins.lookup name = none) : name ∉ m.catalog.names := by
  rw [← h.origins]
  intro hm
  obtain ⟨row, hr, hn⟩ := List.mem_map.1 hm
  have := List.lookup_eq_none_iff.1 hnone row hr
  simp [hn] at this

theorem Accounts.add {m : Merge} {n : Nat} (h : m.Accounts n) (path : String) (module : Module) :
    (m.add path module).Accounts (n + 1) := by
  unfold Merge.add
  split
  · refine ⟨h.byName, h.origins, ?_⟩
    have := h.count
    simp only [List.length_append, List.length_singleton]
    omega
  · rename_i hnone
    have hnew := h.not_mem_names hnone
    refine ⟨h.byName.insert hnew, ?_, ?_⟩
    · rw [Catalog.names_insert hnew, List.map_append, h.origins]
      rfl
    · dsimp only
      rw [Catalog.size_insert hnew, ← h.count]
      omega

theorem accounts_foldl (loaded : List (String × Module)) {m : Merge} {n : Nat} (h : m.Accounts n) :
    (loaded.foldl (fun m file => m.add file.1 file.2) m).Accounts (n + loaded.length) := by
  induction loaded generalizing m n with
  | nil => exact h
  | cons file loaded ih =>
    have := ih (h.add file.1 file.2)
    rwa [Nat.add_right_comm] at this

theorem accounts_ofList (loaded : List (String × Module)) :
    (ofList loaded).Accounts loaded.length := by
  have := accounts_foldl loaded accounts_empty
  rwa [Nat.zero_add] at this

end Merge

/-! ## All files -/

namespace FileTree

/-- With workers to do it, the files are loaded each by itself and then put together, unless one of
them was refused. -/
theorem loadAll_of_pos (t : FileTree) (files : List String) {workers : Option Int}
    (h : ∀ n ∈ workers, 1 ≤ n) (log : Log) :
    t.loadAll files workers log =
      match (t.loadEach files).refusal with
      | some refusal => .error refusal (log.addAll (t.loadEach files).errors)
      | none => .ok (Merge.ofList (t.loadEach files).loaded).catalog
          ((log.addAll (t.loadEach files).errors).addAll
            ((Merge.ofList (t.loadEach files).loaded).duplicates.map .ofFault)) := by
  have hpos : ¬ workers.getD 1 ≤ 0 := by
    cases workers with
    | none => decide
    | some n =>
      have := h n rfl
      show ¬ n ≤ 0
      omega
  exact if_neg hpos

/-- Loading adds only errors to the log, as many as files that give no module of the catalog, whose
modules stand under their own names. -/
theorem loadAll_accounts {t : FileTree} {files : List String} {workers : Option Int}
    {log log' : Log} {c : Catalog} (h : t.loadAll files workers log = .ok c log') :
    c.ByName ∧ ∃ new, log'.entries = log.entries ++ new ∧ (∀ d ∈ new, d.isError = true) ∧
      c.size + new.length = files.length := by
  unfold loadAll at h
  split at h
  · cases h
  dsimp only at h
  split at h
  · cases h
  rename_i hr
  cases h
  obtain ⟨hb, -, hc⟩ := Merge.accounts_ofList (t.loadEach files).loaded
  have hl := length_loadEach hr
  refine ⟨hb, _, List.append_assoc .., fun d hd => ?_, ?_⟩
  · rcases List.mem_append.1 hd with hd | hd
    · exact isError_of_loadEach hd
    · obtain ⟨f, -, rfl⟩ := List.mem_map.1 hd
      rfl
  · simp only [List.length_append, List.length_map]
    omega

/-- Without an error in the log there is no file without a module. -/
theorem size_of_loadAll {t : FileTree} {files : List String} {workers : Option Int}
    {log log' : Log} {c : Catalog} (h : t.loadAll files workers log = .ok c log')
    (he : log'.hasErrors = false) : c.size = files.length := by
  obtain ⟨-, new, hnew, herr, hcount⟩ := loadAll_accounts h
  have : new = [] := List.eq_nil_iff_forall_not_mem.2 fun d hd => by
    have hno := Log.hasErrors_eq_false_iff.1 he d (hnew ▸ List.mem_append_right _ hd)
    exact hno (by simpa [Diagnostic.isError] using herr d hd)
  simpa [this] using hcount

theorem grows_loadAll (t : FileTree) (files : List String) (workers : Option Int) :
    (t.loadAll files workers).Grows := by
  intro log
  unfold Logged.logAfter loadAll
  split
  · rename_i c log' h
    obtain ⟨-, new, hnew, -⟩ := loadAll_accounts h
    exact ⟨new, hnew.symm⟩
  · rename_i refusal log' h
    split at h
    · cases h
      exact .refl log
    dsimp only at h
    split at h <;> cases h
    exact log.isPrefix_addAll _

end FileTree

end BuildOrder
