/-
What a run that comes to its end can be relied on for. The log only grows; the run succeeds exactly
if no error stands in the log, the errors of earlier runs included; a run that does not succeed
gives no order; there is a catalog exactly if a build file was found; and where the run succeeds no
build file is lost and the order is a build order of the catalog.

The log grows in every piece of work, so it does in the whole run. For the rest the ends of a run
are told apart: nothing found, an error while loading, a cycle, and success.
-/
import BuildOrder.Proofs.Catalog.BuildOrder
import BuildOrder.Proofs.Loading
import BuildOrder.Resolution

namespace BuildOrder

open Steps

/-! ## The ends of a run -/

theorem Catalog.not_isError_unknownWarnings {c : Catalog} {d : Diagnostic}
    (h : d ∈ c.unknownWarnings) : d.isError = false := by
  unfold unknownWarnings at h
  obtain ⟨⟨name, users⟩, -, h⟩ := List.mem_flatMap.1 h
  obtain ⟨user, -, rfl⟩ := List.mem_map.1 h
  rfl

/-- What holds of a run with its log, and of the build files that it found. -/
structure Resolution.Sound (r : Resolution) (files : List String) (log : Log) : Prop where
  ok_iff : r.ok = true ↔ ∀ d ∈ log.entries, d.severity ≠ .error
  order_eq_nil : r.ok = false → r.order = []
  catalog_eq_none_iff : r.catalog = none ↔ files = []
  complete : r.ok = true → ∃ c, r.catalog = some c ∧ c.ByName ∧ c.size = files.length ∧
    c.IsBuildOrder r.order

/-- The end of a run that fails with an error in the log. -/
theorem Resolution.sound_of_hasErrors {files : List String} {log : Log} {catalog : Option Catalog}
    (h : log.hasErrors = true) (hc : catalog = none ↔ files = []) :
    Resolution.Sound { catalog } files log where
  ok_iff := by
    rw [← Log.hasErrors_eq_false_iff, h]
    simp
  order_eq_nil _ := rfl
  catalog_eq_none_iff := hc
  complete hok := by cases hok

/-- The end of a run whose files have all been loaded: a cycle, or success. -/
theorem Catalog.resolve_sound {c : Catalog} {files : List String} {log : Log} (hb : c.ByName)
    (hf : files ≠ []) (hs : c.size = files.length) (h : log.hasErrors = false) :
    (c.resolve log).1.Sound files (c.resolve log).2 := by
  have hw : ((log.info s!"Loaded {c.size} modules").addAll c.unknownWarnings).hasErrors = false := by
    rw [Log.hasErrors_addAll, Log.hasErrors_info, h, Bool.false_or, List.any_eq_false]
    exact fun d hd => by simp [not_isError_unknownWarnings hd]
  unfold resolve
  dsimp only
  split
  · exact Resolution.sound_of_hasErrors (Log.hasErrors_report ..) (by simp [hf])
  · rename_i order ho
    refine ⟨?_, fun hok => ?_, by simp [hf], fun _ => ?_⟩
    · rw [← Log.hasErrors_eq_false_iff, Log.hasErrors_info, hw]
      simp
    · cases hok
    · exact ⟨c, rfl, hb, hs, isBuildOrder_of_buildOrder ho⟩

theorem Catalog.catalog_resolve (c : Catalog) (log : Log) : (c.resolve log).1.catalog = some c := by
  unfold resolve
  dsimp only
  split <;> rfl

theorem Catalog.isPrefix_resolve (c : Catalog) (log : Log) : log.IsPrefix (c.resolve log).2 := by
  have hp := (log.isPrefix_add _).trans (Log.isPrefix_addAll
    (log.info s!"Loaded {c.size} modules") c.unknownWarnings)
  unfold resolve
  dsimp only
  split <;> exact hp.trans (Log.isPrefix_add ..)

namespace FileTree

/-- A run only adds to the log. -/
theorem grows_resolveAll (t : FileTree) (roots : List String) (workers : Option Int) :
    (t.resolveAll roots workers).Grows := by
  unfold resolveAll
  refine (t.grows_discover roots).bind fun files => ?_
  split
  · exact (Logged.grows_modify fun log => log.isPrefix_add _).bind fun _ => Logged.grows_pure _
  · refine (Logged.grows_modify fun log => log.isPrefix_add _).bind fun _ => ?_
    refine (t.grows_loadAll files workers).bind fun c => Logged.grows_get.bind fun log => ?_
    split
    · exact Logged.grows_pure _
    · exact Logged.grows_modifyGet c.isPrefix_resolve

/-- A run that comes to its end is sound for the build files that it has found. -/
theorem sound_of_resolveAll {t : FileTree} {roots : List String} {workers : Option Int}
    {log log' : Log} {r : Resolution} (h : t.resolveAll roots workers log = .ok r log') :
    ∃ files found, t.discover roots log = .ok files found ∧ r.Sound files log' := by
  obtain ⟨files, found, hd, h⟩ := bind_ok h
  refine ⟨files, found, hd, ?_⟩
  split at h
  · rename_i hf
    cases h
    rw [List.isEmpty_iff] at hf
    exact Resolution.sound_of_hasErrors (Log.hasErrors_error ..) (by simp [hf])
  · rename_i hf
    rw [List.isEmpty_iff] at hf
    obtain ⟨-, log₀, -, h⟩ := bind_ok h
    obtain ⟨c, log₁, hl, h⟩ := bind_ok h
    obtain ⟨hb, -⟩ := loadAll_accounts hl
    change (if log₁.hasErrors then _ else _ : Logged Resolution) log₁ = _ at h
    split at h
    · rename_i he
      cases h
      exact Resolution.sound_of_hasErrors he (by simp [hf])
    · rename_i he
      rw [Bool.not_eq_true] at he
      cases h
      exact Catalog.resolve_sound hb hf (size_of_loadAll hl he) he

/-- A run only adds to the log, also where it is refused; and if it comes to its end, the resolution
is sound for the build files that were found. -/
theorem resolveAll_sound (t : FileTree) (roots : List String) (workers : Option Int) (log : Log) :
    match t.resolveAll roots workers log with
    | .ok r log' => log.entries <+: log'.entries ∧
        ∃ files found, t.discover roots log = .ok files found ∧ r.Sound files log'
    | .error _ log' => log.entries <+: log'.entries := by
  have hgrow := t.grows_resolveAll roots workers log
  cases h : t.resolveAll roots workers log with
  | ok r log' =>
    rw [Logged.logAfter_ok h] at hgrow
    exact ⟨hgrow, sound_of_resolveAll h⟩
  | error refusal log' =>
    rw [Logged.logAfter_error h] at hgrow
    exact hgrow

end FileTree

end BuildOrder
