/-
The names that the modules of a catalog need and none of them has. They are read off the graph, from
the order of its names and from the lists of what needs each name, where a declaration counts as
often as it is made. What comes out is told by the declarations alone: each unknown name once, in the
order in which the modules first need them, with the modules that declare it, once each and in the
order of the catalog.

A run whose files have all been loaded warns of exactly these pairs, in this order; together with the
roots that are no directory they are all that it warns of.
-/
import BuildOrder.Proofs.Discovery.Opening
import BuildOrder.Proofs.Loading.Schedules
import BuildOrder.Proofs.Resolution
import Mathlib.Data.List.Basic
import Mathlib.Data.List.Induction

namespace BuildOrder

open Dependency

/-! ## First occurrences -/

theorem eraseDups_filter (p : String → Bool) (xs : List String) :
    (xs.filter p).eraseDups = xs.eraseDups.filter p := by
  induction xs using List.reverseRecOn with
  | nil => rfl
  | append_singleton xs x ih =>
    rw [List.filter_append, List.filter_singleton, eraseDups_concat]
    cases hp : p x with
    | true =>
      rw [cond_true, eraseDups_concat, ih]
      unfold insertNew
      by_cases hx : x ∈ xs
      · simp [hx, hp]
      · simp [hx, hp]
    | false =>
      rw [cond_false, List.append_nil, ih]
      unfold insertNew
      split
      · rfl
      · simp [hp]

/-- Without repetition names stand in the order of their first places. -/
theorem pairwise_idxOf_eraseDups (xs : List String) :
    xs.eraseDups.Pairwise fun a b => xs.idxOf a < xs.idxOf b := by
  induction xs using List.reverseRecOn with
  | nil => exact .nil
  | append_singleton xs x ih =>
    have hplace : ∀ a ∈ xs.eraseDups, (xs ++ [x]).idxOf a = xs.idxOf a := by
      intro a ha
      rw [List.idxOf_append, if_pos (List.mem_eraseDups.1 ha)]
    have hold : xs.eraseDups.Pairwise fun a b => (xs ++ [x]).idxOf a < (xs ++ [x]).idxOf b := by
      refine ih.imp_of_mem fun {a b} ha hb hlt => ?_
      rwa [hplace a ha, hplace b hb]
    rw [eraseDups_concat]
    unfold insertNew
    split
    · exact hold
    · rename_i hx
      rw [List.mem_eraseDups] at hx
      refine List.pairwise_append.2 ⟨hold, List.pairwise_singleton .., fun a ha b hb => ?_⟩
      obtain rfl := List.mem_singleton.1 hb
      rw [hplace a ha, List.idxOf_append, if_neg hx]
      exact Nat.lt_add_left _ (List.idxOf_lt_length_of_mem (List.mem_eraseDups.1 ha))

theorem eraseDups_replicate (n : Nat) (x : String) :
    (List.replicate n x).eraseDups = if n = 0 then [] else [x] := by
  cases n with
  | zero => rfl
  | succ n =>
    rw [List.replicate_succ, List.eraseDups_cons]
    simp

namespace Catalog

/-! ## What is needed and unknown -/

/-- All that the modules of a catalog declare that they need, module by module. -/
def needed (c : Catalog) : List String := c.modules.flatMap (·.dependencies)

/-- The modules that declare that they need a name, in the order of the catalog. -/
def usersOf (c : Catalog) (name : String) : List String :=
  (c.modules.filter fun m => name ∈ m.dependencies).map (·.name)

/-- What rows of names, each with its users, say of the unknown names of a catalog. -/
structure ListsUnknown (c : Catalog) (rows : List (String × List String)) : Prop where
  mem_iff : ∀ name, name ∈ rows.map (·.1) ↔ name ∈ c.needed ∧ name ∉ c.names
  ordered : (rows.map (·.1)).Pairwise fun a b => c.needed.idxOf a < c.needed.idxOf b
  users : ∀ row ∈ rows, row.2 = c.usersOf row.1
  users_nodup : ∀ row ∈ rows, row.2.Nodup

theorem nodes_graph (c : Catalog) :
    c.graph.nodes = (c.modules.flatMap fun m => m.name :: m.dependencies).eraseDups := by
  unfold graph Graph.ofModules
  rw [Graph.nodes_ofList, List.flatMap_map]

theorem dependentsOf_graph (c : Catalog) (name : String) :
    c.graph.dependentsOf name =
      c.modules.flatMap fun m => List.replicate (m.dependencies.count name) m.name := by
  unfold graph Graph.ofModules
  rw [Graph.dependentsOf_ofList, List.flatMap_map]

theorem isEmpty_dependentsOf_graph {c : Catalog} {name : String} :
    (c.graph.dependentsOf name).isEmpty = false ↔ name ∈ c.needed := by
  rw [Bool.eq_false_iff, ne_eq, List.isEmpty_iff, dependentsOf_graph, needed, List.mem_flatMap,
    List.flatMap_eq_nil_iff]
  simp [List.count_eq_zero]

/-- Of the names of the graph, those that are no module's stand in the order in which they are
needed. -/
theorem filter_nodes_graph {c : Catalog} (h : c.ByName) :
    (c.graph.nodes.filter fun n => !c.contains n) =
      c.needed.eraseDups.filter fun n => !c.contains n := by
  have hrow : ∀ m ∈ c.modules, ((m.name :: m.dependencies).filter fun n => !c.contains n) =
      m.dependencies.filter fun n => !c.contains n := by
    intro m hm
    have hin : m.name ∈ c.names := h.names_eq ▸ List.mem_map_of_mem hm
    simp [contains, hin]
  rw [nodes_graph, ← eraseDups_filter, ← eraseDups_filter, needed, List.filter_flatMap,
    List.filter_flatMap, List.flatMap_congr hrow]

theorem eraseDups_users {ms : List Module} (h : (ms.map (·.name)).Nodup) (name : String) :
    (ms.flatMap fun m => List.replicate (m.dependencies.count name) m.name).eraseDups =
      (ms.filter fun m => name ∈ m.dependencies).map (·.name) := by
  induction ms with
  | nil => rfl
  | cons m ms ih =>
    rw [List.map_cons, List.nodup_cons] at h
    -- no later module has the name of this one, so nothing of theirs is taken for a repetition
    have hrest : ((ms.flatMap fun m => List.replicate (m.dependencies.count name) m.name).removeAll
        (List.replicate (m.dependencies.count name) m.name)) =
        ms.flatMap fun m => List.replicate (m.dependencies.count name) m.name := by
      refine List.filter_eq_self.2 fun user hu => ?_
      obtain ⟨m', hm, hu⟩ := List.mem_flatMap.1 hu
      obtain rfl := List.eq_of_mem_replicate hu
      have hne : m'.name ≠ m.name := fun he => h.1 (he ▸ List.mem_map_of_mem hm)
      simp [hne]
    rw [List.flatMap_cons, List.eraseDups_append, hrest, ih h.2, eraseDups_replicate]
    by_cases hin : name ∈ m.dependencies
    · rw [if_neg (Nat.ne_of_gt (List.count_pos_iff.2 hin)), List.filter_cons_of_pos (by simpa using hin)]
      rfl
    · rw [if_pos (List.count_eq_zero.2 hin), List.filter_cons_of_neg (by simpa using hin)]
      rfl

theorem nodup_names_modules {c : Catalog} (h : c.ByName) : (c.modules.map (·.name)).Nodup :=
  h.names_eq ▸ c.nodup

/-- The unknown names of a catalog in terms of what its modules declare. -/
theorem unknownNames_graph {c : Catalog} (h : c.ByName) :
    c.unknownNames c.graph =
      (c.needed.eraseDups.filter fun n => !c.contains n).map fun n => (n, c.usersOf n) := by
  have hkeys : (c.graph.nodes.filter fun n =>
      !c.contains n && !(c.graph.dependentsOf n).isEmpty) =
      c.needed.eraseDups.filter fun n => !c.contains n := by
    -- a name of the graph that is no module's is there because it is needed
    rw [← List.filter_filter, List.filter_comm, filter_nodes_graph h, List.filter_eq_self]
    intro n hn
    rw [isEmpty_dependentsOf_graph.2 (List.mem_eraseDups.1 (List.mem_of_mem_filter hn))]
    rfl
  unfold unknownNames
  rw [hkeys]
  refine List.map_congr_left fun n _ => ?_
  rw [dependentsOf_graph, eraseDups_users (nodup_names_modules h)]
  rfl

theorem listsUnknown_graph {c : Catalog} (h : c.ByName) :
    c.ListsUnknown (c.unknownNames c.graph) := by
  have hkeys : (c.unknownNames c.graph).map (·.1) =
      c.needed.eraseDups.filter fun n => !c.contains n := by
    rw [unknownNames_graph h, List.map_map]
    exact List.map_id _
  have hrow : ∀ row ∈ c.unknownNames c.graph, row.2 = c.usersOf row.1 := by
    intro row hr
    rw [unknownNames_graph h] at hr
    obtain ⟨n, -, rfl⟩ := List.mem_map.1 hr
    rfl
  refine ⟨fun name => ?_, ?_, hrow, fun row hr => ?_⟩
  · rw [hkeys, List.mem_filter, List.mem_eraseDups]
    simp [contains]
  · rw [hkeys]
    exact (pairwise_idxOf_eraseDups _).filter _
  · rw [hrow row hr]
    exact (nodup_names_modules h).sublist (List.filter_sublist.map _)

/-! ## Warnings -/

/-- The pairs of a module and an unknown name that it needs, name by name. -/
def unknownPairs (c : Catalog) : List (String × String) :=
  (c.unknownNames c.graph).flatMap fun row => row.2.map fun user => (user, row.1)

/-- The warning for a module and an unknown name that it needs. -/
def unknownWarning (pair : String × String) : Diagnostic :=
  ⟨.warning, s!"Module '{pair.1}' depends on unknown module '{pair.2}'", none, .unknown⟩

theorem unknownWarnings_eq (c : Catalog) :
    c.unknownWarnings = c.unknownPairs.map unknownWarning := by
  unfold unknownWarnings unknownPairs
  rw [List.map_flatMap]
  refine congrArg (List.flatMap · _) (funext fun row => ?_)
  rw [List.map_map]
  rfl

theorem mem_usersOf {c : Catalog} {name user : String} :
    user ∈ c.usersOf name ↔ ∃ m ∈ c.modules, m.name = user ∧ name ∈ m.dependencies := by
  simp only [usersOf, List.mem_map, List.mem_filter, decide_eq_true_eq]
  constructor
  · rintro ⟨m, ⟨hm, hn⟩, hu⟩
    exact ⟨m, hm, hu, hn⟩
  · rintro ⟨m, hm, hu, hn⟩
    exact ⟨m, ⟨hm, hn⟩, hu⟩

theorem mem_unknownPairs_iff {c : Catalog} (h : c.ByName) {user name : String} :
    (user, name) ∈ c.unknownPairs ↔
      name ∉ c.names ∧ ∃ m ∈ c.modules, m.name = user ∧ name ∈ m.dependencies := by
  have hl := listsUnknown_graph h
  unfold unknownPairs
  rw [← mem_usersOf, List.mem_flatMap]
  constructor
  · rintro ⟨row, hr, hp⟩
    obtain ⟨u, hu, he⟩ := List.mem_map.1 hp
    cases he
    rw [hl.users row hr] at hu
    exact ⟨((hl.mem_iff row.1).1 (List.mem_map_of_mem hr)).2, hu⟩
  · rintro ⟨hn, hu⟩
    obtain ⟨m, hm, -, hd⟩ := mem_usersOf.1 hu
    have hneeded : name ∈ c.needed := List.mem_flatMap.2 ⟨m, hm, hd⟩
    obtain ⟨row, hr, rfl⟩ := List.mem_map.1 ((hl.mem_iff name).2 ⟨hneeded, hn⟩)
    rw [← hl.users row hr] at hu
    exact ⟨row, hr, List.mem_map_of_mem hu⟩

theorem nodup_unknownPairs {c : Catalog} (h : c.ByName) : c.unknownPairs.Nodup := by
  have hl := listsUnknown_graph h
  unfold unknownPairs
  refine List.nodup_flatMap.2 ⟨fun row hr => ?_, ?_⟩
  · exact (hl.users_nodup row hr).map fun a b he => congrArg Prod.fst he
  · -- pairs of two rows differ in the unknown name
    refine (List.pairwise_map.1 hl.ordered).imp fun {a b} hlt pair ha hb => ?_
    obtain ⟨_, -, rfl⟩ := List.mem_map.1 ha
    obtain ⟨_, -, he⟩ := List.mem_map.1 hb
    have hname : b.1 = a.1 := congrArg Prod.snd he
    rw [hname] at hlt
    exact Nat.lt_irrefl _ hlt

end Catalog

namespace Log

theorem warnings_addAll (log : Log) (ds : List Diagnostic) :
    (log.addAll ds).warnings = log.warnings ++ ds.filter (·.severity = .warning) :=
  filter_addAll ..

theorem warnings_add_of_ne {d : Diagnostic} (h : d.severity ≠ .warning) (log : Log) :
    (log.add d).warnings = log.warnings :=
  filter_add_of_not (decide_eq_false h) log

theorem warnings_info (log : Log) (message : String) :
    (log.info message).warnings = log.warnings :=
  warnings_add_of_ne Severity.noConfusion log

theorem warnings_report (log : Log) (f : Fault) : (log.report f).warnings = log.warnings :=
  warnings_add_of_ne Severity.noConfusion log

end Log

theorem Catalog.warnings_resolve (c : Catalog) (log : Log) :
    (c.resolve log).2.warnings = log.warnings ++ c.unknownPairs.map unknownWarning := by
  have hall : (c.unknownPairs.map unknownWarning).filter (·.severity = .warning) =
      c.unknownPairs.map unknownWarning := by
    refine List.filter_eq_self.2 fun d hd => ?_
    obtain ⟨pair, -, rfl⟩ := List.mem_map.1 hd
    rfl
  have hloaded : ((log.info s!"Loaded {c.size} modules").addAll c.unknownWarnings).warnings =
      log.warnings ++ c.unknownPairs.map unknownWarning := by
    rw [Log.warnings_addAll, unknownWarnings_eq, hall]
    exact congrArg (· ++ _) (log.warnings_info _)
  unfold resolve
  dsimp only
  split
  · exact (Log.warnings_report ..).trans hloaded
  · exact (Log.warnings_info ..).trans hloaded

namespace FileTree

theorem warnings_loadAll {t : FileTree} {files : List String} {workers : Option Int}
    {log log' : Log} {c : Catalog} (h : t.loadAll files workers log = .ok c log') :
    log'.warnings = log.warnings := by
  obtain ⟨-, new, hnew, herr, -⟩ := loadAll_accounts h
  have hnone : new.filter (·.severity = .warning) = [] := by
    refine List.filter_eq_nil_iff.2 fun d hd => ?_
    have he : d.severity = .error := by simpa [Diagnostic.isError] using herr d hd
    simp [he]
  unfold Log.warnings
  rw [hnew, List.filter_append, hnone, List.append_nil]

theorem warnings_discover {t : FileTree} {roots files : List String} {log log' : Log}
    (h : t.discover roots log = .ok files log') :
    log'.warnings = log.warnings ++ roots.flatMap t.warningsOf := by
  rw [discover_of_searchable (searchable_of_discover h)] at h
  cases h
  have hall : (roots.flatMap t.warningsOf).filter (·.severity = .warning) =
      roots.flatMap t.warningsOf := by
    refine List.filter_eq_self.2 fun d hd => ?_
    obtain ⟨root, -, hd⟩ := List.mem_flatMap.1 hd
    unfold warningsOf at hd
    split at hd
    · obtain rfl := List.mem_singleton.1 hd
      rfl
    · cases hd
  rw [Log.warnings_addAll, hall]

end FileTree

namespace Catalog

/-- In a catalog whose modules stand under their own names, the unknown names are listed exactly: each
once, in the order in which it is first needed, with the modules that declare it. A run that has
loaded this catalog warns of each pair of a module and an unknown name once, in that order, unless an
error stands in the log by then; besides this it warns only of roots that are no directory. -/
theorem unknown_exact {c : Catalog} (h : c.ByName) :
    c.ListsUnknown (c.unknownNames c.graph) ∧
    c.unknownPairs.Nodup ∧
    (∀ user name, (user, name) ∈ c.unknownPairs ↔
      name ∉ c.names ∧ ∃ m ∈ c.modules, m.name = user ∧ name ∈ m.dependencies) ∧
    ∀ (t : FileTree) roots workers log files found loaded,
      t.discover roots log = .ok files found → files ≠ [] →
      t.loadAll files workers (found.info s!"Found {files.length} build files") = .ok c loaded →
      ∃ r log', t.resolveAll roots workers log = .ok r log' ∧
        log'.warnings = log.warnings ++ roots.flatMap t.warningsOf ++
          if loaded.hasErrors then [] else c.unknownPairs.map unknownWarning := by
  refine ⟨listsUnknown_graph h, nodup_unknownPairs h, fun _ _ => mem_unknownPairs_iff h, ?_⟩
  intro t roots workers log files found loaded hd hne hl
  have hloaded : loaded.warnings = log.warnings ++ roots.flatMap t.warningsOf := by
    rw [FileTree.warnings_loadAll hl, ← FileTree.warnings_discover hd]
    exact found.warnings_info _
  rw [t.resolveAll_eq, FileTree.resolveWith_of_ok hd hne, hl]
  unfold FileTree.resolveLoaded
  dsimp only
  split
  · exact ⟨_, _, rfl, by rw [hloaded, List.append_nil]⟩
  · exact ⟨_, _, rfl, by rw [warnings_resolve, hloaded]⟩

/-- Two modules that need what is not there, one of them twice, and each other. -/
def halfKnown : Catalog where
  rows := [
    ("App", { name := "App", directory := ".", dependencies := ["Net", "Tool", "Gui", "Net"] }),
    ("Tool", { name := "Tool", directory := ".", dependencies := ["Gui", "App"] })]
  nodup := by decide

section

open FileTree

theorem unknown_exact_halfKnown :
    halfKnown.ByName ∧ halfKnown.ListsUnknown [("Net", ["App"]), ("Gui", ["App", "Tool"])] ∧
      ∃ r log', workshop.resolveAll ["app", "gone", "lib"] none .empty = .ok r log' ∧
        log'.warnings = [
          ⟨.warning, "Directory not found: gone", none, .unknown⟩,
          ⟨.warning, "Module 'App' depends on unknown module 'Zip'", none, .unknown⟩] := by
  have h : halfKnown.ByName := by decide
  have hlist : halfKnown.unknownNames halfKnown.graph =
      [("Net", ["App"]), ("Gui", ["App", "Tool"])] := by decide +kernel
  refine ⟨h, hlist ▸ (unknown_exact h).1, ?_⟩
  have hmodules : workshopModules.ByName := by decide
  obtain ⟨happ, hlib, -⟩ := searchRoot_workshop
  have hgone := searchRoot_gone_workshop
  have hfound : workshop.discover ["app", "gone", "lib"] .empty =
      .ok ["app/App.build", "lib/net/Net.build"]
        ⟨[⟨.warning, "Directory not found: gone", none, .unknown⟩]⟩ :=
    discover_cons_of_ok happ
      (discover_cons_of_missing hgone (discover_singleton hlib _))
  obtain ⟨-, -, -, hrun⟩ := unknown_exact hmodules
  obtain ⟨r, log', hr, hwarnings⟩ := hrun _ _ none .empty _ _ _ hfound (List.cons_ne_nil _ _)
    (loadAll_workshop _)
  refine ⟨r, log', hr, hwarnings.trans ?_⟩
  have hroots : ["app", "gone", "lib"].flatMap workshop.warningsOf =
      [⟨.warning, "Directory not found: gone", none, .unknown⟩] := by
    unfold warningsOf
    rw [List.flatMap_cons, List.flatMap_cons, List.flatMap_singleton, happ, hgone, hlib]
    rfl
  have hpairs : workshopModules.unknownPairs = [("App", "Zip")] := by decide +kernel
  rw [hroots, hpairs]
  decide +kernel

end

end Catalog

end BuildOrder
