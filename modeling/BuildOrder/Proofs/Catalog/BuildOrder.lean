/-
The gate that a catalog of modules passes before it is built. It answers a cycle exactly if the
declared dependencies have one, and the answer is then a cycle of them; else it answers a build
order, which has the name of each module and of each declared dependency once and nothing else, and
in which every module comes behind all that it needs.
-/
import BuildOrder.Catalog.Dependencies
import BuildOrder.Proofs.Catalog.Names
import BuildOrder.Proofs.Dependency.Leftover

namespace BuildOrder.Catalog

open Dependency Relation

/-! ## Declared dependencies -/

/-- A module of the name declares that it needs `dep`. -/
def Needs (c : Catalog) (name dep : String) : Prop :=
  ∃ m ∈ c.modules, m.name = name ∧ dep ∈ m.dependencies

theorem graph_wf (c : Catalog) : c.graph.WF := Graph.ofList_wf _

theorem needs_graph (c : Catalog) : c.graph.Needs = c.Needs := by
  funext n d
  unfold Needs graph Graph.ofModules
  rw [Graph.needs_ofList]
  simp

theorem mem_nodes_graph {c : Catalog} {n : String} :
    n ∈ c.graph.nodes ↔ ∃ m ∈ c.modules, m.name = n ∨ n ∈ m.dependencies := by
  unfold graph Graph.ofModules
  rw [Graph.mem_nodes_ofList]
  simp [eq_comm]

/-- What the module of a name declares that it needs; a name without a module declares nothing. -/
def declared (c : Catalog) (name : String) : List String :=
  ((c.get? name).map (·.dependencies)).getD []

theorem flatMap_declared {rows : List (String × Module)} (h : (rows.map (·.1)).Nodup)
    (name : String) :
    (rows.flatMap fun row => if name = row.1 then row.2.dependencies else []) =
      ((rows.lookup name).map (·.dependencies)).getD [] := by
  induction rows with
  | nil => rfl
  | cons row rows ih =>
    rw [List.map_cons, List.nodup_cons] at h
    rw [List.flatMap_cons, List.lookup_cons]
    by_cases hn : name = row.1
    · -- the name has no other row
      have hrest : rows.flatMap (fun row => if name = row.1 then row.2.dependencies else []) = [] := by
        rw [List.flatMap_eq_nil_iff]
        intro row' hm
        rw [if_neg]
        rintro rfl
        exact h.1 (hn ▸ List.mem_map_of_mem hm)
      rw [hrest, if_pos hn]
      simp [hn]
    · rw [if_neg hn, ih h.2, beq_eq_false_iff_ne.2 hn]
      rfl

/-- Where every module stands under its own name, the graph has the list that a module declares as
it is. -/
theorem dependenciesOf_graph {c : Catalog} (h : c.ByName) (name : String) :
    c.graph.dependenciesOf name = c.declared name := by
  unfold graph Graph.ofModules declared get?
  rw [Graph.dependenciesOf_ofList, ← flatMap_declared c.nodup, modules, List.map_map,
    List.flatMap_map]
  refine List.flatMap_congr fun row hr => ?_
  rw [Function.comp_apply, h row hr]

theorem mem_nodes_graph_iff {c : Catalog} (h : c.ByName) {name : String} :
    name ∈ c.graph.nodes ↔ name ∈ c.names ∨ ∃ m ∈ c.modules, name ∈ m.dependencies := by
  rw [mem_nodes_graph, h.names_eq, List.mem_map]
  constructor
  · rintro ⟨m, hm, hn | hn⟩
    · exact .inl ⟨m, hm, hn⟩
    · exact .inr ⟨m, hm, hn⟩
  · rintro (⟨m, hm, hn⟩ | ⟨m, hm, hn⟩)
    · exact ⟨m, hm, .inl hn⟩
    · exact ⟨m, hm, .inr hn⟩

/-! ## The gate -/

/-- A build order for the modules of a catalog. -/
structure IsBuildOrder (c : Catalog) (names : List String) : Prop where
  nodup : names.Nodup
  mem_iff : ∀ n, n ∈ names ↔ ∃ m ∈ c.modules, m.name = n ∨ n ∈ m.dependencies
  before : ∀ m ∈ c.modules, ∀ d ∈ m.dependencies, names.idxOf d < names.idxOf m.name

theorem isCycle_of_buildOrder {c : Catalog} {cycle : List String}
    (h : c.buildOrder = .error cycle) : IsCycle c.Needs cycle := by
  unfold buildOrder at h
  split at h
  · rename_i names hf
    cases h
    rw [← needs_graph]
    exact Graph.isCycle_of_findCycle c.graph_wf hf
  · cases h

theorem grounded_of_buildOrder {c : Catalog} {names : List String} (h : c.buildOrder = .ok names)
    (n : String) : c.graph.Grounded n := by
  unfold buildOrder at h
  split at h
  · cases h
  · rename_i hf
    exact Graph.grounded_of_findCycle_eq_none c.graph_wf hf n

theorem isBuildOrder_of_buildOrder {c : Catalog} {names : List String}
    (h : c.buildOrder = .ok names) : c.IsBuildOrder names := by
  have hg := grounded_of_buildOrder h
  obtain rfl : c.graph.order = names := by
    unfold buildOrder at h
    split at h <;> cases h
    rfl
  have hmem : ∀ n, n ∈ c.graph.order ↔ ∃ m ∈ c.modules, m.name = n ∨ n ∈ m.dependencies := by
    intro n
    rw [Graph.mem_order_iff c.graph_wf, mem_nodes_graph, and_iff_left (hg n)]
  refine ⟨Graph.nodup_order c.graph_wf, hmem, fun m hm d hd => ?_⟩
  refine (Graph.ordered_order c.graph_wf).idxOf_lt ((hmem _).2 ⟨m, hm, .inl rfl⟩) ?_
  rw [needs_graph]
  exact ⟨m, hm, rfl, hd⟩

/-- An order with as many names as the graph is the build order. -/
theorem buildOrder_of_length {c : Catalog} {names : List String} (h : c.graph.order = names)
    (hlength : names.length = c.graph.nodes.length) : c.buildOrder = .ok names := by
  have hnone : c.graph.findCycle = none := by
    rw [Graph.findCycle_eq_none_iff c.graph_wf, ← Graph.length_order_eq_iff c.graph_wf, h, hlength]
  unfold buildOrder
  rw [hnone, h]

/-- The gate answers a cycle if and only if the declared dependencies have one, and it always
answers rightly: a cycle of declared dependencies, or a build order. -/
theorem buildOrder_sound_complete (c : Catalog) :
    ((∃ cycle, c.buildOrder = .error cycle) ↔ ∃ n, TransGen c.Needs n n) ∧
      match c.buildOrder with
      | .error cycle => IsCycle c.Needs cycle
      | .ok names => c.IsBuildOrder names := by
  cases h : c.buildOrder with
  | error cycle =>
    have hc := isCycle_of_buildOrder h
    exact ⟨⟨fun _ => hc.transGen, fun _ => ⟨cycle, rfl⟩⟩, hc⟩
  | ok names =>
    refine ⟨⟨fun ⟨_, he⟩ => (by cases he), fun ⟨n, hn⟩ => ?_⟩, isBuildOrder_of_buildOrder h⟩
    rw [← needs_graph] at hn
    exact absurd hn (grounded_of_buildOrder h n).not_transGen

end BuildOrder.Catalog
