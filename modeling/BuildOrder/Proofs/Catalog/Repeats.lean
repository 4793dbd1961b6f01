/-
Dependencies that a module declares more than once. In a catalog whose modules stand under their own
names they count as if they were declared once, where they are declared first: the cycle that is
found, the build order and the unknown names with their users are all the same.

Each module of such a catalog makes its declarations at one time, so in the list of what needs a name
the places of one module stand together, in the order of the modules. That is what the order depends
on; a name that declared its needs in two turns could change places by a repetition.
-/
import BuildOrder.Proofs.Catalog.Unknown
import BuildOrder.Proofs.Dependency.Repeats

namespace BuildOrder

open Dependency

/-! ## First occurrences of parts -/

theorem eraseDups_eraseDups (xs : List String) : xs.eraseDups.eraseDups = xs.eraseDups := by
  induction xs using List.reverseRecOn with
  | nil => rfl
  | append_singleton xs x ih =>
    rw [eraseDups_concat]
    unfold insertNew
    split
    · exact ih
    · rename_i hx
      rw [eraseDups_concat, ih, insertNew, if_neg hx]

/-- Lists that are put together have the same first occurrences if their parts have. -/
theorem eraseDups_flatMap_congr {α : Type} {xs : List α} {f f' : α → List String}
    (h : ∀ x ∈ xs, (f x).eraseDups = (f' x).eraseDups) :
    (xs.flatMap f).eraseDups = (xs.flatMap f').eraseDups := by
  induction xs with
  | nil => rfl
  | cons x xs ih =>
    rw [List.forall_mem_cons] at h
    have hmem : ∀ n, n ∈ f x ↔ n ∈ f' x := fun n => by
      rw [← List.mem_eraseDups, h.1, List.mem_eraseDups]
    have hrest : ∀ ys : List String, ys.removeAll (f x) = ys.removeAll (f' x) := fun ys =>
      List.filter_congr fun n _ => by simp [hmem]
    have hfirst : ∀ ys : List String, (ys.removeAll (f' x)).eraseDups =
        ys.eraseDups.removeAll (f' x) := fun ys => eraseDups_filter _ ys
    rw [List.flatMap_cons, List.flatMap_cons, List.eraseDups_append, List.eraseDups_append, hrest,
      h.1, hfirst, hfirst, ih h.2]

theorem eraseDups_cons_eraseDups (x : String) (xs : List String) :
    (x :: xs.eraseDups).eraseDups = (x :: xs).eraseDups := by
  rw [List.eraseDups_cons, List.eraseDups_cons, eraseDups_filter, eraseDups_filter,
    eraseDups_eraseDups]

/-! ## Declaring once -/

/-- The module that declares each of its dependencies once, where it declares it first. -/
def Module.declaringOnce (m : Module) : Module :=
  { m with dependencies := m.dependencies.eraseDups }

namespace Catalog

/-- The catalog whose modules declare each of their dependencies once. -/
def declaringOnce (c : Catalog) : Catalog where
  rows := c.rows.map fun row => (row.1, row.2.declaringOnce)
  nodup := by
    rw [List.map_map]
    exact c.nodup

variable {c : Catalog}

theorem names_declaringOnce (c : Catalog) : c.declaringOnce.names = c.names := by
  simp [names, declaringOnce]

theorem modules_declaringOnce (c : Catalog) :
    c.declaringOnce.modules = c.modules.map Module.declaringOnce := by
  simp [modules, declaringOnce]

theorem ByName.declaringOnce (h : c.ByName) : c.declaringOnce.ByName := by
  intro row hr
  obtain ⟨old, hm, rfl⟩ := List.mem_map.1 hr
  exact h old hm

/-! ## The graph -/

theorem nodes_graph_declaringOnce (c : Catalog) : c.declaringOnce.graph.nodes = c.graph.nodes := by
  rw [nodes_graph, nodes_graph, modules_declaringOnce, List.flatMap_map]
  exact eraseDups_flatMap_congr fun m _ => eraseDups_cons_eraseDups m.name m.dependencies

theorem lookup_declaringOnce (rows : List (String × Module)) (name : String) :
    (rows.map fun row => (row.1, row.2.declaringOnce)).lookup name =
      (rows.lookup name).map Module.declaringOnce := by
  induction rows with
  | nil => rfl
  | cons row rows ih =>
    rw [List.map_cons, List.lookup_cons, List.lookup_cons, ih]
    split <;> rfl

theorem dependenciesOf_graph_declaringOnce (h : c.ByName) (name : String) :
    c.declaringOnce.graph.dependenciesOf name = (c.graph.dependenciesOf name).eraseDups := by
  have hget : c.declaringOnce.get? name = (c.get? name).map Module.declaringOnce :=
    lookup_declaringOnce c.rows name
  rw [dependenciesOf_graph h.declaringOnce, dependenciesOf_graph h, declared, declared, hget]
  cases c.get? name <;> rfl

theorem needs_graph_declaringOnce (h : c.ByName) :
    c.declaringOnce.graph.Needs = c.graph.Needs := by
  funext n d
  unfold Graph.Needs
  rw [dependenciesOf_graph_declaringOnce h, List.mem_eraseDups]

/-- The modules that need a name stand in the order of the catalog, each as often as it needs it. -/
theorem ranked_graph (h : c.ByName) : c.graph.Ranked c.names.idxOf where
  pairwise t := by
    have hnames : (c.modules.map (·.name)).Pairwise fun a b => c.names.idxOf a ≤ c.names.idxOf b := by
      rw [← h.names_eq]
      refine List.pairwise_iff_getElem.2 fun i j hi hj hij => ?_
      have hnd : c.names.Nodup := c.nodup
      rw [hnd.idxOf_getElem, hnd.idxOf_getElem]
      exact Nat.le_of_lt hij
    rw [dependentsOf_graph, List.pairwise_flatMap]
    refine ⟨fun m _ => List.pairwise_replicate.2 (.inr (Nat.le_refl _)), ?_⟩
    refine (List.pairwise_map.1 hnames).imp fun hle a ha b hb => ?_
    rwa [List.eq_of_mem_replicate ha, List.eq_of_mem_replicate hb]
  inj t u hu v _ he := by
    rw [dependentsOf_graph, List.mem_flatMap] at hu
    obtain ⟨m, hm, hu⟩ := hu
    obtain rfl := List.eq_of_mem_replicate hu
    exact (List.idxOf_inj (h.names_eq ▸ List.mem_map_of_mem hm)).1 he

theorem order_graph_declaringOnce (h : c.ByName) :
    c.declaringOnce.graph.order = c.graph.order := by
  have hg := c.graph_wf
  have hg' := c.declaringOnce.graph_wf
  have hr := ranked_graph h
  have hr' := ranked_graph h.declaringOnce
  rw [names_declaringOnce] at hr'
  have hrule := (Graph.tieBreak_order hg).of_needs_eq hg hg' (nodes_graph_declaringOnce c)
    (needs_graph_declaringOnce h) hr hr'
  exact (Graph.tieBreak_order hg').eq hg' hrule

/-! ## What is found -/

theorem buildOrder_declaringOnce (h : c.ByName) : c.declaringOnce.buildOrder = c.buildOrder := by
  unfold buildOrder
  rw [Graph.findCycle_eq_of_eraseDups c.graph_wf (nodes_graph_declaringOnce c)
    (dependenciesOf_graph_declaringOnce h), order_graph_declaringOnce h]

theorem needed_declaringOnce (c : Catalog) :
    c.declaringOnce.needed.eraseDups = c.needed.eraseDups := by
  unfold needed
  rw [modules_declaringOnce, List.flatMap_map]
  exact eraseDups_flatMap_congr fun m _ => eraseDups_eraseDups m.dependencies

theorem usersOf_declaringOnce (c : Catalog) (name : String) :
    c.declaringOnce.usersOf name = c.usersOf name := by
  unfold usersOf
  rw [modules_declaringOnce, List.filter_map, List.map_map]
  refine congrArg (List.map _) (List.filter_congr fun m _ => decide_eq_decide.2 ?_)
  exact List.mem_eraseDups

theorem unknownNames_declaringOnce (h : c.ByName) :
    c.declaringOnce.unknownNames c.declaringOnce.graph = c.unknownNames c.graph := by
  rw [unknownNames_graph h.declaringOnce, unknownNames_graph h, needed_declaringOnce]
  unfold contains
  simp only [names_declaringOnce, usersOf_declaringOnce]

/-- In a catalog whose modules stand under their own names, repeated declarations have no effect: if
each module declares each of its dependencies once, where it declares it first, there is the same
build order, or the same cycle, and the same unknown names with the same users, in the same order. -/
theorem repeats_irrelevant (h : c.ByName) :
    c.declaringOnce.buildOrder = c.buildOrder ∧
      c.declaringOnce.unknownNames c.declaringOnce.graph = c.unknownNames c.graph :=
  ⟨buildOrder_declaringOnce h, unknownNames_declaringOnce h⟩

/-- Two modules that declare the same again and again, the first one also with another between. -/
def insistent : Catalog where
  rows := [
    ("App", { name := "App", directory := ".", dependencies := ["Net", "Tool", "Net"] }),
    ("Tool", { name := "Tool", directory := ".", dependencies := ["Net", "Net"] })]
  nodup := by decide

theorem repeats_irrelevant_insistent :
    insistent.ByName ∧ insistent.declaringOnce.buildOrder = .ok ["Net", "Tool", "App"] ∧
      insistent.declaringOnce.unknownNames insistent.declaringOnce.graph =
        [("Net", ["App", "Tool"])] := by
  have h : insistent.ByName := by decide
  have horder : insistent.buildOrder = .ok ["Net", "Tool", "App"] :=
    buildOrder_of_length (by decide +kernel) (by decide)
  have hunknown : insistent.unknownNames insistent.graph = [("Net", ["App", "Tool"])] := by
    decide +kernel
  obtain ⟨hsame, hsame'⟩ := repeats_irrelevant h
  exact ⟨h, hsame.trans horder, hsame'.trans hunknown⟩

end Catalog

end BuildOrder
