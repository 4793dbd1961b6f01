/-
A module that is put on top of a catalog: its name is new there, and neither the others nor itself
need it. The others are not disturbed: the same cycle is found, or the same build order, in which
only the new module and names that it brings along come in between.
-/
import BuildOrder.Proofs.Catalog.BuildOrder
import BuildOrder.Proofs.Dependency.Extension

namespace BuildOrder.Catalog

open Dependency

variable {c : Catalog} {m : Module}

/-- A module of a new name adds its declaration to the graph. -/
theorem graph_insert (hname : m.name ∉ c.names) :
    (c.insert m.name m).graph = c.graph.declare m.name m.dependencies := by
  have hmodules : (c.insert m.name m).modules = c.modules ++ [m] := by
    rw [modules, rows_insert hname, List.map_append]
    rfl
  rw [graph, hmodules, Graph.ofModules, List.map_append, Graph.ofList, List.foldl_append]
  rfl

theorem name_not_mem_nodes (h : c.ByName) (hname : m.name ∉ c.names)
    (hneeded : ∀ m' ∈ c.modules, m.name ∉ m'.dependencies) : m.name ∉ c.graph.nodes := by
  rw [mem_nodes_graph_iff h]
  rintro (hn | ⟨m', hm', hn⟩)
  · exact hname hn
  · exact hneeded m' hm' hn

/-- In a catalog whose modules stand under their own names, a module is put at the end whose name is
neither that of a module nor needed by any module, itself included. If a cycle was found before, the
same cycle is found; and if there was a build order, there is one, which without the new module and
those of its dependencies that are new names is the order that there was before. -/
theorem buildOrder_insert_top (h : c.ByName) (hname : m.name ∉ c.names)
    (hneeded : ∀ m' ∈ c.modules, m.name ∉ m'.dependencies) (hself : m.name ∉ m.dependencies) :
    (c.insert m.name m).rows = c.rows ++ [(m.name, m)] ∧
    (∀ cycle, c.buildOrder = .error cycle → (c.insert m.name m).buildOrder = .error cycle) ∧
    ∀ names, c.buildOrder = .ok names → ∃ names', (c.insert m.name m).buildOrder = .ok names' ∧
      names'.filter (fun n => ¬ (n = m.name ∨ n ∈ m.dependencies ∧ n ∉ c.graph.nodes)) = names := by
  have hg := c.graph_wf
  have hg' := hg.declare m.name m.dependencies
  have hnode := name_not_mem_nodes h hname hneeded
  have hext := Graph.extends_declare hnode m.dependencies
  refine ⟨rows_insert hname m, fun cycle hc => ?_, fun names ho => ?_⟩
  · unfold buildOrder at hc ⊢
    rw [graph_insert hname]
    cases hf : c.graph.findCycle with
    | none =>
      rw [hf] at hc
      cases hc
    | some cycle' =>
      rw [hf] at hc
      rw [hext.findCycle_eq_some hg hg' hf]
      exact hc
  · unfold buildOrder at ho ⊢
    rw [graph_insert hname]
    cases hf : c.graph.findCycle with
    | some cycle =>
      rw [hf] at ho
      cases ho
    | none =>
      rw [hf] at ho
      cases ho
      rw [Graph.findCycle_declare_eq_none hg hnode hself hf]
      refine ⟨_, rfl, ?_⟩
      rw [← hext.filter_order hg hg']
      refine List.filter_congr fun n hn => decide_eq_decide.2 ?_
      have hn' := ((Graph.mem_order_iff hg').1 hn).1
      rw [Graph.mem_nodes_declare] at hn'
      constructor
      · intro hout
        by_contra hno
        rcases hn' with hn' | hn' | hn'
        · exact hno hn'
        · exact hout (.inl hn')
        · exact hout (.inr ⟨hn', hno⟩)
      · rintro hmem (rfl | ⟨-, hno⟩)
        · exact hnode hmem
        · exact hno hmem

/-- Two modules, of which the first one needs the second. -/
def pair : Catalog where
  rows := [
    ("App", { name := "App", directory := ".", dependencies := ["Net"] }),
    ("Net", { name := "Net", directory := "." })]
  nodup := by decide

/-- A module that needs a name of theirs and a new one. -/
def tool : Module := { name := "Tool", directory := ".", dependencies := ["Zip", "Net"] }

/-- The new name that a module brings along comes in between. -/
theorem buildOrder_insert_top_tool :
    (pair.ByName ∧ tool.name ∉ pair.names ∧ (∀ m ∈ pair.modules, tool.name ∉ m.dependencies) ∧
      tool.name ∉ tool.dependencies) ∧
    pair.buildOrder = .ok ["Net", "App"] ∧
    (pair.insert tool.name tool).buildOrder = .ok ["Net", "Zip", "App", "Tool"] ∧
    ["Net", "Zip", "App", "Tool"].filter (fun n =>
      ¬ (n = tool.name ∨ n ∈ tool.dependencies ∧ n ∉ pair.graph.nodes)) = ["Net", "App"] := by
  have h : pair.ByName := by decide
  have hname : tool.name ∉ pair.names := by decide
  have hneeded : ∀ m ∈ pair.modules, tool.name ∉ m.dependencies := by decide
  have hself : tool.name ∉ tool.dependencies := by decide
  have horder : pair.buildOrder = .ok ["Net", "App"] :=
    buildOrder_of_length (by decide +kernel) (by decide)
  have horder' : (pair.insert tool.name tool).buildOrder = .ok ["Net", "Zip", "App", "Tool"] :=
    buildOrder_of_length (by decide +kernel) (by decide)
  obtain ⟨-, -, hok⟩ := buildOrder_insert_top h hname hneeded hself
  obtain ⟨names', hn, hfilter⟩ := hok _ horder
  obtain rfl := Except.ok.inj (horder'.symm.trans hn)
  exact ⟨⟨h, hname, hneeded, hself⟩, horder, horder', hfilter⟩

end BuildOrder.Catalog
