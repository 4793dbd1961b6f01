/-
What the build order of any graph of declarations has, with cycles or without: each name once from
which no cycle can be reached, behind all that it needs, and no other name. So nothing is left out
exactly if the search finds no cycle.

A name is grounded if every walk from it comes to an end, and in a finite graph that is so exactly if
no walk from it enters a cycle: on the names that it reaches the dependencies then are a finite
relation without cycles, which is well-founded.
-/
import BuildOrder.Proofs.Dependency.Schedule
import Mathlib.Data.Fintype.Card
import Mathlib.Data.Set.Finite.Basic

namespace BuildOrder.Dependency.Graph

open Relation

variable {g : Graph}

/-! ## Walks into a cycle -/

/-- Following dependencies from `n` leads into a cycle. -/
def ReachesCycle (g : Graph) (n : String) : Prop :=
  ∃ m, ReflTransGen g.Needs n m ∧ TransGen g.Needs m m

theorem Grounded.of_reflTransGen {n m : String} (h : g.Grounded n) (hr : ReflTransGen g.Needs n m) :
    g.Grounded m := by
  induction hr with
  | refl => exact h
  | tail _ hd ih => exact ih.inv hd

/-- The names that following dependencies from `n` leads to. -/
abbrev Reached (g : Graph) (n : String) : Type := {m // ReflTransGen g.Needs n m}

theorem finite_reached (hg : g.WF) (n : String) : Finite (g.Reached n) := by
  have hsub : {m | ReflTransGen g.Needs n m} ⊆ {m | m ∈ n :: g.nodes} := by
    intro m hm
    rcases hm.cases_tail with rfl | ⟨k, -, hk⟩
    · exact List.mem_cons_self ..
    · exact List.mem_cons_of_mem _ (hg.right_mem k m hk)
  exact ((List.finite_toSet (n :: g.nodes)).subset hsub).to_subtype

theorem wellFounded_reached (hg : g.WF) {n : String} (h : ¬ g.ReachesCycle n) :
    WellFounded (TransGen fun a b : g.Reached n => g.Needs b.1 a.1) := by
  have := finite_reached hg n
  have hirrefl : Std.Irrefl (TransGen fun a b : g.Reached n => g.Needs b.1 a.1) := by
    constructor
    intro m hm
    have hcycle : TransGen g.Needs m.1 m.1 := (transGen_swap.1 hm).lift Subtype.val fun _ _ => id
    exact h ⟨m.1, m.2, hcycle⟩
  exact Finite.wellFounded_of_trans_of_irrefl _

theorem grounded_of_not_reachesCycle (hg : g.WF) {n : String} (h : ¬ g.ReachesCycle n) :
    g.Grounded n := by
  have hall : ∀ m : g.Reached n, g.Grounded m.1 := by
    intro m
    induction m using (wellFounded_reached hg h).induction with
    | _ m ih =>
      refine .intro fun d hd => ?_
      exact ih ⟨d, m.2.tail hd⟩ (.single hd)
  exact hall ⟨n, .refl⟩

/-- In a graph of declarations a name is grounded if and only if it reaches no cycle. -/
theorem grounded_iff_not_reachesCycle (hg : g.WF) {n : String} :
    g.Grounded n ↔ ¬ g.ReachesCycle n := by
  constructor
  · rintro h ⟨m, hnm, hm⟩
    exact (h.of_reflTransGen hnm).not_transGen hm
  · exact grounded_of_not_reachesCycle hg

/-! ## Nothing is left out without a cycle -/

theorem length_order_eq_iff (hg : g.WF) :
    g.order.length = g.nodes.length ↔ ∀ n ∈ g.nodes, g.Grounded n := by
  have hsub : g.order ⊆ g.nodes := fun n hn => ((mem_order_iff hg).1 hn).1
  have hsubperm := (nodup_order hg).subperm hsub
  constructor
  · intro hl n hn
    have hperm := hsubperm.perm_of_length_le (Nat.le_of_eq hl.symm)
    exact ((mem_order_iff hg).1 (hperm.mem_iff.2 hn)).2
  · intro hall
    have hsuper : g.nodes ⊆ g.order := fun n hn => (mem_order_iff hg).2 ⟨hn, hall n hn⟩
    exact Nat.le_antisymm hsubperm.length_le (hg.nodup.subperm hsuper).length_le

theorem findCycle_eq_none_iff (hg : g.WF) :
    g.findCycle = none ↔ ∀ n ∈ g.nodes, g.Grounded n := by
  constructor
  · intro h n _
    exact grounded_of_findCycle_eq_none hg h n
  · intro hall
    rw [← Option.not_isSome_iff_eq_none, findCycle_isSome_iff hg]
    rintro ⟨n, hn⟩
    obtain ⟨d, hd, -⟩ := TransGen.head'_iff.1 hn
    exact (hall n (hg.left_mem n d hd)).not_transGen hn

/-- Whatever is declared, with repetitions and cycles: a run comes to its end and releases only
names that wait; its order has each name once that reaches no cycle, behind all that it needs, and no
other name; and it has as many names as the graph if and only if the search finds no cycle. -/
theorem order_ofList (declarations : List (String × List String)) :
    let g : Graph := ofList declarations
    (∃ waiting, g.Trace g.order ⟨waiting, []⟩ []) ∧
    (∀ built s name due, g.Trace built s (name :: due) →
      name ∈ g.nodes ∧ name ∈ s.waiting.map (·.1)) ∧
    g.order.Nodup ∧
    (∀ n, n ∈ g.order ↔ n ∈ g.nodes ∧ ¬ g.ReachesCycle n) ∧
    g.Ordered g.order ∧
    (g.order.length = g.nodes.length ↔ g.findCycle = none) := by
  intro g
  have hg : g.WF := ofList_wf declarations
  refine ⟨g.trace_order, fun built s name due h => ⟨?_, h.mem_waiting hg⟩, nodup_order hg,
    fun n => ?_, ordered_order hg, ?_⟩
  · exact (h.progress hg).due_mem name (List.mem_cons_self ..)
  · rw [mem_order_iff hg, grounded_iff_not_reachesCycle hg]
  · rw [length_order_eq_iff hg, findCycle_eq_none_iff hg]

end BuildOrder.Dependency.Graph
