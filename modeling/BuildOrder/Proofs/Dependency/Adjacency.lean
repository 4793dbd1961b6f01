/-
The lists of a dependency graph after any declarations: what each name needs, what needs it, and
the names themselves. The two directions of the edges mirror each other with multiplicity, names
are listed once, and both ends of an edge are names of the graph.

Each declaration is followed through the three lists by one equation; the mirror is an invariant of
one declaration and so of any run of them.
-/
import BuildOrder.Dependency.Graph
import Mathlib.Data.List.Nodup

namespace BuildOrder.Dependency

/-! ## New names at the end of a list -/

@[simp] theorem mem_insertNew {x y : String} {xs : List String} :
    y ∈ insertNew x xs ↔ y ∈ xs ∨ y = x := by
  unfold insertNew
  split
  · rename_i h
    constructor
    · exact Or.inl
    · rintro (hy | rfl)
      · exact hy
      · exact h
  · simp

theorem nodup_insertNew {x : String} {xs : List String} (h : xs.Nodup) : (insertNew x xs).Nodup := by
  unfold insertNew
  split
  · exact h
  · rename_i hx
    rw [← List.concat_eq_append]
    exact h.concat hx

theorem mem_insertAll {y : String} (names xs : List String) :
    y ∈ names.foldl (fun xs x => insertNew x xs) xs ↔ y ∈ xs ∨ y ∈ names := by
  induction names generalizing xs with
  | nil => simp
  | cons x names ih => rw [List.foldl_cons, ih, mem_insertNew, List.mem_cons, or_assoc]

theorem nodup_insertAll (names : List String) {xs : List String} (h : xs.Nodup) :
    (names.foldl (fun xs x => insertNew x xs) xs).Nodup := by
  induction names generalizing xs with
  | nil => exact h
  | cons x names ih => exact ih (nodup_insertNew h)

theorem eraseDups_concat (xs : List String) (x : String) :
    (xs ++ [x]).eraseDups = insertNew x xs.eraseDups := by
  rw [List.eraseDups_append]
  unfold insertNew
  by_cases h : x ∈ xs
  · simp [List.removeAll, h]
  · simp [List.removeAll, h, List.eraseDups_cons]

/-- Names that are put in one by one stand in the order in which they come first. -/
theorem insertAll_eraseDups (names xs : List String) :
    names.foldl (fun xs x => insertNew x xs) xs.eraseDups = (xs ++ names).eraseDups := by
  induction names generalizing xs with
  | nil => rw [List.foldl_nil, List.append_nil]
  | cons x names ih => rw [List.foldl_cons, ← eraseDups_concat, ih, List.append_assoc]; rfl

namespace Graph

/-! ## One declaration -/

theorem dependenciesOf_addEdge (g : Graph) (name dep n : String) :
    (g.addEdge name dep).dependenciesOf n =
      if n = name then g.dependenciesOf n ++ [dep] else g.dependenciesOf n :=
  Rows.get_add ..

theorem dependentsOf_addEdge (g : Graph) (name dep d : String) :
    (g.addEdge name dep).dependentsOf d =
      if d = dep then g.dependentsOf d ++ [name] else g.dependentsOf d :=
  Rows.get_add ..

theorem nodes_addEdges (g : Graph) (name : String) (deps : List String) :
    (deps.foldl (fun g dep => g.addEdge name dep) g).nodes =
      deps.foldl (fun xs x => insertNew x xs) g.nodes := by
  induction deps generalizing g with
  | nil => rfl
  | cons dep deps ih => rw [List.foldl_cons, ih]; rfl

theorem dependenciesOf_addEdges (g : Graph) (name : String) (deps : List String) (n : String) :
    (deps.foldl (fun g dep => g.addEdge name dep) g).dependenciesOf n =
      g.dependenciesOf n ++ if n = name then deps else [] := by
  induction deps generalizing g with
  | nil => simp
  | cons dep deps ih =>
    rw [List.foldl_cons, ih, dependenciesOf_addEdge]
    split <;> simp

theorem dependentsOf_addEdges (g : Graph) (name : String) (deps : List String) (d : String) :
    (deps.foldl (fun g dep => g.addEdge name dep) g).dependentsOf d =
      g.dependentsOf d ++ List.replicate (deps.count d) name := by
  induction deps generalizing g with
  | nil => simp
  | cons dep deps ih =>
    rw [List.foldl_cons, ih, dependentsOf_addEdge, List.count_cons]
    by_cases h : d = dep
    · simp [h, List.replicate_succ]
    · simp [h, Ne.symm h]

theorem nodes_declare (g : Graph) (name : String) (deps : List String) :
    (g.declare name deps).nodes = (name :: deps).foldl (fun xs x => insertNew x xs) g.nodes :=
  nodes_addEdges ..

theorem dependenciesOf_declare (g : Graph) (name : String) (deps : List String) (n : String) :
    (g.declare name deps).dependenciesOf n =
      g.dependenciesOf n ++ if n = name then deps else [] :=
  dependenciesOf_addEdges ..

theorem dependentsOf_declare (g : Graph) (name : String) (deps : List String) (d : String) :
    (g.declare name deps).dependentsOf d =
      g.dependentsOf d ++ List.replicate (deps.count d) name :=
  dependentsOf_addEdges ..

/-! ## The mirror -/

/-- `n` declares that it needs `d`. -/
def Needs (g : Graph) (n d : String) : Prop := d ∈ g.dependenciesOf n

/-- The invariant of graphs made by declarations: names are listed once, an edge stands as often in
the list of what its first name needs as in the list of what needs its second, and both names are
listed. -/
structure WF (g : Graph) : Prop where
  nodup : g.nodes.Nodup
  mirror : ∀ n d, (g.dependenciesOf n).count d = (g.dependentsOf d).count n
  left_mem : ∀ n d, g.Needs n d → n ∈ g.nodes
  right_mem : ∀ n d, g.Needs n d → d ∈ g.nodes

theorem WF.needs_iff {g : Graph} (h : g.WF) {n d : String} :
    g.Needs n d ↔ n ∈ g.dependentsOf d := by
  rw [Needs, ← List.count_pos_iff, h.mirror, List.count_pos_iff]

theorem empty_wf : empty.WF where
  nodup := List.nodup_nil
  mirror _ _ := rfl
  left_mem _ _ h := by cases h
  right_mem _ _ h := by cases h

theorem needs_declare {g : Graph} {name : String} {deps : List String} {n d : String} :
    (g.declare name deps).Needs n d ↔ g.Needs n d ∨ n = name ∧ d ∈ deps := by
  unfold Needs
  rw [dependenciesOf_declare, List.mem_append]
  split
  · rename_i h; simp [h]
  · rename_i h; simp [h]

theorem mem_nodes_declare {g : Graph} {name : String} {deps : List String} {n : String} :
    n ∈ (g.declare name deps).nodes ↔ n ∈ g.nodes ∨ n = name ∨ n ∈ deps := by
  rw [nodes_declare, mem_insertAll, List.mem_cons]

/-- A declaration keeps the invariant, also that of a name which is there already. -/
theorem WF.declare {g : Graph} (h : g.WF) (name : String) (deps : List String) :
    (g.declare name deps).WF where
  nodup := by rw [nodes_declare]; exact nodup_insertAll _ h.nodup
  mirror n d := by
    rw [dependenciesOf_declare, dependentsOf_declare, List.count_append, List.count_append,
      h.mirror n d, List.count_replicate]
    by_cases hn : n = name
    · simp [hn]
    · simp [hn, Ne.symm hn]
  left_mem n d hd := by
    rw [mem_nodes_declare]
    rcases needs_declare.1 hd with hd | ⟨hn, -⟩
    · exact .inl (h.left_mem n d hd)
    · exact .inr (.inl hn)
  right_mem n d hd := by
    rw [mem_nodes_declare]
    rcases needs_declare.1 hd with hd | ⟨-, hd⟩
    · exact .inl (h.right_mem n d hd)
    · exact .inr (.inr hd)

/-! ## Any run of declarations -/

theorem foldl_declare_wf {g : Graph} (h : g.WF) (ds : List (String × List String)) :
    (ds.foldl (fun g d => g.declare d.1 d.2) g).WF := by
  induction ds generalizing g with
  | nil => exact h
  | cons d ds ih => exact ih (h.declare d.1 d.2)

theorem ofList_wf (ds : List (String × List String)) : (ofList ds).WF := foldl_declare_wf empty_wf ds

theorem needs_foldl_declare (g : Graph) (ds : List (String × List String)) (n d : String) :
    (ds.foldl (fun g d => g.declare d.1 d.2) g).Needs n d ↔
      g.Needs n d ∨ ∃ e ∈ ds, e.1 = n ∧ d ∈ e.2 := by
  induction ds generalizing g with
  | nil => simp
  | cons e ds ih =>
    rw [List.foldl_cons, ih, needs_declare, or_assoc]
    simp [eq_comm]

/-- The edges of a graph are those that were declared. -/
theorem needs_ofList {ds : List (String × List String)} {n d : String} :
    (ofList ds).Needs n d ↔ ∃ e ∈ ds, e.1 = n ∧ d ∈ e.2 := by
  unfold ofList
  rw [needs_foldl_declare]
  simp [Needs, dependenciesOf, empty]

theorem dependenciesOf_foldl_declare (g : Graph) (ds : List (String × List String)) (n : String) :
    (ds.foldl (fun g d => g.declare d.1 d.2) g).dependenciesOf n =
      g.dependenciesOf n ++ ds.flatMap fun e => if n = e.1 then e.2 else [] := by
  induction ds generalizing g with
  | nil => simp
  | cons e ds ih =>
    rw [List.foldl_cons, ih, dependenciesOf_declare, List.flatMap_cons, List.append_assoc]

/-- A name needs all that is declared under it, in the order of the declarations. -/
theorem dependenciesOf_ofList (ds : List (String × List String)) (n : String) :
    (ofList ds).dependenciesOf n = ds.flatMap fun e => if n = e.1 then e.2 else [] := by
  unfold ofList
  rw [dependenciesOf_foldl_declare]
  rfl

/-- What a name needs is what the declarations under this name list. -/
theorem dependenciesOf_ofList_filter (ds : List (String × List String)) (n : String) :
    (ofList ds).dependenciesOf n = (ds.filter (·.1 = n)).flatMap (·.2) := by
  rw [dependenciesOf_ofList]
  induction ds with
  | nil => rfl
  | cons e ds ih =>
    rw [List.flatMap_cons, ih, List.filter_cons]
    by_cases h : n = e.1
    · rw [if_pos h, if_pos (by simpa using h.symm), List.flatMap_cons]
    · rw [if_neg h, if_neg (by simpa using Ne.symm h), List.nil_append]

theorem dependentsOf_foldl_declare (g : Graph) (ds : List (String × List String)) (d : String) :
    (ds.foldl (fun g d => g.declare d.1 d.2) g).dependentsOf d =
      g.dependentsOf d ++ ds.flatMap fun e => List.replicate (e.2.count d) e.1 := by
  induction ds generalizing g with
  | nil => simp
  | cons e ds ih =>
    rw [List.foldl_cons, ih, dependentsOf_declare, List.flatMap_cons, List.append_assoc]

/-- A name is needed by all that declare it, in the order of the declarations and as often as they
declare it. -/
theorem dependentsOf_ofList (ds : List (String × List String)) (d : String) :
    (ofList ds).dependentsOf d = ds.flatMap fun e => List.replicate (e.2.count d) e.1 := by
  unfold ofList
  rw [dependentsOf_foldl_declare]
  rfl

theorem nodes_foldl_declare (g : Graph) (ds : List (String × List String)) :
    (ds.foldl (fun g d => g.declare d.1 d.2) g).nodes =
      (ds.flatMap fun e => e.1 :: e.2).foldl (fun xs x => insertNew x xs) g.nodes := by
  induction ds generalizing g with
  | nil => rfl
  | cons e ds ih =>
    rw [List.foldl_cons, ih, nodes_declare, List.flatMap_cons, List.foldl_append]

/-- The names of a graph stand in the order of their first mention, where a declaration mentions its
own name first. -/
theorem nodes_ofList (ds : List (String × List String)) :
    (ofList ds).nodes = (ds.flatMap fun e => e.1 :: e.2).eraseDups := by
  unfold ofList
  rw [nodes_foldl_declare]
  exact insertAll_eraseDups _ []

theorem mem_nodes_foldl_declare (g : Graph) (ds : List (String × List String)) (n : String) :
    n ∈ (ds.foldl (fun g d => g.declare d.1 d.2) g).nodes ↔
      n ∈ g.nodes ∨ ∃ e ∈ ds, n = e.1 ∨ n ∈ e.2 := by
  induction ds generalizing g with
  | nil => simp
  | cons e ds ih =>
    rw [List.foldl_cons, ih, mem_nodes_declare, or_assoc]
    simp

/-- The names of a graph are those that declare something or are needed. -/
theorem mem_nodes_ofList {ds : List (String × List String)} {n : String} :
    n ∈ (ofList ds).nodes ↔ ∃ e ∈ ds, n = e.1 ∨ n ∈ e.2 := by
  unfold ofList
  rw [mem_nodes_foldl_declare]
  simp [empty]

/-- Whatever is declared, with repetitions: the names of the graph stand in the order of their first
mention; a name needs all that is declared under it, in the order of the declarations; it is needed by
all that declare it, in that order and as often as they do. So the two directions mirror each other with
multiplicity, and only names of the graph stand in their lists. -/
theorem adjacency_ofList (declarations : List (String × List String)) :
    let g : Graph := ofList declarations
    g.nodes = (declarations.flatMap fun e => e.1 :: e.2).eraseDups ∧
    (∀ n, g.dependenciesOf n = (declarations.filter (·.1 = n)).flatMap (·.2)) ∧
    (∀ d, g.dependentsOf d = declarations.flatMap fun e => List.replicate (e.2.count d) e.1) ∧
    (∀ n d, (g.dependenciesOf n).count d = (g.dependentsOf d).count n) ∧
    ∀ n, (∀ d ∈ g.dependenciesOf n, d ∈ g.nodes) ∧ ∀ u ∈ g.dependentsOf n, u ∈ g.nodes := by
  intro g
  have hg : g.WF := ofList_wf declarations
  refine ⟨nodes_ofList declarations, dependenciesOf_ofList_filter declarations,
    dependentsOf_ofList declarations, hg.mirror, fun n => ⟨hg.right_mem n, fun u hu => ?_⟩⟩
  exact hg.left_mem u n (hg.needs_iff.2 hu)

end Graph

end BuildOrder.Dependency
