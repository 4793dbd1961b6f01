/-
Graphs that extend others. The larger graph has the names of the smaller one in front, each with the
same dependencies, and what needs them in addition are new names, which stand behind the old ones in
the edges back. Then the new names are invisible to the old ones: a cycle that is found in the
smaller graph is found in the larger one, and the old names stand in the same build order.

No walk along dependencies leads from an old name to a new one. So the search has done with the old
names before it comes to a new one, and up to there both searches make the same steps. For the build
order the two runs do not make the same steps, as new names are released between the old ones; but
without them the larger order keeps to the rule of the smaller graph, as no other arrangement does.
-/
import BuildOrder.Proofs.Dependency.TieBreak

namespace BuildOrder.Dependency

/-! ## Lists -/

theorem insertAll_prefix (names xs : List String) :
    xs <+: names.foldl (fun xs x => insertNew x xs) xs := by
  induction names generalizing xs with
  | nil => exact List.prefix_refl xs
  | cons x names ih =>
    refine List.IsPrefix.trans ?_ (ih (insertNew x xs))
    unfold insertNew
    split
    · exact List.prefix_refl xs
    · exact List.prefix_append xs [x]

/-- Names that are kept stay in their order. -/
theorem idxOf_filter_lt_iff {p : String → Bool} {u v : String} (hu : p u) (hv : p v)
    (names : List String) :
    (names.filter p).idxOf u < (names.filter p).idxOf v ↔ names.idxOf u < names.idxOf v := by
  induction names with
  | nil => rfl
  | cons n names ih =>
    by_cases hn : p n
    · rw [List.filter_cons_of_pos hn]
      by_cases hnu : n = u
      · subst hnu
        by_cases hnv : n = v
        · simp [hnv]
        · simp [List.idxOf_cons_ne _ hnv]
      · by_cases hnv : n = v
        · simp [hnv]
        · simpa [List.idxOf_cons_ne _ hnu, List.idxOf_cons_ne _ hnv] using ih
    · have hnu : n ≠ u := fun h => hn (h ▸ hu)
      have hnv : n ≠ v := fun h => hn (h ▸ hv)
      rw [List.filter_cons_of_neg hn, List.idxOf_cons_ne _ hnu, List.idxOf_cons_ne _ hnv, ih,
        Nat.succ_lt_succ_iff]

/-- Other names behind do not change where a name stands last. -/
theorem lastIdxOf_append {n : String} {names more : List String} (hn : n ∈ names) (hm : n ∉ more) :
    lastIdxOf n (names ++ more) = lastIdxOf n names := by
  obtain ⟨earlier, later, rfl, hl⟩ := exists_last_place hn
  have hl' : n ∉ later ++ more := by simp [hl, hm]
  rw [List.append_assoc, List.cons_append, lastIdxOf_append_cons hl, lastIdxOf_append_cons hl']

namespace Graph

/-- The second graph has the names of the first one in front, each with the same dependencies; what
needs one of them in addition are new names, and they come behind. -/
structure Extends (g' g : Graph) : Prop where
  nodes : g.nodes <+: g'.nodes
  dependenciesOf : ∀ n ∈ g.nodes, g'.dependenciesOf n = g.dependenciesOf n
  dependentsOf : ∀ n ∈ g.nodes, ∃ more, g'.dependentsOf n = g.dependentsOf n ++ more ∧
    ∀ u ∈ more, u ∉ g.nodes

variable {g g' : Graph} {fresh new names : List String} {path : List Frame} {n d u : String}

/-- A name that was not there before is declared: the names that were there do not need it. -/
theorem extends_declare {name : String} (hname : name ∉ g.nodes) (deps : List String) :
    (g.declare name deps).Extends g where
  nodes := by rw [nodes_declare]; exact insertAll_prefix ..
  dependenciesOf n hn := by
    have hne : n ≠ name := fun h => hname (h ▸ hn)
    rw [dependenciesOf_declare, if_neg hne, List.append_nil]
  dependentsOf n _ := by
    refine ⟨_, dependentsOf_declare .., fun u hu => ?_⟩
    rw [List.eq_of_mem_replicate hu]
    exact hname

namespace Extends

theorem exists_new (h : g'.Extends g) (hg' : g'.WF) :
    ∃ new, g'.nodes = g.nodes ++ new ∧ ∀ n ∈ new, n ∉ g.nodes := by
  obtain ⟨new, hnodes⟩ := h.nodes
  have hnd := hg'.nodup
  rw [← hnodes] at hnd
  exact ⟨new, hnodes.symm, fun n hn hm => (List.nodup_append.1 hnd).2.2 n hm n hn rfl⟩

theorem needs_iff (h : g'.Extends g) (hn : n ∈ g.nodes) : g'.Needs n d ↔ g.Needs n d := by
  unfold Needs
  rw [h.dependenciesOf n hn]

/-! ## Walks -/

/-- An old name is grounded in both graphs or in none. -/
theorem grounded_iff (h : g'.Extends g) (hg : g.WF) (hn : n ∈ g.nodes) :
    g'.Grounded n ↔ g.Grounded n := by
  constructor
  · intro hground
    induction hground with
    | intro n _ ih =>
      refine .intro fun d hd => ?_
      exact ih d ((h.needs_iff hn).2 hd) (hg.right_mem n d hd)
  · intro hground
    induction hground with
    | intro n _ ih =>
      refine .intro fun d hd => ?_
      have hd := (h.needs_iff hn).1 hd
      exact ih d hd (hg.right_mem n d hd)

theorem reachesCycle_iff (h : g'.Extends g) (hg : g.WF) (hg' : g'.WF) (hn : n ∈ g.nodes) :
    g'.ReachesCycle n ↔ g.ReachesCycle n := by
  rw [← not_iff_not, ← grounded_iff_not_reachesCycle hg', ← grounded_iff_not_reachesCycle hg]
  exact h.grounded_iff hg hn

/-! ## The search -/

/-- While old names are left the search goes on as in the smaller graph, and the new ones stay
behind them. -/
theorem search_append (h : g'.Extends g) (hg : g.WF) (hfresh : fresh ⊆ g.nodes)
    (hnew : ∀ n ∈ new, n ∉ g.nodes) (hpath : ∀ f ∈ path, f.pending ⊆ g.nodes) :
    g'.search (fresh ++ new) path = (g.search fresh path).or (g'.search new []) := by
  fun_induction g.search fresh path with
  | case1 => rfl
  | case2 root fresh ih =>
    rw [List.cons_subset] at hfresh
    rw [List.cons_append, search, h.dependenciesOf root hfresh.1]
    refine ih hfresh.2 ?_
    rintro f (_ | ⟨_, ⟨⟩⟩)
    exact hg.right_mem root
  | case3 fresh name path ih =>
    rw [search]
    exact ih hfresh fun f hf => hpath f (List.mem_cons_of_mem _ hf)
  | case4 fresh name dep pending path names =>
    rename_i hdep
    rw [search, if_pos hdep]
    rfl
  | case5 fresh name dep pending path names hdep hf ih =>
    obtain ⟨hpending, hpath⟩ := List.forall_mem_cons.1 hpath
    rw [List.cons_subset] at hpending
    rw [search, if_neg hdep, dif_pos (List.mem_append_left _ hf), List.erase_append_left _ hf,
      h.dependenciesOf dep hpending.1]
    refine ih (fun n hn => hfresh (List.mem_of_mem_erase hn)) ?_
    exact List.forall_mem_cons.2 ⟨hg.right_mem dep, List.forall_mem_cons.2 ⟨hpending.2, hpath⟩⟩
  | case6 fresh name dep pending path names hdep hf ih =>
    obtain ⟨hpending, hpath⟩ := List.forall_mem_cons.1 hpath
    rw [List.cons_subset] at hpending
    have hf' : dep ∉ fresh ++ new := by
      rw [List.mem_append, not_or]
      exact ⟨hf, fun hn => hnew dep hn hpending.1⟩
    rw [search, if_neg hdep, dif_neg hf']
    exact ih hfresh (List.forall_mem_cons.2 ⟨hpending.2, hpath⟩)

/-- A cycle that is found in the smaller graph is found in the larger one. -/
theorem findCycle_eq_some (h : g'.Extends g) (hg : g.WF) (hg' : g'.WF) {cycle : List String}
    (hc : g.findCycle = some cycle) : g'.findCycle = some cycle := by
  obtain ⟨new, hnodes, hnew⟩ := h.exists_new hg'
  have hall : g'.search (g.nodes ++ new) [] = (g.search g.nodes []).or (g'.search new []) :=
    h.search_append hg (List.Subset.refl _) hnew fun f hf => by cases hf
  rw [findCycle] at hc ⊢
  rw [hnodes, hall, hc]
  rfl

/-! ## The build order -/

theorem filter_nodes (h : g'.Extends g) (hg' : g'.WF) :
    g'.nodes.filter (· ∈ g.nodes) = g.nodes := by
  obtain ⟨new, hnodes, hnew⟩ := h.exists_new hg'
  have hnone : new.filter (· ∈ g.nodes) = [] :=
    List.filter_eq_nil_iff.2 fun n hn => by simpa using hnew n hn
  rw [hnodes, List.filter_append, hnone, List.append_nil]
  exact List.filter_eq_self.2 fun n hn => by simpa using hn

theorem filter_free (h : g'.Extends g) (hg' : g'.WF) : g'.free.filter (· ∈ g.nodes) = g.free := by
  unfold free
  rw [List.filter_comm, h.filter_nodes hg']
  exact List.filter_congr fun n hn => by rw [h.dependenciesOf n hn]

/-- An old name has the same last of what it needs in an arrangement of all names and in that of the
old ones, and the last edge back from there is the same. -/
theorem exists_turns (h : g'.Extends g) (hg : g.WF) (hg' : g'.WF) (ht : g'.TieBreak names)
    (hu : u ∈ names) (hold : u ∈ g.nodes) {k : Nat ×ₗ Nat}
    (hk : k ∈ g.turn (names.filter (· ∈ g.nodes)) u) : ∃ t ∈ names, t ∈ g.nodes ∧
      k = toLex ((names.filter (· ∈ g.nodes)).idxOf t, lastIdxOf u (g.dependentsOf t)) ∧
      g'.turn names u = some (toLex (names.idxOf t, lastIdxOf u (g.dependentsOf t))) := by
  obtain ⟨d, hd⟩ : ∃ d, g.Needs u d := by
    by_contra hno
    rw [turn_eq_none_iff.2 (List.eq_nil_iff_forall_not_mem.2 (not_exists.1 hno))] at hk
    cases hk
  obtain ⟨t, htn, hlast, hturn⟩ := exists_turn hd (names.filter (· ∈ g.nodes))
  obtain ⟨t', htn', hlast', hturn'⟩ := exists_turn ((h.needs_iff hold).2 hd) names
  have hmem' := ht.mem_of_needs hg' hu htn'
  have hmem := ht.mem_of_needs hg' hu ((h.needs_iff hold).2 htn)
  rw [h.needs_iff hold] at htn'
  have hnode := hg.right_mem u t htn
  have hnode' := hg.right_mem u t' htn'
  obtain rfl : t = t' := by
    have hle := hlast' t ((h.needs_iff hold).2 htn)
    have hle' := hlast t' htn'
    rw [← Nat.not_lt, idxOf_filter_lt_iff (by simpa using hnode) (by simpa using hnode')] at hle'
    exact (List.idxOf_inj hmem).1 (Nat.le_antisymm hle (Nat.le_of_not_lt hle'))
  obtain ⟨more, hmore, hnew⟩ := h.dependentsOf t hnode
  rw [hmore, lastIdxOf_append (hg.needs_iff.1 htn) fun hm => hnew u hm hold] at hturn'
  exact ⟨t, hmem, hnode, Option.some.inj (hk.symm.trans hturn), hturn'⟩

/-- Without the new names an arrangement that keeps to the rule of the larger graph keeps to that of
the smaller one. -/
theorem tieBreak_filter (h : g'.Extends g) (hg : g.WF) (hg' : g'.WF) (ht : g'.TieBreak names) :
    g.TieBreak (names.filter (· ∈ g.nodes)) where
  nodup := ht.nodup.filter _
  mem_iff n := by
    rw [List.mem_filter, ht.mem_iff, decide_eq_true_iff]
    constructor
    · rintro ⟨⟨-, hn⟩, hold⟩
      exact ⟨hold, mt (h.reachesCycle_iff hg hg' hold).2 hn⟩
    · rintro ⟨hold, hn⟩
      exact ⟨⟨h.nodes.subset hold, mt (h.reachesCycle_iff hg hg' hold).1 hn⟩, hold⟩
  free_first := by
    rw [← h.filter_free hg']
    exact ht.free_first.filter _
  before_iff u hu v hv k hk k' hk' := by
    obtain ⟨hu, hold⟩ := List.mem_filter.1 hu
    obtain ⟨hv, hold'⟩ := List.mem_filter.1 hv
    obtain ⟨s, hs, hsold, rfl, hturn⟩ := h.exists_turns hg hg' ht hu (by simpa using hold) hk
    obtain ⟨t, ht', htold, rfl, hturn'⟩ := h.exists_turns hg hg' ht hv (by simpa using hold') hk'
    have hsame : (names.filter (· ∈ g.nodes)).idxOf s = (names.filter (· ∈ g.nodes)).idxOf t ↔
        names.idxOf s = names.idxOf t := by
      rw [List.idxOf_inj hs, List.idxOf_inj (List.mem_filter.2 ⟨hs, by simpa using hsold⟩)]
    rw [idxOf_filter_lt_iff hold hold', ht.before_iff u hu v hv _ hturn _ hturn',
      Prod.Lex.toLex_lt_toLex, Prod.Lex.toLex_lt_toLex]
    dsimp only
    rw [hsame, idxOf_filter_lt_iff (by simpa using hsold) (by simpa using htold)]

/-- The old names stand in the same build order. -/
theorem filter_order (h : g'.Extends g) (hg : g.WF) (hg' : g'.WF) :
    g'.order.filter (· ∈ g.nodes) = g.order :=
  (h.tieBreak_filter hg hg' (tieBreak_order hg')).eq hg (tieBreak_order hg)

end Extends

/-! ## A new name on top -/

/-- Where there is no cycle a new name that does not need itself makes none. -/
theorem findCycle_declare_eq_none (hg : g.WF) {name : String} (hname : name ∉ g.nodes)
    {deps : List String} (hself : name ∉ deps) (hc : g.findCycle = none) :
    (g.declare name deps).findCycle = none := by
  have h := extends_declare hname deps
  have hold : ∀ n, n ≠ name → (g.declare name deps).Grounded n := by
    intro n hne
    by_cases hn : n ∈ g.nodes
    · exact (h.grounded_iff hg hn).2 ((findCycle_eq_none_iff hg).1 hc n hn)
    · refine .intro fun d hd => ?_
      rcases needs_declare.1 hd with hd | ⟨he, -⟩
      · exact absurd (hg.left_mem n d hd) hn
      · exact absurd he hne
  refine (findCycle_eq_none_iff (hg.declare name deps)).2 fun n _ => ?_
  by_cases hne : n = name
  · subst hne
    refine .intro fun d hd => hold d ?_
    rintro rfl
    rcases needs_declare.1 hd with hd | ⟨-, hd⟩
    · exact hname (hg.left_mem d d hd)
    · exact hself hd
  · exact hold n hne

end Graph

end BuildOrder.Dependency
