/-
The build order goes by depth. A name that needs nothing has no depth, and each other one that reaches
no cycle is one deeper than the deepest of what it needs; along the build order the depth never goes
down, so the order is made of waves, one for each depth, and nothing in a wave needs anything in it.

This is not so of every order that has each name behind what it needs. It is the tie-break rule that
gives it: a name takes its turn from the last of what it needs, and as long as the depth has not gone
down in front of a name the last of what it needs is also the deepest. The induction is on the place
of a name in the order.
-/
import BuildOrder.Proofs.Dependency.TieBreak

namespace BuildOrder.Dependency

/-! ## Above all of some numbers -/

/-- The least number above all of a list. -/
def above : List Nat → Nat
  | [] => 0
  | k :: ks => max (k + 1) (above ks)

theorem lt_above {k : Nat} {ks : List Nat} (h : k ∈ ks) : k < above ks := by
  induction ks with
  | nil => cases h
  | cons j ks ih =>
    unfold above
    rcases List.mem_cons.1 h with rfl | h
    · omega
    · have := ih h
      omega

theorem above_le {m : Nat} {ks : List Nat} (h : ∀ k ∈ ks, k < m) : above ks ≤ m := by
  induction ks with
  | nil => exact Nat.zero_le m
  | cons j ks ih =>
    rw [List.forall_mem_cons] at h
    exact Nat.max_le.2 ⟨h.1, ih h.2⟩

theorem exists_le_of_lt_above {m : Nat} {ks : List Nat} (h : m < above ks) : ∃ k ∈ ks, m ≤ k := by
  by_contra hno
  have hle : above ks ≤ m := above_le fun k hk => Nat.lt_of_not_le fun hm => hno ⟨k, hk, hm⟩
  omega

/-! ## Lists that go up -/

/-- A list along which a number never goes down is cut where the number reaches `m`. -/
theorem eq_filter_lt_append {names : List String} {f : String → Nat}
    (h : names.Pairwise fun u v => f u ≤ f v) (m : Nat) :
    names = names.filter (f · < m) ++ names.filter (m ≤ f ·) := by
  induction names with
  | nil => rfl
  | cons n names ih =>
    rw [List.pairwise_cons] at h
    by_cases hn : f n < m
    · rw [List.filter_cons_of_pos (by simpa using hn),
        List.filter_cons_of_neg (by simpa using hn), List.cons_append, ← ih h.2]
    · have hle : ∀ v ∈ n :: names, m ≤ f v := by
        rw [List.forall_mem_cons]
        refine ⟨Nat.le_of_not_lt hn, fun v hv => ?_⟩
        exact Nat.le_trans (Nat.le_of_not_lt hn) (h.1 v hv)
      have hnone : (n :: names).filter (f · < m) = [] :=
        List.filter_eq_nil_iff.2 fun v hv => by simpa using hle v hv
      have hall : (n :: names).filter (m ≤ f ·) = n :: names :=
        List.filter_eq_self.2 fun v hv => by simpa using hle v hv
      rw [hnone, hall, List.nil_append]

/-- A list along which a number never goes down has the names of each number together. -/
theorem eq_flatMap_filter {names : List String} {f : String → Nat}
    (h : names.Pairwise fun u v => f u ≤ f v) {m : Nat} (hm : ∀ n ∈ names, f n < m) :
    names = (List.range m).flatMap fun k => names.filter (f · = k) := by
  induction m generalizing names with
  | zero =>
    cases names with
    | nil => rfl
    | cons n names => exact absurd (hm n (List.mem_cons_self ..)) (Nat.not_lt_zero _)
  | succ m ih =>
    have hfront := ih (h.filter (f · < m)) fun n hn => by simpa using (List.mem_filter.1 hn).2
    have hlow : ∀ k ∈ List.range m,
        (names.filter (f · < m)).filter (f · = k) = names.filter (f · = k) := by
      intro k hk
      have hk := List.mem_range.1 hk
      rw [List.filter_filter]
      refine List.filter_congr fun n _ => ?_
      by_cases hn : f n = k
      · simp [hn, hk]
      · simp [hn]
    have hlast : names.filter (m ≤ f ·) = names.filter (f · = m) := by
      refine List.filter_congr fun n hn => ?_
      have := hm n hn
      exact decide_eq_decide.2 ⟨fun _ => by omega, fun _ => by omega⟩
    rw [List.flatMap_congr hlow] at hfront
    rw [List.range_succ, List.flatMap_append, ← hfront, List.flatMap_singleton, ← hlast]
    exact eq_filter_lt_append h m

namespace Graph

variable {g : Graph} {n d t u v : String}

/-! ## Depth -/

/-- A name together with the reason that it reaches no cycle. -/
abbrev GroundedName (g : Graph) : Type := {n // g.Grounded n}

theorem wellFounded_groundedName (g : Graph) :
    WellFounded fun a b : g.GroundedName => g.Needs b.1 a.1 := by
  refine ⟨fun ⟨n, hn⟩ => ?_⟩
  have hacc : ∀ h : g.Grounded n, Acc (fun a b : g.GroundedName => g.Needs b.1 a.1) ⟨n, h⟩ := by
    induction hn with
    | intro n _ ih => exact fun _ => .intro _ fun d hd => ih d.1 hd d.2
  exact hacc hn

instance (g : Graph) : WellFoundedRelation g.GroundedName := ⟨_, g.wellFounded_groundedName⟩

/-- How deep a name is that reaches no cycle. -/
def depthOf (g : Graph) (n : g.GroundedName) : Nat :=
  above ((g.dependenciesOf n.1).attach.map fun d => g.depthOf ⟨d.1, n.2.inv d.2⟩)
termination_by n
decreasing_by exact d.2

open Classical in
/-- The depth of a name that reaches no cycle: the least number above the depths of all that it
needs. -/
noncomputable def depth (g : Graph) (n : String) : Nat :=
  if h : g.Grounded n then g.depthOf ⟨n, h⟩ else 0

theorem depth_eq (h : g.Grounded n) : g.depth n = above ((g.dependenciesOf n).map g.depth) := by
  have hdeps : (g.dependenciesOf n).map g.depth =
      (g.dependenciesOf n).attach.map fun d => g.depthOf ⟨d.1, h.inv d.2⟩ := by
    rw [List.map_attach_eq_pmap, ← List.pmap_eq_map fun _ => id]
    refine List.pmap_congr_left _ fun d hd _ _ => ?_
    exact dif_pos (h.inv hd)
  rw [hdeps, depth, dif_pos h, depthOf]

theorem depth_eq_zero (h : g.dependenciesOf n = []) : g.depth n = 0 := by
  have hground : g.Grounded n := .intro fun d hd => by
    rw [Needs, h] at hd
    cases hd
  rw [depth_eq hground, h]
  rfl

/-- A name is deeper than all that it needs. -/
theorem depth_lt (hn : g.Grounded n) (hd : g.Needs n d) : g.depth d < g.depth n := by
  rw [depth_eq hn]
  exact lt_above (List.mem_map_of_mem hd)

/-- A name is one deeper than the deepest of what it needs. -/
theorem depth_eq_succ (hn : g.Grounded n) (ht : g.Needs n t)
    (hmax : ∀ d, g.Needs n d → g.depth d ≤ g.depth t) : g.depth n = g.depth t + 1 := by
  refine Nat.le_antisymm ?_ (depth_lt hn ht)
  rw [depth_eq hn]
  refine above_le fun k hk => ?_
  obtain ⟨d, hd, rfl⟩ := List.mem_map.1 hk
  exact Nat.lt_succ_of_le (hmax d hd)

/-! ## Along the build order -/

namespace TieBreak

variable {names : List String}

theorem grounded (hg : g.WF) (h : g.TieBreak names) (hn : n ∈ names) : g.Grounded n :=
  (grounded_iff_not_reachesCycle hg).2 ((h.mem_iff n).1 hn).2

theorem mem_free_iff (h : g.TieBreak names) (hn : n ∈ names) :
    n ∈ g.free ↔ g.dependenciesOf n = [] := by
  rw [mem_free, and_iff_right ((h.mem_iff n).1 hn).1]

/-- The depth never goes down in an arrangement that keeps to the rule. -/
theorem depth_le (hg : g.WF) (h : g.TieBreak names) (hu : u ∈ names) (hv : v ∈ names)
    (hle : names.idxOf u ≤ names.idxOf v) : g.depth u ≤ g.depth v := by
  induction hk : names.idxOf v using Nat.strong_induction_on generalizing u v with
  | _ k ih =>
    subst hk
    rcases Nat.eq_or_lt_of_le hle with he | hlt
    · rw [(List.idxOf_inj hu).1 he]
    -- a name in front of `v` is one deeper than the last of what it needs, and so is `v` itself
    have hsucc : ∀ {n t}, n ∈ names → names.idxOf n ≤ names.idxOf v → g.Needs n t →
        (∀ d, g.Needs n d → names.idxOf d ≤ names.idxOf t) → g.depth n = g.depth t + 1 := by
      intro n t hn hnv ht hlast
      have hmem : ∀ d, g.Needs n d → d ∈ names := fun d hd => h.mem_of_needs hg hn hd
      have hbefore := Nat.lt_of_lt_of_le (h.idxOf_lt hg hn ht) hnv
      refine depth_eq_succ (h.grounded hg hn) ht fun d hd => ?_
      exact ih _ hbefore (hmem d hd) (hmem t ht) (hlast d hd) rfl
    by_cases hfree : g.dependenciesOf u = []
    · rw [depth_eq_zero hfree]
      exact Nat.zero_le _
    have hufree : u ∉ g.free := mt (h.mem_free_iff hu).1 hfree
    have hvfree : v ∉ g.free := fun hf => (h.idxOf_lt_of_mem_free hf hufree).not_gt hlt
    obtain ⟨d, hd⟩ := exists_needs ((h.mem_iff u).1 hu).1 hufree
    obtain ⟨e, he⟩ := exists_needs ((h.mem_iff v).1 hv).1 hvfree
    obtain ⟨s, hs, hslast, hsturn⟩ := exists_turn hd names
    obtain ⟨t, ht, htlast, htturn⟩ := exists_turn he names
    -- the earlier name takes the earlier turn
    have hturns := (h.before_iff u hu v hv _ hsturn _ htturn).1 hlt
    have hst : names.idxOf s ≤ names.idxOf t := by
      rw [Prod.Lex.toLex_lt_toLex] at hturns
      dsimp only at hturns
      omega
    rw [hsucc hu hle hs hslast, hsucc hv (Nat.le_refl _) ht htlast]
    have hsmem := h.mem_of_needs hg hu hs
    have htmem := h.mem_of_needs hg hv ht
    exact Nat.succ_le_succ (ih _ (h.idxOf_lt hg hv ht) hsmem htmem hst rfl)

theorem pairwise_depth (hg : g.WF) (h : g.TieBreak names) :
    names.Pairwise fun u v => g.depth u ≤ g.depth v := by
  refine List.pairwise_iff_getElem.2 fun i j hi hj hij => ?_
  refine h.depth_le hg (List.getElem_mem hi) (List.getElem_mem hj) ?_
  rw [h.nodup.idxOf_getElem, h.nodup.idxOf_getElem]
  exact Nat.le_of_lt hij

end TieBreak

/-! ## Waves -/

/-- The names of one depth, in the build order. -/
noncomputable def wave (g : Graph) (k : Nat) : List String := g.order.filter (g.depth · = k)

theorem mem_wave {k : Nat} : n ∈ g.wave k ↔ n ∈ g.order ∧ g.depth n = k := by simp [wave]

/-- How many waves there are. -/
noncomputable def waves (g : Graph) : Nat := above (g.order.map g.depth)

theorem order_eq_waves (hg : g.WF) : g.order = (List.range g.waves).flatMap g.wave :=
  eq_flatMap_filter ((tieBreak_order hg).pairwise_depth hg) fun _ hn =>
    lt_above (List.mem_map_of_mem hn)

/-- Below a name of the build order there is one of each smaller depth. -/
theorem wave_ne_nil_of_le_depth (hg : g.WF) (hn : n ∈ g.order) {k : Nat} (hk : k ≤ g.depth n) :
    g.wave k ≠ [] := by
  have h := tieBreak_order hg
  induction h.grounded hg hn with
  | intro n hacc ih =>
    rcases Nat.eq_or_lt_of_le hk with he | hlt
    · exact List.ne_nil_of_mem (mem_wave.2 ⟨hn, he.symm⟩)
    · rw [depth_eq (Acc.intro n hacc)] at hlt
      obtain ⟨_, hm, hle⟩ := exists_le_of_lt_above hlt
      obtain ⟨d, hd, rfl⟩ := List.mem_map.1 hm
      exact ih d hd (h.mem_of_needs hg hn hd) hle

theorem wave_ne_nil (hg : g.WF) {k : Nat} (hk : k < g.waves) : g.wave k ≠ [] := by
  obtain ⟨_, hm, hle⟩ := exists_le_of_lt_above hk
  obtain ⟨n, hn, rfl⟩ := List.mem_map.1 hm
  exact wave_ne_nil_of_le_depth hg hn hle

/-- Whatever is declared, with repetitions and cycles: a name that reaches no cycle has the least depth
above the depths of all that it needs, and the build order has such names only; the depth never goes
down along the build order, which consists of the waves of names of one depth, one wave for each depth
up to the greatest; and no name of a wave needs one of the same or of a later wave. -/
theorem depth_ofList (declarations : List (String × List String)) :
    let g : Graph := ofList declarations
    (∀ n, ¬ g.ReachesCycle n → g.depth n = above ((g.dependenciesOf n).map g.depth)) ∧
    (∀ n ∈ g.order, ¬ g.ReachesCycle n) ∧
    g.order.Pairwise (fun u v => g.depth u ≤ g.depth v) ∧
    g.order = (List.range g.waves).flatMap g.wave ∧
    (∀ k < g.waves, g.wave k ≠ []) ∧
    ∀ j k, j ≤ k → ∀ u ∈ g.wave j, ∀ v ∈ g.wave k, ¬ g.Needs u v := by
  intro g
  have hg : g.WF := ofList_wf declarations
  have h := tieBreak_order hg
  refine ⟨fun n hn => depth_eq (grounded_of_not_reachesCycle hg hn),
    fun n hn => ((h.mem_iff n).1 hn).2, h.pairwise_depth hg, order_eq_waves hg,
    fun k hk => wave_ne_nil hg hk, fun j k hjk u hu v hv hneeds => ?_⟩
  obtain ⟨huord, huk⟩ := mem_wave.1 hu
  obtain ⟨-, hvk⟩ := mem_wave.1 hv
  have hlt := depth_lt (h.grounded hg huord) hneeds
  omega

end Graph

end BuildOrder.Dependency
