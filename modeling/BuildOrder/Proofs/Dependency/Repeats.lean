/-
Edges that are declared again. Of two graphs with the same names, where the one has the edges of the
other but each of them only once, the search answers the same in both, and so does the build order if
no name comes in between where one name is needed by another more than once.

A search that follows an edge again finds the name where it leads neither on its path nor fresh: it
was met when the edge was followed first, from the same path. So the paths of the two searches have
the same names, and what is still to be followed differs by names that are known by then. For the
build order nothing is followed at all: the rule that fixes it speaks only of what needs what and of
the order in which the edges back from a name come last, and in both it is the same.
-/
import BuildOrder.Proofs.Dependency.TieBreak

namespace BuildOrder.Dependency

/-! ## Lists without what is known -/

/-- The second list is the first one without some names that are `known` by their turn, or because
they stand further in front. -/
inductive Thinned : List String → List String → List String → Prop
  | nil {known : List String} : Thinned known [] []
  | keep {known names names' : List String} {n : String} (h : Thinned (n :: known) names names') :
      Thinned known (n :: names) (n :: names')
  | skip {known names names' : List String} {n : String} (hn : n ∈ known)
      (h : Thinned known names names') : Thinned known (n :: names) names'

theorem thinned_eraseDups_filter (known names : List String) :
    Thinned known names (names.filter (· ∉ known)).eraseDups := by
  induction names generalizing known with
  | nil => exact .nil
  | cons n names ih =>
    by_cases hn : n ∈ known
    · rw [List.filter_cons_of_neg (by simpa using hn)]
      exact .skip hn (ih known)
    · have hrest : (names.filter (· ∉ known)).filter (fun m => !m == n) =
          names.filter (· ∉ n :: known) := by
        rw [List.filter_filter]
        refine List.filter_congr fun m _ => ?_
        by_cases hm : m = n
        · simp [hm]
        · simp [hm]
      rw [List.filter_cons_of_pos (by simpa using hn), List.eraseDups_cons, hrest]
      exact .keep (ih (n :: known))

theorem thinned_eraseDups (names : List String) : Thinned [] names names.eraseDups := by
  have h := thinned_eraseDups_filter [] names
  rwa [List.filter_eq_self.2 (by simp)] at h

/-! ## The search -/

/-- Two paths with the same names, where the second one has less to follow: what it leaves out is
neither fresh nor on the path. -/
inductive Alike (fresh : List String) : List Frame → List Frame → Prop
  | nil : Alike fresh [] []
  | cons {name : String} {known pending pending' : List String} {path path' : List Frame}
      (hknown : ∀ d ∈ known, d ∉ fresh ∧ d ∉ pathNames path ++ [name])
      (hpending : Thinned known pending pending') (hpath : Alike fresh path path') :
      Alike fresh (⟨name, pending⟩ :: path) (⟨name, pending'⟩ :: path')

namespace Alike

variable {fresh fresh' : List String} {path path' : List Frame}

theorem pathNames_eq (h : Alike fresh path path') : pathNames path' = pathNames path := by
  induction h with
  | nil => rfl
  | cons _ _ _ ih => rw [pathNames_cons, pathNames_cons, ih]

theorem mono (h : Alike fresh path path') (hsub : fresh' ⊆ fresh) : Alike fresh' path path' := by
  induction h with
  | nil => exact .nil
  | cons hknown hpending _ ih =>
    refine .cons (fun d hd => ?_) hpending ih
    exact ⟨fun hm => (hknown d hd).1 (hsub hm), (hknown d hd).2⟩

/-- A name is entered: nothing of what it needs is left out yet but repetitions. -/
theorem enter (h : Alike fresh path path') (name : String) (deps : List String) :
    Alike fresh (⟨name, deps⟩ :: path) (⟨name, deps.eraseDups⟩ :: path') :=
  .cons (by simp) (thinned_eraseDups deps) h

end Alike

namespace Graph

variable {g g' : Graph}

/-- On paths that are alike the search answers the same, whether names are entered with all that they
declare or with each of it once. -/
theorem search_eq_of_alike (hdeps : ∀ n, g'.dependenciesOf n = (g.dependenciesOf n).eraseDups)
    {fresh : List String} {path path' : List Frame} (hfresh : fresh.Nodup)
    (h : Alike fresh path path') : g'.search fresh path' = g.search fresh path := by
  fun_induction g.search fresh path generalizing path' with
  | case1 =>
    cases h
    rw [search]
  | case2 root fresh ih =>
    cases h
    rw [search, hdeps]
    rw [List.nodup_cons] at hfresh
    exact ih hfresh.2 (Alike.nil.enter root _)
  | case3 fresh name path ih =>
    cases h with
    | cons hknown hpending hpath =>
      cases hpending
      rw [search]
      exact ih hfresh hpath
  | case4 fresh name dep pending path names =>
    rename_i hdep
    have hnames : names = pathNames path ++ [name] := pathNames_cons ..
    cases h with
    | cons hknown hpending hpath =>
      cases hpending with
      | keep hpending =>
        rw [search, pathNames_cons, hpath.pathNames_eq, ← hnames, if_pos hdep]
      | skip hk hpending => exact absurd (hnames ▸ hdep) (hknown dep hk).2
  | case5 fresh name dep pending path names hdep hf =>
    rename_i ih
    have hnames : names = pathNames path ++ [name] := pathNames_cons ..
    cases h with
    | cons hknown hpending hpath =>
      cases hpending with
      | keep hpending =>
        rw [search, pathNames_cons, hpath.pathNames_eq, ← hnames, if_neg hdep, dif_pos hf, hdeps]
        have herase : fresh.erase dep ⊆ fresh := List.erase_subset
        refine ih (hfresh.erase dep) (.enter (.cons ?_ hpending (hpath.mono herase)) dep _)
        rw [List.forall_mem_cons]
        refine ⟨⟨hfresh.not_mem_erase, hnames ▸ hdep⟩, fun d hd => ?_⟩
        exact ⟨fun hm => (hknown d hd).1 (herase hm), (hknown d hd).2⟩
      | skip hk hpending => exact absurd hf (hknown dep hk).1
  | case6 fresh name dep pending path names hdep hf =>
    rename_i ih
    have hnames : names = pathNames path ++ [name] := pathNames_cons ..
    cases h with
    | cons hknown hpending hpath =>
      cases hpending with
      | keep hpending =>
        rw [search, pathNames_cons, hpath.pathNames_eq, ← hnames, if_neg hdep, dif_neg hf]
        refine ih hfresh (.cons ?_ hpending hpath)
        rw [List.forall_mem_cons]
        exact ⟨⟨hf, hnames ▸ hdep⟩, hknown⟩
      | skip hk hpending => exact ih hfresh (.cons hknown hpending hpath)

theorem findCycle_eq_of_eraseDups (hg : g.WF) (hnodes : g'.nodes = g.nodes)
    (hdeps : ∀ n, g'.dependenciesOf n = (g.dependenciesOf n).eraseDups) :
    g'.findCycle = g.findCycle := by
  unfold findCycle
  rw [hnodes]
  exact search_eq_of_alike hdeps hg.nodup .nil

end Graph

/-! ## Last places -/

theorem exists_getElem_lastIdxOf {n : String} {names : List String} (h : n ∈ names) :
    ∃ hlt : lastIdxOf n names < names.length, names[lastIdxOf n names] = n := by
  obtain ⟨earlier, later, rfl, hl⟩ := exists_last_place h
  simp [lastIdxOf_append_cons hl]

/-- In a list that goes up by rank the names of higher rank are those that stand last later. -/
theorem lastIdxOf_lt_iff {names : List String} {rank : String → Nat}
    (h : names.Pairwise fun u v => rank u ≤ rank v)
    (hinj : ∀ u ∈ names, ∀ v ∈ names, rank u = rank v → u = v) {u v : String} (hu : u ∈ names)
    (hv : v ∈ names) : lastIdxOf u names < lastIdxOf v names ↔ rank u < rank v := by
  have hle : ∀ {a b}, a ∈ names → b ∈ names → lastIdxOf a names < lastIdxOf b names →
      rank a ≤ rank b := by
    intro a b ha hb hlt
    obtain ⟨hi, hai⟩ := exists_getElem_lastIdxOf ha
    obtain ⟨hj, hbj⟩ := exists_getElem_lastIdxOf hb
    have := List.pairwise_iff_getElem.1 h _ _ hi hj hlt
    rwa [hai, hbj] at this
  constructor
  · intro hlt
    refine Nat.lt_of_le_of_ne (hle hu hv hlt) fun he => ?_
    rw [hinj u hu v hv he] at hlt
    exact Nat.lt_irrefl _ hlt
  · intro hlt
    rcases Nat.lt_trichotomy (lastIdxOf u names) (lastIdxOf v names) with hi | hi | hi
    · exact hi
    · obtain ⟨_, hui⟩ := exists_getElem_lastIdxOf hu
      obtain ⟨_, hvi⟩ := exists_getElem_lastIdxOf hv
      have he : u = v := by
        rw [← hui, ← hvi]
        simp [hi]
      rw [he] at hlt
      exact absurd hlt (Nat.lt_irrefl _)
    · exact absurd (hle hv hu hi) (Nat.not_le_of_lt hlt)

namespace Graph

/-! ## The build order -/

/-- The edges back from each name go up by the rank of the names that they lead to, so those to one
name stand together. -/
structure Ranked (g : Graph) (rank : String → Nat) : Prop where
  pairwise : ∀ t, (g.dependentsOf t).Pairwise fun u v => rank u ≤ rank v
  inj : ∀ t, ∀ u ∈ g.dependentsOf t, ∀ v ∈ g.dependentsOf t, rank u = rank v → u = v

variable {g g' : Graph} {rank : String → Nat} {names : List String} {s t u v : String}

/-- Where the edges back go up by rank, so do the turns of the names that wait for one name. -/
theorem Ranked.turn_lt_iff (hr : g.Ranked rank) (hu : u ∈ g.dependentsOf s)
    (hv : v ∈ g.dependentsOf t) (hst : names.idxOf s = names.idxOf t → s = t) :
    toLex (names.idxOf s, lastIdxOf u (g.dependentsOf s)) <
        toLex (names.idxOf t, lastIdxOf v (g.dependentsOf t)) ↔
      names.idxOf s < names.idxOf t ∨ s = t ∧ rank u < rank v := by
  rw [Prod.Lex.toLex_lt_toLex]
  refine or_congr_right ?_
  constructor
  · rintro ⟨hi, hlt⟩
    obtain rfl := hst hi
    exact ⟨rfl, (lastIdxOf_lt_iff (hr.pairwise s) (hr.inj s) hu hv).1 hlt⟩
  · rintro ⟨rfl, hlt⟩
    exact ⟨rfl, (lastIdxOf_lt_iff (hr.pairwise s) (hr.inj s) hu hv).2 hlt⟩

/-- A name that needs something in one of two graphs where the same names need the same has in both
the same last of it. -/
theorem TieBreak.exists_turns (hg : g.WF) (h : g.TieBreak names) (hneeds : g'.Needs = g.Needs)
    (hu : u ∈ names) {k' : Nat ×ₗ Nat} (hk' : k' ∈ g'.turn names u) :
    ∃ t ∈ names, g.Needs u t ∧
      g.turn names u = some (toLex (names.idxOf t, lastIdxOf u (g.dependentsOf t))) ∧
      k' = toLex (names.idxOf t, lastIdxOf u (g'.dependentsOf t)) := by
  obtain ⟨d, hd⟩ : ∃ d, g'.Needs u d := by
    by_contra hno
    rw [turn_eq_none_iff.2 (List.eq_nil_iff_forall_not_mem.2 (not_exists.1 hno))] at hk'
    cases hk'
  obtain ⟨t', ht', hlast', hturn'⟩ := exists_turn hd names
  rw [hneeds] at hd ht' hlast'
  obtain ⟨t, ht, hlast, hturn⟩ := exists_turn hd names
  have hmem := h.mem_of_needs hg hu ht
  obtain rfl : t = t' :=
    (List.idxOf_inj hmem).1 (Nat.le_antisymm (hlast' t ht) (hlast t' ht'))
  exact ⟨t, hmem, ht, hturn, Option.some.inj (hk'.symm.trans hturn')⟩

/-- An arrangement that keeps to the rule of one graph keeps to that of any other where the same names
need the same, and the edges back go up by the same rank. -/
theorem TieBreak.of_needs_eq (hg : g.WF) (hg' : g'.WF) (hnodes : g'.nodes = g.nodes)
    (hneeds : g'.Needs = g.Needs) (hr : g.Ranked rank) (hr' : g'.Ranked rank)
    (h : g.TieBreak names) : g'.TieBreak names where
  nodup := h.nodup
  mem_iff n := by
    rw [h.mem_iff, hnodes]
    unfold ReachesCycle
    rw [hneeds]
  free_first := by
    have hfree : g'.free = g.free := by
      unfold free
      rw [hnodes]
      refine List.filter_congr fun n _ => decide_eq_decide.2 ?_
      have hmem : ∀ d, d ∈ g'.dependenciesOf n ↔ d ∈ g.dependenciesOf n :=
        fun d => iff_of_eq (congrFun (congrFun hneeds n) d)
      rw [List.eq_nil_iff_forall_not_mem, List.eq_nil_iff_forall_not_mem]
      simp only [hmem]
    rw [hfree]
    exact h.free_first
  before_iff u hu v hv k hk k' hk' := by
    obtain ⟨s, hs, hus, hturn, rfl⟩ := h.exists_turns hg hneeds hu hk
    obtain ⟨t, ht, hvt, hturn', rfl⟩ := h.exists_turns hg hneeds hv hk'
    have hst : names.idxOf s = names.idxOf t → s = t := (List.idxOf_inj hs).1
    rw [h.before_iff u hu v hv _ hturn _ hturn',
      hr.turn_lt_iff (hg.needs_iff.1 hus) (hg.needs_iff.1 hvt) hst]
    rw [← hneeds] at hus hvt
    rw [hr'.turn_lt_iff (hg'.needs_iff.1 hus) (hg'.needs_iff.1 hvt) hst]

end Graph

end BuildOrder.Dependency
