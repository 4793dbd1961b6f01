/-
The rule that fixes the build order. Of all the arrangements of the names that reach no cycle there is
one that keeps to this rule, and it is the build order: the names that need nothing come first, in the
order of their first mention; and each other name takes its turn from the last of what it needs, by
the place of this one, and after the same one by the place of the last edge back from it.

That the build order keeps to the rule is an invariant of a run. A name is released by an edge back
from the name that was built last, and it becomes ready if that is the last edge from the last of what
it needs; so the places of the edges that are followed are the turns, and they only go up. That no
other arrangement keeps to the rule is shown at the first place where it differs from a second one:
what the two names there need is in front of them, where both arrangements agree, so both names have
the same turns in both of them, but stand in opposite orders.
-/
import BuildOrder.Proofs.Dependency.Leftover
import Mathlib.Data.List.MinMax
import Mathlib.Data.Prod.Lex

namespace BuildOrder.Dependency

/-! ## Places in a list -/

/-- The index at which a name stands last in a list. -/
def lastIdxOf (name : String) (names : List String) : Nat :=
  names.length - 1 - names.reverse.idxOf name

theorem exists_last_place {n : String} {names : List String} (h : n ∈ names) :
    ∃ earlier later, names = earlier ++ n :: later ∧ n ∉ later := by
  obtain ⟨before, after, he, hb⟩ := List.eq_append_cons_of_mem (List.mem_reverse.2 h)
  refine ⟨after.reverse, before.reverse, ?_, by simpa using hb⟩
  rw [← names.reverse_reverse, he]
  simp

theorem lastIdxOf_append_cons {name : String} {later : List String} (h : name ∉ later)
    (earlier : List String) : lastIdxOf name (earlier ++ name :: later) = earlier.length := by
  have hr : (earlier ++ name :: later).reverse = later.reverse ++ name :: earlier.reverse := by simp
  rw [lastIdxOf, hr, List.idxOf_append_of_notMem (by simpa using h), List.idxOf_cons_self]
  simp

theorem not_mem_of_nodup_middle {before after : List String} {n : String}
    (h : (before ++ n :: after).Nodup) : n ∉ before ∧ n ∉ after := by
  simpa using (List.nodup_cons.1 (List.nodup_middle.1 h)).1

theorem idxOf_middle {before : List String} {n : String} (h : n ∉ before) (after : List String) :
    (before ++ n :: after).idxOf n = before.length := by
  rw [List.idxOf_append_of_notMem h, List.idxOf_cons_self, Nat.add_zero]

theorem rel_of_idxOf_lt {names : List String} {r : String → String → Prop} (h : names.Pairwise r)
    {u v : String} (hv : v ∈ names) (hlt : names.idxOf u < names.idxOf v) : r u v := by
  have hv' := List.idxOf_lt_length_iff.2 hv
  simpa using List.pairwise_iff_getElem.1 h _ _ (hlt.trans hv') hv' hlt

theorem argmax_congr {names : List String} {f f' : String → Nat} (h : ∀ n ∈ names, f n = f' n) :
    names.argmax f = names.argmax f' := by
  ext m
  rw [← Option.mem_def, ← Option.mem_def, List.mem_argmax_iff, List.mem_argmax_iff]
  refine and_congr_right fun hm => and_congr ?_ ?_
  · exact forall₂_congr fun n hn => by rw [h n hn, h m hm]
  · exact forall₂_congr fun n hn => by rw [h n hn, h m hm]

/-- Two different lists of one length differ first at some place. -/
theorem exists_parting {names names' : List String} (hl : names.length = names'.length)
    (hne : names ≠ names') : ∃ before u v after after',
      names = before ++ u :: after ∧ names' = before ++ v :: after' ∧ u ≠ v := by
  induction names generalizing names' with
  | nil => exact absurd (List.length_eq_zero_iff.1 hl.symm).symm hne
  | cons x names ih =>
    cases names' with
    | nil => cases hl
    | cons y names' =>
      by_cases hxy : x = y
      · subst hxy
        obtain ⟨before, u, v, after, after', rfl, rfl, huv⟩ :=
          ih (Nat.succ.inj hl) fun he => hne (by rw [he])
        exact ⟨x :: before, u, v, after, after', rfl, rfl, huv⟩
      · exact ⟨[], x, y, names, names', rfl, rfl, hxy⟩

namespace Graph

/-! ## The rule -/

/-- The names that need nothing. -/
def free (g : Graph) : List String := g.nodes.filter fun n => g.dependenciesOf n = []

/-- The last of what a name needs, in an arrangement of names. -/
def trigger (g : Graph) (names : List String) (n : String) : Option String :=
  (g.dependenciesOf n).argmax names.idxOf

/-- The turn of a name that needs something: the place of the last of this, and the place of the last
edge back from there. -/
def turn (g : Graph) (names : List String) (n : String) : Option (Nat ×ₗ Nat) :=
  (g.trigger names n).map fun t => toLex (names.idxOf t, lastIdxOf n (g.dependentsOf t))

/-- The arrangement has each name once that reaches no cycle, and keeps to the rule: the names that
need nothing come first, in the order of the graph, and the others come in the order of their
turns. -/
structure TieBreak (g : Graph) (names : List String) : Prop where
  nodup : names.Nodup
  mem_iff : ∀ n, n ∈ names ↔ n ∈ g.nodes ∧ ¬ g.ReachesCycle n
  free_first : g.free <+: names
  before_iff : ∀ u ∈ names, ∀ v ∈ names, ∀ k ∈ g.turn names u, ∀ k' ∈ g.turn names v,
    (names.idxOf u < names.idxOf v ↔ k < k')

variable {g : Graph} {names built due : List String} {n d : String}

theorem mem_free : n ∈ g.free ↔ n ∈ g.nodes ∧ g.dependenciesOf n = [] := by simp [free]

theorem turn_eq_none_iff : g.turn names n = none ↔ g.dependenciesOf n = [] := by
  rw [turn, Option.map_eq_none_iff, trigger, List.argmax_eq_none]

theorem exists_turn (hd : g.Needs n d) (names : List String) : ∃ t, g.Needs n t ∧
    (∀ d, g.Needs n d → names.idxOf d ≤ names.idxOf t) ∧
    g.turn names n = some (toLex (names.idxOf t, lastIdxOf n (g.dependentsOf t))) := by
  cases ht : g.trigger names n with
  | none =>
    rw [trigger, List.argmax_eq_none] at ht
    rw [Needs, ht] at hd
    cases hd
  | some t =>
    refine ⟨t, List.argmax_mem ht, fun d hd => List.le_of_mem_argmax hd ht, ?_⟩
    rw [turn, ht]
    rfl

/-- Names behind all that a name needs do not change its turn. -/
theorem turn_append (hn : ∀ d, g.Needs n d → d ∈ names) (more : List String) :
    g.turn (names ++ more) n = g.turn names n := by
  have htrig : g.trigger (names ++ more) n = g.trigger names n :=
    argmax_congr fun d hd => List.idxOf_append_of_mem (hn d hd)
  unfold turn
  rw [htrig]
  refine Option.map_congr fun t ht => ?_
  rw [List.idxOf_append_of_mem (hn t (List.argmax_mem ht))]

/-! ## Turns in a run -/

/-- The turn of a name, told by what is built: the last of what it needs, and behind which of the
edges back from there none leads to it. -/
inductive TurnAt (g : Graph) : List String → String → Nat ×ₗ Nat → Prop
  | intro {before after earlier later : List String} {t n : String}
      (hn : ∀ d, g.Needs n d → d ∈ before ++ [t]) (ht : g.dependentsOf t = earlier ++ n :: later)
      (hl : n ∉ later) : g.TurnAt (before ++ t :: after) n (toLex (before.length, earlier.length))

theorem TurnAt.append {k : Nat ×ₗ Nat} (h : g.TurnAt built n k) (more : List String) :
    g.TurnAt (built ++ more) n k := by
  cases h with
  | intro hn ht hl =>
    rw [List.append_assoc, List.cons_append]
    exact .intro hn ht hl

theorem TurnAt.turn_eq (hg : g.WF) {k : Nat ×ₗ Nat} (h : g.TurnAt names n k)
    (hnd : names.Nodup) : g.turn names n = some k := by
  cases h with
  | intro hn ht hl =>
    rename_i before after earlier later t
    have hneeds : g.Needs n t := hg.needs_iff.2 (by simp [ht])
    have hidx := idxOf_middle (not_mem_of_nodup_middle hnd).1 after
    obtain ⟨m, hm, hlast, hturn⟩ := exists_turn hneeds (before ++ t :: after)
    have hle := hlast t hneeds
    rw [hidx] at hle
    obtain rfl : m = t := by
      rcases List.mem_append.1 (hn m hm) with hm | hm
      · rw [List.idxOf_append_of_mem hm] at hle
        have := List.idxOf_lt_length_iff.2 hm
        omega
      · exact List.mem_singleton.1 hm
    rw [hturn, hidx, ht, lastIdxOf_append_cons hl]

/-- The place of the edge that is followed next: the last name that was built, and how many of the
edges back from it have been followed. -/
inductive Moment (g : Graph) : List String → List String → Nat ×ₗ Nat → Prop
  | start : g.Moment [] [] (toLex (0, 0))
  | behind {built done due : List String} {name : String}
      (h : g.dependentsOf name = done ++ due) :
      g.Moment (built ++ [name]) due (toLex (built.length, done.length))

theorem Moment.build {now : Nat ×ₗ Nat} (h : g.Moment built due now) (name : String) :
    ∃ next, now ≤ next ∧ g.Moment (built ++ [name]) (g.dependentsOf name) next := by
  have hnone : g.dependentsOf name = [] ++ g.dependentsOf name := rfl
  refine ⟨_, ?_, .behind hnone⟩
  cases h with
  | start => exact le_refl _
  | behind h =>
    refine le_of_lt (Prod.Lex.toLex_lt_toLex.2 (.inl ?_))
    simp

theorem Moment.release {now : Nat ×ₗ Nat} {name : String} (h : g.Moment built (name :: due) now) :
    ∃ next, now < next ∧ g.Moment built due next := by
  cases h with
  | behind h =>
    rename_i built done last
    have hdone : g.dependentsOf last = (done ++ [name]) ++ due := by simp [h]
    refine ⟨_, ?_, .behind hdone⟩
    exact Prod.Lex.toLex_lt_toLex.2 (.inr ⟨rfl, by simp⟩)

/-- If all that a name needs is built and no other edge to it is due, it takes its turn now. -/
theorem Moment.turnAt {now : Nat ×ₗ Nat} {name : String} (h : g.Moment built (name :: due) now)
    (hn : ∀ d, g.Needs name d → d ∈ built) (hdue : name ∉ due) : g.TurnAt built name now := by
  cases h with
  | behind h => exact .intro hn h hdue

/-- The state of a run, told by turns: behind the names that need nothing there are those that have
waited, with the turns that they took one after the other, all of them before now. -/
structure Turns (g : Graph) (built : List String) (s : Schedule) (due : List String)
    (waited : List (String × (Nat ×ₗ Nat))) (now : Nat ×ₗ Nat) : Prop where
  moment : g.Moment built due now
  split : built ++ s.ready = g.free ++ waited.map (·.1)
  turnAt : ∀ p ∈ waited, g.TurnAt built p.1 p.2
  sorted : waited.Pairwise (·.2 < ·.2)
  before : ∀ p ∈ waited, p.2 < now

section

variable {s : Schedule} {waited : List (String × (Nat ×ₗ Nat))} {now : Nat ×ₗ Nat}

theorem Turns.build {waiting : List (String × Nat)} {ready : List String} {name : String}
    (h : g.Turns built ⟨waiting, name :: ready⟩ [] waited now) :
    ∃ next, g.Turns (built ++ [name]) ⟨waiting, ready⟩ (g.dependentsOf name) waited next := by
  obtain ⟨next, hle, hnext⟩ := h.moment.build name
  refine ⟨next, hnext, ?_, fun p hp => (h.turnAt p hp).append _, h.sorted,
    fun p hp => (h.before p hp).trans_le hle⟩
  rw [← h.split]
  simp

/-- A name that is released waits on, or takes its turn. -/
theorem Turns.release {name : String} (hp : g.Progress built s (name :: due))
    (h : g.Turns built s (name :: due) waited now) :
    ∃ waited' next, g.Turns built (s.release name) due waited' next := by
  obtain ⟨next, hlt, hnext⟩ := h.moment.release
  have hbefore : ∀ p ∈ waited, p.2 < next := fun p hp => (h.before p hp).trans hlt
  by_cases hleft : s.left name = 1
  · have hl := hp.left name
    rw [hleft, List.count_cons_self] at hl
    have hdue : name ∉ due := List.count_eq_zero.1 (by omega)
    have hneeds : ∀ d, g.Needs name d → d ∈ built := by
      have hz : (g.dependenciesOf name).countP (· ∉ built) = 0 := by omega
      intro d hd
      simpa using List.countP_eq_zero.1 hz d hd
    have hturn := h.moment.turnAt hneeds hdue
    refine ⟨waited ++ [(name, now)], next, hnext, ?_, ?_, ?_, ?_⟩
    · rw [Schedule.ready_release hp.waiting, if_pos hleft, ← List.append_assoc, h.split]
      simp
    · exact List.forall_mem_append.2 ⟨h.turnAt, List.forall_mem_singleton.2 hturn⟩
    · refine List.pairwise_append.2 ⟨h.sorted, List.pairwise_singleton .., ?_⟩
      simpa using h.before
    · exact List.forall_mem_append.2 ⟨hbefore, List.forall_mem_singleton.2 hlt⟩
  · refine ⟨waited, next, hnext, ?_, h.turnAt, h.sorted, hbefore⟩
    rw [Schedule.ready_release hp.waiting, if_neg hleft, h.split]

theorem Trace.turns (hg : g.WF) (h : g.Trace built s due) :
    ∃ waited now, g.Turns built s due waited now := by
  induction h with
  | start =>
    refine ⟨[], _, .start, ?_, by simp, .nil, by simp⟩
    simp [Schedule.start, free]
  | build h ih =>
    obtain ⟨waited, now, ih⟩ := ih
    obtain ⟨next, ih⟩ := ih.build
    exact ⟨waited, next, ih⟩
  | release h ih =>
    obtain ⟨waited, now, ih⟩ := ih
    exact ih.release (h.progress hg)

end

/-! ## The build order keeps to the rule -/

theorem exists_order_split (hg : g.WF) : ∃ waited : List (String × (Nat ×ₗ Nat)),
    g.order = g.free ++ waited.map (·.1) ∧ waited.Pairwise (·.2 < ·.2) ∧
      ∀ p ∈ waited, g.turn g.order p.1 = some p.2 := by
  obtain ⟨waiting, h⟩ := g.trace_order
  obtain ⟨waited, now, h⟩ := h.turns hg
  have hsplit := h.split
  rw [List.append_nil] at hsplit
  exact ⟨waited, hsplit, h.sorted, fun p hp => (h.turnAt p hp).turn_eq hg (nodup_order hg)⟩

theorem pairwise_turn (hg : g.WF) : g.order.Pairwise fun u v =>
    ∀ k ∈ g.turn g.order u, ∀ k' ∈ g.turn g.order v, k < k' := by
  obtain ⟨waited, hsplit, hsorted, hturn⟩ := exists_order_split hg
  generalize hturns : g.turn g.order = turn at hturn ⊢
  -- a name that needs nothing has no turn
  have hfree : ∀ u ∈ g.free, ∀ v, ∀ k ∈ turn u, ∀ k' ∈ turn v, k < k' := by
    intro u hu v k hk
    rw [← hturns, turn_eq_none_iff.2 (mem_free.1 hu).2] at hk
    cases hk
  rw [hsplit]
  refine List.pairwise_append.2 ⟨?_, ?_, fun u hu v _ => hfree u hu v⟩
  · exact List.pairwise_of_forall_mem_list fun u hu v _ => hfree u hu v
  · refine List.pairwise_map.2 (hsorted.imp_of_mem fun hp hq hlt => ?_)
    rw [hturn _ hp, hturn _ hq]
    rintro _ ⟨⟩ _ ⟨⟩
    exact hlt

theorem tieBreak_order (hg : g.WF) : g.TieBreak g.order where
  nodup := nodup_order hg
  mem_iff n := by rw [mem_order_iff hg, grounded_iff_not_reachesCycle hg]
  free_first := by
    obtain ⟨waited, hsplit, -⟩ := exists_order_split hg
    exact ⟨_, hsplit.symm⟩
  before_iff u hu v hv k hk k' hk' := by
    constructor
    · intro hlt
      exact rel_of_idxOf_lt (pairwise_turn hg) hv hlt k hk k' hk'
    · intro hlt
      by_contra hn
      rcases Nat.lt_or_eq_of_le (Nat.le_of_not_lt hn) with hgt | he
      · exact absurd hlt (rel_of_idxOf_lt (pairwise_turn hg) hu hgt k' hk' k hk).not_gt
      · obtain rfl := (List.idxOf_inj hv).1 he
        obtain rfl := Option.some.inj (hk.symm.trans hk')
        exact absurd hlt (lt_irrefl _)

/-! ## Nothing else keeps to the rule -/

theorem exists_needs (hn : n ∈ g.nodes) (hf : n ∉ g.free) : ∃ d, g.Needs n d := by
  by_contra hno
  exact hf (mem_free.2 ⟨hn, List.eq_nil_iff_forall_not_mem.2 (not_exists.1 hno)⟩)

namespace TieBreak

variable {names' before after : List String} {u v : String}

theorem mem_of_needs (hg : g.WF) (h : g.TieBreak names) (hn : n ∈ names) (hd : g.Needs n d) :
    d ∈ names := by
  refine (h.mem_iff d).2 ⟨hg.right_mem n d hd, ?_⟩
  rintro ⟨m, hm, hc⟩
  exact ((h.mem_iff n).1 hn).2 ⟨m, .head hd hm, hc⟩

theorem idxOf_lt_of_mem_free (h : g.TieBreak names) (hd : d ∈ g.free) (hn : n ∉ g.free) :
    names.idxOf d < names.idxOf n := by
  obtain ⟨rest, rfl⟩ := h.free_first
  rw [List.idxOf_append_of_mem hd, List.idxOf_append_of_notMem hn]
  exact Nat.lt_add_right _ (List.idxOf_lt_length_iff.2 hd)

/-- The rule alone has each name behind all that it needs. Else the last of this would stand behind
the name, so its turn would be later, and so what it needs itself would stand behind it. -/
theorem idxOf_lt (hg : g.WF) (h : g.TieBreak names) (hn : n ∈ names) (hd : g.Needs n d) :
    names.idxOf d < names.idxOf n := by
  -- the induction is on the names behind `n`
  induction hk : names.length - names.idxOf n using Nat.strong_induction_on generalizing n d with
  | _ k ih =>
    obtain ⟨t, ht, hlast, hturn⟩ := exists_turn hd names
    have hmem := h.mem_of_needs hg hn ht
    refine Nat.lt_of_le_of_lt (hlast d hd) ?_
    by_contra hnot
    have hne : names.idxOf n ≠ names.idxOf t := by
      intro he
      obtain rfl := (List.idxOf_inj hn).1 he
      exact ((h.mem_iff n).1 hn).2 ⟨n, .refl, .single ht⟩
    have hlt : names.idxOf n < names.idxOf t := by omega
    have hnfree : n ∉ g.free := by
      intro hf
      rw [Needs, (mem_free.1 hf).2] at hd
      cases hd
    have htfree : t ∉ g.free := fun hf => hnot (h.idxOf_lt_of_mem_free hf hnfree)
    obtain ⟨d', hd'⟩ := exists_needs ((h.mem_iff t).1 hmem).1 htfree
    obtain ⟨t', ht', -, hturn'⟩ := exists_turn hd' names
    have hlt' : names.idxOf t' < names.idxOf t := by
      refine ih _ ?_ hmem ht' rfl
      have := List.idxOf_lt_length_iff.2 hmem
      omega
    have hturns := (h.before_iff n hn t hmem _ hturn _ hturn').1 hlt
    rw [Prod.Lex.toLex_lt_toLex] at hturns
    dsimp only at hturns
    omega

theorem mem_before (hg : g.WF) (h : g.TieBreak (before ++ n :: after)) (hd : g.Needs n d) :
    d ∈ before := by
  have hlt := h.idxOf_lt hg (by simp) hd
  rw [idxOf_middle (not_mem_of_nodup_middle h.nodup).1] at hlt
  by_contra hm
  rw [List.idxOf_append_of_notMem hm] at hlt
  omega

/-- The turns of two names are told by what stands in front of the first of them, if all that the
second needs is there too. -/
theorem turn_lt (hg : g.WF) (h : g.TieBreak (before ++ u :: after)) (hv : v ∈ after)
    (hneeds : ∀ d, g.Needs v d → d ∈ before) :
    ∀ k ∈ g.turn before u, ∀ k' ∈ g.turn before v, k < k' := by
  rw [← turn_append (fun d hd => h.mem_before hg hd) (u :: after),
    ← turn_append hneeds (u :: after)]
  intro k hk k' hk'
  refine (h.before_iff u (by simp) v (by simp [hv]) k hk k' hk').1 ?_
  obtain ⟨hu, hu'⟩ := not_mem_of_nodup_middle h.nodup
  have hne : u ≠ v := fun he => hu' (he ▸ hv)
  have hv' : v ∉ before := fun hm =>
    (List.nodup_append.1 h.nodup).2.2 v hm v (List.mem_cons_of_mem _ hv) rfl
  rw [idxOf_middle hu, List.idxOf_append_of_notMem hv', List.idxOf_cons_ne _ hne]
  omega

/-- Where two arrangements that keep to the rule part, the names that need nothing are behind. -/
theorem free_prefix (h : g.TieBreak (before ++ u :: after)) (h' : g.TieBreak (before ++ v :: names'))
    (huv : u ≠ v) : g.free <+: before := by
  have hpart : ¬ before ++ [u] <+: g.free := by
    intro hp
    have := (List.prefix_append_right_inj before).1 (hp.trans h'.free_first)
    exact huv (List.cons_prefix_cons.1 this).1
  have hu : before ++ [u] <+: before ++ u :: after := ⟨after, by simp⟩
  rcases List.prefix_or_prefix_of_prefix h.free_first hu with hp | hp
  · rcases List.prefix_concat_iff.1 hp with he | hp
    · exact absurd (he ▸ List.prefix_refl _) hpart
    · exact hp
  · exact absurd hp hpart

theorem exists_turn_before (h : g.TieBreak (before ++ u :: after))
    (hfree : g.free <+: before) : ∃ k, k ∈ g.turn before u := by
  have hnode := ((h.mem_iff u).1 (by simp)).1
  have hu : u ∉ g.free := fun hm => (not_mem_of_nodup_middle h.nodup).1 (hfree.subset hm)
  obtain ⟨d, hd⟩ := exists_needs hnode hu
  obtain ⟨t, -, -, hturn⟩ := exists_turn hd before
  exact ⟨_, hturn⟩

theorem eq (hg : g.WF) (h : g.TieBreak names) (h' : g.TieBreak names') : names = names' := by
  by_contra hne
  have hmem : ∀ n, n ∈ names ↔ n ∈ names' := fun n => (h.mem_iff n).trans (h'.mem_iff n).symm
  have hperm := (List.perm_ext_iff_of_nodup h.nodup h'.nodup).2 hmem
  obtain ⟨before, u, v, after, after', rfl, rfl, huv⟩ := exists_parting hperm.length_eq hne
  -- each of the two names stands in the other arrangement too, and there it comes later
  have hu : u ∈ after' := by
    have := (hmem u).1 (by simp)
    simpa [huv, (not_mem_of_nodup_middle h.nodup).1] using this
  have hv : v ∈ after := by
    have := (hmem v).2 (by simp)
    simpa [huv.symm, (not_mem_of_nodup_middle h'.nodup).1] using this
  have hfree := h.free_prefix h' huv
  obtain ⟨k, hk⟩ := h.exists_turn_before hfree
  obtain ⟨k', hk'⟩ := h'.exists_turn_before hfree
  have hlt := h.turn_lt hg hv (fun d hd => h'.mem_before hg hd) k hk k' hk'
  have hgt := h'.turn_lt hg hu (fun d hd => h.mem_before hg hd) k' hk' k hk
  exact hlt.not_gt hgt

end TieBreak

/-- Whatever is declared, with repetitions and cycles: the build order keeps to the rule, and no other
arrangement does. -/
theorem tieBreak_ofList (declarations : List (String × List String)) :
    let g : Graph := ofList declarations
    g.TieBreak g.order ∧ ∀ names, g.TieBreak names → names = g.order := by
  intro g
  have hg : g.WF := ofList_wf declarations
  exact ⟨tieBreak_order hg, fun names h => h.eq hg (tieBreak_order hg)⟩

-- `A` is declared before `B`, but the last edge from `X` is that to `A`
example : (ofList [("A", ["X"]), ("B", ["X"]), ("A", ["X"])]).order = ["X", "B", "A"] := by
  decide +kernel

end Graph

end BuildOrder.Dependency
