/-
The build order of a graph: it has each name once, every name behind all that it needs, and it has
exactly the grounded names, so all of them where there is no cycle.

A run is followed in single steps: a name is built, and then what needs it is released name by name.
The invariant of these steps is about what is built and what is not: a name waits for as many
declared dependencies as are not built yet, with multiplicity, and for its releases that are due; a
name that waits for none is ready or built. When a name is built, as many releases become due as
dependencies are done, because the two directions of the edges mirror each other.
-/
import BuildOrder.Dependency.Order
import BuildOrder.Proofs.Dependency.Search

namespace BuildOrder.Dependency

/-! ## Counting down -/

/-- How many dependencies a name still waits for; none if it does not wait. -/
def leftIn (rows : List (String × Nat)) (name : String) : Nat := (rows.lookup name).getD 0

/-- Rows of names that wait: one row for a name, and each waits for something. -/
structure Rows.Waiting (rows : List (String × Nat)) : Prop where
  nodup : (rows.map (·.1)).Nodup
  pos : ∀ row ∈ rows, 0 < row.2

theorem leftIn_cons (m n : String) (k : Nat) (rows : List (String × Nat)) :
    leftIn ((m, k) :: rows) n = if n = m then k else leftIn rows n := by
  unfold leftIn
  rw [List.lookup_cons]
  by_cases h : n = m
  · simp [h]
  · rw [beq_eq_false_iff_ne.mpr h, if_neg h]

theorem leftIn_eq_zero {rows : List (String × Nat)} {n : String} (h : n ∉ rows.map (·.1)) :
    leftIn rows n = 0 := by
  induction rows with
  | nil => rfl
  | cons row rows ih =>
    obtain ⟨m, k⟩ := row
    rw [List.map_cons, List.mem_cons, not_or] at h
    rw [leftIn_cons, if_neg h.1, ih h.2]

theorem Rows.Waiting.tail {row : String × Nat} {rows : List (String × Nat)}
    (h : Waiting (row :: rows)) : Waiting rows :=
  ⟨(List.nodup_cons.1 h.nodup).2, fun r hr => h.pos r (List.mem_cons_of_mem _ hr)⟩

theorem leftIn_countDown {rows : List (String × Nat)} (h : Rows.Waiting rows) (name n : String) :
    leftIn (countDown name rows).1 n = if n = name then leftIn rows n - 1 else leftIn rows n := by
  induction rows with
  | nil => simp [countDown, leftIn]
  | cons row rows ih =>
    obtain ⟨m, k⟩ := row
    have hm : leftIn rows m = 0 := leftIn_eq_zero (List.nodup_cons.1 h.nodup).1
    unfold countDown
    by_cases hname : name = m
    · subst hname
      rw [if_pos rfl]
      by_cases hk : k ≤ 1
      · rw [if_pos hk, leftIn_cons]
        by_cases hn : n = name
        · subst hn; simp only [if_pos, hm]; omega
        · simp [hn]
      · rw [if_neg hk, leftIn_cons, leftIn_cons]
        split <;> rfl
    · rw [if_neg hname]
      dsimp only
      rw [leftIn_cons, leftIn_cons, ih h.tail]
      by_cases hn : n = m
      · simp [hn, Ne.symm hname]
      · simp [hn]

/-- A name becomes ready by the last dependency that it waits for. -/
theorem countDown_done_iff {rows : List (String × Nat)} (h : Rows.Waiting rows) (name : String) :
    (countDown name rows).2 = true ↔ leftIn rows name = 1 := by
  induction rows with
  | nil => simp [countDown, leftIn]
  | cons row rows ih =>
    obtain ⟨m, k⟩ := row
    have hk : 0 < k := h.pos (m, k) (List.mem_cons_self ..)
    unfold countDown
    rw [leftIn_cons]
    by_cases hname : name = m
    · rw [if_pos hname, if_pos hname]
      split
      · simp only [true_iff]; omega
      · simp only [Bool.false_eq_true, false_iff]; omega
    · rw [if_neg hname, if_neg hname]
      exact ih h.tail

theorem countDown_names_sublist (name : String) (rows : List (String × Nat)) :
    ((countDown name rows).1.map (·.1)).Sublist (rows.map (·.1)) := by
  induction rows with
  | nil => exact List.Sublist.refl _
  | cons row rows ih =>
    obtain ⟨m, k⟩ := row
    unfold countDown
    split
    · split
      · exact List.sublist_cons_self ..
      · exact List.Sublist.refl _
    · exact ih.cons_cons m

theorem Rows.Waiting.countDown {rows : List (String × Nat)} (h : Waiting rows) (name : String) :
    Waiting (countDown name rows).1 := by
  refine ⟨h.nodup.sublist (countDown_names_sublist name rows), ?_⟩
  induction rows with
  | nil => intro row hr; cases hr
  | cons row rows ih =>
    obtain ⟨m, k⟩ := row
    unfold Dependency.countDown
    split
    · split
      · exact h.tail.pos
      · rintro row hr
        rcases List.mem_cons.1 hr with rfl | hr
        · dsimp only; omega
        · exact h.tail.pos row hr
    · intro row hr
      rcases List.mem_cons.1 hr with rfl | hr
      · exact h.pos _ (List.mem_cons_self ..)
      · exact ih h.tail row hr

namespace Schedule

/-! ## Releasing -/

/-- How many dependencies a name still waits for. -/
def left (s : Schedule) (name : String) : Nat := leftIn s.waiting name

theorem left_release {s : Schedule} (h : Rows.Waiting s.waiting) (name n : String) :
    (s.release name).left n = if n = name then s.left n - 1 else s.left n :=
  leftIn_countDown h name n

theorem ready_release {s : Schedule} (h : Rows.Waiting s.waiting) (name : String) :
    (s.release name).ready = if s.left name = 1 then s.ready ++ [name] else s.ready := by
  have := countDown_done_iff h name
  unfold release left
  dsimp only
  split <;> split <;> simp_all

theorem waiting_release {s : Schedule} (h : Rows.Waiting s.waiting) (name : String) :
    Rows.Waiting (s.release name).waiting := h.countDown name

end Schedule

namespace Graph

/-! ## The start -/

theorem leftIn_filter_map (names : List String) (f : String → Nat) (n : String) :
    leftIn ((names.map fun n => (n, f n)).filter (·.2 ≠ 0)) n = if n ∈ names then f n else 0 := by
  induction names with
  | nil => rfl
  | cons name names ih =>
    rw [List.map_cons, List.filter_cons]
    by_cases hf : f name = 0
    · rw [if_neg (by simpa using hf), ih]
      by_cases hn : n = name
      · simp [hn, hf]
      · simp [hn]
    · rw [if_pos (by simpa using hf), leftIn_cons, ih]
      by_cases hn : n = name
      · simp [hn]
      · simp [hn]

theorem waiting_start {g : Graph} (hg : g.WF) : Rows.Waiting (Schedule.start g).waiting where
  nodup := by
    refine hg.nodup.sublist (.trans (List.filter_sublist.map _) ?_)
    simp [Function.comp_def]
  pos row hr := by
    have := (List.mem_filter.1 hr).2
    simp only [ne_eq, decide_not, Bool.not_eq_eq_eq_not, Bool.not_true, decide_eq_false_iff_not]
      at this
    omega

theorem left_start {g : Graph} (hg : g.WF) (n : String) :
    (Schedule.start g).left n = (g.dependenciesOf n).length := by
  unfold Schedule.left Schedule.start
  rw [leftIn_filter_map]
  split
  · rfl
  · rename_i hn
    cases hd : g.dependenciesOf n with
    | nil => rfl
    | cons d ds => exact absurd (hg.left_mem n d (by unfold Needs; simp [hd])) hn

/-! ## The steps of a run -/

/-- The states that a run comes by: the names that are built, the schedule, and the names that are
due to be released since the last one was built. -/
inductive Trace (g : Graph) : List String → Schedule → List String → Prop
  | start : g.Trace [] (.start g) []
  | build {built ready : List String} {name : String} {waiting : List (String × Nat)}
      (h : g.Trace built ⟨waiting, name :: ready⟩ []) :
      g.Trace (built ++ [name]) ⟨waiting, ready⟩ (g.dependentsOf name)
  | release {built due : List String} {name : String} {s : Schedule}
      (h : g.Trace built s (name :: due)) : g.Trace built (s.release name) due

theorem Trace.releaseAll {g : Graph} {built due : List String} {s : Schedule}
    (h : g.Trace built s due) : g.Trace built (due.foldl .release s) [] := by
  induction due generalizing s with
  | nil => exact h
  | cons name due ih => exact ih h.release

theorem Trace.run {g : Graph} {built : List String} {s : Schedule} (h : g.Trace built s []) :
    ∃ waiting, g.Trace (built ++ g.run s) ⟨waiting, []⟩ [] := by
  fun_induction g.run s generalizing built with
  | case1 waiting => exact ⟨waiting, by simpa using h⟩
  | case2 waiting name ready ih =>
    obtain ⟨waiting', h'⟩ := ih h.build.releaseAll
    exact ⟨waiting', by simpa using h'⟩

/-- The build order is what is built when a run from the start has come to its end. -/
theorem trace_order (g : Graph) : ∃ waiting, g.Trace g.order ⟨waiting, []⟩ [] := Trace.start.run

/-! ## The invariant of the run -/

/-- Every name of the list comes behind all that it needs. -/
def Ordered (g : Graph) (names : List String) : Prop :=
  ∀ before n after, names = before ++ n :: after → ∀ d, g.Needs n d → d ∈ before

/-- The state of a run that has built some names, where others are due to be released. -/
structure Progress (g : Graph) (built : List String) (s : Schedule) (due : List String) : Prop where
  waiting : Rows.Waiting s.waiting
  nodup : (built ++ s.ready).Nodup
  mem : ∀ n, n ∈ built ++ s.ready ↔ n ∈ g.nodes ∧ s.left n = 0
  left : ∀ n, s.left n = (g.dependenciesOf n).countP (· ∉ built) + due.count n
  due_mem : ∀ n ∈ due, n ∈ g.nodes
  ordered : g.Ordered built

theorem Progress.start {g : Graph} (hg : g.WF) : g.Progress [] (.start g) [] where
  waiting := waiting_start hg
  nodup := by
    rw [List.nil_append]
    exact hg.nodup.filter _
  mem n := by
    rw [left_start hg]
    simp [Schedule.start]
  left n := by
    rw [left_start hg]
    simp
  due_mem n hn := by cases hn
  ordered before n after h := by simp at h

theorem Ordered.concat {g : Graph} {names : List String} {name : String} (h : g.Ordered names)
    (hname : ∀ d, g.Needs name d → d ∈ names) : g.Ordered (names ++ [name]) := by
  intro before n after he d hd
  rcases List.eq_nil_or_concat after with rfl | ⟨after, last, rfl⟩
  · obtain ⟨rfl, hn⟩ := List.append_inj' he rfl
    cases hn
    exact hname d hd
  · rw [List.concat_eq_append, ← List.cons_append, ← List.append_assoc] at he
    exact h before n after (List.append_inj' he rfl).1 d hd

theorem countP_not_mem_concat {built : List String} {name : String} (h : name ∉ built)
    (names : List String) :
    names.countP (· ∉ built) = names.countP (· ∉ built ++ [name]) + names.count name := by
  induction names with
  | nil => rfl
  | cons x names ih =>
    rw [List.countP_cons, List.countP_cons, List.count_cons]
    by_cases hx : x = name
    · subst hx
      have h1 : decide (x ∉ built ++ [x]) = false := by simp
      have h2 : decide (x ∉ built) = true := by simpa using h
      simp only [h1, h2, beq_self_eq_true, if_true, Bool.false_eq_true, if_false]
      omega
    · simp [hx] at ih ⊢
      omega

section

variable {g : Graph} {built ready due : List String} {name : String}

/-- The next ready name is built: all that it needs was built before, and what needs it is due as
often as it declares that. -/
theorem Progress.build (hg : g.WF) {waiting : List (String × Nat)}
    (h : g.Progress built ⟨waiting, name :: ready⟩ []) :
    g.Progress (built ++ [name]) ⟨waiting, ready⟩ (g.dependentsOf name) := by
  have happ : built ++ [name] ++ ready = built ++ name :: ready := by simp
  have hname : name ∉ built := fun hb =>
    (List.nodup_append.1 h.nodup).2.2 name hb name (List.mem_cons_self ..) rfl
  refine ⟨h.waiting, happ ▸ h.nodup, fun n => happ ▸ h.mem n, fun n => ?_, fun n hn => ?_,
    h.ordered.concat fun d hd => ?_⟩
  -- the name is counted as often among what `n` needs as `n` among what needs the name
  · have hl := h.left n
    rw [countP_not_mem_concat hname, hg.mirror, List.count_nil, Nat.add_zero] at hl
    exact hl
  · exact hg.left_mem n name (hg.needs_iff.2 hn)
  · have hz := ((h.mem name).1 (by simp)).2
    rw [h.left, List.count_nil, Nat.add_zero, List.countP_eq_zero] at hz
    simpa using hz d hd

/-- A name that is due waits for something. -/
theorem Progress.left_pos {s : Schedule} (h : g.Progress built s (name :: due)) :
    0 < s.left name := by
  rw [h.left, List.count_cons_self]
  omega

/-- Releasing a name that is due counts it down, and with its last dependency it becomes ready. -/
theorem Progress.release {s : Schedule} (h : g.Progress built s (name :: due)) :
    g.Progress built (s.release name) due := by
  have hpos := h.left_pos
  have hnew : name ∉ built ++ s.ready := by
    rw [h.mem]
    omega
  have hnode : name ∈ g.nodes := h.due_mem name (List.mem_cons_self ..)
  refine ⟨Schedule.waiting_release h.waiting name, ?_, fun n => ?_, fun n => ?_,
    fun n hn => h.due_mem n (List.mem_cons_of_mem _ hn), h.ordered⟩
  · rw [Schedule.ready_release h.waiting]
    split
    · rw [← List.append_assoc, ← List.concat_eq_append]
      exact h.nodup.concat hnew
    · exact h.nodup
  · rw [Schedule.ready_release h.waiting, Schedule.left_release h.waiting]
    by_cases hn : n = name
    · subst hn
      split
      · simp only [List.mem_append, List.mem_singleton, or_true, true_iff, if_true]
        exact ⟨hnode, by omega⟩
      · rw [if_pos rfl]
        constructor
        · intro hm
          exact absurd hm hnew
        · rintro ⟨-, hz⟩
          omega
    · rw [if_neg hn, ← h.mem]
      split <;> simp [hn]
  · rw [Schedule.left_release h.waiting, h.left, List.count_cons]
    by_cases hn : n = name
    · simp only [hn, if_pos, beq_self_eq_true]
      omega
    · simp [hn, Ne.symm hn]

theorem Trace.progress (hg : g.WF) {s : Schedule} (h : g.Trace built s due) :
    g.Progress built s due := by
  induction h with
  | start => exact .start hg
  | build _ ih => exact ih.build hg
  | release _ ih => exact ih.release

/-- A run only releases names that wait. -/
theorem Trace.mem_waiting (hg : g.WF) {s : Schedule} (h : g.Trace built s (name :: due)) :
    name ∈ s.waiting.map (·.1) := by
  by_contra hn
  have hpos := (h.progress hg).left_pos
  rw [Schedule.left, leftIn_eq_zero hn] at hpos
  omega

end

/-! ## The build order -/

theorem progress_order {g : Graph} (hg : g.WF) : ∃ waiting, g.Progress g.order ⟨waiting, []⟩ [] := by
  obtain ⟨waiting, h⟩ := g.trace_order
  exact ⟨waiting, h.progress hg⟩

theorem nodup_order {g : Graph} (hg : g.WF) : g.order.Nodup := by
  obtain ⟨waiting, h⟩ := progress_order hg
  simpa using h.nodup

theorem ordered_order {g : Graph} (hg : g.WF) : g.Ordered g.order := by
  obtain ⟨waiting, h⟩ := progress_order hg
  exact h.ordered

theorem Ordered.grounded {g : Graph} {names : List String} (h : g.Ordered names) {n : String}
    (hn : n ∈ names) : g.Grounded n := by
  have hpos : ∀ k before n after, before.length = k → names = before ++ n :: after →
      g.Grounded n := by
    intro k
    induction k using Nat.strong_induction_on with
    | _ k ih =>
      intro before n after hk he
      refine .intro fun d hd => ?_
      obtain ⟨b₁, b₂, rfl⟩ := List.append_of_mem (h before n after he d hd)
      refine ih b₁.length (by rw [← hk]; simp) b₁ d (b₂ ++ n :: after) rfl ?_
      rw [he, List.append_assoc, List.cons_append]
  obtain ⟨before, after, he⟩ := List.append_of_mem hn
  exact hpos _ before n after rfl he

/-- What a name needs comes before it. -/
theorem Ordered.idxOf_lt {g : Graph} {names : List String} (h : g.Ordered names) {n d : String}
    (hn : n ∈ names) (hd : g.Needs n d) : names.idxOf d < names.idxOf n := by
  obtain ⟨before, after, he, hb⟩ := List.eq_append_cons_of_mem hn
  have hmem := h before n after he d hd
  rw [he, List.idxOf_append_of_mem hmem, List.idxOf_append_of_notMem hb, List.idxOf_cons_self]
  exact Nat.lt_add_right _ (List.idxOf_lt_length_iff.2 hmem)

/-- The build order has exactly the grounded names: a name in or behind a cycle is left out. -/
theorem mem_order_iff {g : Graph} (hg : g.WF) {n : String} :
    n ∈ g.order ↔ n ∈ g.nodes ∧ g.Grounded n := by
  obtain ⟨waiting, h⟩ := progress_order hg
  have hmem : ∀ n, n ∈ g.order ↔ n ∈ g.nodes ∧ (Schedule.mk waiting []).left n = 0 := by
    simpa using h.mem
  constructor
  · intro hn
    exact ⟨((hmem n).1 hn).1, (ordered_order hg).grounded hn⟩
  · rintro ⟨hn, hground⟩
    induction hground with
    | intro n _ ih =>
      rw [hmem, h.left, List.count_nil, Nat.add_zero, List.countP_eq_zero]
      refine ⟨hn, fun d hd => ?_⟩
      simpa using ih d hd (hg.right_mem n d hd)

end Graph

end BuildOrder.Dependency
