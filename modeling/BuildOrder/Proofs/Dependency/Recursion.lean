/-
The search for cycles as a recursion. There is one call for each name that is met. It follows what
the name needs in the order of the declarations: a dependency whose own call has not come to its end
closes a cycle with the present path, one that was met before is passed over, and for any other one
there is a call in the call. A call that ends forgets no name, and so the recursion comes to its end
on every graph.

The main statement of this file is that on every graph of declarations the recursion answers what
the search answers, which has no calls and keeps a path of frames instead. The frames are the calls
that have not come to their end, each with the dependencies that it has still to follow. So a call
that returns takes the search to where its frame is left, and the frame below goes on with its own
next dependency. As the search keeps the names that were not met and the recursion those that were,
each of the two is told by the other.
-/
import BuildOrder.Dependency.Cycle
import BuildOrder.Proofs.Dependency.Search
import Mathlib.Data.Finset.Basic

namespace BuildOrder.Dependency

/-! ## The recursion -/

/-- What the calls share: the names that were met, the names whose calls have not come to their end,
and these as a path from the first call to the present one. -/
structure Memory where
  visited : Finset String := ∅
  active : Finset String := ∅
  path : List String := []

namespace Memory

/-- A name is met. -/
def meet (m : Memory) (name : String) : Memory := { m with visited := insert name m.visited }

/-- The call for a name begins. -/
def enter (m : Memory) (name : String) : Memory :=
  { m.meet name with active := insert name m.active, path := m.path ++ [name] }

/-- The call for a name comes to its end. -/
def leave (m : Memory) (name : String) : Memory :=
  { m with active := m.active.erase name, path := m.path.dropLast }

/-- The present path from a name on, and the name once more. -/
def closedAt (m : Memory) (name : String) : List String :=
  m.path.dropWhile (· ≠ name) ++ [name]

end Memory

/-- A memory behind another one: no name is forgotten. -/
abbrev Memory.After (m : Memory) := { m' : Memory // m.visited ⊆ m'.visited }

/-- What a part of the recursion that begins with a memory comes to: it stops with a cycle, or ends
with a later memory. -/
abbrev Call (m : Memory) := Except (List String) m.After

namespace Call

variable {m m' : Memory}

/-- The same part, seen from an earlier memory. -/
def since (x : Call m') (h : m.visited ⊆ m'.visited) : Call m :=
  x.map fun m'' => ⟨m''.1, h.trans m''.2⟩

/-- A part behind another one. -/
def andThen (x : Call m) (f : (m' : m.After) → Call m'.1) : Call m :=
  x >>= fun m' => (f m').since m'.2

end Call

namespace Rows

/-- How many rows belong to names that were not met. -/
def unmet (visited : Finset String) (rows : Rows) : Nat := rows.countP (·.1 ∉ visited)

theorem unmet_le {visited visited' : Finset String} (h : visited ⊆ visited') (rows : Rows) :
    rows.unmet visited' ≤ rows.unmet visited := by
  refine List.countP_mono_left fun row _ hrow => ?_
  simp only [decide_eq_true_eq] at hrow ⊢
  exact fun hm => hrow (h hm)

/-- A name with a row that is met is one row less. -/
theorem unmet_insert_lt {visited : Finset String} {name : String} (hv : name ∉ visited)
    {rows : Rows} (hr : rows.get name ≠ []) :
    rows.unmet (insert name visited) < rows.unmet visited := by
  induction rows with
  | nil => exact absurd rfl hr
  | cons row rows ih =>
    obtain ⟨n, entries⟩ := row
    rw [get_cons] at hr
    unfold unmet at ih ⊢
    rw [List.countP_cons, List.countP_cons]
    by_cases hn : name = n
    · subst hn
      have hle := unmet_le (Finset.subset_insert name visited) rows
      unfold unmet at hle
      simp only [Finset.mem_insert_self, hv, not_true_eq_false, not_false_eq_true, decide_false,
        decide_true, Bool.false_eq_true, if_true, if_false]
      omega
    · rw [if_neg hn] at hr
      simpa [Ne.symm hn] using ih hr

end Rows

namespace Graph

-- a call in a call meets a name: it has a row less to follow, or nothing at all; the calls and the
-- dependencies that are followed by one of them alternate, so each dependency counts twice
mutual

/-- The call for a name that was not met before. -/
def visit (g : Graph) (name : String) (m : Memory) : Call (m.meet name) :=
  (g.follow (g.dependenciesOf name) (m.enter name)).map fun m' => ⟨m'.1.leave name, m'.2⟩
termination_by (g.forward.unmet (m.enter name).visited, 2 * (g.dependenciesOf name).length + 1)
decreasing_by exact Prod.Lex.right _ (Nat.lt_succ_self _)

/-- Follows dependencies of the name whose call is the present one. -/
def follow (g : Graph) (deps : List String) (m : Memory) : Call m :=
  match deps with
  | [] => .ok ⟨m, Finset.Subset.refl _⟩
  | dep :: deps =>
    if dep ∈ m.active then .error (m.closedAt dep)
    else if _h : dep ∈ m.visited then g.follow deps m
    else
      ((g.visit dep m).andThen fun m' => g.follow deps m'.1).since (Finset.subset_insert ..)
termination_by (g.forward.unmet m.visited, 2 * deps.length)
decreasing_by
  · exact Prod.Lex.right _ (by simp)
  · by_cases hd : g.dependenciesOf dep = []
    · refine Prod.Lex.right' _ (Rows.unmet_le (Finset.subset_insert ..) _) ?_
      simp [hd]
      omega
    · exact Prod.Lex.left _ _ (Rows.unmet_insert_lt _h hd)
  · have hm := (Finset.subset_insert dep m.visited).trans m'.2
    exact Prod.Lex.right' _ (Rows.unmet_le hm _) (by simp)

end

/-- A call for each of some names that was not met when its turn comes. -/
def visitAll (g : Graph) (roots : List String) (m : Memory) : Call m :=
  match roots with
  | [] => .ok ⟨m, Finset.Subset.refl _⟩
  | root :: roots =>
    if root ∈ m.visited then g.visitAll roots m
    else ((g.visit root m).andThen fun m' => g.visitAll roots m'.1).since (Finset.subset_insert ..)

/-- The answer of the recursion: the cycle at which it stops, or none. -/
def recursiveCycle (g : Graph) : Option (List String) :=
  match g.visitAll g.nodes {} with
  | .error cycle => some cycle
  | .ok _ => none

end Graph

/-! ## Memories -/

namespace Memory

/-- A part of the recursion that ends is back on the path where it began, and forgets no name. -/
structure Kept (m m' : Memory) : Prop where
  path_eq : m'.path = m.path
  active_eq : m'.active = m.active
  visited_subset : m.visited ⊆ m'.visited

/-- The calls that have not come to their end are those for the names of a path. -/
structure At (m : Memory) (names : List String) : Prop where
  path_eq : m.path = names
  mem_active : ∀ n, n ∈ m.active ↔ n ∈ names

variable {m m₁ m₂ : Memory} {name : String} {names : List String}

theorem Kept.refl (m : Memory) : m.Kept m := ⟨rfl, rfl, Finset.Subset.refl _⟩

theorem Kept.trans (h : m.Kept m₁) (h' : m₁.Kept m₂) : m.Kept m₂ :=
  ⟨h'.path_eq.trans h.path_eq, h'.active_eq.trans h.active_eq,
    h.visited_subset.trans h'.visited_subset⟩

theorem kept_meet (m : Memory) (name : String) : m.Kept (m.meet name) :=
  ⟨rfl, rfl, Finset.subset_insert ..⟩

/-- Behind the call for a name the memory is as before, but the name was met. -/
theorem Kept.leave (h : (m.enter name).Kept m₁) (hn : name ∉ m.active) :
    (m.meet name).Kept (m₁.leave name) where
  path_eq := by
    rw [Memory.leave, h.path_eq]
    exact List.dropLast_concat
  active_eq := by
    rw [Memory.leave, h.active_eq]
    exact Finset.erase_insert hn
  visited_subset := h.visited_subset

theorem At.enter (h : m.At names) (name : String) : (m.enter name).At (names ++ [name]) where
  path_eq := by rw [← h.path_eq]; rfl
  mem_active n := by
    rw [List.mem_append, List.mem_singleton, ← h.mem_active, or_comm]
    exact Finset.mem_insert

theorem At.of_kept (h : m.At names) (hk : m.Kept m₁) : m₁.At names where
  path_eq := hk.path_eq.trans h.path_eq
  mem_active n := by rw [hk.active_eq, h.mem_active]

end Memory

namespace Graph

variable {g : Graph} {m m' : Memory} {name : String} {pending : List String} {path : List Frame}

/-- The names that were not met. -/
def unmet (g : Graph) (m : Memory) : List String := g.nodes.filter (· ∉ m.visited)

theorem unmet_enter (hg : g.WF) : g.unmet (m.enter name) = (g.unmet m).erase name := by
  unfold unmet Memory.enter Memory.meet
  rw [(hg.nodup.filter _).erase_eq_filter, List.filter_filter]
  congr 1
  funext n
  simp [bne, beq_eq_decide]

theorem unmet_length_le (h : m.Kept m') : (g.unmet m').length ≤ (g.unmet m).length := by
  refine (List.monotone_filter_right g.nodes fun n hn => ?_).length_le
  simp only [decide_eq_true_eq] at hn ⊢
  exact fun hm => hn (h.visited_subset hm)

theorem unmet_enter_length_lt (hg : g.WF) (hn : name ∈ g.unmet m) :
    (g.unmet (m.enter name)).length < (g.unmet m).length := by
  have := List.length_pos_of_mem hn
  rw [unmet_enter hg, List.length_erase_of_mem hn]
  omega

theorem unmet_of_append {done roots : List String} (hd : g.nodes = done ++ roots)
    (hv : ∀ n ∈ done, n ∈ m.visited) : g.unmet m = roots.filter (· ∉ m.visited) := by
  have hdone : done.filter (· ∉ m.visited) = [] := List.filter_eq_nil_iff.2 (by simpa using hv)
  rw [unmet, hd, List.filter_append, hdone, List.nil_append]

/-! ## One call -/

section

variable {answer : Option (List String)} {next next' : Memory → Option (List String)}

/-- What a part of the recursion that begins with `m` comes to, told by the answer of the search: a
cycle is that answer, and a part that ends leaves the answer to what the search does `next`. -/
inductive Tells (m : Memory) (answer : Option (List String))
    (next : Memory → Option (List String)) : Call m → Prop
  | stop {cycle : List String} (h : answer = some cycle) : Tells m answer next (.error cycle)
  | back {m' : m.After} (hk : m.Kept m'.1) (h : answer = next m'.1) : Tells m answer next (.ok m')

theorem Tells.since {x : Call m'} (hk : m.Kept m') (h : Tells m' answer next x) :
    Tells m answer next (x.since hk.visited_subset) := by
  cases h with
  | stop h => exact .stop h
  | back hk' h => exact .back (hk.trans hk') h

/-- A part behind another one begins with the memory that this one ends with, where the search goes
on. -/
theorem Tells.andThen {x : Call m} {f : (m' : m.After) → Call m'.1} (h : Tells m answer next x)
    (hf : ∀ m', m.Kept m'.1 → Tells m'.1 (next m'.1) next' (f m')) :
    Tells m answer next' (x.andThen f) := by
  cases h with
  | stop h => exact .stop h
  | back hk h =>
    subst h
    exact (hf _ hk).since hk

/-- The call for a name comes to what following all its dependencies does; where this ends, the
search leaves the frame of the name. -/
theorem Tells.visit (hn : name ∉ m.active)
    (h : Tells (m.enter name) answer (fun m' => g.search (g.unmet m') (⟨name, []⟩ :: path))
      (g.follow (g.dependenciesOf name) (m.enter name))) :
    Tells (m.meet name) answer (fun m' => g.search (g.unmet m') path) (g.visit name m) := by
  rw [Graph.visit]
  generalize g.follow (g.dependenciesOf name) (m.enter name) = x at h
  cases h with
  | stop h => exact .stop h
  | back hk h =>
    refine .back (hk.leave hn) ?_
    rw [h, search]
    rfl

end

/-- Following dependencies of a name comes to what the search does until none of them is pending. -/
theorem tells_follow (hg : g.WF) (hm : m.At (pathNames path ++ [name]))
    (hp : ∀ d ∈ pending, d ∈ g.nodes) :
    Tells m (g.search (g.unmet m) (⟨name, pending⟩ :: path))
      (fun m' => g.search (g.unmet m') (⟨name, []⟩ :: path)) (g.follow pending m) := by
  -- a call in the call leaves fewer names that were not met, and what is pending behind it is then
  -- followed with these
  induction hk : (g.unmet m).length using Nat.strong_induction_on
    generalizing m name pending path with
  | _ k ih =>
    induction pending with
    | nil =>
      rw [Graph.follow]
      exact .back (.refl m) rfl
    | cons dep pending ihp =>
      have hdep : dep ∈ g.nodes := hp dep (List.mem_cons_self ..)
      have hp' : ∀ d ∈ pending, d ∈ g.nodes := fun d hd => hp d (List.mem_cons_of_mem _ hd)
      have hunmet : dep ∈ g.unmet m ↔ dep ∉ m.visited := by simp [unmet, hdep]
      rw [Graph.follow, search, pathNames_cons]
      by_cases ha : dep ∈ m.active
      · rw [if_pos ha, if_pos ((hm.mem_active dep).1 ha)]
        refine .stop ?_
        rw [Memory.closedAt, hm.path_eq]
      rw [if_neg ha, if_neg fun h => ha ((hm.mem_active dep).2 h)]
      by_cases hv : dep ∈ m.visited
      · rw [dif_pos hv, dif_neg fun h => hunmet.1 h hv]
        exact ihp hp'
      rw [dif_neg hv, dif_pos (hunmet.2 hv), ← unmet_enter hg]
      have hlt := unmet_enter_length_lt hg (hunmet.2 hv)
      have hat : (m.enter dep).At (pathNames (⟨name, pending⟩ :: path) ++ [dep]) := by
        rw [pathNames_cons]
        exact hm.enter dep
      have hvisit := ih _ (hk ▸ hlt) hat (fun d hd => hg.right_mem dep d hd) rfl
      refine .since (m.kept_meet dep) (.andThen (.visit ha hvisit) fun m' hk' => ?_)
      have hle := unmet_length_le (g := g) hk'
      have hat' := hm.of_kept ((m.kept_meet dep).trans hk')
      exact ih _ (hk ▸ Nat.lt_of_le_of_lt hle hlt) hat' hp' rfl

/-! ## All calls -/

/-- The calls for names of which the others were met come to what the search does where no path is
left, which in the end is none. -/
theorem tells_visitAll (hg : g.WF) {done roots : List String} (hd : g.nodes = done ++ roots)
    (hm : m.At []) (hv : ∀ n ∈ done, n ∈ m.visited) :
    Tells m (g.search (g.unmet m) []) (fun _ => none) (g.visitAll roots m) := by
  induction roots generalizing done m with
  | nil =>
    rw [unmet_of_append hd hv, List.filter_nil, search]
    exact .back (.refl m) rfl
  | cons root roots ih =>
    have hd' : g.nodes = (done ++ [root]) ++ roots := by simpa using hd
    rw [visitAll]
    by_cases hr : root ∈ m.visited
    · rw [if_pos hr]
      exact ih hd' hm (List.forall_mem_append.2 ⟨hv, by simpa using hr⟩)
    have hroot : g.unmet m = root :: g.unmet (m.enter root) := by
      rw [unmet_enter hg, unmet_of_append hd hv, List.filter_cons_of_pos (by simpa using hr),
        List.erase_cons_head]
    have hnew : root ∉ m.active := by
      rw [hm.mem_active]
      exact List.not_mem_nil
    have hat : (m.enter root).At (pathNames [] ++ [root]) := hm.enter root
    have hfollow := tells_follow hg hat fun d hd => hg.right_mem root d hd
    rw [if_neg hr, hroot, search]
    refine .since (m.kept_meet root) (.andThen (.visit hnew hfollow) fun m' hk => ?_)
    refine ih hd' (hm.of_kept ((m.kept_meet root).trans hk)) (List.forall_mem_append.2 ⟨?_, ?_⟩)
    · exact fun n hn => hk.visited_subset (Finset.mem_insert_of_mem (hv n hn))
    · simpa using hk.visited_subset (Finset.mem_insert_self root _)

/-- Whatever is declared, with repetitions and cycles: the search answers what the recursion
answers. -/
theorem findCycle_eq_recursiveCycle (declarations : List (String × List String)) :
    (ofList declarations).findCycle = (ofList declarations).recursiveCycle := by
  have hg := ofList_wf declarations
  generalize ofList declarations = g at hg ⊢
  have hnone : g.nodes = [] ++ g.nodes := rfl
  have hempty : Memory.At {} [] := ⟨rfl, by simp⟩
  have hall := tells_visitAll hg hnone hempty (by simp)
  have hunmet : g.unmet {} = g.nodes := by simp [unmet]
  rw [hunmet] at hall
  unfold recursiveCycle findCycle
  generalize g.visitAll g.nodes {} = x at hall ⊢
  cases hall with
  | stop h => exact h
  | back hk h => exact h

end Graph

end BuildOrder.Dependency
