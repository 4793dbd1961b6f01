/-
The build order: names without dependencies first, and then every name as soon as the last of its
dependencies is done. Names that are ready queue up; a name in or behind a cycle never becomes ready
and is left out.
-/
import BuildOrder.Dependency.Graph

namespace BuildOrder.Dependency

/-- Names that wait, each with the number of declared dependencies that are not done, at least one;
and the queue of the names that are ready. -/
structure Schedule where
  waiting : List (String × Nat)
  ready : List String
deriving DecidableEq, Repr

/-- Counts one dependency of `name` as done. Answers the names that wait from then on, and whether
`name` has become ready; a name that does not wait is left alone. -/
def countDown (name : String) : List (String × Nat) → List (String × Nat) × Bool
  | [] => ([], false)
  | (n, left) :: rows =>
    if name = n then
      if left ≤ 1 then (rows, true) else ((n, left - 1) :: rows, false)
    else
      let (rows', done) := countDown name rows
      ((n, left) :: rows', done)

theorem countDown_length (name : String) (rows : List (String × Nat)) :
    (countDown name rows).1.length + (if (countDown name rows).2 then 1 else 0) = rows.length := by
  induction rows with
  | nil => rfl
  | cons row rows ih =>
    obtain ⟨n, left⟩ := row
    unfold countDown
    split
    · split <;> simp
    · simp only [List.length_cons]; omega

namespace Schedule

/-- The schedule before anything is built. -/
def start (g : Graph) : Schedule where
  waiting := (g.nodes.map fun n => (n, (g.dependenciesOf n).length)).filter (·.2 ≠ 0)
  ready := g.nodes.filter fun n => (g.dependenciesOf n).length = 0

/-- The schedule after one declared dependency of `name` is done. -/
def release (s : Schedule) (name : String) : Schedule :=
  let (waiting, done) := countDown name s.waiting
  ⟨waiting, if done then s.ready ++ [name] else s.ready⟩

/-- What a schedule still has to do: a name that waits must become ready and be built. -/
def work (s : Schedule) : Nat := 2 * s.waiting.length + s.ready.length

theorem work_release_le (s : Schedule) (name : String) : (s.release name).work ≤ s.work := by
  have hlength := countDown_length name s.waiting
  unfold release work
  dsimp only
  split at hlength
  · rename_i hdone
    rw [if_pos hdone, List.length_append, List.length_singleton]
    omega
  · rename_i hwaits
    rw [if_neg hwaits]
    omega

theorem work_releaseAll_le (s : Schedule) (names : List String) :
    (names.foldl release s).work ≤ s.work := by
  induction names generalizing s with
  | nil => exact Nat.le_refl _
  | cons name names ih => exact Nat.le_trans (ih _) (work_release_le s name)

end Schedule

namespace Graph

/-- The names that a schedule gets to, in order: the next ready name is built, and what needs it has
one dependency less to wait for. -/
def run (g : Graph) (s : Schedule) : List String :=
  match s with
  | ⟨_, []⟩ => []
  | ⟨waiting, name :: ready⟩ =>
    name :: g.run ((g.dependentsOf name).foldl .release ⟨waiting, ready⟩)
termination_by s.work
decreasing_by
  refine Nat.lt_of_le_of_lt (Schedule.work_releaseAll_le _ _) ?_
  simp [Schedule.work]

/-- The names in build order. -/
def order (g : Graph) : List String := g.run (.start g)

end Graph

end BuildOrder.Dependency
