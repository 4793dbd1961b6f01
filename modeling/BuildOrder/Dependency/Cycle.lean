/-
Finding a cycle. A depth-first search walks along dependencies and keeps the names of its present
path, each with the dependencies still to be followed. A dependency that lies on the path closes a
cycle; one that was met before leads to nothing new. Names not met yet are kept in a list, which
shrinks with every name that joins the path, and so the search ends.
-/
import BuildOrder.Dependency.Graph

namespace BuildOrder.Dependency

/-- A name on the path of the search and those of its dependencies that are still to be followed. -/
structure Frame where
  name : String
  pending : List String
deriving DecidableEq, Repr

/-- The steps that are left on a path if no new name is met: to follow each pending dependency, and
to leave each name. -/
def pendingSteps : List Frame → Nat
  | [] => 0
  | frame :: path => frame.pending.length + 1 + pendingSteps path

/-- The names of a path, from the name where the search began to the one it stands at. -/
def pathNames (path : List Frame) : List String := (path.map (·.name)).reverse

namespace Graph

/-- Goes on with the search: `fresh` are the names not met yet, `path` is the present path with the
name the search stands at in front. Answers the first cycle met, from the name that is met again to
that name. -/
def search (g : Graph) (fresh : List String) (path : List Frame) : Option (List String) :=
  match path with
  | [] =>
    match fresh with
    | [] => none
    | root :: fresh => g.search fresh [⟨root, g.dependenciesOf root⟩]
  | ⟨_, []⟩ :: path => g.search fresh path
  | ⟨name, dep :: pending⟩ :: path =>
    let names := pathNames (⟨name, pending⟩ :: path)
    if dep ∈ names then
      some (names.dropWhile (· ≠ dep) ++ [dep])
    else if _h : dep ∈ fresh then
      g.search (fresh.erase dep) (⟨dep, g.dependenciesOf dep⟩ :: ⟨name, pending⟩ :: path)
    else
      g.search fresh (⟨name, pending⟩ :: path)
termination_by (fresh.length, pendingSteps path)
decreasing_by
  · exact Prod.Lex.left _ _ (Nat.lt_succ_self _)
  · exact Prod.Lex.right _ (by simp [pendingSteps])
  · refine Prod.Lex.left _ _ ?_
    have := List.length_pos_of_mem _h
    rw [List.length_erase_of_mem _h]
    omega
  · exact Prod.Lex.right _ (by simp [pendingSteps])

/-- A cycle of the graph, as a list that ends with the name it begins with. Searches begin at the
names in their order. -/
def findCycle (g : Graph) : Option (List String) := g.search g.nodes []

end Graph

end BuildOrder.Dependency
