/-
The graph of dependencies: names, and for each name what it needs and what needs it. Names are
listed in the order of their first mention, edges in the order of their declaration and as often as
they are declared; a name that is only needed is a node too.
-/

namespace BuildOrder.Dependency

/-- The list with `x` at its end, unless it is there already. -/
def insertNew (x : String) (xs : List String) : List String := if x ∈ xs then xs else xs ++ [x]

/-- Lists of names that belong to names, in the order of the first entry. -/
abbrev Rows := List (String × List String)

namespace Rows

/-- The list of a name; a name without a row has the empty list. -/
def get (rows : Rows) (name : String) : List String := (rows.lookup name).getD []

/-- The rows with one more entry at the end of a name's list. -/
def add (name entry : String) : Rows → Rows
  | [] => [(name, [entry])]
  | (n, entries) :: rows =>
    if name = n then (n, entries ++ [entry]) :: rows else (n, entries) :: add name entry rows

@[simp] theorem get_nil (name : String) : Rows.get [] name = [] := rfl

theorem get_cons (n name : String) (entries : List String) (rows : Rows) :
    Rows.get ((n, entries) :: rows) name = if name = n then entries else Rows.get rows name := by
  unfold get
  rw [List.lookup_cons]
  by_cases h : name = n
  · simp [h]
  · rw [beq_eq_false_iff_ne.mpr h, if_neg h]

/-- An entry goes to the end of the list of its name and leaves the other lists alone. -/
theorem get_add (rows : Rows) (name entry n : String) :
    (rows.add name entry).get n = if n = name then rows.get n ++ [entry] else rows.get n := by
  induction rows with
  | nil => simp only [add, get_cons, get_nil]; split <;> rfl
  | cons row rows ih =>
    obtain ⟨m, entries⟩ := row
    unfold add
    by_cases hm : name = m
    · subst hm
      simp only [if_pos, get_cons]
      split <;> rfl
    · rw [if_neg hm]
      simp only [get_cons, ih]
      by_cases hn : n = m
      · subst hn; simp [Ne.symm hm]
      · simp [hn]

end Rows

/-- The names with their edges in both directions. -/
structure Graph where
  nodes : List String := []
  forward : Rows := []
  backward : Rows := []
deriving DecidableEq, Repr

namespace Graph

/-- The graph without names. -/
def empty : Graph := {}

/-- What a name needs, as declared. -/
def dependenciesOf (g : Graph) (name : String) : List String := g.forward.get name

/-- What needs a name, once for each time it is declared. -/
def dependentsOf (g : Graph) (name : String) : List String := g.backward.get name

/-- One more name. -/
def addNode (g : Graph) (name : String) : Graph := { g with nodes := insertNew name g.nodes }

/-- One more declaration that `name` needs `dep`. -/
def addEdge (g : Graph) (name dep : String) : Graph where
  nodes := insertNew dep g.nodes
  forward := g.forward.add name dep
  backward := g.backward.add dep name

/-- A name with all that it declares to need. A name may come again: its declarations add up. -/
def declare (g : Graph) (name : String) (deps : List String) : Graph :=
  deps.foldl (fun g dep => g.addEdge name dep) (g.addNode name)

/-- The graph of some declarations. -/
def ofList (declarations : List (String × List String)) : Graph :=
  declarations.foldl (fun g d => g.declare d.1 d.2) empty

end Graph

end BuildOrder.Dependency
