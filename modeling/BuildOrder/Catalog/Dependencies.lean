/-
The dependencies of the modules in a catalog: the build order, or the cycle that rules one out, and
the names that are needed but unknown.
-/
import BuildOrder.Catalog
import BuildOrder.Dependency.Cycle
import BuildOrder.Dependency.Order

namespace BuildOrder

namespace Dependency.Graph

/-- The graph of some modules. -/
def ofModules (modules : List Module) : Graph :=
  ofList (modules.map fun m => (m.name, m.dependencies))

end Dependency.Graph

namespace Catalog

open Dependency

/-- The graph of the modules of a catalog. -/
def graph (c : Catalog) : Graph := .ofModules c.modules

/-- The names of a graph that are needed but not in the catalog, each with what needs it,
once each. -/
def unknownNames (c : Catalog) (g : Graph) : List (String × List String) :=
  (g.nodes.filter fun n => !c.contains n && !(g.dependentsOf n).isEmpty).map fun n =>
    (n, (g.dependentsOf n).eraseDups)

/-- The names of all modules and of all they need, dependencies first; or a cycle. -/
def buildOrder (c : Catalog) : Except (List String) (List String) :=
  match c.graph.findCycle with
  | some cycle => .error cycle
  | none => .ok c.graph.order

end Catalog

end BuildOrder
