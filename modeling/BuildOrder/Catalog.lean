/-
Catalogs of modules under names. The names differ and keep the order in which they came; an entry
for a name that is there takes the place of the old one.
-/
import BuildOrder.Module
import BuildOrder.Refusal

namespace BuildOrder

/-- Modules under different names. -/
structure Catalog where
  rows : List (String × Module)
  nodup : (rows.map (·.1)).Nodup

namespace Catalog

/-- The catalog without modules. -/
def empty : Catalog := ⟨[], by simp⟩

/-- The names, in their order. -/
def names (c : Catalog) : List String := c.rows.map (·.1)

/-- The modules, in the order of their names. -/
def modules (c : Catalog) : List Module := c.rows.map (·.2)

/-- Whether there is a module under the name. -/
def contains (c : Catalog) (name : String) : Bool := name ∈ c.names

/-- The module under a name. -/
def get? (c : Catalog) (name : String) : Option Module := c.rows.lookup name

/-- How many modules there are. -/
def size (c : Catalog) : Nat := c.rows.length

/-- The rows with another module under a name that they have. -/
def replace (name : String) (m : Module) (rows : List (String × Module)) :
    List (String × Module) :=
  rows.map fun row => if row.1 = name then (name, m) else row

theorem replace_names (name : String) (m : Module) (rows : List (String × Module)) :
    (replace name m rows).map (·.1) = rows.map (·.1) := by
  simp only [replace, List.map_map]
  refine List.map_congr_left fun row _ => ?_
  simp only [Function.comp_apply]
  split
  · rename_i h; exact h.symm
  · rfl

/-- The catalog with a module under a name: in the old place if the name is there, else at
the end. -/
def insert (c : Catalog) (name : String) (m : Module) : Catalog :=
  if h : name ∈ c.rows.map (·.1) then
    ⟨replace name m c.rows, by rw [replace_names]; exact c.nodup⟩
  else
    ⟨c.rows ++ [(name, m)], by
      rw [List.map_append, List.nodup_append]
      refine ⟨c.nodup, by simp, fun a ha b hb => ?_⟩
      obtain rfl : b = name := by simpa using hb
      rintro rfl
      exact h ha⟩

/-- The catalog of rows; of several rows with one name the last counts, in the place of the
first. -/
def ofRows (rows : List (String × Module)) : Catalog :=
  rows.foldl (fun c row => c.insert row.1 row.2) empty

/-- Adds modules under their own names, as long as the names are new. -/
def addAll (c : Catalog) : List Module → Except Refusal Catalog
  | [] => .ok c
  | m :: ms =>
    if c.contains m.name then .error (.duplicateName m.name) else (c.insert m.name m).addAll ms

/-- The catalog of modules under their own names. -/
def ofModules (modules : List Module) : Except Refusal Catalog := empty.addAll modules

end Catalog

end BuildOrder
