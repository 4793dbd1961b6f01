/-
Catalogs in which every module stands under its own name. Putting modules under their names one by
one, as long as the names are new, makes such catalogs, and each module that is put in adds one row.
-/
import BuildOrder.Catalog

namespace BuildOrder.Catalog

/-- Every module of the catalog stands under its own name. -/
def ByName (c : Catalog) : Prop := ∀ row ∈ c.rows, row.2.name = row.1

instance (c : Catalog) : Decidable c.ByName :=
  inferInstanceAs (Decidable (∀ row ∈ c.rows, row.2.name = row.1))

theorem empty_byName : empty.ByName := fun _ h => by cases h

theorem ByName.names_eq {c : Catalog} (h : c.ByName) : c.names = c.modules.map (·.name) := by
  unfold names modules
  rw [List.map_map]
  exact List.map_congr_left fun row hr => (h row hr).symm

theorem rows_insert {c : Catalog} {name : String} (h : name ∉ c.names) (m : Module) :
    (c.insert name m).rows = c.rows ++ [(name, m)] := by
  unfold insert
  rw [dif_neg (show name ∉ c.rows.map (·.1) from h)]

theorem names_insert {c : Catalog} {name : String} (h : name ∉ c.names) (m : Module) :
    (c.insert name m).names = c.names ++ [name] := by
  simp [names, rows_insert h]

theorem size_insert {c : Catalog} {name : String} (h : name ∉ c.names) (m : Module) :
    (c.insert name m).size = c.size + 1 := by
  simp [size, rows_insert h]

theorem ByName.insert {c : Catalog} (hc : c.ByName) {m : Module} (h : m.name ∉ c.names) :
    (c.insert m.name m).ByName := by
  intro row hr
  rw [rows_insert h] at hr
  rcases List.mem_append.1 hr with hr | hr
  · exact hc row hr
  · obtain rfl := List.mem_singleton.1 hr
    rfl

theorem ByName.addAll {c c' : Catalog} (hc : c.ByName) {ms : List Module}
    (h : c.addAll ms = .ok c') : c'.ByName := by
  induction ms generalizing c with
  | nil => cases h; exact hc
  | cons m ms ih =>
    unfold Catalog.addAll at h
    split at h
    · cases h
    · rename_i hm
      exact ih (hc.insert (by simpa [contains] using hm)) h

/-- The catalog of some modules has each under its own name. -/
theorem ofModules_byName {ms : List Module} {c : Catalog} (h : ofModules ms = .ok c) : c.ByName :=
  empty_byName.addAll h

end BuildOrder.Catalog
