/-
Sets of code points given by ranges. The tables of the character classes are such sets; a look-up
walks the ranges in order and stops at the first one that begins above the code point.
-/

namespace BuildOrder.Text

/-- A set of code points: ranges in ascending order, both ends of a range included. -/
structure Ranges where
  rows : List (Nat × Nat)

namespace Ranges

/-- Membership in rows that are in ascending order. -/
def mem (n : Nat) : List (Nat × Nat) → Bool
  | [] => false
  | (first, last) :: rows => if n < first then false else if n ≤ last then true else mem n rows

/-- Whether the character's code point lies in the set. -/
def contains (r : Ranges) (c : Char) : Bool := mem c.toNat r.rows

/-- Every range ends before the next one begins, so the search may stop early. -/
def Ascending : List (Nat × Nat) → Prop := List.Pairwise fun a b => a.2 < b.1

theorem mem_of_row {n : Nat} {rows : List (Nat × Nat)} (h : mem n rows = true) :
    ∃ row ∈ rows, row.1 ≤ n ∧ n ≤ row.2 := by
  induction rows with
  | nil => simp [mem] at h
  | cons row rows ih =>
    obtain ⟨first, last⟩ := row
    unfold mem at h
    split at h
    · cases h
    · split at h
      · exact ⟨(first, last), by simp, by simp only; omega, by simpa⟩
      · obtain ⟨r, hr, hb⟩ := ih h
        exact ⟨r, by simp [hr], hb⟩

end Ranges

end BuildOrder.Text
