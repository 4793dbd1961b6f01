/-
A cursor walks over a source text. It moves by a number of characters and keeps offset and position
in step with what it has passed: the laws say where it stands after a move, and that moves add up.
-/
import BuildOrder.Position

namespace BuildOrder

/-- A place in a source text: what is still to be read, how many characters lie behind, and the
position of the next one. -/
structure Cursor where
  rest : List Char
  offset : Nat
  position : Position
deriving DecidableEq, Repr

namespace Cursor

/-- The cursor at the beginning of a text. -/
def start (source : String) : Cursor := ⟨source.toList, 0, .start⟩

/-- Moves past `n` characters, or to the end when fewer are left. -/
def advance (c : Cursor) (n : Nat) : Cursor :=
  ⟨c.rest.drop n, c.offset + (c.rest.take n).length, c.position.afterAll (c.rest.take n)⟩

@[simp] theorem advance_rest (c : Cursor) (n : Nat) : (c.advance n).rest = c.rest.drop n := rfl

@[simp] theorem advance_zero (c : Cursor) : c.advance 0 = c := by simp [advance]

theorem advance_add (c : Cursor) (m n : Nat) : c.advance (m + n) = (c.advance m).advance n := by
  simp [advance, List.take_add, Position.afterAll_append, Nat.add_assoc, List.drop_drop]

theorem advance_rest_lt {c : Cursor} {n : Nat} (hn : 0 < n) (hc : c.rest ≠ []) :
    (c.advance n).rest.length < c.rest.length := by
  have := List.length_pos_iff.mpr hc
  rw [advance_rest, List.length_drop]; omega

theorem advance_rest_le (c : Cursor) (n : Nat) : (c.advance n).rest.length ≤ c.rest.length := by
  rw [advance_rest, List.length_drop]; omega

end Cursor

end BuildOrder
