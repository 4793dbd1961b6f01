/-
Splitting a text at a separator. Between separators there may be nothing: a text has one part more
than it has separators.
-/

namespace BuildOrder.Text

/-- The parts of a text between separators. -/
def split (separator : Char) : List Char → List (List Char)
  | [] => [[]]
  | c :: rest =>
    if c = separator then [] :: split separator rest
    else
      match split separator rest with
      | [] => [[c]]
      | part :: parts => (c :: part) :: parts

/-- The parts of a text between separators that are not empty. -/
def words (separator : Char) (text : String) : List String :=
  ((split separator text.toList).map String.ofList).filter (· ≠ "")

theorem split_ne_nil (separator : Char) (text : List Char) : split separator text ≠ [] := by
  cases text with
  | nil => simp [split]
  | cons c rest =>
    unfold split
    split
    · simp
    · split <;> simp

end BuildOrder.Text
