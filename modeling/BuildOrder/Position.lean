/-
Positions in a source text: lines and columns count from one, columns in code points. Whoever hands
over a position may use any integers, so the fields are integers.
-/

namespace BuildOrder

/-- A line and a column. -/
structure Position where
  line : Int
  column : Int
deriving DecidableEq, Inhabited, Repr

namespace Position

/-- The first character of a text. -/
def start : Position := ⟨1, 1⟩

/-- The place of something that has no place in a text. -/
def unknown : Position := ⟨0, 0⟩

/-- The position behind a character: only a line feed starts a line. -/
def after (p : Position) (c : Char) : Position :=
  if c = '\n' then ⟨p.line + 1, 1⟩ else ⟨p.line, p.column + 1⟩

/-- The position behind a whole text. -/
def afterAll (p : Position) (text : List Char) : Position := text.foldl after p

@[simp] theorem afterAll_nil (p : Position) : p.afterAll [] = p := rfl

@[simp] theorem afterAll_cons (p : Position) (c : Char) (text : List Char) :
    p.afterAll (c :: text) = (p.after c).afterAll text := rfl

theorem afterAll_append (p : Position) (a b : List Char) :
    p.afterAll (a ++ b) = (p.afterAll a).afterAll b := List.foldl_append

end Position

end BuildOrder
