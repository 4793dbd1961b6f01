/-
Paths in their plain form: empty parts and parts `.` are dropped, parts `..` stay. The text of a
path without parts is `.`, and two slashes in front, which some systems tell from one, stay two.
-/
import BuildOrder.Text.Split

namespace BuildOrder

/-- A path: the number of slashes in front and the names of its parts. -/
structure Path where
  slashes : Nat
  parts : List String
deriving DecidableEq, Repr

namespace Path

/-- The plain form of a text. -/
def ofString (text : String) : Path where
  slashes := match (text.toList.takeWhile (· = '/')).length with
    | 0 => 0
    | 2 => 2
    | _ => 1
  parts := (Text.words '/' text).filter (· ≠ ".")

/-- The text of a path. -/
def toString (p : Path) : String :=
  if p.slashes = 0 ∧ p.parts = [] then "."
  else .ofList (List.replicate p.slashes '/') ++ "/".intercalate p.parts

/-- The entry of a directory. -/
def child (p : Path) (name : String) : Path := { p with parts := p.parts ++ [name] }

/-- Whether a path begins at the top of the tree. -/
def isAbsolute (p : Path) : Bool := p.slashes ≠ 0

end Path

end BuildOrder
