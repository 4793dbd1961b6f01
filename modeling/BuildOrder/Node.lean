/-
The tree of a build file: a module block of properties, each with a value. A file's values are
identifiers, strings and arrays of both; the tree itself lets any node stand as a value or as an
element.
-/
import BuildOrder.Position

namespace BuildOrder

/-- A property `name = value`, with the name as it is spelled. -/
structure Property (α : Type) where
  start : Position
  name : String
  value : α
deriving Inhabited, Repr

/-- A module block with its properties in the order of the text. -/
structure Block (α : Type) where
  start : Position
  name : String
  properties : List (Property α)
deriving Inhabited, Repr

/-- A node of the tree; every node knows where its first token begins. -/
inductive Node where
  | identifier (start : Position) (text : String)
  | string (start : Position) (text : String)
  | array (start : Position) (elements : List Node)
  | property (property : Property Node)
  | block (block : Block Node)
deriving Inhabited, Repr

/-- The module block of a file. -/
abbrev ModuleBlock := Block Node

namespace Node

/-- The text of a string. -/
def string? : Node → Option String
  | .string _ text => some text
  | _ => none

/-- The text of an identifier or a string: both can name something. -/
def name? : Node → Option String
  | .identifier _ text => some text
  | .string _ text => some text
  | _ => none

end Node

end BuildOrder
