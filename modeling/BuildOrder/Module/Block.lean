/-
The module that a block describes. Property names are read in any case of their letters; of several
properties with one name the last one counts; a value of the wrong shape counts as an empty one.
Names that mean nothing, and the name in the heading of the block, are not used.
-/
import BuildOrder.Module
import BuildOrder.Node
import BuildOrder.Token

namespace BuildOrder

/-- The texts of a value that lists strings: a string stands for the list of itself, and identifiers
are left out. -/
def Node.strings : Node → List String
  | .array _ elements => elements.filterMap string?
  | .string _ text => [text]
  | _ => []

/-- The texts of a value that lists names: identifiers and strings alike. -/
def Node.names : Node → List String
  | .array _ elements => elements.filterMap name?
  | .string _ text => [text]
  | .identifier _ text => [text]
  | _ => []

/-- What a property name means: the reserved word that it spells in some case of its letters. -/
def Property.key? (p : Property Node) : Option Keyword := Keyword.ofWord? (Text.lower p.name)

namespace Module

/-- The module after one more property. -/
def assign (m : Module) (p : Property Node) : Module :=
  match p.key? with
  | some .type => { m with kind := .ofText p.value.name? }
  | some .sources => { m with sources := p.value.strings }
  | some .publicIncludes => { m with publicIncludes := p.value.strings }
  | some .privateIncludes => { m with privateIncludes := p.value.strings }
  | some .defines => { m with defines := p.value.strings }
  | some .deps => { m with dependencies := p.value.names }
  | some .module => m
  | none => m

/-- The module of this name and directory that a block describes. -/
def ofBlock (name directory : String) (block : ModuleBlock) : Module :=
  block.properties.foldl assign { name, directory }

end Module

end BuildOrder
