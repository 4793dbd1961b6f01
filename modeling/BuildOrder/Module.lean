/-
Modules: what a build file says about one buildable unit. The name and the directory come from the
path of the file, never from its text; everything else is kept as it is written.
-/
import BuildOrder.Json
import BuildOrder.Text.Lowercase

namespace BuildOrder

/-- What a module is built into. -/
inductive ModuleKind where
  | executable
  | staticLibrary
  | sharedLibrary
deriving DecidableEq, Repr

namespace ModuleKind

/-- The name of the kind. -/
def name : ModuleKind → String
  | .executable => "Executable"
  | .staticLibrary => "StaticLibrary"
  | .sharedLibrary => "SharedLibrary"

/-- The kind that a text asks for, in any case of its letters. A text that asks for nothing known,
and a missing text, ask for a static library. -/
def ofText (text : Option String) : ModuleKind :=
  let word := Text.lower (text.getD "")
  if word = "executable" then .executable
  else if word ∈ ["shared_library", "sharedlibrary", "shared"] then .sharedLibrary
  else .staticLibrary

end ModuleKind

/-- A module. Its dependencies are names of modules, in the order of the text and with
repetitions. -/
structure Module where
  name : String
  directory : String
  kind : ModuleKind := .staticLibrary
  sources : List String := []
  publicIncludes : List String := []
  privateIncludes : List String := []
  defines : List String := []
  dependencies : List String := []
deriving DecidableEq, Repr

/-- The module for other tools. -/
def Module.toJson (m : Module) : Json :=
  let texts (xs : List String) : Json := .array (xs.map .string)
  .object [
    ("name", .string m.name),
    ("directory", .string m.directory),
    ("type", .string m.kind.name),
    ("sources", texts m.sources),
    ("public_includes", texts m.publicIncludes),
    ("private_includes", texts m.privateIncludes),
    ("defines", texts m.defines),
    ("dependencies", texts m.dependencies)]

end BuildOrder
