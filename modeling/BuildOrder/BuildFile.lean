/-
Build files as texts with a path. The path gives the module its name and its directory; the text
gives the rest. Only the first module block of a text is read.
-/
import BuildOrder.Module.Block
import BuildOrder.Node.Grammar
import BuildOrder.Text.Slash
import BuildOrder.Token.Scan

namespace BuildOrder

/-- The module block at the front of a source text. -/
def ModuleBlock.ofSource (source : String) : Except Fault ModuleBlock :=
  match tokenize source with
  | .error e => .error e.toFault
  | .ok tokens =>
    match Parse.block tokens with
    | .ok block _ => .ok block
    | .error e _ => .error e.toFault

/-- The module of this name and directory that a source text describes. -/
def Module.ofSource (name directory source : String) : Except Fault Module :=
  (ModuleBlock.ofSource source).map (.ofBlock name directory)

namespace BuildFile

/-- The end of the name of a build file, in any case of its letters. -/
def extension : String := ".build"

/-- Whether a file of this name is a build file. -/
def isName (name : String) : Bool := Text.endsInWord name extension

/-- The name of the module whose build file has this path: the last part, without the extension. -/
def moduleName (path : String) : String :=
  let base := Text.afterLastSlash (Text.forwardSlashes path).toList
  .ofList (if isName (.ofList base) then base.take (base.length - extension.length) else base)

/-- The directory of the module whose build file has this path. A file at the top has the directory
`.`, also where only a slash stands in front of it. -/
def moduleDirectory (path : String) : String :=
  let front := Text.beforeLastSlash (Text.forwardSlashes path).toList
  if front = [] then "." else .ofList front

end BuildFile

end BuildOrder
