/-
Faults of the file system: the five ways in which a path leads nowhere. A fault names the path that
was asked for.
-/
import BuildOrder.Text.Quoted

namespace BuildOrder

namespace SystemFault

/-- Why a path cannot be followed or its file not be read. -/
inductive Cause where
  | noEntry
  | notDirectory
  | isDirectory
  | nameTooLong
  /-- More symbolic links on the way than are followed. -/
  | tooManyLinks
deriving DecidableEq, Repr

/-- The number of the cause in the system's own list. -/
def Cause.number : Cause → Nat
  | .noEntry => 2
  | .notDirectory => 20
  | .isDirectory => 21
  | .nameTooLong => 36
  | .tooManyLinks => 40

/-- The system's words for the cause. -/
def Cause.text : Cause → String
  | .noEntry => "No such file or directory"
  | .notDirectory => "Not a directory"
  | .isDirectory => "Is a directory"
  | .nameTooLong => "File name too long"
  | .tooManyLinks => "Too many levels of symbolic links"

end SystemFault

/-- A fault of the file system on the way of a path. -/
structure SystemFault where
  cause : SystemFault.Cause
  path : String
deriving DecidableEq, Repr

/-- The fault with its number, its words and its path. -/
def SystemFault.render (f : SystemFault) : String :=
  s!"[Errno {f.cause.number}] {f.cause.text}: {Text.quoted f.path}"

end BuildOrder
