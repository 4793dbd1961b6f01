/-
Settings that the environment gives: what a command falls back on where its own options say nothing.
-/
import BuildOrder.Refusal
import BuildOrder.Text.Integer
import BuildOrder.Text.Split

namespace BuildOrder

/-- The defaults of the options. The format is any text here; it is judged where it is used. -/
structure Settings where
  roots : List String
  workers : Option Int
  format : String
deriving DecidableEq, Repr

namespace Settings

/-- The settings in an environment. Roots are separated by colons, and empty ones are dropped; an
empty number of workers counts as none. -/
def ofEnvironment (lookup : String → Option String) : Except Refusal Settings := do
  let workers ← match lookup "DOTBUILD_WORKERS" with
    | none | some "" => pure none
    | some text =>
      match Text.readInteger text with
      | .ok n => pure (some n)
      | .error cause => throw (.badInteger cause text)
  return {
    roots := Text.words ':' ((lookup "DOTBUILD_ROOTS").getD ".")
    workers := workers
    format := (lookup "DOTBUILD_FORMAT").getD "text" }

end Settings

end BuildOrder
