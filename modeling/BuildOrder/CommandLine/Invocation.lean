/-
Reading a command line. The flag for debugging stands in front of the command; the options of a
command stand anywhere behind it, each followed by its value or with the value behind an equals
sign. Two dashes end the options. An option that is given again counts by its last value, only roots
add up.
-/
import BuildOrder.Settings

namespace BuildOrder

/-- How a build order is printed. -/
inductive Format where
  | text
  | json
deriving DecidableEq, Repr

/-- The format of a name. -/
def Format.ofName? (name : String) : Option Format :=
  if name = "text" then some .text else if name = "json" then some .json else none

/-- What is to be done. -/
inductive Command where
  | order (roots : List String) (workers : Option Int) (format : Format)
  | check (roots : List String) (workers : Option Int)
  | deps (name : String) (roots : List String) (workers : Option Int)
  | clean (root : String)
deriving DecidableEq, Repr

/-- A command, and whether it is run for debugging. -/
structure Invocation where
  debug : Bool
  command : Command
deriving DecidableEq, Repr

/-- Why a command line is none. -/
inductive UsageFault where
  | missingCommand
  | unknownCommand (name : String)
  | unknownOption (name : String)
  | missingValue (option : String)
  | unexpectedValue (option : String)
  | badValue (option value : String)
  | missingArgument
  | extraArgument (argument : String)
deriving DecidableEq, Repr

/-- The words for a usage fault. -/
def UsageFault.message : UsageFault → String
  | .missingCommand => "a command is missing"
  | .unknownCommand name => "there is no command " ++ name
  | .unknownOption name => "there is no option " ++ name
  | .missingValue option => "the option " ++ option ++ " needs a value"
  | .unexpectedValue option => "the option " ++ option ++ " takes no value"
  | .badValue option value => "the option " ++ option ++ " does not take the value " ++ value
  | .missingArgument => "an argument is missing"
  | .extraArgument argument => "the argument " ++ argument ++ " is one too many"

namespace CommandLine

/-- Whether an argument is an option: a dash with something behind it. -/
def isOption (arg : String) : Bool :=
  match arg.toList with
  | '-' :: _ :: _ => true
  | _ => false

/-- The name of an option, and the value that an equals sign joins to it. -/
def splitOption (arg : String) : String × Option String :=
  let name := arg.toList.takeWhile (· ≠ '=')
  match arg.toList.drop name.length with
  | [] => (arg, none)
  | _ :: value => (.ofList name, some (.ofList value))

/-- Arguments that are sorted out: options with their values, and the others, both in their
order. -/
structure Sorted where
  options : List (String × String) := []
  others : List String := []
deriving DecidableEq, Repr

/-- Sorts out the arguments of a command whose options are `known`, all of them with a value. -/
def sort (known : List String) : List String → Except UsageFault Sorted
  | [] => .ok {}
  | arg :: args =>
    if arg = "--" then .ok { others := args }
    else if isOption arg then
      let (name, value) := splitOption arg
      if name ∈ known then
        match value, args with
        | some value, args =>
          (sort known args).map fun s => { s with options := (name, value) :: s.options }
        | none, value :: args =>
          (sort known args).map fun s => { s with options := (name, value) :: s.options }
        | none, [] => .error (.missingValue name)
      else .error (.unknownOption name)
    else (sort known args).map fun s => { s with others := arg :: s.others }

namespace Sorted

/-- The values of an option, in their order. -/
def values (s : Sorted) (option : String) : List String :=
  (s.options.filter (·.1 = option)).map (·.2)

/-- The last value of an option. -/
def last? (s : Sorted) (option : String) : Option String := (s.values option).getLast?

/-- The roots, by default those of the settings. -/
def roots (s : Sorted) (settings : Settings) : List String :=
  let given := s.values "--root"
  if given = [] then settings.roots else given

/-- The number of workers, by default that of the settings; it has to be positive. -/
def workers (s : Sorted) (settings : Settings) : Except UsageFault (Option Int) := do
  let workers ← match s.last? "--workers" with
    | none => pure settings.workers
    | some text =>
      match Text.readInteger text with
      | .ok n => pure (some n)
      | .error _ => throw (.badValue "--workers" text)
  match workers with
  | none => return none
  | some n => if 1 ≤ n then return some n else throw (.badValue "--workers" (toString n))

/-- The format, by default that of the settings. -/
def format (s : Sorted) (settings : Settings) : Except UsageFault Format :=
  let name := (s.last? "--format").getD settings.format
  match Format.ofName? name with
  | some f => .ok f
  | none => .error (.badValue "--format" name)

/-- Passes if there are no arguments besides options. -/
def noOthers (s : Sorted) : Except UsageFault Unit :=
  match s.others with
  | [] => .ok ()
  | arg :: _ => .error (.extraArgument arg)

end Sorted

/-- Reads the command of a name with its arguments. -/
def readCommand (settings : Settings) (name : String) (args : List String) :
    Except UsageFault Command :=
  match name with
  | "order" => do
    let s ← sort ["--root", "--workers", "--format"] args
    s.noOthers
    return .order (s.roots settings) (← s.workers settings) (← s.format settings)
  | "check" => do
    let s ← sort ["--root", "--workers"] args
    s.noOthers
    return .check (s.roots settings) (← s.workers settings)
  | "deps" => do
    let s ← sort ["--root", "--workers"] args
    match s.others with
    | [] => throw .missingArgument
    | [module] => return .deps module (s.roots settings) (← s.workers settings)
    | _ :: extra :: _ => throw (.extraArgument extra)
  | "clean" => do
    let s ← sort ["--root"] args
    s.noOthers
    return .clean ((s.last? "--root").getD ".")
  | _ => .error (.unknownCommand name)

/-- Reads the command behind the flags; `debug` says whether the flag for debugging was among
them. -/
def readFlags (settings : Settings) (debug : Bool) : List String → Except UsageFault Invocation
  | [] => .error .missingCommand
  | arg :: args =>
    if arg = "--debug" then readFlags settings true args
    else if arg = "--" then
      match args with
      | [] => .error .missingCommand
      | name :: args => (readCommand settings name args).map (⟨debug, ·⟩)
    else if isOption arg then
      let (name, _) := splitOption arg
      .error (if name = "--debug" then .unexpectedValue name else .unknownOption name)
    else (readCommand settings arg args).map (⟨debug, ·⟩)

end CommandLine

/-- Reads a command line. -/
def Invocation.ofArguments (settings : Settings) (args : List String) :
    Except UsageFault Invocation :=
  CommandLine.readFlags settings false args

end BuildOrder
