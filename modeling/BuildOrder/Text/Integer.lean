/-
Reading an integer in decimal notation: spacing around it, a sign, digits of any script, and single
underscores between digits. A number may have 4300 digits; a longer run of digits is refused for its
length, whatever follows it.
-/
import BuildOrder.Text.Blank
import BuildOrder.Text.Digit

namespace BuildOrder.Text

/-- Why a text is not read as an integer. -/
inductive IntegerFault where
  /-- The text denotes no integer. -/
  | notDecimal
  /-- There are more digits than a number may have. -/
  | tooLong (digits : Nat)
deriving DecidableEq, Repr

/-- How many digits a number may have, zeros in front included. -/
def maxDigits : Nat := 4300

/-- A run of digits: the number that it denotes, how many digits it has, and the text behind it. -/
structure DigitRun where
  value : Nat
  count : Nat
  rest : List Char
deriving DecidableEq, Repr

/-- Goes on with a run of digits as far as it reaches. An underscore belongs to the run, so a digit
has to follow it. -/
def DigitRun.extend (value count : Nat) : List Char → Option DigitRun
  | [] => some ⟨value, count, []⟩
  | '_' :: [] => none
  | '_' :: c :: rest => (digitValue? c).bind fun d => extend (10 * value + d) (count + 1) rest
  | c :: rest =>
    match digitValue? c with
    | some d => extend (10 * value + d) (count + 1) rest
    | none => some ⟨value, count, c :: rest⟩

/-- The run of digits that a text begins with; there has to be one. -/
def DigitRun.ofText? : List Char → Option DigitRun
  | [] => none
  | c :: rest => (digitValue? c).bind fun d => extend d 1 rest

/-- A number without a sign. -/
def readNatural (text : List Char) : Except IntegerFault Nat :=
  match DigitRun.ofText? text with
  | none => .error .notDecimal
  | some run =>
    if maxDigits < run.count then .error (.tooLong run.count)
    else if run.rest = [] then .ok run.value
    else .error .notDecimal

/-- The text without the spacing at both ends. -/
def trimSpacing (text : List Char) : List Char :=
  ((text.dropWhile isSpacing).reverse.dropWhile isSpacing).reverse

/-- The integer that a text denotes. -/
def readInteger (text : String) : Except IntegerFault Int :=
  match trimSpacing text.toList with
  | '-' :: digits => (readNatural digits).map fun n => -(n : Int)
  | '+' :: digits => (readNatural digits).map Int.ofNat
  | digits => (readNatural digits).map Int.ofNat

end BuildOrder.Text
