/-
Refusals: requests that cannot be carried out at all, as against faults in the files at hand, which
are reported while the work goes on.
-/
import BuildOrder.SystemFault
import BuildOrder.Text.Integer

namespace BuildOrder

/-- Why a request is refused. -/
inductive Refusal where
  /-- A list of tokens without the end of the file at its end. -/
  | unclosedTokens
  /-- Two modules of one name where names have to differ. -/
  | duplicateName (name : String)
  /-- A text that is not read as an integer. -/
  | badInteger (cause : Text.IntegerFault) (text : String)
  /-- A number of workers below one. -/
  | noWorkers
  /-- A path that holds the null character. -/
  | nullInPath
  | system (fault : SystemFault)
deriving DecidableEq, Repr

/-- The kind of a refusal: the file system's, or that of a value that does not fit. -/
def Refusal.kind : Refusal → String
  | .system _ => "OSError"
  | _ => "ValueError"

/-- The words for a refusal. Of a text that is no integer at most 200 characters are shown, quote
marks and escapes included. -/
def Refusal.message : Refusal → String
  | .unclosedTokens => "token sequence must end with END_OF_FILE"
  | .duplicateName name => "Duplicate module name: " ++ name
  | .badInteger .notDecimal text =>
    "invalid literal for int() with base 10: " ++ .ofList ((Text.quoted text).toList.take 200)
  | .badInteger (.tooLong digits) _ =>
    s!"Exceeds the limit ({Text.maxDigits} digits) for integer string conversion: " ++
      s!"value has {digits} digits; use sys.set_int_max_str_digits() to increase the limit"
  | .noWorkers => "max_workers must be greater than 0"
  | .nullInPath => "embedded null byte"
  | .system fault => fault.render

end BuildOrder
