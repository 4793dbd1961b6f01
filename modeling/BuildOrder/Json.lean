/-
JSON values as they are printed for other tools: members keep their order, nested values are
indented by two blanks a level, and the text is ASCII only.
-/
import BuildOrder.Text.Hex

namespace BuildOrder

/-- A JSON value; numbers are integers. -/
inductive Json where
  | null
  | bool (value : Bool)
  | number (value : Int)
  | string (text : String)
  | array (items : List Json)
  | object (members : List (String × Json))
deriving Inhabited, Repr

namespace Json

/-- One sixteen-bit unit as an escape. -/
def escapeUnit (n : Nat) : String := "\\u" ++ Text.hex 4 n

/-- A character inside a string: the quote, the backslash and all but printable ASCII are escaped,
and what lies above sixteen bits is escaped as a surrogate pair. -/
def escapeChar (c : Char) : String :=
  match c with
  | '"' => "\\\""
  | '\\' => "\\\\"
  | '\n' => "\\n"
  | '\r' => "\\r"
  | '\t' => "\\t"
  | '\x08' => "\\b"
  | '\x0c' => "\\f"
  | c =>
    if 0x20 ≤ c.toNat ∧ c.toNat ≤ 0x7E then .singleton c
    else if c.toNat ≤ 0xFFFF then escapeUnit c.toNat
    else
      let n := c.toNat - 0x10000
      escapeUnit (0xD800 + n / 0x400) ++ escapeUnit (0xDC00 + n % 0x400)

/-- A string with its quotes. -/
def quote (text : String) : String := "\"" ++ String.join (text.toList.map escapeChar) ++ "\""

/-- The start of a line at a depth of nesting. -/
def newLine (depth : Nat) : String := .ofList ('\n' :: List.replicate (2 * depth) ' ')

/-- Items between brackets, one to a line at the depth below; without items the brackets touch. -/
def enclose (opening closing : String) (depth : Nat) : List String → String
  | [] => opening ++ closing
  | items =>
    opening ++ newLine (depth + 1) ++ ("," ++ newLine (depth + 1)).intercalate items ++
      newLine depth ++ closing

mutual

/-- The text of a value whose first line stands at `depth`. -/
def renderAt (depth : Nat) : Json → String
  | .null => "null"
  | .bool true => "true"
  | .bool false => "false"
  | .number value => toString value
  | .string text => quote text
  | .array items => enclose "[" "]" depth (renderItems (depth + 1) items)
  | .object members => enclose "\x7b" "\x7d" depth (renderMembers (depth + 1) members)

/-- The texts of the items of an array. -/
def renderItems (depth : Nat) : List Json → List String
  | [] => []
  | item :: items => renderAt depth item :: renderItems depth items

/-- The texts of the members of an object. -/
def renderMembers (depth : Nat) : List (String × Json) → List String
  | [] => []
  | (key, value) :: members =>
    (quote key ++ ": " ++ renderAt depth value) :: renderMembers depth members

end

/-- The text of a value over several lines. -/
def render (value : Json) : String := renderAt 0 value

end Json

end BuildOrder
