/-
Reading a module block off a list of tokens. In the grammar

    module   := MODULE IDENTIFIER `{` property* `}`
    property := (keyword other than MODULE | IDENTIFIER) `=` value
    value    := STRING | IDENTIFIER | array
    array    := `[` (element `,`?)* `]`
    element  := STRING | IDENTIFIER

the next token always decides. The first token that fits nowhere is the fault, and the reading stays
in front of it; what follows the closing brace is not looked at. A property takes at least one
token, which bounds the reading.
-/
import BuildOrder.Fault
import BuildOrder.Node
import BuildOrder.Steps
import BuildOrder.Tokens

namespace BuildOrder

/-! ## Faults -/

/-- What the grammar admits at a place. -/
inductive Expectation where
  | token (kind : Token.Kind)
  | propertyName
  | value
  | element
deriving DecidableEq, Repr

/-- The words for an expectation. -/
def Expectation.name : Expectation → String
  | .token kind => kind.name
  | .propertyName => "property name"
  | .value => "value"
  | .element => "array element"

/-- A token where the grammar admits another one. -/
structure GrammarFault where
  expected : Expectation
  found : Token
deriving DecidableEq, Repr

/-- The fault that a reader of the build file is told. -/
def GrammarFault.toFault (f : GrammarFault) : Fault where
  kind := .grammar
  message := "Expected " ++ f.expected.name ++ ", got " ++ f.found.kind.name
  position := f.found.position

/-- A reader of tokens. After a fault the tokens from the faulty one on are still there. -/
abbrev Parse := EStateM GrammarFault Tokens

/-! ## Productions -/

/-- The node of a string or an identifier. -/
def Token.leaf? (t : Token) : Option Node :=
  match t.kind with
  | .string => some (.string t.position t.text)
  | .identifier => some (.identifier t.position t.text)
  | _ => none

/-- Whether the kind can name a property: an identifier or a reserved word other than `module`. -/
def Token.Kind.namesProperty : Token.Kind → Bool
  | .identifier => true
  | .keyword word => word ≠ .module
  | _ => false

open Steps

namespace Parse

/-- Takes a token of the given kind. -/
def expect (kind : Token.Kind) : Parse Token := fun s =>
  if s.current.kind = kind then .ok s.current s.advance
  else .error ⟨.token kind, s.current⟩ s

/-- The elements of an array up to its end, each with the separator that may follow it. -/
def elements (s : Tokens) : EStateM.Result GrammarFault Tokens (List Node) :=
  if s.current.kind = .rightBracket then .ok [] s
  else if _h : s.current.kind = .endOfFile then .ok [] s
  else
    match s.current.leaf? with
    | none => .error ⟨.element, s.current⟩ s
    | some leaf =>
      match elements s.advance.skipComma with
      | .ok leaves s' => .ok (leaf :: leaves) s'
      | .error e s' => .error e s'
termination_by s.ahead.length
decreasing_by
  exact Nat.lt_of_le_of_lt (Tokens.skipComma_length_le _) (Tokens.advance_length_lt _h)

/-- An array in brackets. -/
def array : Parse Node := do
  let opening ← expect .leftBracket
  let leaves ← elements
  let _ ← expect .rightBracket
  return .array opening.position leaves

/-- The value of a property. -/
def value : Parse Node := fun s =>
  if s.current.kind = .leftBracket then array s
  else
    match s.current.leaf? with
    | some leaf => .ok leaf s.advance
    | none => .error ⟨.value, s.current⟩ s

/-- The name of a property. -/
def propertyName : Parse Token := fun s =>
  if s.current.kind.namesProperty then .ok s.current s.advance
  else .error ⟨.propertyName, s.current⟩ s

/-- A property: name, equals sign and value. -/
def property : Parse (Property Node) := do
  let name ← propertyName
  let _ ← expect .equals
  let node ← value
  return ⟨name.position, name.text, node⟩

/-! ## A property takes tokens -/

theorem expect_ok {kind : Token.Kind} {s s' : Tokens} {t : Token} (h : expect kind s = .ok t s') :
    s.current.kind = kind ∧ t = s.current ∧ s' = s.advance := by
  unfold expect at h
  split at h
  · rename_i hk; cases h; exact ⟨hk, rfl, rfl⟩
  · cases h

theorem expect_length_le {kind : Token.Kind} {s s' : Tokens} {t : Token}
    (h : expect kind s = .ok t s') : s'.ahead.length ≤ s.ahead.length := by
  rw [(expect_ok h).2.2]; exact s.advance_length_le

theorem elements_length_le {s s' : Tokens} {leaves : List Node}
    (h : elements s = .ok leaves s') : s'.ahead.length ≤ s.ahead.length := by
  fun_induction elements s generalizing leaves with
  | case1 => cases h; exact Nat.le_refl _
  | case2 => cases h; exact Nat.le_refl _
  | case3 => cases h
  | case4 s _ _ leaf _ leaves' s₁ hr ih =>
    cases h
    exact Nat.le_trans (ih hr)
      (Nat.le_trans (Tokens.skipComma_length_le _) s.advance_length_le)
  | case5 => cases h

theorem array_length_le {s s' : Tokens} {node : Node} (h : array s = .ok node s') :
    s'.ahead.length ≤ s.ahead.length := by
  obtain ⟨_, s₁, h₁, h⟩ := bind_ok h
  obtain ⟨_, s₂, h₂, h⟩ := bind_ok h
  obtain ⟨_, s₃, h₃, h⟩ := bind_ok h
  cases h
  exact Nat.le_trans (expect_length_le h₃)
    (Nat.le_trans (elements_length_le h₂) (expect_length_le h₁))

theorem value_length_le {s s' : Tokens} {node : Node} (h : value s = .ok node s') :
    s'.ahead.length ≤ s.ahead.length := by
  unfold value at h
  split at h
  · exact array_length_le h
  · split at h
    · cases h; exact s.advance_length_le
    · cases h

theorem propertyName_length_lt {s s' : Tokens} {t : Token}
    (h : propertyName s = .ok t s') : s'.ahead.length < s.ahead.length := by
  unfold propertyName at h
  split at h
  · rename_i hn
    cases h
    refine Tokens.advance_length_lt fun he => ?_
    rw [he] at hn
    cases hn
  · cases h

theorem property_length_lt {s s' : Tokens} {p : Property Node}
    (h : property s = .ok p s') : s'.ahead.length < s.ahead.length := by
  obtain ⟨_, s₁, h₁, h⟩ := bind_ok h
  obtain ⟨_, s₂, h₂, h⟩ := bind_ok h
  obtain ⟨_, s₃, h₃, h⟩ := bind_ok h
  cases h
  exact Nat.lt_of_le_of_lt (Nat.le_trans (value_length_le h₃) (expect_length_le h₂))
    (propertyName_length_lt h₁)

/-! ## The block -/

/-- The properties of a block up to its end. -/
def properties (s : Tokens) : EStateM.Result GrammarFault Tokens (List (Property Node)) :=
  if s.current.kind = .rightBrace ∨ s.current.kind = .endOfFile then .ok [] s
  else
    match _h : property s with
    | .error e s' => .error e s'
    | .ok p s' =>
      match properties s' with
      | .ok ps s'' => .ok (p :: ps) s''
      | .error e s'' => .error e s''
termination_by s.ahead.length
decreasing_by exact property_length_lt _h

/-- One module block; the tokens behind it are left to whoever reads on. -/
def block : Parse ModuleBlock := do
  let heading ← expect (.keyword .module)
  let name ← expect .identifier
  let _ ← expect .leftBrace
  let ps ← properties
  let _ ← expect .rightBrace
  return ⟨heading.position, name.text, ps⟩

end Parse

end BuildOrder
