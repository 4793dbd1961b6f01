/-
The grammar of a module block as derivations: which tokens a construct consists of, and which node
it denotes.

The main statement of this file is that a block that is derived is read as the node it denotes, and
that the reading stops behind it, whatever follows. Inside a block the token behind a construct
matters in one place: a comma behind an element is taken with it.
-/
import BuildOrder.Node.Grammar
import BuildOrder.Proofs.Tokens

namespace BuildOrder

open Steps

namespace Derives

/-! ## Derivations -/

/-- A string or an identifier. -/
inductive Leaf : Token → Node → Prop
  | string {t : Token} (h : t.kind = .string) : Leaf t (.string t.position t.text)
  | identifier {t : Token} (h : t.kind = .identifier) : Leaf t (.identifier t.position t.text)

/-- The elements of an array; a comma may follow each of them. -/
inductive Elements : List Token → List Node → Prop
  | nil : Elements [] []
  | plain {t : Token} {n : Node} {ts : List Token} {ns : List Node} (hn : Leaf t n)
      (h : Elements ts ns) : Elements (t :: ts) (n :: ns)
  | comma {t c : Token} {n : Node} {ts : List Token} {ns : List Node} (hn : Leaf t n)
      (hc : c.kind = .comma) (h : Elements ts ns) : Elements (t :: c :: ts) (n :: ns)

/-- The value of a property. -/
inductive Value : List Token → Node → Prop
  | leaf {t : Token} {n : Node} (h : Leaf t n) : Value [t] n
  | array {opening closing : Token} {ts : List Token} {ns : List Node}
      (ho : opening.kind = .leftBracket) (h : Elements ts ns)
      (hc : closing.kind = .rightBracket) :
      Value (opening :: (ts ++ [closing])) (.array opening.position ns)

/-- The name of a property: an identifier, or a reserved word other than the one for a block. -/
inductive Name : Token.Kind → Prop
  | identifier : Name .identifier
  | reserved {k : Keyword} (h : k ≠ .module) : Name (.keyword k)

/-- A property. -/
inductive Property : List Token → BuildOrder.Property Node → Prop
  | intro {name equals : Token} {ts : List Token} {n : Node} (hk : Name name.kind)
      (he : equals.kind = .equals) (h : Value ts n) :
      Property (name :: equals :: ts) ⟨name.position, name.text, n⟩

/-- The properties of a block. -/
inductive Properties : List Token → List (BuildOrder.Property Node) → Prop
  | nil : Properties [] []
  | cons {ts us : List Token} {p : BuildOrder.Property Node} {ps : List (BuildOrder.Property Node)}
      (hp : Property ts p) (h : Properties us ps) : Properties (ts ++ us) (p :: ps)

/-- A module block. -/
inductive Block : List Token → ModuleBlock → Prop
  | intro {heading name opening closing : Token} {ts : List Token}
      {ps : List (BuildOrder.Property Node)} (hh : heading.kind = .keyword .module)
      (hn : name.kind = .identifier) (ho : opening.kind = .leftBrace) (h : Properties ts ps)
      (hc : closing.kind = .rightBrace) :
      Block (heading :: name :: opening :: (ts ++ [closing])) ⟨heading.position, name.text, ps⟩

/-! ## Reading what is derived -/

theorem leaf_iff {t : Token} {n : Node} : Leaf t n ↔ t.leaf? = some n := by
  constructor
  · intro h
    cases h with
    | string h => rw [Token.leaf?, h]
    | identifier h => rw [Token.leaf?, h]
  · intro h
    unfold Token.leaf? at h
    split at h
    · cases h
      exact .string ‹_›
    · cases h
      exact .identifier ‹_›
    · cases h

theorem name_iff {k : Token.Kind} : Name k ↔ k.namesProperty = true := by
  constructor
  · intro h
    cases h with
    | identifier => rfl
    | reserved h => simpa [Token.Kind.namesProperty] using h
  · intro h
    unfold Token.Kind.namesProperty at h
    split at h
    · exact .identifier
    · exact .reserved (by simpa using h)
    · cases h

theorem Leaf.kind {t : Token} {n : Node} (h : Leaf t n) :
    t.kind = .string ∨ t.kind = .identifier := by
  cases h with
  | string h => exact .inl h
  | identifier h => exact .inr h

theorem expect_prepend {k : Token.Kind} {t : Token} (h : t.kind = k) (ts : List Token)
    (s : Tokens) : Parse.expect k (s.prepend (t :: ts)) = .ok t (s.prepend ts) := by
  rw [Parse.expect, Tokens.current_prepend, if_pos h, Tokens.advance_prepend]

/-- No comma stands in front of elements or of the closing bracket behind them. -/
theorem Elements.current_ne_comma {ts : List Token} {ns : List Node} (h : Elements ts ns)
    {s : Tokens} (hs : s.current.kind = .rightBracket) :
    (s.prepend ts).current.kind ≠ .comma := by
  cases h with
  | nil =>
    rw [Tokens.prepend_nil, hs]
    decide
  | plain hn h => rcases hn.kind with hk | hk <;> simp [hk]
  | comma hn hc h => rcases hn.kind with hk | hk <;> simp [hk]

theorem Elements.read {ts : List Token} {ns : List Node} (h : Elements ts ns) {s : Tokens}
    (hs : s.current.kind = .rightBracket) : Parse.elements (s.prepend ts) = .ok ns s := by
  -- a leaf in front is taken, and the reading goes on where the separator is passed
  have step : ∀ {t n us ns}, Leaf t n →
      Parse.elements ((s.prepend us).skipComma) = .ok ns s →
      Parse.elements (s.prepend (t :: us)) = .ok (n :: ns) s := by
    intro t n us ns hn hu
    rw [Parse.elements, Tokens.current_prepend, leaf_iff.1 hn, Tokens.advance_prepend, hu]
    rcases hn.kind with hk | hk <;> simp [hk]
  induction h with
  | nil => rw [Parse.elements, Tokens.prepend_nil, if_pos hs]
  | plain hn h ih =>
    refine step hn ?_
    rw [Tokens.skipComma, if_neg (h.current_ne_comma hs)]
    exact ih
  | comma hn hc h ih =>
    refine step hn ?_
    rw [Tokens.skipComma, Tokens.current_prepend, if_pos hc]
    exact ih

theorem Value.read {ts : List Token} {n : Node} (h : Value ts n) (s : Tokens) :
    Parse.value (s.prepend ts) = .ok n s := by
  cases h with
  | leaf h =>
    rw [Parse.value, Tokens.current_prepend, leaf_iff.1 h]
    rcases h.kind with hk | hk <;> simp [hk]
  | array ho h hc =>
    rename_i opening closing ts ns
    have helems := h.read (s := s.prepend [closing]) hc
    rw [← Tokens.prepend_append] at helems
    rw [Parse.value, Tokens.current_prepend, if_pos ho, Parse.array]
    rw [bind_of_ok (expect_prepend ho _ s), bind_of_ok helems, bind_of_ok (expect_prepend hc [] s)]
    rfl

theorem Property.read {ts : List Token} {p : BuildOrder.Property Node} (h : Property ts p)
    (s : Tokens) : Parse.property (s.prepend ts) = .ok p s := by
  cases h with
  | intro hk he h =>
    rename_i name equals ts n
    have hname : Parse.propertyName (s.prepend (name :: equals :: ts)) =
        .ok name (s.prepend (equals :: ts)) := by
      rw [Parse.propertyName, Tokens.current_prepend, if_pos (name_iff.1 hk),
        Tokens.advance_prepend]
    rw [Parse.property, bind_of_ok hname, bind_of_ok (expect_prepend he ts s),
      bind_of_ok (h.read s)]
    rfl

theorem Property.current_kind {ts : List Token} {p : BuildOrder.Property Node}
    (h : Property ts p) (s : Tokens) :
    ¬ ((s.prepend ts).current.kind = .rightBrace ∨ (s.prepend ts).current.kind = .endOfFile) := by
  cases h with
  | intro hk he h =>
    rw [Tokens.current_prepend]
    rintro (hc | hc) <;> (rw [hc] at hk; cases hk)

theorem Properties.read {ts : List Token} {ps : List (BuildOrder.Property Node)}
    (h : Properties ts ps) {s : Tokens} (hs : s.current.kind = .rightBrace) :
    Parse.properties (s.prepend ts) = .ok ps s := by
  induction h with
  | nil => rw [Parse.properties, Tokens.prepend_nil, if_pos (.inl hs)]
  | cons hp h ih =>
    rw [Tokens.prepend_append, Parse.properties, if_neg (hp.current_kind _)]
    split
    · rename_i he
      rw [hp.read] at he
      cases he
    · rename_i he
      rw [hp.read] at he
      cases he
      rw [ih]

/-- A block that is derived is read as the node it denotes, up to its end. -/
theorem Block.read {ts : List Token} {b : ModuleBlock} (h : Block ts b) (s : Tokens) :
    Parse.block (s.prepend ts) = .ok b s := by
  cases h with
  | intro hh hn ho h hc =>
    rename_i heading name opening closing ts ps
    have hprops := h.read (s := s.prepend [closing]) hc
    rw [← Tokens.prepend_append] at hprops
    rw [Parse.block, bind_of_ok (expect_prepend hh _ s), bind_of_ok (expect_prepend hn _ s),
      bind_of_ok (expect_prepend ho _ s), bind_of_ok hprops, bind_of_ok (expect_prepend hc [] s)]
    rfl

end Derives

end BuildOrder
