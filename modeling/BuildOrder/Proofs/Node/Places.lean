/-
The reading of a block goes by the kinds and the texts of the tokens alone. From the same tokens at
other places it comes to the same node, or to the same fault, at the other places; and the module that
a block describes does not depend on places at all.

Each production commutes with moving its tokens, and two readers that do so also do so one behind the
other. Tokens with the same kinds and texts become the same when all are moved to one place.
-/
import BuildOrder.Module.Block
import BuildOrder.Proofs.Node.Prefix

namespace BuildOrder

open Steps

/-! ## Nodes and faults at other places -/

theorem Property.sizeOf_value_lt (p : Property Node) : sizeOf p.value < sizeOf p := by
  obtain ⟨start, name, value⟩ := p
  simp only [mk.sizeOf_spec]
  omega

theorem Block.sizeOf_properties_lt (b : ModuleBlock) : sizeOf b.properties < sizeOf b := by
  obtain ⟨start, name, properties⟩ := b
  simp only [mk.sizeOf_spec]
  omega

/-- The same node at other places. -/
def Node.relocate (f : Position → Position) : Node → Node
  | .identifier start text => .identifier (f start) text
  | .string start text => .string (f start) text
  | .array start elements => .array (f start) (elements.map (relocate f))
  | .property p => .property ⟨f p.start, p.name, p.value.relocate f⟩
  | .block b =>
    .block ⟨f b.start, b.name, b.properties.map fun p => ⟨f p.start, p.name, p.value.relocate f⟩⟩
termination_by n => n
decreasing_by
  · have := List.sizeOf_lt_of_mem ‹_ ∈ elements›
    simp only [Node.array.sizeOf_spec]
    omega
  · have := p.sizeOf_value_lt
    simp only [Node.property.sizeOf_spec]
    omega
  · have := List.sizeOf_lt_of_mem ‹_ ∈ b.properties›
    have := p.sizeOf_value_lt
    have := b.sizeOf_properties_lt
    simp only [Node.block.sizeOf_spec]
    omega

/-- The same property at other places. -/
def Property.relocate (f : Position → Position) (p : Property Node) : Property Node :=
  ⟨f p.start, p.name, p.value.relocate f⟩

/-- The same block at other places. -/
def Block.relocate (f : Position → Position) (b : ModuleBlock) : ModuleBlock :=
  ⟨f b.start, b.name, b.properties.map (.relocate f)⟩

/-- The same fault at another place. -/
def GrammarFault.relocate (f : Position → Position) (e : GrammarFault) : GrammarFault :=
  ⟨e.expected, e.found.relocate f⟩

variable {f : Position → Position} {α β : Type}

theorem Token.leaf?_relocate (t : Token) :
    (t.relocate f).leaf? = t.leaf?.map (.relocate f) := by
  obtain ⟨kind, text, position⟩ := t
  cases kind <;> simp [leaf?, relocate, Node.relocate]

/-! ## Reading at other places -/

namespace Parse

/-- What a reading comes to, at other places. -/
def relocated (f : Position → Position) (g : α → α) :
    EStateM.Result GrammarFault Tokens α → EStateM.Result GrammarFault Tokens α
  | .ok a s => .ok (g a) (s.relocate f)
  | .error e s => .error (e.relocate f) (s.relocate f)

/-- From some tokens at other places a reader comes to what another one comes to from these tokens,
at the other places. -/
def ParallelAt (f : Position → Position) (g : α → α) (x' x : Parse α) (s : Tokens) : Prop :=
  x' (s.relocate f) = relocated f g (x s)

variable {s : Tokens}

theorem ParallelAt.bind {g : α → α} {h : β → β} {x' x : Parse α} {k' k : α → Parse β}
    (hx : ParallelAt f g x' x s)
    (hk : ∀ a s₁, x s = .ok a s₁ → ParallelAt f h (k' (g a)) (k a) s₁) :
    ParallelAt f h (x' >>= k') (x >>= k) s := by
  unfold ParallelAt at hx ⊢
  cases hr : x s with
  | ok a s₁ =>
    rw [hr] at hx
    rw [bind_of_ok hx, bind_of_ok hr]
    exact hk a s₁ hr
  | error e s₁ =>
    rw [hr] at hx
    rw [bind_of_error hx, bind_of_error hr]
    rfl

theorem parallelAt_pure {g : α → α} {a' a : α} (h : a' = g a) :
    ParallelAt f g (pure a') (pure a) s := by
  subst h
  rfl

theorem parallelAt_expect (k : Token.Kind) :
    ParallelAt f (.relocate f) (expect k) (expect k) s := by
  unfold ParallelAt expect
  rw [Tokens.kind_current_relocate, Tokens.current_relocate, Tokens.advance_relocate]
  split <;> rfl

theorem parallelAt_propertyName :
    ParallelAt f (.relocate f) propertyName propertyName s := by
  unfold ParallelAt propertyName
  rw [Tokens.kind_current_relocate, Tokens.current_relocate, Tokens.advance_relocate]
  split <;> rfl

theorem parallelAt_elements :
    ParallelAt f (List.map (.relocate f)) elements elements s := by
  unfold ParallelAt
  fun_induction elements s with
  | case1 s h => rw [elements, Tokens.kind_current_relocate, if_pos h]; rfl
  | case2 s h₁ h₂ => rw [elements, Tokens.kind_current_relocate, if_neg h₁, dif_pos h₂]; rfl
  | case3 s h₁ h₂ hl =>
    rw [elements, Tokens.kind_current_relocate, if_neg h₁, dif_neg h₂, Tokens.current_relocate,
      Token.leaf?_relocate, hl]
    rfl
  | case4 s h₁ h₂ leaf hl leaves s' hr ih =>
    rw [elements, Tokens.kind_current_relocate, if_neg h₁, dif_neg h₂, Tokens.current_relocate,
      Token.leaf?_relocate, hl, Tokens.advance_relocate, Tokens.skipComma_relocate]
    dsimp only [Option.map_some]
    rw [ih, hr]
    rfl
  | case5 s h₁ h₂ leaf hl e s' hr ih =>
    rw [elements, Tokens.kind_current_relocate, if_neg h₁, dif_neg h₂, Tokens.current_relocate,
      Token.leaf?_relocate, hl, Tokens.advance_relocate, Tokens.skipComma_relocate]
    dsimp only [Option.map_some]
    rw [ih, hr]
    rfl

theorem parallelAt_array : ParallelAt f (.relocate f) array array s :=
  .bind (parallelAt_expect _) fun _ _ _ => .bind parallelAt_elements fun _ _ _ =>
    .bind (parallelAt_expect _) fun _ _ _ => parallelAt_pure (by rw [Node.relocate]; rfl)

theorem parallelAt_value : ParallelAt f (.relocate f) value value s := by
  unfold ParallelAt value
  rw [Tokens.kind_current_relocate, Tokens.current_relocate, Tokens.advance_relocate,
    Token.leaf?_relocate]
  split
  · exact parallelAt_array
  · cases s.current.leaf? <;> rfl

theorem parallelAt_property : ParallelAt f (.relocate f) property property s :=
  .bind parallelAt_propertyName fun _ _ _ => .bind (parallelAt_expect _) fun _ _ _ =>
    .bind parallelAt_value fun _ _ _ => parallelAt_pure rfl

theorem parallelAt_properties :
    ParallelAt f (List.map (.relocate f)) properties properties s := by
  induction hk : s.ahead.length using Nat.strongRecOn generalizing s with
  | ind k ih =>
    by_cases h : s.current.kind = .rightBrace ∨ s.current.kind = .endOfFile
    · unfold ParallelAt
      rw [properties, properties, Tokens.kind_current_relocate, if_pos h, if_pos h]
      rfl
    · have h' : ¬ ((s.relocate f).current.kind = .rightBrace ∨
          (s.relocate f).current.kind = .endOfFile) := by
        rw [Tokens.kind_current_relocate]
        exact h
      unfold ParallelAt
      rw [properties_of_not_end h, properties_of_not_end h']
      refine ParallelAt.bind parallelAt_property fun p s₁ hp => ?_
      exact .bind (ih _ (hk ▸ property_length_lt hp) rfl) fun _ _ _ => parallelAt_pure rfl

/-- A block is read by the kinds and the texts of the tokens alone. -/
theorem parallelAt_block : ParallelAt f (.relocate f) block block s :=
  .bind (parallelAt_expect _) fun _ _ _ => .bind (parallelAt_expect _) fun _ _ _ =>
    .bind (parallelAt_expect _) fun _ _ _ => .bind parallelAt_properties fun _ _ _ =>
      .bind (parallelAt_expect _) fun _ _ _ => parallelAt_pure rfl

end Parse

/-! ## The module of a block at other places -/

theorem Node.string?_relocate (n : Node) : (n.relocate f).string? = n.string? := by
  cases n <;> simp [relocate, string?]

theorem Node.name?_relocate (n : Node) : (n.relocate f).name? = n.name? := by
  cases n <;> simp [relocate, name?]

theorem Node.strings_relocate (n : Node) : (n.relocate f).strings = n.strings := by
  cases n with
  | array start elements =>
    simp only [relocate, strings, List.filterMap_map, Function.comp_def, string?_relocate]
  | _ => simp [relocate, strings]

theorem Node.names_relocate (n : Node) : (n.relocate f).names = n.names := by
  cases n with
  | array start elements =>
    simp only [relocate, names, List.filterMap_map, Function.comp_def, name?_relocate]
  | _ => simp [relocate, names]

theorem Module.assign_relocate (m : Module) (p : Property Node) :
    m.assign (p.relocate f) = m.assign p := by
  have hkey : (p.relocate f).key? = p.key? := rfl
  have hvalue : (p.relocate f).value = p.value.relocate f := rfl
  unfold assign
  rw [hkey, hvalue, Node.strings_relocate, Node.names_relocate, Node.name?_relocate]

/-- A block describes the same module wherever its parts stand. -/
theorem Module.ofBlock_relocate (name directory : String) (b : ModuleBlock) :
    ofBlock name directory (b.relocate f) = ofBlock name directory b := by
  unfold ofBlock Block.relocate
  rw [List.foldl_map]
  simp only [assign_relocate]

/-! ## Tokens with the same kinds and texts -/

/-- The kinds and the texts of tokens. -/
def Tokens.spelling (s : Tokens) : List (Token.Kind × String) :=
  s.toList.map fun t => (t.kind, t.text)

theorem Tokens.relocate_eq_of_spelling {s s' : Tokens} (h : s'.spelling = s.spelling)
    (p : Position) : s'.relocate (fun _ => p) = s.relocate fun _ => p := by
  have hmap : ∀ s : Tokens, (s.relocate fun _ => p).toList =
      s.spelling.map fun x => ⟨x.1, x.2, p⟩ := by
    intro s
    rw [toList_relocate, spelling, List.map_map]
    rfl
  apply toList_injective
  rw [hmap, hmap, h]

end BuildOrder
