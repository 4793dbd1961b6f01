/-
The reader of blocks once more, with the index of the next token as its cursor. A look at an index
that the list does not have is an outcome of its own. The main statement of this file is that from
any place up to the first end of the file the two readers agree: that outcome does not come up, and
the cursor moves neither back nor behind the first end of the file.

Each production agrees where the parts do that it is made of, and at the bottom a token that is
taken is not the end of the file.
-/
import BuildOrder.Proofs.Node.Prefix

namespace BuildOrder

open Steps

variable {α β : Type}

namespace Parse

/-! ## Reading by an index -/

/-- A reader of a list of tokens that keeps the index of the next one. Its faults are those of the
grammar, and `none` for a look at an index that the list does not have. -/
abbrev Indexed := EStateM (Option GrammarFault) Nat

namespace Indexed

variable (tokens : List Token)

/-- Goes by the next token. -/
def look (f : Token → Indexed α) : Indexed α := fun i =>
  match tokens[i]? with
  | some t => f t i
  | none => .error none i

/-- Takes the next token. -/
def take (a : α) : Indexed α := fun i => .ok a (i + 1)

/-- Refuses the next token. -/
def refuse (expected : Expectation) (found : Token) : Indexed α :=
  fun i => .error (some ⟨expected, found⟩) i

/-- Takes a token of the given kind. -/
def expect (kind : Token.Kind) : Indexed Token :=
  look tokens fun t => if t.kind = kind then take t else refuse (.token kind) t

/-- Takes a separator, where one stands next. -/
def separator : Indexed Unit :=
  look tokens fun t => if t.kind = .comma then take () else return ()

variable {tokens} {i j : Nat}

theorem look_ok {f : Token → Indexed α} {a : α} (h : look tokens f i = .ok a j) :
    i < tokens.length ∧ ∃ t, f t i = .ok a j := by
  unfold look at h
  split at h
  · rename_i t ht
    exact ⟨(List.getElem?_eq_some_iff.1 ht).1, t, h⟩
  · cases h

theorem expect_lt {kind : Token.Kind} {t : Token} (h : expect tokens kind i = .ok t j) :
    i < j := by
  obtain ⟨-, t, h⟩ := look_ok h
  split at h <;> cases h
  exact Nat.lt_succ_self i

theorem separator_le (h : separator tokens i = .ok () j) : i ≤ j := by
  obtain ⟨-, t, h⟩ := look_ok h
  split at h <;> cases h
  · exact Nat.le_succ i
  · exact Nat.le_refl i

variable (tokens)

/-- The elements of an array up to its end, each with the separator that may follow it. -/
def elements (i : Nat) : EStateM.Result (Option GrammarFault) Nat (List Node) :=
  match _ht : tokens[i]? with
  | none => .error none i
  | some t =>
    if t.kind = .rightBracket then .ok [] i
    else if t.kind = .endOfFile then .ok [] i
    else
      match t.leaf? with
      | none => refuse .element t i
      | some leaf =>
        match _hs : separator tokens (i + 1) with
        | .error e j => .error e j
        | .ok () j =>
          match elements j with
          | .ok leaves k => .ok (leaf :: leaves) k
          | .error e k => .error e k
termination_by tokens.length - i
decreasing_by
  have := (List.getElem?_eq_some_iff.1 _ht).1
  have := separator_le _hs
  omega

/-- An array in brackets. -/
def array : Indexed Node := do
  let opening ← expect tokens .leftBracket
  let leaves ← elements tokens
  let _ ← expect tokens .rightBracket
  return .array opening.position leaves

/-- The value of a property. -/
def value : Indexed Node :=
  look tokens fun t =>
    if t.kind = .leftBracket then array tokens
    else
      match t.leaf? with
      | some leaf => take leaf
      | none => refuse .value t

/-- The name of a property. -/
def propertyName : Indexed Token :=
  look tokens fun t => if t.kind.namesProperty then take t else refuse .propertyName t

/-- A property: name, equals sign and value. -/
def property : Indexed (Property Node) := do
  let name ← propertyName tokens
  let _ ← expect tokens .equals
  let node ← value tokens
  return ⟨name.position, name.text, node⟩

variable {tokens}

theorem elements_eq {t : Token} (ht : tokens[i]? = some t) : elements tokens i =
    if t.kind = .rightBracket ∨ t.kind = .endOfFile then .ok [] i
    else
      match t.leaf? with
      | none => refuse .element t i
      | some leaf => (separator tokens >>= fun _ => elements tokens >>= fun leaves =>
          pure (leaf :: leaves)) (i + 1) := by
  rw [elements]
  split
  · rename_i hn
    rw [ht] at hn
    cases hn
  rename_i t' ht'
  rw [ht] at ht'
  cases ht'
  by_cases hend : t.kind = .rightBracket
  · rw [if_pos hend, if_pos (.inl hend)]
  by_cases hend' : t.kind = .endOfFile
  · rw [if_neg hend, if_pos hend', if_pos (.inr hend')]
  rw [if_neg hend, if_neg hend', if_neg (not_or.2 ⟨hend, hend'⟩)]
  cases t.leaf? with
  | none => rfl
  | some leaf =>
    dsimp only
    split
    · rename_i hs
      rw [bind_of_error hs]
    · rename_i j hs
      rw [bind_of_ok hs]
      cases hr : elements tokens j with
      | ok leaves k => rw [bind_of_ok hr]; rfl
      | error e k => rw [bind_of_error hr]

theorem elements_le {leaves : List Node} (h : elements tokens i = .ok leaves j) : i ≤ j := by
  fun_induction elements tokens i generalizing leaves with
  | case1 => cases h
  | case2 => cases h; exact Nat.le_refl _
  | case3 => cases h; exact Nat.le_refl _
  | case4 => cases h
  | case5 => cases h
  | case6 i t _ _ _ leaf _ k hs leaves k' hr ih =>
    cases h
    exact Nat.le_trans (Nat.le_of_succ_le (separator_le hs)) (ih hr)
  | case7 => cases h

theorem array_le {node : Node} (h : array tokens i = .ok node j) : i ≤ j := by
  obtain ⟨_, i₁, h₁, h⟩ := bind_ok h
  obtain ⟨_, i₂, h₂, h⟩ := bind_ok h
  obtain ⟨_, i₃, h₃, h⟩ := bind_ok h
  cases h
  exact Nat.le_trans (Nat.le_of_lt (expect_lt h₁))
    (Nat.le_trans (elements_le h₂) (Nat.le_of_lt (expect_lt h₃)))

theorem value_le {node : Node} (h : value tokens i = .ok node j) : i ≤ j := by
  obtain ⟨-, t, h⟩ := look_ok h
  split at h
  · exact array_le h
  · cases hl : t.leaf? <;> rw [hl] at h <;> cases h
    exact Nat.le_succ i

theorem propertyName_lt {t : Token} (h : propertyName tokens i = .ok t j) :
    i < j ∧ i < tokens.length := by
  obtain ⟨hlt, t, h⟩ := look_ok h
  split at h <;> cases h
  exact ⟨Nat.lt_succ_self i, hlt⟩

theorem property_lt {p : Property Node} (h : property tokens i = .ok p j) :
    i < j ∧ i < tokens.length := by
  obtain ⟨_, i₁, h₁, h⟩ := bind_ok h
  obtain ⟨_, i₂, h₂, h⟩ := bind_ok h
  obtain ⟨_, i₃, h₃, h⟩ := bind_ok h
  cases h
  obtain ⟨hlt, hlen⟩ := propertyName_lt h₁
  exact ⟨Nat.lt_trans hlt (Nat.lt_of_lt_of_le (expect_lt h₂) (value_le h₃)), hlen⟩

variable (tokens)

/-- The properties of a block up to its end. -/
def properties (i : Nat) : EStateM.Result (Option GrammarFault) Nat (List (Property Node)) :=
  match tokens[i]? with
  | none => .error none i
  | some t =>
    if t.kind = .rightBrace ∨ t.kind = .endOfFile then .ok [] i
    else
      match _hp : property tokens i with
      | .error e j => .error e j
      | .ok p j =>
        match properties j with
        | .ok ps k => .ok (p :: ps) k
        | .error e k => .error e k
termination_by tokens.length - i
decreasing_by
  have := property_lt _hp
  omega

variable {tokens} in
theorem properties_of_not_end {t : Token} (ht : tokens[i]? = some t)
    (h : ¬ (t.kind = .rightBrace ∨ t.kind = .endOfFile)) :
    properties tokens i =
      (property tokens >>= fun p => properties tokens >>= fun ps => pure (p :: ps)) i := by
  rw [properties, ht]
  dsimp only
  rw [if_neg h]
  split
  · rename_i hp
    rw [bind_of_error hp]
  · rename_i p j hp
    rw [bind_of_ok hp]
    cases hr : properties tokens j with
    | ok ps k => rw [bind_of_ok hr]; rfl
    | error e k => rw [bind_of_error hr]

/-- One module block. -/
def block : Indexed ModuleBlock := do
  let heading ← expect tokens (.keyword .module)
  let name ← expect tokens .identifier
  let _ ← expect tokens .leftBrace
  let ps ← properties tokens
  let _ ← expect tokens .rightBrace
  return ⟨heading.position, name.text, ps⟩

/-- The index at which a call that begins at an index stops, also one that fails. -/
def behind (i : Nat) : Nat :=
  match block tokens i with
  | .ok _ j => j
  | .error _ j => j

end Indexed

end Parse

/-! ## The first end of the file -/

namespace Tokens

theorem ofList_toList (s : Tokens) : ofList s.toList = .ok s := by
  obtain ⟨ahead, final, h⟩ := s
  simp [ofList, toList, h]

/-- The index of the first end of the file. -/
def firstEnd (s : Tokens) : Nat := s.toList.findIdx (·.kind = .endOfFile)

variable {s : Tokens} {i : Nat}

theorem firstEnd_lt (s : Tokens) : s.firstEnd < s.toList.length := by
  refine List.findIdx_lt_length_of_exists ⟨s.final, ?_, by simpa using s.final_kind⟩
  simp [toList]

theorem firstEnd_le (s : Tokens) : s.firstEnd ≤ s.ahead.length := by
  have := s.firstEnd_lt
  simp only [toList, List.length_append, List.length_singleton] at this
  omega

theorem getElem?_toList (h : i ≤ s.firstEnd) : s.toList[i]? = some (s.drop i).current := by
  have hd := toList_drop (Nat.le_trans h s.firstEnd_le)
  rw [← List.head?_drop, ← hd, toList_eq_cons]
  rfl

theorem advance_drop (i : Nat) (s : Tokens) : (s.drop i).advance = s.drop (i + 1) := by
  simp [advance, drop]

/-- A token other than the end of the file stands in front of the first one. -/
theorem lt_firstEnd (h : i ≤ s.firstEnd) (hk : (s.drop i).current.kind ≠ .endOfFile) :
    i < s.firstEnd := by
  refine Nat.lt_of_le_of_ne h fun he => hk ?_
  subst he
  have hend := List.findIdx_getElem (w := s.firstEnd_lt)
  have hget := getElem?_toList (Nat.le_refl s.firstEnd)
  rw [List.getElem?_eq_getElem s.firstEnd_lt] at hget
  rw [← Option.some.inj hget]
  exact of_decide_eq_true hend

end Tokens

/-! ## The readers agree -/

namespace Parse

/-- What two readings come to that begin at an index: the same, at the same place, which is not in
front of the index nor behind the first end of the file. -/
inductive Agree (tokens : Tokens) (i : Nat) :
    EStateM.Result (Option GrammarFault) Nat α → EStateM.Result GrammarFault Tokens α → Prop
  | ok (a : α) {j : Nat} (hle : i ≤ j) (hend : j ≤ tokens.firstEnd) :
      Agree tokens i (.ok a j) (.ok a (tokens.drop j))
  | error (e : GrammarFault) {j : Nat} (hle : i ≤ j) (hend : j ≤ tokens.firstEnd) :
      Agree tokens i (.error (some e) j) (.error e (tokens.drop j))

/-- Two readers agree from an index on, if it is not behind the first end of the file. -/
def AgreeAt (tokens : Tokens) (x : Indexed α) (y : Parse α) (i : Nat) : Prop :=
  i ≤ tokens.firstEnd → Agree tokens i (x i) (y (tokens.drop i))

variable {tokens : Tokens} {x : Indexed α} {y : Parse α} {i : Nat}

theorem Agree.mono {r : EStateM.Result (Option GrammarFault) Nat α}
    {r' : EStateM.Result GrammarFault Tokens α} {j : Nat} (h : Agree tokens j r r') (hij : i ≤ j) :
    Agree tokens i r r' := by
  cases h with
  | ok a hle hend => exact .ok a (Nat.le_trans hij hle) hend
  | error e hle hend => exact .error e (Nat.le_trans hij hle) hend

theorem AgreeAt.bind {f : α → Indexed β} {g : α → Parse β} (hx : AgreeAt tokens x y i)
    (hf : ∀ a j, x i = .ok a j → AgreeAt tokens (f a) (g a) j) :
    AgreeAt tokens (x >>= f) (y >>= g) i := by
  intro hi
  have h := hx hi
  generalize hr : x i = r, hr' : y (tokens.drop i) = r' at h
  cases h with
  | ok a hle hend =>
    rw [bind_of_ok hr, bind_of_ok hr']
    exact (hf a _ hr hend).mono hle
  | error e hle hend =>
    rw [bind_of_error hr, bind_of_error hr']
    exact .error e hle hend

theorem agreeAt_pure (a : α) (i : Nat) : AgreeAt tokens (pure a) (pure a) i :=
  fun hi => .ok a (Nat.le_refl i) hi

/-- Up to the first end of the file the next token is there. -/
theorem AgreeAt.look {f : Token → Indexed α} (h : AgreeAt tokens (f (tokens.drop i).current) y i) :
    AgreeAt tokens (Indexed.look tokens.toList f) y i := by
  intro hi
  have := h hi
  rw [Indexed.look, Tokens.getElem?_toList hi]
  exact this

theorem AgreeAt.take {a : α} (hk : (tokens.drop i).current.kind ≠ .endOfFile)
    (hy : y (tokens.drop i) = .ok a (tokens.drop i).advance) :
    AgreeAt tokens (Indexed.take a) y i := by
  intro hi
  rw [hy, Tokens.advance_drop]
  exact .ok a (Nat.le_succ i) (Tokens.lt_firstEnd hi hk)

theorem AgreeAt.refuse {expected : Expectation} {found : Token}
    (hy : y (tokens.drop i) = .error ⟨expected, found⟩ (tokens.drop i)) :
    AgreeAt tokens (Indexed.refuse expected found) y i := by
  intro hi
  rw [hy]
  exact .error _ (Nat.le_refl i) hi

theorem agreeAt_expect {kind : Token.Kind} (hk : kind ≠ .endOfFile) (i : Nat) :
    AgreeAt tokens (Indexed.expect tokens.toList kind) (expect kind) i := by
  refine .look ?_
  by_cases h : (tokens.drop i).current.kind = kind
  · rw [if_pos h]
    exact .take (h ▸ hk) (by rw [expect, if_pos h])
  · rw [if_neg h]
    exact .refuse (by rw [expect, if_neg h])

theorem agreeAt_separator (i : Nat) :
    AgreeAt tokens (Indexed.separator tokens.toList) separator i := by
  refine .look ?_
  by_cases h : (tokens.drop i).current.kind = .comma
  · rw [if_pos h]
    exact .take (by simp [h]) (by rw [separator, Tokens.skipComma, if_pos h])
  · rw [if_neg h]
    intro hi
    rw [separator, Tokens.skipComma, if_neg h]
    exact .ok () (Nat.le_refl i) hi

theorem agreeAt_propertyName (i : Nat) :
    AgreeAt tokens (Indexed.propertyName tokens.toList) propertyName i := by
  refine .look ?_
  by_cases h : (tokens.drop i).current.kind.namesProperty = true
  · rw [if_pos h]
    refine .take ?_ (by rw [propertyName, if_pos h])
    intro he
    rw [he] at h
    cases h
  · rw [if_neg h]
    exact .refuse (by rw [propertyName, if_neg h])

theorem agreeAt_elements (i : Nat) :
    AgreeAt tokens (Indexed.elements tokens.toList) elements i := by
  induction hk : tokens.toList.length - i using Nat.strongRecOn generalizing i with
  | ind k ih =>
    intro hi
    have ht := Tokens.getElem?_toList hi
    have hlt := (List.getElem?_eq_some_iff.1 ht).1
    rw [Indexed.elements_eq ht]
    by_cases hend : (tokens.drop i).current.kind = .rightBracket ∨
      (tokens.drop i).current.kind = .endOfFile
    · rw [if_pos hend, elements_of_end hend]
      exact .ok [] (Nat.le_refl i) hi
    rw [if_neg hend]
    rw [not_or] at hend
    cases hl : (tokens.drop i).current.leaf? with
    | none =>
      rw [elements, if_neg hend.1, dif_neg hend.2, hl]
      exact .error _ (Nat.le_refl i) hi
    | some leaf =>
      have hpass : pass (tokens.drop i) = .ok () (tokens.drop (i + 1)) := by
        rw [pass, Tokens.advance_drop]
      rw [elements_of_leaf hl, bind_of_ok hpass]
      refine .mono (AgreeAt.bind (agreeAt_separator _) (fun _ j hs => ?_)
        (Tokens.lt_firstEnd hi hend.2)) (Nat.le_succ i)
      have := Indexed.separator_le hs
      exact .bind (ih _ (by omega) j rfl) fun _ _ _ => agreeAt_pure _ _

theorem agreeAt_array (i : Nat) : AgreeAt tokens (Indexed.array tokens.toList) array i :=
  .bind (agreeAt_expect (by decide) i) fun _ _ _ => .bind (agreeAt_elements _) fun _ _ _ =>
    .bind (agreeAt_expect (by decide) _) fun _ _ _ => agreeAt_pure _ _

theorem agreeAt_value (i : Nat) : AgreeAt tokens (Indexed.value tokens.toList) value i := by
  refine .look ?_
  by_cases h : (tokens.drop i).current.kind = .leftBracket
  · rw [if_pos h]
    intro hi
    rw [value, if_pos h]
    exact agreeAt_array i hi
  · rw [if_neg h]
    cases hl : (tokens.drop i).current.leaf? with
    | some leaf => exact .take (kind_ne_of_leaf hl) (by rw [value, if_neg h, hl])
    | none => exact .refuse (by rw [value, if_neg h, hl])

theorem agreeAt_property (i : Nat) : AgreeAt tokens (Indexed.property tokens.toList) property i :=
  .bind (agreeAt_propertyName i) fun _ _ _ => .bind (agreeAt_expect (by decide) _) fun _ _ _ =>
    .bind (agreeAt_value _) fun _ _ _ => agreeAt_pure _ _

theorem agreeAt_properties (i : Nat) :
    AgreeAt tokens (Indexed.properties tokens.toList) properties i := by
  induction hk : tokens.toList.length - i using Nat.strongRecOn generalizing i with
  | ind k ih =>
    intro hi
    have ht := Tokens.getElem?_toList hi
    by_cases h : (tokens.drop i).current.kind = .rightBrace ∨
      (tokens.drop i).current.kind = .endOfFile
    · rw [Indexed.properties, ht, properties, if_pos h]
      dsimp only
      rw [if_pos h]
      exact .ok [] (Nat.le_refl i) hi
    · rw [Indexed.properties_of_not_end ht h, properties_of_not_end h]
      refine AgreeAt.bind (agreeAt_property i) (fun p j hp => ?_) hi
      have := Indexed.property_lt hp
      exact .bind (ih _ (by omega) j rfl) fun _ _ _ => agreeAt_pure _ _

/-- From any place up to the first end of the file a call comes to the same with both readers. -/
theorem agreeAt_block (i : Nat) : AgreeAt tokens (Indexed.block tokens.toList) block i :=
  .bind (agreeAt_expect (by decide) i) fun _ _ _ =>
    .bind (agreeAt_expect (by decide) _) fun _ _ _ =>
      .bind (agreeAt_expect (by decide) _) fun _ _ _ => .bind (agreeAt_properties _) fun _ _ _ =>
        .bind (agreeAt_expect (by decide) _) fun _ _ _ => agreeAt_pure _ _

end Parse

end BuildOrder
