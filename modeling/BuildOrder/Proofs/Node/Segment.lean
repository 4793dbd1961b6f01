/-
Which tokens a module block takes. At a position of a list of tokens a block is read if and only if
some segment of the list that begins there is derived. There is at most one such segment: the reading
stops behind it, gives the node that the derivation denotes, and is the same whatever follows.

That a derived segment is read is in the module on derivations. Here each production is followed the
other way: what it takes away is derived, and put in front of what it leaves it is what was given.
-/
import BuildOrder.Proofs.Node.Derivation

namespace BuildOrder

open Steps

namespace Parse

variable {α : Type} {s s' : Tokens}

/-- The tokens that a reading leaves. -/
def rest : EStateM.Result GrammarFault Tokens α → Tokens
  | .ok _ s => s
  | .error _ s => s

/-! ## What is read is derived -/

theorem eq_prepend_of_expect {k : Token.Kind} {t : Token} (h : expect k s = .ok t s')
    (hk : k ≠ .endOfFile) : t.kind = k ∧ s = s'.prepend [t] := by
  obtain ⟨hc, rfl, rfl⟩ := expect_ok h
  rw [← hc] at hk
  exact ⟨hc, (Tokens.prepend_current hk).symm⟩

theorem kind_ne_of_leaf {t : Token} {n : Node} (h : t.leaf? = some n) : t.kind ≠ .endOfFile := by
  rcases (Derives.leaf_iff.2 h).kind with hk | hk <;> simp [hk]

theorem eq_prepend_of_leaf {n : Node} (h : s.current.leaf? = some n) :
    Derives.Leaf s.current n ∧ s = s.advance.prepend [s.current] :=
  ⟨Derives.leaf_iff.2 h, (Tokens.prepend_current (kind_ne_of_leaf h)).symm⟩

theorem derived_of_elements {ns : List Node} (h : elements s = .ok ns s') :
    ∃ ts, Derives.Elements ts ns ∧ s = s'.prepend ts := by
  fun_induction elements s generalizing ns with
  | case1 => cases h; exact ⟨[], .nil, rfl⟩
  | case2 => cases h; exact ⟨[], .nil, rfl⟩
  | case3 => cases h
  | case4 s _ _ n hn ns s₁ hr ih =>
    cases h
    obtain ⟨ts, hts, hs⟩ := ih hr
    obtain ⟨hl, hc⟩ := eq_prepend_of_leaf hn
    unfold Tokens.skipComma at hs
    split at hs
    · rename_i hcomma
      have hne : s.advance.current.kind ≠ .endOfFile := by rw [hcomma]; decide
      refine ⟨_, .comma hl hcomma hts, ?_⟩
      rw [hc, ← Tokens.prepend_current hne, hs]
      rfl
    · refine ⟨_, .plain hl hts, ?_⟩
      rw [hc, hs]
      rfl
  | case5 => cases h

theorem derived_of_array {n : Node} (h : array s = .ok n s') :
    ∃ ts, Derives.Value ts n ∧ s = s'.prepend ts := by
  obtain ⟨opening, s₁, h₁, h⟩ := bind_ok h
  obtain ⟨ns, s₂, h₂, h⟩ := bind_ok h
  obtain ⟨closing, s₃, h₃, h⟩ := bind_ok h
  cases h
  obtain ⟨ho, rfl⟩ := eq_prepend_of_expect h₁ (by decide)
  obtain ⟨ts, hts, rfl⟩ := derived_of_elements h₂
  obtain ⟨hc, rfl⟩ := eq_prepend_of_expect h₃ (by decide)
  refine ⟨_, .array ho hts hc, ?_⟩
  rw [← Tokens.prepend_append, ← Tokens.prepend_append]
  rfl

theorem derived_of_value {n : Node} (h : value s = .ok n s') :
    ∃ ts, Derives.Value ts n ∧ s = s'.prepend ts := by
  unfold value at h
  split at h
  · exact derived_of_array h
  · split at h
    · rename_i hn
      cases h
      obtain ⟨hl, hs⟩ := eq_prepend_of_leaf hn
      exact ⟨_, .leaf hl, hs⟩
    · cases h

theorem eq_prepend_of_propertyName {t : Token} (h : propertyName s = .ok t s') :
    Derives.Name t.kind ∧ s = s'.prepend [t] := by
  unfold propertyName at h
  split at h
  · rename_i hn
    cases h
    refine ⟨Derives.name_iff.2 hn, (Tokens.prepend_current ?_).symm⟩
    intro he
    rw [he] at hn
    cases hn
  · cases h

theorem derived_of_property {p : Property Node} (h : property s = .ok p s') :
    ∃ ts, Derives.Property ts p ∧ s = s'.prepend ts := by
  obtain ⟨name, s₁, h₁, h⟩ := bind_ok h
  obtain ⟨equals, s₂, h₂, h⟩ := bind_ok h
  obtain ⟨n, s₃, h₃, h⟩ := bind_ok h
  cases h
  obtain ⟨hk, rfl⟩ := eq_prepend_of_propertyName h₁
  obtain ⟨he, rfl⟩ := eq_prepend_of_expect h₂ (by decide)
  obtain ⟨ts, hts, rfl⟩ := derived_of_value h₃
  exact ⟨_, .intro hk he hts, rfl⟩

theorem derived_of_properties {ps : List (Property Node)} (h : properties s = .ok ps s') :
    ∃ ts, Derives.Properties ts ps ∧ s = s'.prepend ts := by
  fun_induction properties s generalizing ps with
  | case1 => cases h; exact ⟨[], .nil, rfl⟩
  | case2 => cases h
  | case3 s _ p s₁ hp ps s₂ hr ih =>
    cases h
    obtain ⟨ts, hts, rfl⟩ := derived_of_property hp
    obtain ⟨us, hus, rfl⟩ := ih hr
    refine ⟨_, .cons hts hus, ?_⟩
    rw [Tokens.prepend_append]
  | case4 => cases h

theorem derived_of_block {b : ModuleBlock} (h : block s = .ok b s') :
    ∃ ts, Derives.Block ts b ∧ s = s'.prepend ts := by
  obtain ⟨heading, s₁, h₁, h⟩ := bind_ok h
  obtain ⟨name, s₂, h₂, h⟩ := bind_ok h
  obtain ⟨opening, s₃, h₃, h⟩ := bind_ok h
  obtain ⟨ps, s₄, h₄, h⟩ := bind_ok h
  obtain ⟨closing, s₅, h₅, h⟩ := bind_ok h
  cases h
  obtain ⟨hh, rfl⟩ := eq_prepend_of_expect h₁ (by decide)
  obtain ⟨hn, rfl⟩ := eq_prepend_of_expect h₂ (by decide)
  obtain ⟨ho, rfl⟩ := eq_prepend_of_expect h₃ (by decide)
  obtain ⟨ts, hts, rfl⟩ := derived_of_properties h₄
  obtain ⟨hc, rfl⟩ := eq_prepend_of_expect h₅ (by decide)
  refine ⟨_, .intro hh hn ho hts hc, ?_⟩
  simp only [← Tokens.prepend_append]
  rfl

end Parse

/-! ## Segments -/

/-- A block ends with its closing brace. -/
theorem Derives.Block.getLast_kind {ts : List Token} {b : ModuleBlock} (h : Derives.Block ts b) :
    ∀ t ∈ ts.getLast?, t.kind = .rightBrace := by
  cases h with
  | intro hh hn ho h hc =>
    rename_i heading name opening closing ts ps
    intro t ht
    have hl : [heading, name, opening] ++ ts ++ [closing] =
      heading :: name :: opening :: (ts ++ [closing]) := by simp
    rw [← hl, List.getLast?_concat] at ht
    cases ht
    exact hc

theorem Derives.Block.ne_nil {ts : List Token} {b : ModuleBlock} (h : Derives.Block ts b) :
    ts ≠ [] := by
  cases h
  exact List.cons_ne_nil _ _

/-- A segment that is derived ends before the end of the file, and the tokens from its beginning on
are those of the segment with the tokens from its end on. -/
theorem Derives.Block.drop_eq {tokens : Tokens} {p q : Nat} {b : ModuleBlock}
    (h : Derives.Block (tokens.toList.extract p q) b) :
    p ≤ q ∧ q ≤ tokens.ahead.length ∧
      tokens.drop p = (tokens.drop q).prepend (tokens.toList.extract p q) := by
  have hne := h.ne_nil
  have hlen := List.length_pos_iff.2 hne
  have hall : tokens.toList.length = tokens.ahead.length + 1 := by simp [Tokens.toList]
  rw [List.extract_eq_take_drop, List.length_take, List.length_drop] at hlen
  have hp : p ≤ tokens.ahead.length := by omega
  have hpre : tokens.toList.extract p q <+: (tokens.drop p).toList := by
    rw [Tokens.toList_drop hp, List.extract_eq_take_drop]
    exact List.take_prefix ..
  have hlast : ∀ t ∈ (tokens.toList.extract p q).getLast?, t.kind ≠ .endOfFile := by
    intro t ht
    rw [h.getLast_kind t ht]
    decide
  obtain ⟨hle, he⟩ := Tokens.drop_of_prefix hpre hlast
  have hsize : (tokens.drop p).ahead.length = tokens.ahead.length - p := List.length_drop ..
  have hseg : (tokens.toList.extract p q).length = q - p := by
    rw [List.extract_eq_take_drop, List.length_take, List.length_drop] at hle ⊢
    omega
  rw [hsize, hseg] at hle
  rw [hseg, Tokens.drop_drop, Nat.add_sub_cancel' (by omega)] at he
  exact ⟨by omega, by omega, he⟩

/-- At each position a block is read if and only if a segment that begins there is derived. Then the
segment is the only one, the reading stops at its end with the node that the derivation denotes, and
it does so whatever tokens follow the segment. -/
theorem Parse.block_segment (tokens : Tokens) (p : Nat) :
    ((∃ b s, block (tokens.drop p) = .ok b s) ↔
      ∃ q b, Derives.Block (tokens.toList.extract p q) b) ∧
    ∀ q b, Derives.Block (tokens.toList.extract p q) b →
      q < tokens.toList.length ∧
      block (tokens.drop p) = .ok b (tokens.drop q) ∧
      (∀ q' b', Derives.Block (tokens.toList.extract p q') b' → q' = q ∧ b' = b) ∧
      ∀ rest : Tokens, block (rest.prepend (tokens.toList.extract p q)) = .ok b rest := by
  have read : ∀ {q b}, Derives.Block (tokens.toList.extract p q) b →
      block (tokens.drop p) = .ok b (tokens.drop q) := by
    intro q b h
    rw [h.drop_eq.2.2]
    exact h.read _
  refine ⟨⟨?_, fun ⟨q, b, h⟩ => ⟨b, _, read h⟩⟩, fun q b h => ⟨?_, read h, ?_, h.read⟩⟩
  -- what is taken away lies between the two positions, as the block is not empty
  · rintro ⟨b, s, hb⟩
    obtain ⟨ts, hts, hs⟩ := derived_of_block hb
    have ha : tokens.ahead.drop p = ts ++ s.ahead := congrArg Tokens.ahead hs
    have hp : p ≤ tokens.ahead.length := by
      apply Nat.le_of_not_lt
      intro hp
      rw [List.drop_eq_nil_of_le (by omega)] at ha
      exact hts.ne_nil (List.append_eq_nil_iff.1 ha.symm).1
    refine ⟨p + ts.length, b, ?_⟩
    rw [List.extract_eq_take_drop, Nat.add_sub_cancel_left, ← Tokens.toList_drop hp, hs,
      Tokens.toList_prepend, List.take_left]
    exact hts
  · have := h.drop_eq.2.1
    simp only [Tokens.toList, List.length_append, List.length_singleton]
    omega
  -- the reading from one position has one result, so it ends two segments at the same place
  · intro q' b' h'
    have he := (read h').symm.trans (read h)
    rw [EStateM.Result.ok.injEq] at he
    exact ⟨Tokens.drop_injective h'.drop_eq.2.1 h.drop_eq.2.1 he.2, he.1⟩

end BuildOrder
