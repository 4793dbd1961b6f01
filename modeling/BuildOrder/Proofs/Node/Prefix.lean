/-
Where a block that cannot be read is refused: at the first token behind which nothing more can make
a block. The tokens in front of it begin a block that is derived, and with it they begin none.

For the first half every production that fails shows what it has taken, continued to something that
is derived; a production around it adds what it took before and what it wants behind. For the second
half no reader looks farther than at the token in front of which it stops. So a block that began
with the refused token as well would be refused where the derivation says that it is read.
-/
import BuildOrder.Proofs.Node.Segment

namespace BuildOrder

open Steps

namespace Parse

variable {α β : Type} {s s' : Tokens}

/-! ## How far a reader looks -/

/-- What a reading comes to, with other tokens left. -/
def leaving (s : Tokens) :
    EStateM.Result GrammarFault Tokens α → EStateM.Result GrammarFault Tokens α
  | .ok a _ => .ok a s
  | .error e _ => .error e s

/-- From some tokens a reader looks no farther than at the token in front of which it stops: it
comes to the same from other tokens that begin with those it takes and this one. -/
def LocalAt (x : Parse α) (s : Tokens) : Prop :=
  ∃ ts, s = (rest (x s)).prepend ts ∧
    ∀ s', s'.current = (rest (x s)).current → x (s'.prepend ts) = leaving s' (x s)

/-- A reader that takes nothing, and goes by the next token. -/
theorem LocalAt.stay {x : Parse α} {r : EStateM.Result GrammarFault Tokens α}
    (h : ∀ s', s'.current = s.current → x s' = leaving s' r) : LocalAt x s := by
  have hs := h s rfl
  have hr : rest (x s) = s := by
    rw [hs]
    cases r <;> rfl
  refine ⟨[], hr.symm, fun s' hs' => ?_⟩
  rw [hr] at hs'
  rw [hs, Tokens.prepend_nil, h s' hs']
  cases r <;> rfl

/-- A reader that takes the next token, and goes by this token. -/
theorem LocalAt.take {x : Parse α} {a : α} (hne : s.current.kind ≠ .endOfFile)
    (h : ∀ s', s'.current = s.current → x s' = .ok a s'.advance) : LocalAt x s := by
  have hs := h s rfl
  refine ⟨[s.current], ?_, fun s' _ => ?_⟩
  · rw [hs]
    exact (Tokens.prepend_current hne).symm
  · rw [h _ (Tokens.current_prepend ..), hs, Tokens.advance_prepend]
    rfl

/-- A reader that the next token makes another one. -/
theorem LocalAt.congr {x y : Parse α} (h : ∀ s', s'.current = s.current → x s' = y s')
    (hy : LocalAt y s) : LocalAt x s := by
  obtain ⟨ts, hs, hts⟩ := hy
  rw [← h s rfl] at hs hts
  refine ⟨ts, hs, fun s' hs' => ?_⟩
  have hc := Tokens.current_prepend_congr hs' ts
  rw [← hs] at hc
  rw [h _ hc, hts s' hs']

/-- What the first reader stops at is the first token that the second one takes, or the one at which
the second one stops too. -/
theorem LocalAt.bind {x : Parse α} {f : α → Parse β} (hx : LocalAt x s)
    (hf : ∀ a s₁, x s = .ok a s₁ → LocalAt (f a) s₁) : LocalAt (x >>= f) s := by
  obtain ⟨ts, hs, hts⟩ := hx
  cases h : x s with
  | error e s₁ =>
    rw [h] at hs hts
    unfold LocalAt
    rw [bind_of_error h]
    exact ⟨ts, hs, fun s' hs' => bind_of_error (hts s' hs')⟩
  | ok a s₁ =>
    obtain ⟨us, hs₁, hus⟩ := hf a s₁ h
    rw [h] at hs hts
    unfold LocalAt
    rw [bind_of_ok h]
    refine ⟨ts ++ us, ?_, fun s' hs' => ?_⟩
    · rw [Tokens.prepend_append, ← hs₁]
      exact hs
    · have hc := Tokens.current_prepend_congr hs' us
      rw [← hs₁] at hc
      rw [Tokens.prepend_append, bind_of_ok (hts _ hc)]
      exact hus s' hs'

theorem localAt_pure (a : α) (s : Tokens) : LocalAt (pure a) s :=
  .stay (r := .ok a s) fun _ _ => rfl

theorem localAt_expect {k : Token.Kind} (hk : k ≠ .endOfFile) (s : Tokens) :
    LocalAt (expect k) s := by
  by_cases h : s.current.kind = k
  · refine .take (a := s.current) (h ▸ hk) fun s' hs' => ?_
    rw [expect, hs', if_pos h]
  · refine .stay (r := .error ⟨.token k, s.current⟩ s) fun s' hs' => ?_
    rw [expect, hs', if_neg h]
    rfl

/-- Takes the next token. -/
def pass : Parse Unit := fun s => .ok () s.advance

/-- Takes a separator, where one stands next. -/
def separator : Parse Unit := fun s => .ok () s.skipComma

theorem localAt_separator (s : Tokens) : LocalAt separator s := by
  by_cases h : s.current.kind = .comma
  · refine .take (a := ()) (by simp [h]) fun s' hs' => ?_
    rw [separator, Tokens.skipComma, hs', if_pos h]
  · refine .stay (r := .ok () s) fun s' hs' => ?_
    rw [separator, Tokens.skipComma, hs', if_neg h]
    rfl

theorem elements_of_end
    (h : s.current.kind = .rightBracket ∨ s.current.kind = .endOfFile) :
    elements s = .ok [] s := by
  rw [elements]
  split
  · rfl
  · rename_i hr
    rw [dif_pos (h.resolve_left hr)]

theorem elements_of_leaf {leaf : Node} (hl : s.current.leaf? = some leaf) :
    elements s = (pass >>= fun _ => separator >>= fun _ => elements >>= fun leaves =>
      pure (leaf :: leaves)) s := by
  have hend : s.current.kind ≠ .rightBracket := by
    rcases (Derives.leaf_iff.2 hl).kind with hk | hk <;> simp [hk]
  have hpass : pass s = .ok () s.advance := rfl
  have hsep : separator s.advance = .ok () s.advance.skipComma := rfl
  rw [elements, if_neg hend, dif_neg (kind_ne_of_leaf hl), hl, bind_of_ok hpass, bind_of_ok hsep]
  cases h : elements s.advance.skipComma with
  | ok leaves s₁ => rw [bind_of_ok h]; rfl
  | error e s₁ => rw [bind_of_error h]

theorem localAt_elements (s : Tokens) : LocalAt elements s := by
  induction hk : s.ahead.length using Nat.strongRecOn generalizing s with
  | ind k ih =>
    cases hl : s.current.leaf? with
    | some leaf =>
      have hne := kind_ne_of_leaf hl
      refine .congr (fun s' hs' => elements_of_leaf (hs' ▸ hl)) ?_
      refine .bind (.take hne fun _ _ => rfl) ?_
      rintro _ _ ⟨⟩
      refine .bind (localAt_separator _) ?_
      rintro _ _ ⟨⟩
      refine .bind (ih _ ?_ _ rfl) fun leaves _ _ => localAt_pure ..
      exact hk ▸ Nat.lt_of_le_of_lt (Tokens.skipComma_length_le _) (Tokens.advance_length_lt hne)
    | none =>
      by_cases hend : s.current.kind = .rightBracket ∨ s.current.kind = .endOfFile
      · exact .stay (r := .ok [] s) fun s' hs' => elements_of_end (hs' ▸ hend)
      · rw [not_or] at hend
        refine .stay (r := .error ⟨.element, s.current⟩ s) fun s' hs' => ?_
        rw [elements, hs', if_neg hend.1, dif_neg hend.2, hl]
        rfl

theorem localAt_array (s : Tokens) : LocalAt array s :=
  .bind (localAt_expect (by decide) s) fun _ _ _ => .bind (localAt_elements _) fun _ _ _ =>
    .bind (localAt_expect (by decide) _) fun _ _ _ => localAt_pure ..

theorem localAt_value (s : Tokens) : LocalAt value s := by
  by_cases h : s.current.kind = .leftBracket
  · refine .congr (fun s' hs' => ?_) (localAt_array s)
    rw [value, hs', if_pos h]
  · cases hl : s.current.leaf? with
    | some leaf =>
      refine .take (a := leaf) (kind_ne_of_leaf hl) fun s' hs' => ?_
      rw [value, hs', if_neg h, hl]
    | none =>
      refine .stay (r := .error ⟨.value, s.current⟩ s) fun s' hs' => ?_
      rw [value, hs', if_neg h, hl]
      rfl

theorem localAt_propertyName (s : Tokens) : LocalAt propertyName s := by
  cases h : s.current.kind.namesProperty with
  | true =>
    refine .take (a := s.current) ?_ fun s' hs' => ?_
    · intro he
      rw [he] at h
      cases h
    · rw [propertyName, hs', if_pos h]
  | false =>
    refine .stay (r := .error ⟨.propertyName, s.current⟩ s) fun s' hs' => ?_
    rw [propertyName, hs', if_neg (by simp [h])]
    rfl

theorem localAt_property (s : Tokens) : LocalAt property s :=
  .bind (localAt_propertyName s) fun _ _ _ => .bind (localAt_expect (by decide) _) fun _ _ _ =>
    .bind (localAt_value _) fun _ _ _ => localAt_pure ..

theorem properties_of_not_end
    (h : ¬ (s.current.kind = .rightBrace ∨ s.current.kind = .endOfFile)) :
    properties s = (property >>= fun p => properties >>= fun ps => pure (p :: ps)) s := by
  rw [properties, if_neg h]
  split
  · rename_i hp
    rw [bind_of_error hp]
  · rename_i p s₁ hp
    rw [bind_of_ok hp]
    cases hr : properties s₁ with
    | ok ps s₂ => rw [bind_of_ok hr]; rfl
    | error e s₂ => rw [bind_of_error hr]

theorem localAt_properties (s : Tokens) : LocalAt properties s := by
  induction hk : s.ahead.length using Nat.strongRecOn generalizing s with
  | ind k ih =>
    by_cases h : s.current.kind = .rightBrace ∨ s.current.kind = .endOfFile
    · refine .stay (r := .ok [] s) fun s' hs' => ?_
      rw [properties, hs', if_pos h]
      rfl
    · refine .congr (fun s' hs' => properties_of_not_end (hs' ▸ h)) ?_
      refine .bind (localAt_property s) fun p s₁ hp => ?_
      exact .bind (ih _ (hk ▸ property_length_lt hp) _ rfl) fun _ _ _ => localAt_pure ..

theorem localAt_block (s : Tokens) : LocalAt block s :=
  .bind (localAt_expect (by decide) s) fun _ _ _ =>
    .bind (localAt_expect (by decide) _) fun _ _ _ =>
      .bind (localAt_expect (by decide) _) fun _ _ _ => .bind (localAt_properties _) fun _ _ _ =>
        .bind (localAt_expect (by decide) _) fun _ _ _ => localAt_pure ..

/-! ## What is taken in front of a fault -/

/-- A reading that stops at the token of its fault, where the tokens that it has taken, with some
more behind them, are derived. -/
def Stopped (D : List Token → α → Prop) (s : Tokens) (e : GrammarFault) (s' : Tokens) : Prop :=
  e.found = s'.current ∧ ∃ ts us a, s = s'.prepend ts ∧ D (ts ++ us) a

/-- A token of a kind, to continue a construct with. -/
def sample (kind : Token.Kind) : Token := ⟨kind, "", .start⟩

variable {D : List Token → α → Prop} {E : List Token → β → Prop} {e : GrammarFault}

/-- Nothing is taken. -/
theorem Stopped.here {us : List Token} {a : α} (he : e.found = s.current) (hd : D us a) :
    Stopped D s e s :=
  ⟨he, [], us, a, rfl, hd⟩

/-- A construct that is stopped in another one stops this one. -/
theorem Stopped.inside (front back : List Token) (h : Stopped D s e s')
    (hd : ∀ ts a, D ts a → ∃ b, E (front ++ (ts ++ back)) b) :
    Stopped E (s.prepend front) e s' := by
  obtain ⟨he, ts, us, a, rfl, ha⟩ := h
  obtain ⟨b, hb⟩ := hd _ a ha
  refine ⟨he, front ++ ts, us ++ back, b, (Tokens.prepend_append ..).symm, ?_⟩
  simpa using hb

/-- The same for a construct that ends another one. -/
theorem Stopped.behind (front : List Token) (h : Stopped D s e s')
    (hd : ∀ ts a, D ts a → ∃ b, E (front ++ ts) b) : Stopped E (s.prepend front) e s' := by
  refine h.inside front [] fun ts a ha => ?_
  rw [List.append_nil]
  exact hd ts a ha

/-- A token of another kind stops the construct in which a kind is wanted. -/
theorem stopped_expect {k : Token.Kind} (front back : List Token) (h : expect k s = .error e s')
    (hd : ∀ t, t.kind = k → ∃ a, D (front ++ t :: back) a) : Stopped D (s.prepend front) e s' := by
  unfold expect at h
  split at h
  · cases h
  · cases h
    obtain ⟨a, ha⟩ := hd (sample k) rfl
    exact ⟨rfl, front, sample k :: back, a, rfl, ha⟩

theorem stopped_elements (h : elements s = .error e s') : Stopped Derives.Elements s e s' := by
  fun_induction elements s with
  | case1 => cases h
  | case2 => cases h
  | case3 => cases h; exact .here rfl .nil
  | case4 => cases h
  | case5 s _ _ n hn e₁ s₁ hr ih =>
    cases h
    obtain ⟨hl, hs⟩ := eq_prepend_of_leaf hn
    have hrest := ih hr
    unfold Tokens.skipComma at hrest
    split at hrest
    · rename_i hcomma
      have hne : s.advance.current.kind ≠ .endOfFile := by rw [hcomma]; decide
      rw [hs, ← Tokens.prepend_current hne]
      exact hrest.behind [s.current, s.advance.current] fun ts ns hts =>
        ⟨_, .comma hl hcomma hts⟩
    · rw [hs]
      exact hrest.behind [s.current] fun ts ns hts => ⟨_, .plain hl hts⟩

theorem stopped_array (h : array s = .error e s') : Stopped Derives.Value s e s' := by
  have hclosing : (sample .rightBracket).kind = .rightBracket := rfl
  rcases bind_error h with h₁ | ⟨opening, s₁, h₁, r₁⟩
  · exact stopped_expect [] [sample .rightBracket] h₁ fun t ht => ⟨_, .array ht .nil hclosing⟩
  obtain ⟨ho, rfl⟩ := eq_prepend_of_expect h₁ (by decide)
  rcases bind_error r₁ with h₂ | ⟨ns, s₂, h₂, r₂⟩
  · exact (stopped_elements h₂).inside [opening] [sample .rightBracket] fun ts ns hts =>
      ⟨_, .array ho hts hclosing⟩
  obtain ⟨ts, hts, rfl⟩ := derived_of_elements h₂
  rcases bind_error r₂ with h₃ | ⟨closing, s₃, h₃, r₃⟩
  · exact stopped_expect (opening :: ts) [] h₃ fun t ht => ⟨_, .array ho hts ht⟩
  · cases r₃

theorem stopped_value (h : value s = .error e s') : Stopped Derives.Value s e s' := by
  have hleaf : (sample .identifier).kind = .identifier := rfl
  unfold value at h
  split at h
  · exact stopped_array h
  · split at h
    · cases h
    · cases h
      exact .here rfl (.leaf (.identifier hleaf))

theorem stopped_propertyName {us : List Token} {a : α} (h : propertyName s = .error e s')
    (hd : D us a) : Stopped D s e s' := by
  unfold propertyName at h
  split at h
  · cases h
  · cases h
    exact .here rfl hd

theorem stopped_property (h : property s = .error e s') : Stopped Derives.Property s e s' := by
  have hname : Derives.Name (sample .identifier).kind := .identifier
  have hequals : (sample .equals).kind = .equals := rfl
  have hleaf : (sample .identifier).kind = .identifier := rfl
  rcases bind_error h with h₁ | ⟨name, s₁, h₁, r₁⟩
  · exact stopped_propertyName h₁ (.intro hname hequals (.leaf (.identifier hleaf)))
  obtain ⟨hn, rfl⟩ := eq_prepend_of_propertyName h₁
  rcases bind_error r₁ with h₂ | ⟨equals, s₂, h₂, r₂⟩
  · exact stopped_expect [name] [sample .identifier] h₂ fun t ht =>
      ⟨_, .intro hn ht (.leaf (.identifier hleaf))⟩
  obtain ⟨he, rfl⟩ := eq_prepend_of_expect h₂ (by decide)
  rcases bind_error r₂ with h₃ | ⟨n, s₃, h₃, r₃⟩
  · exact (stopped_value h₃).behind [name, equals] fun ts n hts => ⟨_, .intro hn he hts⟩
  · cases r₃

theorem stopped_properties (h : properties s = .error e s') :
    Stopped Derives.Properties s e s' := by
  fun_induction properties s with
  | case1 => cases h
  | case2 s _ e₁ s₁ hp =>
    cases h
    refine (stopped_property hp).behind [] fun ts p hts => ?_
    have hps := Derives.Properties.cons hts .nil
    rw [List.append_nil] at hps
    exact ⟨_, hps⟩
  | case3 => cases h
  | case4 s _ p s₁ hp e₁ s₂ hr ih =>
    cases h
    obtain ⟨ts, hts, rfl⟩ := derived_of_property hp
    exact (ih hr).behind ts fun us ps hus => ⟨_, .cons hts hus⟩

/-- A block that is refused is refused behind tokens that begin a block. -/
theorem stopped_block (h : block s = .error e s') : Stopped Derives.Block s e s' := by
  have hname : (sample .identifier).kind = .identifier := rfl
  have hopening : (sample .leftBrace).kind = .leftBrace := rfl
  have hclosing : (sample .rightBrace).kind = .rightBrace := rfl
  rcases bind_error h with h₁ | ⟨heading, s₁, h₁, r₁⟩
  · exact stopped_expect [] [sample .identifier, sample .leftBrace, sample .rightBrace] h₁
      fun t ht => ⟨_, .intro ht hname hopening .nil hclosing⟩
  obtain ⟨hh, rfl⟩ := eq_prepend_of_expect h₁ (by decide)
  rcases bind_error r₁ with h₂ | ⟨name, s₂, h₂, r₂⟩
  · exact stopped_expect [heading] [sample .leftBrace, sample .rightBrace] h₂ fun t ht =>
      ⟨_, .intro hh ht hopening .nil hclosing⟩
  obtain ⟨hn, rfl⟩ := eq_prepend_of_expect h₂ (by decide)
  rcases bind_error r₂ with h₃ | ⟨opening, s₃, h₃, r₃⟩
  · exact stopped_expect [heading, name] [sample .rightBrace] h₃ fun t ht =>
      ⟨_, .intro hh hn ht .nil hclosing⟩
  obtain ⟨ho, rfl⟩ := eq_prepend_of_expect h₃ (by decide)
  rcases bind_error r₃ with h₄ | ⟨ps, s₄, h₄, r₄⟩
  · exact (stopped_properties h₄).inside [heading, name, opening] [sample .rightBrace]
      fun ts ps hts => ⟨_, .intro hh hn ho hts hclosing⟩
  obtain ⟨ts, hts, rfl⟩ := derived_of_properties h₄
  rcases bind_error r₄ with h₅ | ⟨closing, s₅, h₅, r₅⟩
  · exact stopped_expect (heading :: name :: opening :: ts) [] h₅ fun t ht =>
      ⟨_, .intro hh hn ho hts ht⟩
  · cases r₅

/-! ## The refused token -/

theorem prepend_right_cancel {ts us : List Token} (h : s.prepend ts = s.prepend us) : ts = us :=
  List.append_cancel_right (congrArg Tokens.ahead h)

/-- With the token at which a block is refused no block begins. -/
theorem not_derived_of_block_error {ts us : List Token} {b : ModuleBlock}
    (h : block (s'.prepend ts) = .error e s') (hd : Derives.Block (ts ++ s'.current :: us) b) :
    False := by
  obtain ⟨ts', hs, hlocal⟩ := localAt_block (s'.prepend ts)
  rw [h] at hs hlocal
  obtain rfl := prepend_right_cancel hs
  -- the block itself, up to the refused token and from there on, with nothing behind it
  let behind : Tokens := .only (sample .endOfFile) rfl
  have hread := hd.read behind
  have hrefuse := hlocal (behind.prepend (s'.current :: us)) rfl
  rw [Tokens.prepend_append] at hread
  cases hread.symm.trans hrefuse

end Parse

/-- A block that is refused is refused at a token of the list, at whose position the fault is. The
tokens in front of it begin a block that is derived, and no block begins with these tokens and this
one. -/
theorem Parse.block_error_earliest {tokens s : Tokens} {p : Nat} {e : GrammarFault}
    (hp : p < tokens.toList.length) (h : block (tokens.drop p) = .error e s) :
    ∃ i, p ≤ i ∧ s = tokens.drop i ∧
      (∃ t, tokens.toList[i]? = some t ∧ e.toFault.position = t.position) ∧
      (∃ us b, Derives.Block (tokens.toList.extract p i ++ us) b) ∧
      ∀ ts b, tokens.toList.extract p (i + 1) <+: ts → ¬ Derives.Block ts b := by
  obtain ⟨he, ts, us, b, hs, hb⟩ := stopped_block h
  have hle : p ≤ tokens.ahead.length := by simpa [Tokens.toList, Nat.lt_succ_iff] using hp
  -- the list from the beginning of the block on: what is taken, the refused token, and the rest
  have hlist : tokens.toList.drop p = ts ++ s.current :: s.toList.tail := by
    rw [← Tokens.toList_drop hle, hs, Tokens.toList_prepend, ← Tokens.toList_eq_cons]
  have htaken : tokens.toList.extract p (p + ts.length) = ts := by
    rw [List.extract_eq_take_drop, hlist, Nat.add_sub_cancel_left, List.take_left]
  have hwith : tokens.toList.extract p (p + ts.length + 1) = ts ++ [s.current] := by
    rw [List.extract_eq_take_drop, hlist, Nat.add_assoc, Nat.add_sub_cancel_left]
    rw [List.take_length_add_append]
    rfl
  refine ⟨p + ts.length, Nat.le_add_right .., ?_, ⟨s.current, ?_, ?_⟩, ⟨us, b, ?_⟩, ?_⟩
  · rw [← Tokens.drop_drop, hs, Tokens.drop_prepend]
  · rw [← List.getElem?_drop, hlist, List.getElem?_append_right (Nat.le_refl _), Nat.sub_self]
    rfl
  · rw [GrammarFault.toFault, he]
  · rw [htaken]
    exact hb
  · rintro _ b' ⟨vs, rfl⟩ hd
    rw [hwith, List.append_assoc] at hd
    rw [hs] at h
    exact not_derived_of_block_error h hd

/-- A second separator behind an element is such a token. -/
theorem Parse.block_error_earliest_twoCommas :
    let token := fun (kind : Token.Kind) (column : Nat) => (⟨kind, "", ⟨1, column⟩⟩ : Token)
    let tokens : Tokens := ⟨[token (.keyword .module) 1, token .identifier 8, token .leftBrace 10,
      token (.keyword .deps) 12, token .equals 17, token .leftBracket 19, token .identifier 20,
      token .comma 21, token .comma 22, token .identifier 24, token .rightBracket 25,
      token .rightBrace 27], token .endOfFile 28, rfl⟩
    0 < tokens.toList.length ∧
      block (tokens.drop 0) = .error ⟨.element, token .comma 22⟩ (tokens.drop 8) ∧
      ∃ i, 0 ≤ i ∧ tokens.drop 8 = tokens.drop i ∧
        (∃ t, tokens.toList[i]? = some t ∧ ⟨1, 22⟩ = t.position) ∧
        (∃ us b, Derives.Block (tokens.toList.extract 0 i ++ us) b) ∧
        ∀ ts b, tokens.toList.extract 0 (i + 1) <+: ts → ¬ Derives.Block ts b := by
  intro token tokens
  have hp : 0 < tokens.toList.length := by decide
  -- from the refused separator outwards
  have hstop : elements (tokens.drop 8) = .error ⟨.element, token .comma 22⟩ (tokens.drop 8) := by
    rw [elements]
    rfl
  have helements : elements (tokens.drop 6) =
      .error ⟨.element, token .comma 22⟩ (tokens.drop 8) :=
    (elements_of_leaf rfl).trans ((bind_of_ok rfl).trans ((bind_of_ok rfl).trans
      (bind_of_error hstop)))
  have harray : array (tokens.drop 5) = .error ⟨.element, token .comma 22⟩ (tokens.drop 8) :=
    (bind_of_ok rfl).trans (bind_of_error helements)
  have hvalue : value (tokens.drop 5) = .error ⟨.element, token .comma 22⟩ (tokens.drop 8) :=
    (if_pos rfl).trans harray
  have hproperty : property (tokens.drop 3) =
      .error ⟨.element, token .comma 22⟩ (tokens.drop 8) :=
    (bind_of_ok rfl).trans ((bind_of_ok rfl).trans (bind_of_error hvalue))
  have hproperties : properties (tokens.drop 3) =
      .error ⟨.element, token .comma 22⟩ (tokens.drop 8) :=
    (properties_of_not_end (by decide)).trans (bind_of_error hproperty)
  have h : block (tokens.drop 0) = .error ⟨.element, token .comma 22⟩ (tokens.drop 8) :=
    (bind_of_ok rfl).trans ((bind_of_ok rfl).trans ((bind_of_ok rfl).trans
      (bind_of_error hproperties)))
  exact ⟨hp, h, block_error_earliest hp h⟩

end BuildOrder
