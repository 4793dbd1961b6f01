/-
Where the reader of a source text stands, and where its tokens and the nodes of its tree begin. The
line and the column of a cursor are those of its offset, whatever was read to get there and also
behind a fault. A token carries the position of an offset, and its text is written there; a node
carries the position of its first token.

A step of the reader, successful or not, only advances the cursor, so the invariant of one advance
is that of any run of steps.
-/
import BuildOrder.Proofs.BuildFile
import BuildOrder.Proofs.Token.Scan
import Mathlib.Data.List.DropRight
import Mathlib.Data.List.Forall2
import Mathlib.Logic.Function.Iterate

namespace BuildOrder

/-! ## Positions of offsets -/

namespace Position

/-- The position of an offset: the line is counted by the line feeds in front of it, the column by
the characters behind the last of these. -/
def ofOffset (text : List Char) (k : Nat) : Position :=
  ⟨1 + (text.take k).count '\n', 1 + ((text.take k).rtakeWhile (· ≠ '\n')).length⟩

theorem afterAll_start (text : List Char) :
    start.afterAll text = ⟨1 + text.count '\n', 1 + (text.rtakeWhile (· ≠ '\n')).length⟩ := by
  induction text using List.reverseRecOn with
  | nil => rfl
  | append_singleton text c ih =>
    rw [afterAll_append, ih, afterAll_cons, afterAll_nil, after]
    by_cases hc : c = '\n'
    · subst hc
      rw [if_pos rfl, List.rtakeWhile_concat_neg _ _ _ (by simp)]
      simp [Int.add_assoc]
    · rw [if_neg hc, List.rtakeWhile_concat_pos _ _ _ (by simpa using hc)]
      simp [hc, Int.add_assoc]

theorem ofOffset_eq (text : List Char) (k : Nat) :
    ofOffset text k = start.afterAll (text.take k) := (afterAll_start _).symm

end Position

/-! ## The cursor -/

/-- A cursor stands in a text: at its offset, with what follows there and with the position of the
offset. -/
structure Cursor.StandsIn (c : Cursor) (text : List Char) : Prop where
  offset_le : c.offset ≤ text.length
  rest_eq : c.rest = text.drop c.offset
  position_eq : c.position = .ofOffset text c.offset

namespace Cursor.StandsIn

variable {c : Cursor} {text : List Char}

theorem start (source : String) : (Cursor.start source).StandsIn source.toList where
  offset_le := Nat.zero_le _
  rest_eq := rfl
  position_eq := by rw [Position.ofOffset_eq]; rfl

theorem advance (h : c.StandsIn text) (n : Nat) : (c.advance n).StandsIn text := by
  have hpassed : (c.advance n).offset = c.offset + min n (text.length - c.offset) := by
    show c.offset + (c.rest.take n).length = _
    rw [h.rest_eq, List.length_take, List.length_drop]
  have hfront : text.take (c.advance n).offset = text.take c.offset ++ c.rest.take n := by
    rw [h.rest_eq, ← List.take_add, List.take_eq_take_iff]
    omega
  refine ⟨?_, ?_, ?_⟩
  · have := h.offset_le
    omega
  · rw [advance_rest, h.rest_eq, List.drop_drop, hpassed]
    rcases Nat.le_total n (text.length - c.offset) with hn | hn
    · rw [Nat.min_eq_left hn]
    · rw [Nat.min_eq_right hn, List.drop_eq_nil_of_le (by omega), List.drop_eq_nil_of_le (by omega)]
  · show c.position.afterAll (c.rest.take n) = _
    rw [h.position_eq, Position.ofOffset_eq, Position.ofOffset_eq, hfront, Position.afterAll_append]

end Cursor.StandsIn

/-- Behind characters that follow the cursor it has moved by their number. -/
theorem Cursor.offset_advance {c : Cursor} {cs : List Char} (h : cs <+: c.rest) :
    (c.advance cs.length).offset = c.offset + cs.length := by
  show c.offset + (c.rest.take cs.length).length = _
  rw [List.length_take, Nat.min_eq_left h.length_le]

/-! ## Tokens in a text -/

namespace Token

/-- The characters of a token in the text: a string stands in its quotes, and the end of the file
has no characters. -/
def written (t : Token) : List Char :=
  if t.kind = .string then '"' :: (t.text.toList ++ ['"']) else t.text.toList

/-- The token begins at an offset of the text: it carries the position of the offset, and it is
written there. Only the end of the file begins at the end of the text. -/
structure BeginsAt (t : Token) (text : List Char) (k : Nat) : Prop where
  position_eq : t.position = .ofOffset text k
  isPrefix : t.written <+: text.drop k
  end_iff : t.kind = .endOfFile ↔ k = text.length

theorem Kind.ofWord_ne_string (text : String) : Kind.ofWord text ≠ .string := by
  unfold Kind.ofWord
  cases Keyword.ofWord? text <;> simp

theorem Kind.ofSymbol_ne_string (c : Char) : Kind.ofSymbol c ≠ .string := by
  unfold Kind.ofSymbol
  split <;> simp

end Token

namespace Scan

/-- A token that is read stands in front of what is left, with the position of the cursor, and the
cursor moves behind it. Only at the end of the text the token has no characters. -/
theorem token_written {c c' : Cursor} {t : Token} (h : token c = .ok t c') :
    t.position = c.position ∧ t.written <+: c.rest ∧ c' = c.advance t.written.length ∧
      (t.kind = .endOfFile ↔ c.rest = []) ∧ (c.rest ≠ [] → t.written ≠ []) := by
  unfold token at h
  split at h
  · rename_i hr
    cases h
    simp [Token.written, hr]
  · rename_i ch rest hr
    have hne : c.rest ≠ [] := by simp [hr]
    split at h
    · cases h
      have hw : Token.written ⟨.ofWord (.ofList (ch :: rest.takeWhile continuesWord)),
          .ofList (ch :: rest.takeWhile continuesWord), c.position⟩ =
            ch :: rest.takeWhile continuesWord := by
        simp [Token.written, Token.Kind.ofWord_ne_string]
      rw [hw]
      refine ⟨rfl, ?_, rfl, ?_, by simp⟩
      · rw [hr, List.cons_prefix_cons]
        exact ⟨rfl, List.takeWhile_prefix _⟩
      · simp [hne, Token.Kind.ofWord_ne_endOfFile]
    · split at h
      · rename_i hq
        dsimp only at h
        split at h
        · rename_i hclose
          cases h
          obtain ⟨tail, htail⟩ := List.head?_eq_some_iff.1 hclose
          have hcut := List.prefix_iff_eq_append.1
            (List.takeWhile_prefix (l := rest) fun x => x ≠ '"' && x ≠ '\n')
          have hw : Token.written ⟨.string, .ofList (rest.takeWhile fun x => x ≠ '"' && x ≠ '\n'),
              c.position⟩ = '"' :: ((rest.takeWhile fun x => x ≠ '"' && x ≠ '\n') ++ ['"']) := by
            simp [Token.written]
          rw [hw]
          refine ⟨rfl, ?_, by simp, ?_, by simp⟩
          · rw [hr, hq, List.cons_prefix_cons]
            refine ⟨rfl, tail, ?_⟩
            rw [htail] at hcut
            simpa using hcut
          · simp [hne]
        · cases h
      · cases h
        have hw : Token.written ⟨.ofSymbol ch, .singleton ch, c.position⟩ = [ch] := by
          simp [Token.written, Token.Kind.ofSymbol_ne_string]
        rw [hw]
        refine ⟨rfl, ?_, rfl, ?_, by simp⟩
        · rw [hr, List.cons_prefix_cons]
          exact ⟨rfl, List.nil_prefix⟩
        · simp [hne, Token.Kind.ofSymbol_ne_endOfFile]

/-! ## Steps of the reader -/

theorem token_advances {c c' : Cursor} {e : LexicalFault} (h : token c = .error e c') :
    ∃ n, c' = c.advance n := by
  unfold token at h
  split at h
  · cases h
  · split at h
    · cases h
    · split at h
      · dsimp only at h
        split at h <;> cases h
        exact ⟨_, rfl⟩
      · cases h

theorem skipGaps_advances (c : Cursor) : ∃ n, match skipGaps c with
    | .ok _ c' => c' = c.advance n
    | .error _ c' => c' = c.advance n := by
  fun_induction skipGaps c with
  | case1 c => exact ⟨0, c.advance_zero.symm⟩
  | case2 c m _ ih =>
    obtain ⟨n, hn⟩ := ih
    refine ⟨m + n, ?_⟩
    rw [Cursor.advance_add]
    exact hn
  | case3 c n => exact ⟨n, rfl⟩

/-- A step that succeeds moves past a gap and reads a token there. -/
theorem next_eq_ok {c c' : Cursor} {t : Token} (h : next c = .ok t c') :
    ∃ n, token (c.advance n) = .ok t c' := by
  obtain ⟨n, hn⟩ := skipGaps_advances c
  unfold next at h
  split at h
  · rename_i c₁ hs
    rw [hs] at hn
    exact ⟨n, hn ▸ h⟩
  · cases h

theorem next_eq_error {c c' : Cursor} {e : LexicalFault} (h : next c = .error e c') :
    ∃ n, c' = c.advance n := by
  obtain ⟨n, hn⟩ := skipGaps_advances c
  unfold next at h
  split at h
  · rename_i c₁ hs
    rw [hs] at hn
    obtain ⟨m, hm⟩ := token_advances h
    refine ⟨n + m, ?_⟩
    rw [Cursor.advance_add, ← hn]
    exact hm
  · rename_i hs
    rw [hs] at hn
    cases h
    exact ⟨n, hn⟩

/-- The cursor behind a step, also behind one that fails. -/
def behind (c : Cursor) : Cursor :=
  match next c with
  | .ok _ c' => c'
  | .error _ c' => c'

theorem behind_of_ok {c c' : Cursor} {t : Token} (h : next c = .ok t c') : behind c = c' := by
  unfold behind
  rw [h]

theorem behind_of_error {c c' : Cursor} {e : LexicalFault} (h : next c = .error e c') :
    behind c = c' := by
  unfold behind
  rw [h]

theorem behind_advances (c : Cursor) : ∃ n, behind c = c.advance n := by
  cases h : next c with
  | ok t c' =>
    rw [behind_of_ok h]
    obtain ⟨n, hn⟩ := next_eq_ok h
    obtain ⟨-, -, hc', -⟩ := token_written hn
    refine ⟨n + t.written.length, ?_⟩
    rw [Cursor.advance_add]
    exact hc'
  | error e c' =>
    rw [behind_of_error h]
    exact next_eq_error h

end Scan

/-! ## Runs of the reader -/

namespace Cursor.StandsIn

variable {c : Cursor} {text : List Char}

theorem behind (h : c.StandsIn text) : (Scan.behind c).StandsIn text := by
  obtain ⟨n, hn⟩ := Scan.behind_advances c
  rw [hn]
  exact h.advance n

theorem iterate_behind (h : c.StandsIn text) (n : Nat) : (Scan.behind^[n] c).StandsIn text := by
  induction n generalizing c with
  | zero => exact h
  | succ n ih => exact ih h.behind

/-- The token that a step reads begins behind the gap that it skips, and ends where the cursor
stands then. -/
theorem beginsAt (h : c.StandsIn text) {c' : Cursor} {t : Token} (ht : Scan.next c = .ok t c') :
    ∃ k, t.BeginsAt text k ∧ c.offset ≤ k ∧ c'.offset = k + t.written.length ∧
      (t.kind ≠ .endOfFile → k < c'.offset) := by
  obtain ⟨n, hn⟩ := Scan.next_eq_ok ht
  obtain ⟨hpos, hpre, rfl, hend, hne⟩ := Scan.token_written hn
  have hk := h.advance n
  have hoff := Cursor.offset_advance hpre
  have hle : c.offset ≤ (c.advance n).offset := Nat.le_add_right ..
  have hrest : (c.advance n).rest = [] ↔ (c.advance n).offset = text.length := by
    rw [hk.rest_eq, List.drop_eq_nil_iff]
    have := hk.offset_le
    omega
  refine ⟨(c.advance n).offset, ⟨?_, ?_, hend.trans hrest⟩, hle, hoff, fun hkind => ?_⟩
  · rw [hpos, hk.position_eq]
  · rw [← hk.rest_eq]
    exact hpre
  · have := List.length_pos_iff.2 (hne fun hnil => hkind (hend.2 hnil))
    omega

/-- The tokens from a cursor on begin one behind the other. -/
theorem exists_offsets (h : c.StandsIn text) {tokens : Tokens} (ht : tokensFrom c = .ok tokens) :
    ∃ ks : List Nat, List.Forall₂ (fun t k => t.BeginsAt text k) tokens.toList ks ∧
      ks.Pairwise (· < ·) ∧ ∀ k ∈ ks, c.offset ≤ k := by
  fun_induction tokensFrom c generalizing tokens with
  | case1 => cases ht
  | case2 c t c' hn he =>
    cases ht
    obtain ⟨k, hk, hle, -⟩ := h.beginsAt hn
    exact ⟨[k], .cons hk .nil, List.pairwise_singleton .., by simpa using hle⟩
  | case3 c t c' hn he ih =>
    obtain ⟨k, hk, hle, -, hlt⟩ := h.beginsAt hn
    have hc' : c'.StandsIn text := by
      rw [← Scan.behind_of_ok hn]
      exact h.behind
    cases hrest : tokensFrom c' with
    | error e =>
      rw [hrest] at ht
      cases ht
    | ok rest =>
      rw [hrest] at ht
      cases ht
      obtain ⟨ks, hks, hpair, hmin⟩ := ih hc' hrest
      have hlt' := hlt he
      refine ⟨k :: ks, .cons hk hks, List.pairwise_cons.2 ⟨fun j hj => ?_, hpair⟩, fun j hj => ?_⟩
      · have := hmin j hj
        omega
      · rcases List.mem_cons.1 hj with rfl | hj
        · exact hle
        · have := hmin j hj
          omega

end Cursor.StandsIn

/-! ## Nodes in a text -/

/-- Where a node begins. -/
def Node.start : Node → Position
  | .identifier start _ => start
  | .string start _ => start
  | .array start _ => start
  | .property p => p.start
  | .block b => b.start

/-- The elements of an array. -/
def Node.elements : Node → List Node
  | .array _ elements => elements
  | _ => []

/-- Where the nodes of a block begin: the block, and each property with its value and the elements of
this. -/
def Block.starts (b : ModuleBlock) : List Position :=
  b.start :: b.properties.flatMap fun p =>
    p.start :: p.value.start :: p.value.elements.map Node.start

namespace Derives

/-- Tokens of which some, in their order, begin at these positions. -/
def Begins (ts : List Token) (starts : List Position) : Prop :=
  ∃ firsts : List Token, firsts.Sublist ts ∧ firsts.map (·.position) = starts

theorem Begins.nil : Begins [] [] := ⟨[], .slnil, rfl⟩

theorem Begins.cons {ts : List Token} {starts : List Position} (h : Begins ts starts) (t : Token) :
    Begins (t :: ts) (t.position :: starts) := by
  obtain ⟨firsts, hsub, rfl⟩ := h
  exact ⟨t :: firsts, hsub.cons_cons t, rfl⟩

theorem Begins.skip {ts : List Token} {starts : List Position} (h : Begins ts starts) (t : Token) :
    Begins (t :: ts) starts := by
  obtain ⟨firsts, hsub, rfl⟩ := h
  exact ⟨firsts, hsub.cons t, rfl⟩

theorem Begins.append {ts ts' : List Token} {starts starts' : List Position}
    (h : Begins ts starts) (h' : Begins ts' starts') : Begins (ts ++ ts') (starts ++ starts') := by
  obtain ⟨firsts, hsub, rfl⟩ := h
  obtain ⟨firsts', hsub', rfl⟩ := h'
  exact ⟨firsts ++ firsts', hsub.append hsub', List.map_append⟩

theorem Begins.close {ts : List Token} {starts : List Position} (h : Begins ts starts) (t : Token) :
    Begins (ts ++ [t]) starts := by
  have := h.append (Begins.nil.skip t)
  rwa [List.append_nil] at this

theorem Leaf.start {t : Token} {n : Node} (h : Leaf t n) : n.start = t.position := by
  cases h with
  | string => rfl
  | identifier => rfl

theorem Leaf.elements {t : Token} {n : Node} (h : Leaf t n) : n.elements = [] := by
  cases h with
  | string => rfl
  | identifier => rfl

theorem Elements.begins {ts : List Token} {ns : List Node} (h : Elements ts ns) :
    Begins ts (ns.map Node.start) := by
  induction h with
  | nil => exact .nil
  | plain hn _ ih =>
    rw [List.map_cons, hn.start]
    exact ih.cons _
  | comma hn _ _ ih =>
    rw [List.map_cons, hn.start]
    exact (ih.skip _).cons _

theorem Value.begins {ts : List Token} {n : Node} (h : Value ts n) :
    Begins ts (n.start :: n.elements.map Node.start) := by
  cases h with
  | leaf hn =>
    rw [hn.start, hn.elements]
    exact Begins.nil.cons _
  | array ho he hc => exact (he.begins.close _).cons _

theorem Properties.begins {ts : List Token} {ps : List (BuildOrder.Property Node)}
    (h : Properties ts ps) :
    Begins ts (ps.flatMap fun p => p.start :: p.value.start :: p.value.elements.map Node.start) := by
  induction h with
  | nil => exact .nil
  | cons hp _ ih =>
    rw [List.flatMap_cons]
    cases hp with
    | intro hk he hv => exact ((hv.begins.skip _).cons _).append ih

/-- The nodes of a block begin where tokens of it do, one behind the other. -/
theorem Block.begins {ts : List Token} {b : ModuleBlock} (h : Block ts b) : Begins ts b.starts := by
  cases h with
  | intro hh hn ho hps hc => exact (((hps.begins.close _).skip _).skip _).cons _

end Derives

/-! ## Positions are exact -/

/-- After any number of steps, whether they read a token or fail, the cursor stands in the text with
the position of its offset. A token that a step reads begins at an offset behind the gap, is written
there and ends where the cursor stands then. So the tokens of a text begin at offsets one behind the
other; and the block of a text is derived from the tokens in front, some of which are the first
tokens of its nodes: they carry the positions of the nodes, and so each node has the position of the
offset where its first token begins. -/
theorem Scan.position_exact (source : String) :
    (∀ n, (behind^[n] (.start source)).StandsIn source.toList ∧
      ∀ t c', next (behind^[n] (.start source)) = .ok t c' →
        ∃ k, t.BeginsAt source.toList k ∧ (behind^[n] (.start source)).offset ≤ k ∧
          c'.offset = k + t.written.length) ∧
    (∀ tokens, tokenize source = .ok tokens → ∃ ks : List Nat, ks.Pairwise (· < ·) ∧
      List.Forall₂ (fun t k => t.BeginsAt source.toList k) tokens.toList ks) ∧
    ∀ b, ModuleBlock.ofSource source = .ok b → ∃ (ts : List Token) (rest : Tokens),
      tokenize source = .ok (rest.prepend ts) ∧ Derives.Block ts b ∧
        ∃ firsts : List Token, firsts.Sublist ts ∧ firsts.map (·.position) = b.starts ∧
          ∀ t ∈ firsts, ∃ k, t.BeginsAt source.toList k := by
  have hstart := Cursor.StandsIn.start source
  refine ⟨fun n => ⟨hstart.iterate_behind n, fun t c' ht => ?_⟩, fun tokens ht => ?_,
    fun b hb => ?_⟩
  · obtain ⟨k, hk, hle, hoff, -⟩ := (hstart.iterate_behind n).beginsAt ht
    exact ⟨k, hk, hle, hoff⟩
  · obtain ⟨ks, hks, hpair, -⟩ := hstart.exists_offsets ht
    exact ⟨ks, hpair, hks⟩
  · obtain ⟨rest, ts, hts, ht⟩ := ModuleBlock.opens_of_ofSource hb
    obtain ⟨firsts, hsub, hfirsts⟩ := hts.begins
    refine ⟨ts, rest, ht, hts, firsts, hsub, hfirsts, fun t hm => ?_⟩
    obtain ⟨ks, hks, -⟩ := hstart.exists_offsets ht
    have hmem : t ∈ (rest.prepend ts).toList := by
      rw [Tokens.toList_prepend]
      exact List.mem_append_left _ (hsub.subset hm)
    have hall := hks.imp fun t k hk => And.intro (Exists.intro k hk) hk
    exact ((List.forall₂_and_left _ _).1 hall).1 t hmem

end BuildOrder
