/-
Module blocks without positions, and how they are written. An outline is what an author of a build
file has in mind: a name, and properties with identifiers, strings and arrays of both as values. Its
tokens are fixed up to the commas behind the elements of arrays, and its text up to white space and
comments.

The main statement of this file is that each such text is read, and as a block with that outline.
-/
import BuildOrder.BuildFile
import BuildOrder.Proofs.Node.Derivation
import BuildOrder.Proofs.Token.Layout

namespace BuildOrder

/-! ## Outlines -/

/-- An identifier: a word that is not reserved. -/
structure Identifier where
  text : String
  isWord : Lexeme.IsWord text.toList
  not_reserved : ∀ k : Keyword, text ≠ k.word

/-- A name of a property: an identifier, or a reserved word other than the one for a block. -/
structure PropertyName where
  text : String
  isWord : Lexeme.IsWord text.toList
  not_module : text ≠ Keyword.module.word

/-- A text that can stand between quotes. -/
structure Quotable where
  text : String
  no_quote : '"' ∉ text.toList
  no_newline : '\n' ∉ text.toList

/-- A string or an identifier. -/
inductive Atom where
  | identifier (name : Identifier)
  | string (text : Quotable)

/-- What a property is set to. -/
inductive Setting where
  | atom (a : Atom)
  | array (as : List Atom)

/-- A module block without positions. -/
structure Outline where
  name : Identifier
  properties : List (PropertyName × Setting)

/-! ## Blocks with an outline -/

/-- The node of an identifier or a string, wherever it stands. -/
inductive Node.IsAtom : Node → Atom → Prop
  | identifier (p : Position) (i : Identifier) : IsAtom (.identifier p i.text) (.identifier i)
  | string (p : Position) (q : Quotable) : IsAtom (.string p q.text) (.string q)

/-- The node of what a property is set to, wherever it stands. -/
inductive Node.IsSetting : Node → Setting → Prop
  | atom {n : Node} {a : Atom} (h : n.IsAtom a) : IsSetting n (.atom a)
  | array (p : Position) {ns : List Node} {as : List Atom} (h : List.Forall₂ IsAtom ns as) :
      IsSetting (.array p ns) (.array as)

/-- The property of this name and setting, wherever it stands. -/
def Property.Is (p : Property Node) (entry : PropertyName × Setting) : Prop :=
  p.name = entry.1.text ∧ p.value.IsSetting entry.2

/-- The block has this outline: the same name and the same properties in the same order. -/
structure Block.HasOutline (b : ModuleBlock) (m : Outline) : Prop where
  name : b.name = m.name.text
  properties : List.Forall₂ Property.Is b.properties m.properties

/-! ## Tokens of an outline -/

/-- The token of an identifier or a string. -/
def Atom.lexeme : Atom → Lexeme
  | identifier i => .word i.text.toList
  | string q => .quoted q.text.toList

namespace Written

/-- The elements of an array; a comma may follow each of them. -/
inductive Elements : List Lexeme → List Atom → Prop
  | nil : Elements [] []
  | plain (a : Atom) {ls : List Lexeme} {as : List Atom} (h : Elements ls as) :
      Elements (a.lexeme :: ls) (a :: as)
  | comma (a : Atom) {ls : List Lexeme} {as : List Atom} (h : Elements ls as) :
      Elements (a.lexeme :: .symbol ',' :: ls) (a :: as)

/-- The value of a property. -/
inductive Value : List Lexeme → Setting → Prop
  | atom (a : Atom) : Value [a.lexeme] (.atom a)
  | array {ls : List Lexeme} {as : List Atom} (h : Elements ls as) :
      Value (.symbol '[' :: (ls ++ [.symbol ']'])) (.array as)

/-- The properties of a block. -/
inductive Properties : List Lexeme → List (PropertyName × Setting) → Prop
  | nil : Properties [] []
  | cons (name : PropertyName) {v : Setting} {ls ms : List Lexeme}
      {ps : List (PropertyName × Setting)} (hv : Value ls v) (h : Properties ms ps) :
      Properties (.word name.text.toList :: .symbol '=' :: (ls ++ ms)) ((name, v) :: ps)

/-- A module block. -/
inductive Block : List Lexeme → Outline → Prop
  | intro (name : Identifier) {ls : List Lexeme} {ps : List (PropertyName × Setting)}
      (h : Properties ls ps) :
      Block (.word Keyword.module.word.toList :: .word name.text.toList :: .symbol '{' ::
        (ls ++ [.symbol '}'])) ⟨name, ps⟩

/-! ## The tokens are useful -/

theorem useful_atom (a : Atom) : a.lexeme.Useful := by
  cases a with
  | identifier i => exact i.isWord
  | string q => exact ⟨q.no_quote, q.no_newline⟩

theorem Elements.useful {ls : List Lexeme} {as : List Atom} (h : Elements ls as) :
    ∀ l ∈ ls, l.Useful := by
  induction h with
  | nil => simp
  | plain a h ih => exact List.forall_mem_cons.2 ⟨useful_atom a, ih⟩
  | comma a h ih =>
    exact List.forall_mem_cons.2 ⟨useful_atom a, List.forall_mem_cons.2 ⟨⟨.comma, by decide⟩, ih⟩⟩

theorem Value.useful {ls : List Lexeme} {v : Setting} (h : Value ls v) : ∀ l ∈ ls, l.Useful := by
  cases h with
  | atom a => exact List.forall_mem_singleton.2 (useful_atom a)
  | array h =>
    refine List.forall_mem_cons.2 ⟨⟨.leftBracket, by decide⟩, List.forall_mem_append.2 ⟨h.useful, ?_⟩⟩
    exact List.forall_mem_singleton.2 ⟨.rightBracket, by decide⟩

theorem Properties.useful {ls : List Lexeme} {ps : List (PropertyName × Setting)}
    (h : Properties ls ps) : ∀ l ∈ ls, l.Useful := by
  induction h with
  | nil => simp
  | cons name hv h ih =>
    refine List.forall_mem_cons.2 ⟨name.isWord, List.forall_mem_cons.2 ⟨⟨.equals, by decide⟩, ?_⟩⟩
    exact List.forall_mem_append.2 ⟨hv.useful, ih⟩

theorem isWord_module : Lexeme.IsWord Keyword.module.word.toList := by decide

theorem Block.useful {ls : List Lexeme} {m : Outline} (h : Block ls m) : ∀ l ∈ ls, l.Useful := by
  cases h with
  | intro name h =>
    refine List.forall_mem_cons.2 ⟨isWord_module, List.forall_mem_cons.2 ⟨name.isWord, ?_⟩⟩
    refine List.forall_mem_cons.2 ⟨⟨.leftBrace, by decide⟩, List.forall_mem_append.2 ⟨h.useful, ?_⟩⟩
    exact List.forall_mem_singleton.2 ⟨.rightBrace, by decide⟩

/-! ## The tokens are derived -/

open List (Forall₂)

theorem forall₂_append_right {α β : Type} {R : α → β → Prop} {xs : List α} {ys zs : List β}
    (h : Forall₂ R xs (ys ++ zs)) :
    ∃ us vs, xs = us ++ vs ∧ Forall₂ R us ys ∧ Forall₂ R vs zs :=
  ⟨_, _, (List.take_append_drop ys.length xs).symm, List.forall₂_take_append _ _ _ h,
    List.forall₂_drop_append _ _ _ h⟩

theorem Atom.derived {t : Token} {a : Atom} (h : t.Spells a.lexeme) :
    ∃ n, Derives.Leaf t n ∧ n.IsAtom a := by
  obtain ⟨hk, ht⟩ := h
  cases a with
  | identifier i =>
    have htext : t.text = i.text := by rw [ht]; exact String.ofList_toList
    refine ⟨_, .identifier (hk.trans ?_), ?_⟩
    · rw [Atom.lexeme, Lexeme.kind, String.ofList_toList, Token.Kind.ofWord_of_ne i.not_reserved]
    · rw [htext]
      exact .identifier t.position i
  | string q =>
    have htext : t.text = q.text := by rw [ht]; exact String.ofList_toList
    refine ⟨_, .string hk, ?_⟩
    rw [htext]
    exact .string t.position q

theorem Elements.derived {ls : List Lexeme} {as : List Atom} (h : Elements ls as) {ts : List Token}
    (hts : Forall₂ Token.Spells ts ls) :
    ∃ ns, Derives.Elements ts ns ∧ Forall₂ Node.IsAtom ns as := by
  induction h generalizing ts with
  | nil =>
    cases hts
    exact ⟨[], .nil, .nil⟩
  | plain a h ih =>
    obtain _ | ⟨ht, hts⟩ := hts
    obtain ⟨n, hn, ha⟩ := Atom.derived ht
    obtain ⟨ns, hns, has⟩ := ih hts
    exact ⟨n :: ns, .plain hn hns, .cons ha has⟩
  | comma a h ih =>
    obtain _ | ⟨ht, _ | ⟨hc, hts⟩⟩ := hts
    obtain ⟨n, hn, ha⟩ := Atom.derived ht
    obtain ⟨ns, hns, has⟩ := ih hts
    exact ⟨n :: ns, .comma hn hc.1 hns, .cons ha has⟩

theorem Value.derived {ls : List Lexeme} {v : Setting} (h : Value ls v) {ts : List Token}
    (hts : Forall₂ Token.Spells ts ls) : ∃ n, Derives.Value ts n ∧ n.IsSetting v := by
  cases h with
  | atom a =>
    obtain _ | ⟨ht, _ | _⟩ := hts
    obtain ⟨n, hn, ha⟩ := Atom.derived ht
    exact ⟨n, .leaf hn, .atom ha⟩
  | array h =>
    obtain _ | ⟨ho, hts⟩ := hts
    obtain ⟨ts, cs, rfl, hin, hcs⟩ := forall₂_append_right hts
    obtain _ | ⟨hc, _ | _⟩ := hcs
    obtain ⟨ns, hns, has⟩ := h.derived hin
    exact ⟨_, .array ho.1 hns hc.1, .array _ has⟩

theorem PropertyName.derived (name : PropertyName) :
    Derives.Name (Lexeme.word name.text.toList).kind := by
  rw [Lexeme.kind, String.ofList_toList]
  by_cases h : ∃ k : Keyword, name.text = k.word
  · obtain ⟨k, hk⟩ := h
    rw [hk, Token.Kind.ofWord_word]
    exact .reserved fun hm => name.not_module (hm ▸ hk)
  · rw [not_exists] at h
    rw [Token.Kind.ofWord_of_ne h]
    exact .identifier

theorem Properties.derived {ls : List Lexeme} {ps : List (PropertyName × Setting)}
    (h : Properties ls ps) {ts : List Token} (hts : Forall₂ Token.Spells ts ls) :
    ∃ qs, Derives.Properties ts qs ∧ Forall₂ Property.Is qs ps := by
  induction h generalizing ts with
  | nil =>
    cases hts
    exact ⟨[], .nil, .nil⟩
  | cons name hv h ih =>
    obtain _ | @⟨t, _, _, _, ht, _ | ⟨he, hts⟩⟩ := hts
    obtain ⟨ts, us, rfl, hts, hus⟩ := forall₂_append_right hts
    obtain ⟨n, hn, hv⟩ := hv.derived hts
    obtain ⟨qs, hqs, hps⟩ := ih hus
    have hname : Derives.Name t.kind := by
      rw [ht.1]
      exact PropertyName.derived name
    have htext : t.text = name.text := ht.2.trans String.ofList_toList
    exact ⟨_ :: qs, .cons (.intro hname he.1 hn) hqs, .cons ⟨htext, hv⟩ hps⟩

theorem Block.derived {ls : List Lexeme} {m : Outline} (h : Block ls m) {ts : List Token}
    (hts : Forall₂ Token.Spells ts ls) :
    ∃ b : ModuleBlock, Derives.Block ts b ∧ b.HasOutline m := by
  cases h with
  | intro name h =>
    obtain _ | @⟨hd, _, _, _, hhd, _ | @⟨n, _, _, _, hn, _ | ⟨ho, hts⟩⟩⟩ := hts
    obtain ⟨ts, cs, rfl, hin, hcs⟩ := forall₂_append_right hts
    obtain _ | ⟨hc, _ | _⟩ := hcs
    obtain ⟨qs, hqs, hps⟩ := h.derived hin
    have hname : n.kind = .identifier := by
      rw [hn.1, Lexeme.kind, String.ofList_toList, Token.Kind.ofWord_of_ne name.not_reserved]
    have htext : n.text = name.text := hn.2.trans String.ofList_toList
    have hhead : hd.kind = .keyword .module := by
      rw [hhd.1, Lexeme.kind, String.ofList_toList, Token.Kind.ofWord_word]
    exact ⟨_, .intro hhead hname ho.1 hqs hc.1, htext, hps⟩

end Written

/-! ## Reading what is written -/

/-- However an outline is written and laid out, the text is read, and as a block with that
outline. -/
theorem ModuleBlock.ofSource_layout {m : Outline} {ls : List Lexeme} {ps : List Piece}
    (hm : Written.Block ls m) (hl : Piece.Layout ls ps) :
    ∃ b, ModuleBlock.ofSource (.ofList (Piece.textOf ps)) = .ok b ∧ b.HasOutline m := by
  have hspells := Piece.tokensOf_spells .start ps
  rw [hl.lexemes] at hspells
  obtain ⟨b, hb, hout⟩ := hm.derived hspells
  have htokens := tokenize_pieces (hl.fit hm.useful) String.toList_ofList
  refine ⟨b, ?_, hout⟩
  rw [ModuleBlock.ofSource, htokens]
  dsimp only
  rw [hb.read]

/-- A block whose tokens stand as close as they may, with a string that looks like a comment. -/
def Outline.dense : Outline where
  name := ⟨"a", by decide, fun k => by cases k <;> decide⟩
  properties := [
    (⟨"deps", by decide, by decide⟩, .array [
      .identifier ⟨"b", by decide, fun k => by cases k <;> decide⟩,
      .string ⟨"//", by decide, by decide⟩]),
    (⟨"type", by decide, by decide⟩,
      .atom (.identifier ⟨"c", by decide, fun k => by cases k <;> decide⟩))]

theorem ofSource_layout_dense : ∃ ls ps, Written.Block ls .dense ∧ Piece.Layout ls ps ∧
    Piece.textOf ps = "/*/module*/module a//b\n\x7bdeps=[b\"//\",]type=c\x7d".toList ∧
    ∃ b, ModuleBlock.ofSource (.ofList (Piece.textOf ps)) = .ok b ∧ b.HasOutline .dense := by
  have hm : Written.Block _ .dense :=
    .intro _ (.cons _ (.array (.plain _ (.comma _ .nil))) (.cons _ (.atom _) .nil))
  have hl : Piece.Layout _ [
      .filler (.blockComment "/module".toList), .lexeme (.word "module".toList),
      .filler (.blank ' '), .lexeme (.word ['a']), .filler (.lineComment ['b']),
      .filler (.blank '\n'), .lexeme (.symbol '{'), .lexeme (.word "deps".toList),
      .lexeme (.symbol '='), .lexeme (.symbol '['), .lexeme (.word ['b']),
      .lexeme (.quoted "//".toList), .lexeme (.symbol ','), .lexeme (.symbol ']'),
      .lexeme (.word "type".toList), .lexeme (.symbol '='), .lexeme (.word ['c']),
      .lexeme (.symbol '}')] := ⟨rfl, by decide, by decide⟩
  exact ⟨_, _, hm, hl, by decide, ModuleBlock.ofSource_layout hm hl⟩

end BuildOrder
