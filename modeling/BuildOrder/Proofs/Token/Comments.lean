/-
Comments in a source text. A comment may be put in at the beginning and behind white space, and a
comment may be replaced by a space: the tokens keep their kinds and texts, and so the text describes
the same module, or is refused with the same message.

What is put in or taken out stands between whole pieces of the text, and the piece in front of it can
stand before the new text as well. So the new text is cut into the same tokens.
-/
import BuildOrder.Proofs.BuildFile
import BuildOrder.Proofs.Node.Places
import BuildOrder.Proofs.Token.Scan
import Mathlib.Logic.Relation

namespace BuildOrder

open Text

/-! ## Changes of comments -/

/-- What may be put in where white space may stand: a block comment, or a line comment with the line
feed that ends it. -/
inductive IsComment : List Char → Prop
  | block {body : List Char} (h : ¬ ['*', '/'] <:+: body) :
      IsComment ('/' :: '*' :: body ++ ['*', '/'])
  | line {body : List Char} (h : '\n' ∉ body) : IsComment ('/' :: '/' :: body ++ ['\n'])

/-- One change of the comments of a text. In front of the place of a change the text is cut into whole
pieces, so the place lies inside no string and inside no other comment. -/
inductive CommentChange : List Char → List Char → Prop
  /-- A comment is put in at the beginning. -/
  | first {comment : List Char} (h : IsComment comment) (text : List Char) :
      CommentChange text (comment ++ text)
  /-- A comment is put in behind white space. -/
  | behind {ps : List Piece} {c : Char} {comment rest : List Char} (hps : Piece.Fit (c :: rest) ps)
      (hc : isBlank c = true) (h : IsComment comment) :
      CommentChange (Piece.textOf ps ++ c :: rest) (Piece.textOf ps ++ c :: (comment ++ rest))
  /-- A comment is replaced by a space. -/
  | blanked {ps : List Piece} {f : Filler} {rest : List Char}
      (hps : Piece.Fit (f.chars ++ rest) ps) (hf : f.FitsBefore rest) (hk : ∀ c, f ≠ .blank c) :
      CommentChange (Piece.textOf ps ++ (f.chars ++ rest)) (Piece.textOf ps ++ ' ' :: rest)

/-! ## The tokens of a text -/

/-- The text is read to its end, and its tokens have these kinds and texts. -/
def Reads (text : List Char) (spelling : List (Token.Kind × String)) : Prop :=
  ∃ tokens, tokenize (.ofList text) = .ok tokens ∧ tokens.spelling = spelling

namespace Piece

/-- The kinds and the texts of the tokens of pieces up to the end of the file. -/
def spelling (ps : List Piece) : List (Token.Kind × String) :=
  (ps.filterMap lexeme?).map (fun l => (l.kind, l.text)) ++ [(.endOfFile, "")]

theorem map_tokensOf (p : Position) (ps : List Piece) :
    (tokensOf p ps).map (fun t => (t.kind, t.text)) =
      (ps.filterMap lexeme?).map fun l => (l.kind, l.text) := by
  induction ps generalizing p with
  | nil => rfl
  | cons q ps ih =>
    cases q with
    | filler f => exact ih _
    | lexeme l => exact congrArg _ (ih _)

theorem reads {ps : List Piece} (h : Fit [] ps) : Reads (textOf ps) (spelling ps) := by
  refine ⟨_, tokenize_pieces h String.toList_ofList, ?_⟩
  rw [Tokens.spelling, Tokens.toList_prepend, List.map_append, map_tokensOf]
  rfl

end Piece

theorem Reads.unique {text : List Char} {s s' : List (Token.Kind × String)} (h : Reads text s)
    (h' : Reads text s') : s = s' := by
  obtain ⟨tokens, ht, rfl⟩ := h
  obtain ⟨tokens', ht', rfl⟩ := h'
  rw [Except.ok.inj (ht.symm.trans ht')]

/-- Behind pieces at the front a text that is read to its end consists of pieces. -/
theorem Reads.exists_pieces {ps : List Piece} {rest : List Char} {s : List (Token.Kind × String)}
    (h : Reads (Piece.textOf ps ++ rest) s) (hps : Piece.Fit rest ps) :
    ∃ qs, Piece.Fit [] qs ∧ rest = Piece.textOf qs ∧ s = Piece.spelling (ps ++ qs) := by
  obtain ⟨tokens, ht, -⟩ := id h
  rw [tokenize_cut hps String.toList_ofList] at ht
  cases hr : tokensFrom ⟨rest, (Piece.textOf ps).length,
      Position.start.afterAll (Piece.textOf ps)⟩ with
  | error e =>
    rw [hr] at ht
    cases ht
  | ok more =>
    obtain ⟨qs, hqs, hrest⟩ := exists_pieces_of_tokensFrom hr
    obtain rfl : rest = Piece.textOf qs := hrest
    refine ⟨qs, hqs, rfl, h.unique ?_⟩
    rw [← Piece.textOf_append]
    exact Piece.reads (Piece.fit_append.2 ⟨by rwa [List.append_nil], hqs⟩)

/-! ## One change -/

theorem IsComment.exists_pieces {comment : List Char} (h : IsComment comment) :
    ∃ cs, Piece.textOf cs = comment ∧ cs.filterMap Piece.lexeme? = [] ∧
      ∀ rest, Piece.Fit rest cs := by
  cases h with
  | @block body h =>
    exact ⟨[.filler (.blockComment body)], List.append_nil _, rfl, fun rest => ⟨h, trivial⟩⟩
  | @line body h =>
    refine ⟨[.filler (.lineComment body), .filler (.blank '\n')], rfl, rfl, fun rest => ?_⟩
    refine ⟨⟨h, fun c hc => ?_⟩, show isBlank '\n' = true by decide, trivial⟩
    cases hc
    rfl

/-- What stands between whole pieces and is no token may be exchanged, if what is in front can stand
before the new text. -/
theorem Reads.exchange (ps cs cs' : List Piece) {rest : List Char}
    {s : List (Token.Kind × String)} (h : Reads (Piece.textOf ps ++ (Piece.textOf cs ++ rest)) s)
    (hps : Piece.Fit (Piece.textOf cs ++ rest) ps)
    (hps' : Piece.Fit (Piece.textOf cs' ++ rest) ps) (hcs : Piece.Fit rest cs)
    (hcs' : Piece.Fit rest cs') (hl : cs.filterMap Piece.lexeme? = cs'.filterMap Piece.lexeme?) :
    Reads (Piece.textOf ps ++ (Piece.textOf cs' ++ rest)) s := by
  rw [← List.append_assoc, ← Piece.textOf_append] at h
  obtain ⟨qs, hqs, rfl, rfl⟩ := h.exists_pieces (Piece.fit_append.2 ⟨hps, hcs⟩)
  have hfit : Piece.Fit [] (ps ++ cs' ++ qs) :=
    Piece.fit_append.2 ⟨Piece.fit_append.2 ⟨by rwa [List.append_nil], by rwa [List.append_nil]⟩, hqs⟩
  have hs : Piece.spelling (ps ++ cs ++ qs) = Piece.spelling (ps ++ cs' ++ qs) := by
    simp only [Piece.spelling, List.filterMap_append, hl]
  rw [hs, ← List.append_assoc, ← Piece.textOf_append, ← Piece.textOf_append]
  exact Piece.reads hfit

/-- One change of the comments leaves the kinds and the texts of the tokens. -/
theorem CommentChange.reads {text text' : List Char} (hc : CommentChange text text')
    {s : List (Token.Kind × String)} (h : Reads text s) : Reads text' s := by
  cases hc with
  | first hcomment =>
    obtain ⟨cs, rfl, hl, hcs⟩ := hcomment.exists_pieces
    exact Reads.exchange [] [] cs h trivial trivial trivial (hcs text) hl.symm
  | @behind ps c comment rest hps hblank hcomment =>
    obtain ⟨cs, rfl, hl, hcs⟩ := hcomment.exists_pieces
    have hps' : Piece.Fit (c :: (Piece.textOf cs ++ rest)) ps :=
      hps.of_forall fun p hp => hp.of_head? rfl
    exact Reads.exchange ps [.filler (.blank c)] (.filler (.blank c) :: cs) h hps hps'
      ⟨hblank, trivial⟩ ⟨hblank, hcs rest⟩ hl.symm
  | @blanked ps f rest hps hf hk =>
    have htext : f.chars ++ rest = Piece.textOf [.filler f] ++ rest := by
      rw [show Piece.textOf [.filler f] = f.chars from List.append_nil _]
    -- the comment begins with a slash, so no line comment stands in front of it
    have hslash : (f.chars ++ rest).head? = some '/' := by
      cases f with
      | blank c => exact absurd rfl (hk c)
      | lineComment body => rfl
      | blockComment body => rfl
    have hps' : Piece.Fit (' ' :: rest) ps := hps.of_forall fun p hp =>
      hp.of_blank (by decide) (.inr ⟨'/', hslash, by decide⟩)
    rw [htext] at h hps
    exact Reads.exchange ps [.filler f] [.filler (.blank ' ')] h hps hps' ⟨hf, trivial⟩
      ⟨show isBlank ' ' = true by decide, trivial⟩ rfl

/-- Changes of the comments leave the kinds and the texts of the tokens. -/
theorem Reads.of_commentChanges {text text' : List Char}
    (hc : Relation.ReflTransGen CommentChange text text') {s : List (Token.Kind × String)}
    (h : Reads text s) : Reads text' s := by
  induction hc with
  | refl => exact h
  | tail _ hstep ih => exact hstep.reads ih

/-! ## The module of a text -/

/-- Two texts describe the same module, or both are refused by the grammar with the same message. -/
inductive Module.SameMeaning : Except Fault Module → Except Fault Module → Prop
  | module (m : Module) : SameMeaning (.ok m) (.ok m)
  | fault {f f' : Fault} (hf : f.kind = .grammar) (hf' : f'.kind = .grammar)
      (hm : f'.message = f.message) : SameMeaning (.error f) (.error f')

/-- A text goes into a module by the kinds and the texts of its tokens. -/
theorem Module.sameMeaning_of_spelling {source source' : String} {tokens tokens' : Tokens}
    (h : tokenize source = .ok tokens) (h' : tokenize source' = .ok tokens')
    (hs : tokens'.spelling = tokens.spelling) (name directory : String) :
    SameMeaning (ofSource name directory source) (ofSource name directory source') := by
  -- moved to one place the tokens are the same, and they are read the same way
  have hread : Parse.relocated (fun _ => .unknown) (.relocate fun _ => .unknown)
      (Parse.block tokens') =
    Parse.relocated (fun _ => .unknown) (.relocate fun _ => .unknown) (Parse.block tokens) := by
    rw [← Parse.parallelAt_block, ← Parse.parallelAt_block, Tokens.relocate_eq_of_spelling hs]
  unfold ofSource ModuleBlock.ofSource
  rw [h, h']
  dsimp only
  cases hb : Parse.block tokens with
  | ok b rest =>
    cases hb' : Parse.block tokens' with
    | ok b' rest' =>
      rw [hb, hb', Parse.relocated, Parse.relocated, EStateM.Result.ok.injEq] at hread
      have hm : ofBlock name directory b' = ofBlock name directory b := by
        rw [← ofBlock_relocate, hread.1, ofBlock_relocate]
      show SameMeaning (.ok (ofBlock name directory b)) (.ok (ofBlock name directory b'))
      rw [hm]
      exact .module _
    | error e' rest' =>
      rw [hb, hb'] at hread
      cases hread
  | error e rest =>
    cases hb' : Parse.block tokens' with
    | ok b' rest' =>
      rw [hb, hb'] at hread
      cases hread
    | error e' rest' =>
      rw [hb, hb', Parse.relocated, Parse.relocated, EStateM.Result.error.injEq] at hread
      obtain ⟨hexpected, hfound⟩ := (GrammarFault.mk.injEq ..).mp hread.1
      have hkind : e'.found.kind = e.found.kind := ((Token.mk.injEq ..).mp hfound).1
      refine .fault rfl rfl ?_
      show "Expected " ++ e'.expected.name ++ ", got " ++ e'.found.kind.name = _
      rw [hexpected, hkind]
      rfl

/-- However comments are put in at the beginning and behind white space of a text that is read to its
end, and comments are replaced by spaces: the new text is read to its end, its tokens have the same
kinds and texts, and it describes the same module or is refused with the same message. -/
theorem comments_insignificant {source source' : String} {tokens : Tokens}
    (h : tokenize source = .ok tokens)
    (hc : Relation.ReflTransGen CommentChange source.toList source'.toList) :
    ∃ tokens', tokenize source' = .ok tokens' ∧ tokens'.spelling = tokens.spelling ∧
      ∀ name directory, Module.SameMeaning (Module.ofSource name directory source)
        (Module.ofSource name directory source') := by
  have hreads : Reads source.toList tokens.spelling :=
    ⟨tokens, by rw [String.ofList_toList, h], rfl⟩
  obtain ⟨tokens', h', hs⟩ := hreads.of_commentChanges hc
  rw [String.ofList_toList] at h'
  exact ⟨tokens', h', hs, Module.sameMeaning_of_spelling h h' hs⟩

/-- A comment between two words becomes a space, a comment of a star and a quote is put in at the
beginning, and a line comment behind white space. -/
theorem comments_insignificant_three : ∃ tokens tokens',
    tokenize "module/**/a \x7b\x7d" = .ok tokens ∧
      Relation.ReflTransGen CommentChange "module/**/a \x7b\x7d".toList
        "/**\"*/module a ///*\n\x7b\x7d".toList ∧
      tokenize "/**\"*/module a ///*\n\x7b\x7d" = .ok tokens' ∧
      tokens'.spelling = tokens.spelling := by
  have h₁ : CommentChange "module/**/a \x7b\x7d".toList "module a \x7b\x7d".toList := by
    have h := @CommentChange.blanked [.lexeme (.word "module".toList)] (.blockComment [])
      "a \x7b\x7d".toList (by decide) (by decide) (by simp)
    exact h
  have h₂ : CommentChange "module a \x7b\x7d".toList "/**\"*/module a \x7b\x7d".toList :=
    .first (@IsComment.block "*\"".toList (by decide)) _
  have h₃ : CommentChange "/**\"*/module a \x7b\x7d".toList
      "/**\"*/module a ///*\n\x7b\x7d".toList :=
    @CommentChange.behind [.filler (.blockComment "*\"".toList), .lexeme (.word "module".toList),
      .filler (.blank ' '), .lexeme (.word ['a'])] ' ' _ "\x7b\x7d".toList (by decide) (by decide)
      (@IsComment.line "/*".toList (by decide))
  have hc := ((Relation.ReflTransGen.single h₁).tail h₂).tail h₃
  cases ht : tokenize "module/**/a \x7b\x7d" with
  | error e =>
    have : (tokenize "module/**/a \x7b\x7d").toOption.isSome = true := by decide +kernel
    rw [ht] at this
    cases this
  | ok tokens =>
    obtain ⟨tokens', ht', hs, -⟩ := comments_insignificant ht hc
    exact ⟨tokens, tokens', rfl, hc, ht', hs⟩

end BuildOrder
