/-
The lexical grammar of a source text. A text is cut into pieces: what stands in the gaps between
tokens, and the texts of the tokens themselves. Which pieces may stand where is said of a piece and
of what follows it, so that words are as long as they can be and a comment ends at its first end.

The main statement of this file is that a piece is read as what it is: a gap is passed over in one
step, and behind gaps a token's text gives that token.
-/
import BuildOrder.Proofs.Text.Classes
import Mathlib.Data.List.TakeWhile

namespace BuildOrder

open Text

/-! ## Pieces -/

/-- What stands in a gap between tokens. -/
inductive Filler where
  | blank (c : Char)
  /-- A line comment without the end of its line. -/
  | lineComment (body : List Char)
  | blockComment (body : List Char)
deriving DecidableEq, Repr

/-- The text of a token. -/
inductive Lexeme where
  | word (text : List Char)
  /-- A string; the text is what stands between the quotes. -/
  | quoted (text : List Char)
  | symbol (c : Char)
deriving DecidableEq, Repr

/-- A piece of a source text. -/
inductive Piece where
  | filler (f : Filler)
  | lexeme (l : Lexeme)
deriving DecidableEq, Repr

namespace Filler

/-- The characters of the piece. -/
def chars : Filler → List Char
  | blank c => [c]
  | lineComment body => '/' :: '/' :: body
  | blockComment body => '/' :: '*' :: body ++ ['*', '/']

/-- Whether the piece can stand before `rest`: a line comment reaches to the end of its line or of
the text, and no end of a block comment lies inside it. -/
def FitsBefore (rest : List Char) : Filler → Prop
  | blank c => isBlank c = true
  | lineComment body => '\n' ∉ body ∧ ∀ c ∈ rest.head?, c = '\n'
  | blockComment body => ¬ ['*', '/'] <:+: body

end Filler

namespace Lexeme

/-- The characters of the piece. -/
def chars : Lexeme → List Char
  | word text => text
  | quoted text => '"' :: text ++ ['"']
  | symbol c => [c]

/-- The kind of the token. -/
def kind : Lexeme → Token.Kind
  | word text => .ofWord (.ofList text)
  | quoted _ => .string
  | symbol c => .ofSymbol c

/-- The text of the token. -/
def text : Lexeme → String
  | word text => .ofList text
  | quoted text => .ofList text
  | symbol c => .singleton c

/-- The token that begins at a position. -/
def token (p : Position) (l : Lexeme) : Token := ⟨l.kind, l.text, p⟩

/-- The characters with a meaning of their own. -/
def symbols : List (Char × Token.Kind) :=
  [('{', .leftBrace), ('}', .rightBrace), ('[', .leftBracket), (']', .rightBracket), ('=', .equals),
    (',', .comma)]

/-- The kinds of tokens as the grammar gives them: a word is reserved in the exact spelling only,
and a character that means nothing is invalid. -/
inductive HasKind : Lexeme → Token.Kind → Prop
  | reserved (k : Keyword) : HasKind (word k.word.toList) (.keyword k)
  | identifier {text : List Char} (h : ∀ k : Keyword, text ≠ k.word.toList) :
      HasKind (word text) .identifier
  | string (text : List Char) : HasKind (quoted text) .string
  | symbol {c : Char} {k : Token.Kind} (h : (c, k) ∈ symbols) : HasKind (symbol c) k
  | invalid {c : Char} (h : ∀ k, (c, k) ∉ symbols) : HasKind (symbol c) .invalid

/-- A word: it begins like one and goes on like one. -/
def IsWord (text : List Char) : Prop :=
  ∃ c cs, text = c :: cs ∧ Scan.startsWord c = true ∧ ∀ x ∈ cs, Scan.continuesWord x = true

instance (text : List Char) : Decidable (IsWord text) :=
  match text with
  | [] => .isFalse (by rintro ⟨c, cs, h, -⟩; cases h)
  | c :: cs => decidable_of_iff ((Scan.startsWord c && cs.all Scan.continuesWord) = true) (by
      rw [Bool.and_eq_true, List.all_eq_true]
      constructor
      · intro h
        exact ⟨c, cs, rfl, h⟩
      · rintro ⟨_, _, h, hw⟩
        cases h
        exact hw)

/-- Whether the piece can stand before `rest`: a word cannot be made longer, a string stays on its
line, and a single character begins nothing else. -/
def FitsBefore (rest : List Char) : Lexeme → Prop
  | word text => IsWord text ∧ ∀ c ∈ rest.head?, Scan.continuesWord c = false
  | quoted text => '"' ∉ text ∧ '\n' ∉ text
  | symbol c => Scan.startsWord c = false ∧ isBlank c = false ∧ c ≠ '"' ∧
      ¬ (c = '/' ∧ (rest.head? = some '/' ∨ rest.head? = some '*'))

end Lexeme

namespace Piece

/-- The characters of the piece. -/
def chars : Piece → List Char
  | filler f => f.chars
  | lexeme l => l.chars

/-- Whether the piece can stand before `rest`. -/
def FitsBefore (rest : List Char) : Piece → Prop
  | filler f => f.FitsBefore rest
  | lexeme l => l.FitsBefore rest

/-- The text of a token, if the piece is one. -/
def lexeme? : Piece → Option Lexeme
  | filler _ => none
  | lexeme l => some l

/-- The text of some pieces. -/
def textOf (ps : List Piece) : List Char := ps.flatMap chars

/-- Whether each piece can stand where it does, with `rest` behind the last one. -/
def Fit (rest : List Char) : List Piece → Prop
  | [] => True
  | p :: ps => p.FitsBefore (textOf ps ++ rest) ∧ Fit rest ps

/-- The tokens of pieces that begin at a position. -/
def tokensOf (p : Position) : List Piece → List Token
  | [] => []
  | filler f :: ps => tokensOf (p.afterAll f.chars) ps
  | lexeme l :: ps => l.token p :: tokensOf (p.afterAll l.chars) ps

/-- The tokens that the grammar gives to pieces that begin at a position and reach to the end of the
file. -/
inductive Denote : Position → List Piece → List Token → Prop
  | nil (p : Position) : Denote p [] [⟨.endOfFile, "", p⟩]
  | filler {p : Position} {f : Filler} {ps : List Piece} {ts : List Token}
      (h : Denote (p.afterAll f.chars) ps ts) : Denote p (filler f :: ps) ts
  | lexeme {p : Position} {l : Lexeme} {k : Token.Kind} {ps : List Piece} {ts : List Token}
      (hk : l.HasKind k) (h : Denote (p.afterAll l.chars) ps ts) :
      Denote p (lexeme l :: ps) (⟨k, l.text, p⟩ :: ts)

@[simp] theorem textOf_nil : textOf [] = [] := rfl

@[simp] theorem textOf_cons (p : Piece) (ps : List Piece) :
    textOf (p :: ps) = p.chars ++ textOf ps := rfl

end Piece

/-! ## Gaps -/

theorem Filler.chars_ne_nil (f : Filler) : f.chars ≠ [] := by cases f <;> simp [chars]

theorem commentEnd?_append {body : List Char} (h : ¬ ['*', '/'] <:+: body) (rest : List Char) :
    commentEnd? (body ++ '*' :: '/' :: rest) = some (body.length + 2) := by
  induction body with
  | nil => rfl
  | cons c body ih =>
    have hb : ¬ ['*', '/'] <:+: body := fun hi => h (hi.trans (List.infix_cons (List.infix_refl _)))
    -- an end that begins with the first character would lie inside the body
    have hc : ∀ tail, c = '*' → body ++ '*' :: '/' :: rest = '/' :: tail → False := by
      rintro tail rfl ht
      cases body with
      | nil => exact absurd (List.cons.inj ht).1 (by decide)
      | cons d body =>
        obtain rfl : d = '/' := (List.cons.inj ht).1
        exact h ⟨[], body, rfl⟩
    rw [List.cons_append, commentEnd?.eq_3 _ _ hc, ih hb]
    rfl

theorem commentEnd?_eq_some {text : List Char} {n : Nat} (h : commentEnd? text = some n) :
    ∃ body rest, text = body ++ '*' :: '/' :: rest ∧ n = body.length + 2 ∧
      ¬ ['*', '/'] <:+: body := by
  fun_induction commentEnd? text generalizing n with
  | case1 => cases h
  | case2 rest => cases h; exact ⟨[], rest, rfl, rfl, by decide⟩
  | case3 c text hc ih =>
    obtain ⟨m, hm, rfl⟩ := Option.map_eq_some_iff.1 h
    obtain ⟨body, rest, rfl, rfl, hb⟩ := ih hm
    refine ⟨c :: body, rest, rfl, rfl, fun hi => ?_⟩
    rcases List.infix_cons_iff.1 hi with ⟨tail, ht⟩ | hi
    · obtain ⟨rfl, ht'⟩ := List.cons.inj ht
      cases body with
      | nil => cases ht'
      | cons d body =>
        obtain rfl : '/' = d := (List.cons.inj ht').1
        exact hc _ rfl rfl
    · exact hb hi

theorem commentEnd?_eq_none_iff {text : List Char} :
    commentEnd? text = none ↔ ¬ ['*', '/'] <:+: text := by
  constructor
  · intro h
    fun_induction commentEnd? text with
    | case1 => decide
    | case2 => cases h
    | case3 c text hc ih =>
      rw [List.infix_cons_iff]
      rintro (⟨tail, ht⟩ | hi)
      · obtain ⟨rfl, rfl⟩ := List.cons.inj ht
        exact hc tail rfl rfl
      · exact ih (Option.map_eq_none_iff.1 h) hi
  · intro h
    cases he : commentEnd? text with
    | none => rfl
    | some n =>
      obtain ⟨body, rest, rfl, -⟩ := commentEnd?_eq_some he
      exact absurd ⟨body, rest, by simp⟩ h

theorem takeWhile_append_of_head {p : Char → Bool} {a b : List Char} (ha : ∀ c ∈ a, p c = true)
    (hb : ∀ c ∈ b.head?, p c = false) : (a ++ b).takeWhile p = a := by
  rw [List.takeWhile_append_of_pos ha]
  cases b with
  | nil => simp
  | cons c b => simp [hb c rfl]

/-- A piece between tokens is passed over as a whole. -/
theorem Gap.ofText_filler {f : Filler} {rest : List Char} (h : f.FitsBefore rest) :
    Gap.ofText (f.chars ++ rest) = .piece f.chars.length := by
  cases f with
  | blank c =>
    have hc : c ≠ '/' := by
      rintro rfl
      exact absurd (show isBlank '/' = true from h) (by decide)
    change Gap.ofText (c :: rest) = .piece 1
    unfold Gap.ofText
    split
    · rename_i he; cases he
    · rename_i he; exact absurd (List.cons.inj he).1 hc
    · rename_i he; exact absurd (List.cons.inj he).1 hc
    · rename_i he
      obtain ⟨rfl, -⟩ := List.cons.inj he
      exact if_pos h
  | lineComment body =>
    have hbody : (body ++ rest).takeWhile (· ≠ '\n') = body := by
      refine takeWhile_append_of_head (fun c hc => ?_) fun c hc => ?_
      · simpa using fun he : c = '\n' => h.1 (he ▸ hc)
      · simp [h.2 c hc]
    change Gap.ofText ('/' :: '/' :: (body ++ rest)) = .piece (body.length + 2)
    rw [Gap.ofText, hbody]
  | blockComment body =>
    have hbody : Gap.ofText ('/' :: '*' :: (body ++ '*' :: '/' :: rest)) =
        .piece (body.length + 2 + 2) := by
      rw [Gap.ofText, commentEnd?_append h]
    simpa [Filler.chars] using hbody

/-- What is passed over in one step is a piece between tokens. -/
theorem Gap.eq_filler {text : List Char} {n : Nat} (h : Gap.ofText text = .piece n) :
    ∃ f : Filler, ∃ rest, text = f.chars ++ rest ∧ n = f.chars.length ∧ f.FitsBefore rest := by
  unfold Gap.ofText at h
  split at h
  · cases h
  · rename_i rest
    cases h
    refine ⟨.lineComment (rest.takeWhile (· ≠ '\n')), rest.dropWhile (· ≠ '\n'), ?_, rfl, ?_, ?_⟩
    · simp [Filler.chars]
    · intro hc
      have := List.mem_takeWhile_imp hc
      simp at this
    · intro c hc
      have := List.head?_dropWhile_not (· ≠ '\n') rest
      rw [hc] at this
      simpa using this
  · rename_i rest
    split at h
    · rename_i m hm
      cases h
      obtain ⟨body, rest, rfl, rfl, hb⟩ := commentEnd?_eq_some hm
      exact ⟨.blockComment body, rest, by simp [Filler.chars], by simp [Filler.chars], hb⟩
    · cases h
  · rename_i c rest _ _
    split at h
    · rename_i hc
      cases h
      exact ⟨.blank c, rest, rfl, rfl, hc⟩
    · cases h

/-- There is no gap in front of a character that is neither white space nor the beginning of a
comment. -/
theorem Gap.absent_iff {c : Char} {rest : List Char} : Gap.ofText (c :: rest) = .absent ↔
    isBlank c = false ∧ ¬ (c = '/' ∧ (rest.head? = some '/' ∨ rest.head? = some '*')) := by
  unfold Gap.ofText
  split
  · rename_i he; cases he
  · rename_i he
    obtain ⟨rfl, rfl⟩ := List.cons.inj he
    simp
  · rename_i he
    obtain ⟨rfl, rfl⟩ := List.cons.inj he
    constructor
    · intro h
      split at h <;> cases h
    · rintro ⟨-, h⟩
      exact absurd ⟨rfl, .inr rfl⟩ h
  · rename_i h₁ h₂ he
    obtain ⟨rfl, rfl⟩ := List.cons.inj he
    have hs : ¬ (c = '/' ∧ (rest.head? = some '/' ∨ rest.head? = some '*')) := by
      rintro ⟨rfl, h | h⟩ <;> obtain ⟨tail, rfl⟩ := List.head?_eq_some_iff.1 h
      · exact h₁ _ rfl rfl
      · exact h₂ _ rfl rfl
    simp [hs]

/-! ## What may follow a piece -/

-- what follows is decided by the one character that is there, not by a search over all characters

instance (rest : List Char) (f : Filler) : Decidable (f.FitsBefore rest) :=
  match f with
  | .blank c => inferInstanceAs (Decidable (isBlank c = true))
  | .lineComment body =>
    haveI : Decidable (∀ c ∈ rest.head?, c = '\n') := Option.decidableForallMem _
    inferInstanceAs (Decidable ('\n' ∉ body ∧ ∀ c ∈ rest.head?, c = '\n'))
  | .blockComment _ => decidable_of_iff _ commentEnd?_eq_none_iff

instance (rest : List Char) (l : Lexeme) : Decidable (l.FitsBefore rest) :=
  match l with
  | .word text =>
    haveI : Decidable (∀ c ∈ rest.head?, Scan.continuesWord c = false) :=
      Option.decidableForallMem _
    inferInstanceAs (Decidable (Lexeme.IsWord text ∧
      ∀ c ∈ rest.head?, Scan.continuesWord c = false))
  | .quoted text => inferInstanceAs (Decidable ('"' ∉ text ∧ '\n' ∉ text))
  | .symbol c => inferInstanceAs (Decidable (Scan.startsWord c = false ∧ isBlank c = false ∧
      c ≠ '"' ∧ ¬ (c = '/' ∧ (rest.head? = some '/' ∨ rest.head? = some '*'))))

namespace Piece

instance (rest : List Char) (p : Piece) : Decidable (p.FitsBefore rest) :=
  match p with
  | .filler f => inferInstanceAs (Decidable (f.FitsBefore rest))
  | .lexeme l => inferInstanceAs (Decidable (l.FitsBefore rest))

instance decidableFit (rest : List Char) : (ps : List Piece) → Decidable (Fit rest ps)
  | [] => .isTrue trivial
  | _ :: ps => haveI := decidableFit rest ps; inferInstanceAs (Decidable (_ ∧ _))

/-- What a piece may stand before is decided by the first character there. -/
theorem FitsBefore.of_head? {p : Piece} {rest rest' : List Char} (h : p.FitsBefore rest)
    (hr : rest'.head? = rest.head?) : p.FitsBefore rest' := by
  cases p with
  | filler f =>
    cases f with
    | blank c => exact h
    | lineComment body => exact ⟨h.1, hr ▸ h.2⟩
    | blockComment body => exact h
  | lexeme l =>
    cases l with
    | word text => exact ⟨h.1, hr ▸ h.2⟩
    | quoted text => exact h
    | symbol c => exact ⟨h.1, h.2.1, h.2.2.1, hr ▸ h.2.2.2⟩

/-- Every piece may stand before a line feed, and a piece that is ended by something else may stand
before any white space. -/
theorem FitsBefore.of_blank {p : Piece} {rest rest' : List Char} {c : Char} (h : p.FitsBefore rest)
    (hc : isBlank c = true) (hn : c = '\n' ∨ ∃ d ∈ rest.head?, d ≠ '\n') :
    p.FitsBefore (c :: rest') := by
  cases p with
  | filler f =>
    cases f with
    | blank c => exact h
    | lineComment body =>
      refine ⟨h.1, fun x hx => ?_⟩
      cases hx
      rcases hn with hn | ⟨d, hd, hne⟩
      · exact hn
      · exact absurd (h.2 d hd) hne
    | blockComment body => exact h
  | lexeme l =>
    cases l with
    | word text =>
      refine ⟨h.1, fun x hx => ?_⟩
      cases hx
      exact Scan.not_continuesWord_of_isBlank hc
    | quoted text => exact h
    | symbol d =>
      refine ⟨h.1, h.2.1, h.2.2.1, ?_⟩
      rintro ⟨-, hs | hs⟩ <;> cases hs <;> exact absurd hc (by decide)

/-- Of what follows some pieces only the last one takes notice. -/
theorem Fit.of_forall {ps : List Piece} {rest rest' : List Char} (h : Fit rest ps)
    (hr : ∀ p : Piece, p.FitsBefore rest → p.FitsBefore rest') : Fit rest' ps := by
  induction ps with
  | nil => trivial
  | cons p ps ih =>
    refine ⟨?_, ih h.2⟩
    cases ht : textOf ps with
    | nil =>
      have hp := h.1
      rw [ht] at hp
      exact hr p hp
    | cons c cs => exact h.1.of_head? (by rw [ht]; rfl)

theorem textOf_append (ps qs : List Piece) : textOf (ps ++ qs) = textOf ps ++ textOf qs :=
  List.flatMap_append

theorem tokensOf_append (p : Position) (ps qs : List Piece) :
    tokensOf p (ps ++ qs) = tokensOf p ps ++ tokensOf (p.afterAll (textOf ps)) qs := by
  induction ps generalizing p with
  | nil => rfl
  | cons q ps ih =>
    rw [textOf_cons, Position.afterAll_append]
    cases q with
    | filler f => exact ih _
    | lexeme l => exact congrArg _ (ih _)

theorem fit_append {rest : List Char} {ps qs : List Piece} :
    Fit rest (ps ++ qs) ↔ Fit (textOf qs ++ rest) ps ∧ Fit rest qs := by
  induction ps with
  | nil => simp [Fit]
  | cons p ps ih =>
    rw [List.cons_append, Fit, Fit, ih, textOf_append, List.append_assoc, and_assoc]

end Piece

/-! ## Kinds of tokens -/

theorem Keyword.ofWord?_word (k : Keyword) : ofWord? k.word = some k := by cases k <;> decide

theorem Keyword.word_eq_of_ofWord? {text : String} {k : Keyword} (h : ofWord? text = some k) :
    k.word = text := by
  simpa using List.find?_some h

theorem Token.Kind.ofWord_word (k : Keyword) : ofWord k.word = .keyword k := by
  rw [ofWord, Keyword.ofWord?_word]
  rfl

theorem Token.Kind.ofWord_of_ne {text : String} (h : ∀ k : Keyword, text ≠ k.word) :
    ofWord text = .identifier := by
  rw [ofWord]
  cases hw : Keyword.ofWord? text with
  | none => rfl
  | some k => exact absurd (Keyword.word_eq_of_ofWord? hw).symm (h k)

/-! ## Tokens -/

namespace Lexeme

/-- The first character of a token is neither white space nor the beginning of a comment. -/
theorem absent_of_fitsBefore {l : Lexeme} {rest : List Char} (h : l.FitsBefore rest) :
    Gap.ofText (l.chars ++ rest) = .absent := by
  cases l with
  | word text =>
    obtain ⟨⟨c, cs, rfl, hc, -⟩, -⟩ := h
    have hw := Scan.continuesWord_of_startsWord hc
    refine Gap.absent_iff.2 ⟨?_, ?_⟩
    · rw [Bool.eq_false_iff]
      intro hb
      rw [Scan.not_continuesWord_of_isBlank hb] at hw
      cases hw
    · rintro ⟨rfl, -⟩
      exact absurd hc (by decide)
  | quoted text => exact Gap.absent_iff.2 ⟨by decide, by rintro ⟨h, -⟩; cases h⟩
  | symbol c => exact Gap.absent_iff.2 ⟨h.2.1, h.2.2.2⟩

theorem ofSymbol_of_mem {c : Char} {k : Token.Kind} (h : (c, k) ∈ symbols) :
    Token.Kind.ofSymbol c = k := by
  simp only [symbols, List.mem_cons, Prod.mk.injEq, List.not_mem_nil, or_false] at h
  rcases h with ⟨rfl, rfl⟩ | ⟨rfl, rfl⟩ | ⟨rfl, rfl⟩ | ⟨rfl, rfl⟩ | ⟨rfl, rfl⟩ | ⟨rfl, rfl⟩ <;> rfl

theorem ofSymbol_cases (c : Char) : (c, Token.Kind.ofSymbol c) ∈ symbols ∨
    Token.Kind.ofSymbol c = .invalid ∧ ∀ k, (c, k) ∉ symbols := by
  by_cases h : ∃ k, (c, k) ∈ symbols
  · obtain ⟨k, hk⟩ := h
    rw [ofSymbol_of_mem hk]
    exact .inl hk
  · rw [not_exists] at h
    refine .inr ⟨?_, h⟩
    have hc : c ∉ symbols.map Prod.fst := fun hm => by
      obtain ⟨⟨_, k⟩, hk, rfl⟩ := List.mem_map.1 hm
      exact h k hk
    unfold Token.Kind.ofSymbol
    split
    case h_7 => rfl
    all_goals exact absurd (by decide) hc

theorem chars_ne_nil {l : Lexeme} {rest : List Char} (h : l.FitsBefore rest) : l.chars ≠ [] := by
  cases l with
  | word text =>
    obtain ⟨⟨c, cs, rfl, -⟩, -⟩ := h
    simp [chars]
  | quoted text => simp [chars]
  | symbol c => simp [chars]

/-- The kind that the grammar gives is unique, and it is the one that is read. -/
theorem hasKind_iff {l : Lexeme} {k : Token.Kind} : l.HasKind k ↔ k = l.kind := by
  constructor
  · intro h
    cases h with
    | reserved k => rw [kind, String.ofList_toList, Token.Kind.ofWord_word]
    | identifier h => exact (Token.Kind.ofWord_of_ne fun k hk => h k (by simp [← hk])).symm
    | string text => rfl
    | symbol h => exact (ofSymbol_of_mem h).symm
    | invalid h =>
      rename_i c
      rcases ofSymbol_cases c with hs | ⟨hs, -⟩
      · exact absurd hs (h _)
      · exact hs.symm
  · rintro rfl
    cases l with
    | word text =>
      by_cases hw : ∃ k : Keyword, text = k.word.toList
      · obtain ⟨k, rfl⟩ := hw
        rw [kind, String.ofList_toList, Token.Kind.ofWord_word]
        exact .reserved k
      · rw [not_exists] at hw
        rw [kind, Token.Kind.ofWord_of_ne fun k hk => hw k (by simp [← hk])]
        exact .identifier hw
    | quoted text => exact .string text
    | symbol c =>
      rcases ofSymbol_cases c with hs | ⟨hs, hn⟩
      · exact .symbol hs
      · rw [kind, hs]
        exact .invalid hn

theorem kind_ne_endOfFile (l : Lexeme) : l.kind ≠ .endOfFile := by
  cases l with
  | word text => exact Token.Kind.ofWord_ne_endOfFile _
  | quoted text => exact fun h => by cases h
  | symbol c => exact Token.Kind.ofSymbol_ne_endOfFile c

end Lexeme

theorem Piece.denote_iff {ps : List Piece} {p : Position} {ts : List Token} : Denote p ps ts ↔
    ts = tokensOf p ps ++ [⟨.endOfFile, "", p.afterAll (textOf ps)⟩] := by
  induction ps generalizing p ts with
  | nil =>
    constructor
    · intro h
      cases h
      rfl
    · rintro rfl
      exact .nil p
  | cons q ps ih =>
    rw [textOf_cons, Position.afterAll_append]
    cases q with
    | filler f =>
      constructor
      · intro h
        cases h with
        | filler h => exact ih.1 h
      · intro h
        exact .filler (ih.2 h)
    | lexeme l =>
      constructor
      · intro h
        cases h with
        | lexeme hk h =>
          rw [ih.1 h, Lexeme.hasKind_iff.1 hk]
          rfl
      · rintro rfl
        exact .lexeme (Lexeme.hasKind_iff.2 rfl) (ih.2 rfl)

theorem not_startsWord_quote : Scan.startsWord '"' = false := by decide

/-- The text of a token is read as that token. -/
theorem Scan.token_lexeme {l : Lexeme} {rest : List Char} (h : l.FitsBefore rest) {c : Cursor}
    (hc : c.rest = l.chars ++ rest) :
    Scan.token c = .ok (l.token c.position) (c.advance l.chars.length) := by
  unfold Scan.token
  rw [hc]
  cases l with
  | word text =>
    obtain ⟨⟨ch, cs, rfl, hch, hcs⟩, hr⟩ := h
    change (if startsWord ch then _ else _) = _
    rw [if_pos hch, show Lexeme.chars _ = ch :: cs from rfl, List.append_eq,
      takeWhile_append_of_head hcs hr]
    rfl
  | quoted text =>
    have ht : (text ++ '"' :: rest).takeWhile (fun x => x ≠ '"' && x ≠ '\n') = text := by
      refine takeWhile_append_of_head (fun x hx => ?_) fun x hx => ?_
      · have h₁ : x ≠ '"' := fun he => h.1 (he ▸ hx)
        have h₂ : x ≠ '\n' := fun he => h.2 (he ▸ hx)
        simp [h₁, h₂]
      · cases hx
        rfl
    have happ : (Lexeme.quoted text).chars ++ rest = '"' :: (text ++ '"' :: rest) := by
      simp [Lexeme.chars]
    rw [happ]
    dsimp only
    rw [if_neg (by simp [not_startsWord_quote]), if_pos rfl, ht, if_pos (by simp)]
    simp [Lexeme.chars, Lexeme.token, Lexeme.kind, Lexeme.text]
  | symbol ch =>
    obtain ⟨hs, -, hq, -⟩ := h
    change (if startsWord ch then _ else _) = _
    rw [if_neg (by simp [hs]), if_neg hq]
    rfl

end BuildOrder
