/-
Laying out tokens as a text. Between tokens there may be any white space and any comments, or
nothing, except that two words do not touch and that a line comment is ended by its line.

The main statement of this file is that every piece of a text laid out like this stands where it
may, so that the text is read as the tokens that were laid out.
-/
import BuildOrder.Proofs.Token.Scan
import Mathlib.Data.List.Forall2

namespace BuildOrder

open Text

/-! ## Layouts -/

/-- What may stand in a gap. -/
def Filler.Closed : Filler → Prop
  | blank c => isBlank c = true
  | lineComment body => '\n' ∉ body
  | blockComment body => ¬ ['*', '/'] <:+: body

/-- The text of a token that has a use in the grammar. -/
def Lexeme.Useful : Lexeme → Prop
  | word text => IsWord text
  | quoted text => '"' ∉ text ∧ '\n' ∉ text
  | symbol c => ∃ k, (c, k) ∈ symbols

instance (f : Filler) : Decidable f.Closed :=
  match f with
  | .blank c => inferInstanceAs (Decidable (isBlank c = true))
  | .lineComment body => inferInstanceAs (Decidable ('\n' ∉ body))
  | .blockComment _ => decidable_of_iff _ commentEnd?_eq_none_iff

namespace Piece

/-- What may stand in a gap, and any token. -/
def Closed : Piece → Prop
  | filler f => f.Closed
  | lexeme _ => True

/-- Whether one piece may stand directly before another one. -/
def MayPrecede : Piece → Piece → Prop
  | lexeme (.word _), lexeme (.word _) => False
  | filler (.lineComment _), q => q = filler (.blank '\n')
  | _, _ => True

instance (p : Piece) : Decidable p.Closed :=
  match p with
  | filler f => inferInstanceAs (Decidable f.Closed)
  | lexeme _ => .isTrue trivial

instance (p q : Piece) : Decidable (p.MayPrecede q) := by
  unfold MayPrecede
  split <;> infer_instance

/-- Pieces that lay out these tokens. -/
structure Layout (ls : List Lexeme) (ps : List Piece) : Prop where
  lexemes : ps.filterMap lexeme? = ls
  closed : ∀ p ∈ ps, p.Closed
  separate : ps.IsChain MayPrecede

/-- What each piece of a layout of useful tokens is. -/
def Whole : Piece → Prop
  | filler f => f.Closed
  | lexeme l => l.Useful

end Piece

/-! ## Every piece stands where it may -/

theorem Lexeme.apart_of_mem_symbols {c : Char} {k : Token.Kind} (h : (c, k) ∈ symbols) :
    Scan.startsWord c = false ∧ Scan.continuesWord c = false ∧ isBlank c = false ∧
      c ≠ '"' ∧ c ≠ '/' := by
  simp only [symbols, List.mem_cons, Prod.mk.injEq, List.not_mem_nil, or_false] at h
  rcases h with ⟨rfl, -⟩ | ⟨rfl, -⟩ | ⟨rfl, -⟩ | ⟨rfl, -⟩ | ⟨rfl, -⟩ | ⟨rfl, -⟩ <;> decide

namespace Piece

/-- A piece that is no word cannot make the word before it longer. -/
theorem Whole.not_continuesWord {p : Piece} (h : p.Whole) (hw : ∀ text, p ≠ lexeme (.word text)) :
    ∃ c cs, p.chars = c :: cs ∧ Scan.continuesWord c = false := by
  cases p with
  | filler f =>
    cases f with
    | blank c => exact ⟨c, [], rfl, Scan.not_continuesWord_of_isBlank h⟩
    | lineComment body => exact ⟨'/', '/' :: body, rfl, by decide⟩
    | blockComment body => exact ⟨'/', '*' :: body ++ ['*', '/'], rfl, by decide⟩
  | lexeme l =>
    cases l with
    | word text => exact absurd rfl (hw text)
    | quoted text => exact ⟨'"', text ++ ['"'], rfl, by decide⟩
    | symbol c =>
      obtain ⟨k, hk⟩ := h
      exact ⟨c, [], rfl, (Lexeme.apart_of_mem_symbols hk).2.1⟩

theorem Whole.fitsBefore {p : Piece} (hp : p.Whole) {ps : List Piece}
    (hps : ∀ q ∈ ps.head?, q.Whole ∧ p.MayPrecede q) : p.FitsBefore (textOf ps) := by
  cases p with
  | filler f =>
    cases f with
    | blank c => exact hp
    | lineComment body =>
      refine ⟨hp, fun c hc => ?_⟩
      -- the piece behind it, if there is one, is the end of its line
      cases ps with
      | nil => cases hc
      | cons q ps =>
        obtain rfl : q = filler (.blank '\n') := (hps q rfl).2
        cases hc
        rfl
    | blockComment body => exact hp
  | lexeme l =>
    cases l with
    | word text =>
      refine ⟨hp, fun c hc => ?_⟩
      -- the piece behind it, if there is one, is no word
      cases ps with
      | nil => cases hc
      | cons q ps =>
        obtain ⟨hq, hpq⟩ := hps q rfl
        obtain ⟨d, cs, hd, hn⟩ := hq.not_continuesWord (by rintro text rfl; exact hpq)
        rw [textOf_cons, hd] at hc
        cases hc
        exact hn
    | quoted text => exact hp
    | symbol c =>
      obtain ⟨k, hk⟩ := hp
      obtain ⟨hs, -, hb, hq, hslash⟩ := Lexeme.apart_of_mem_symbols hk
      exact ⟨hs, hb, hq, fun h => hslash h.1⟩

theorem fit_of_isChain {ps : List Piece} (hw : ∀ p ∈ ps, p.Whole) (hc : ps.IsChain MayPrecede) :
    Fit [] ps := by
  induction ps with
  | nil => trivial
  | cons p ps ih =>
    have hps : ∀ q ∈ ps.head?, q.Whole ∧ p.MayPrecede q := by
      intro q hq
      obtain ⟨tail, rfl⟩ := List.head?_eq_some_iff.1 hq
      exact ⟨hw q (by simp), (List.isChain_cons_cons.1 hc).1⟩
    refine ⟨?_, ih (fun q hq => hw q (by simp [hq])) (List.isChain_of_isChain_cons hc)⟩
    rw [List.append_nil]
    exact (hw p (by simp)).fitsBefore hps

/-- Every piece of a layout stands where it may. -/
theorem Layout.fit {ls : List Lexeme} {ps : List Piece} (h : Layout ls ps)
    (hl : ∀ l ∈ ls, l.Useful) : Fit [] ps := by
  refine fit_of_isChain (fun p hp => ?_) h.separate
  cases p with
  | filler f => exact h.closed _ hp
  | lexeme l =>
    refine hl l ?_
    rw [← h.lexemes]
    exact List.mem_filterMap.2 ⟨_, hp, rfl⟩

end Piece

/-! ## The tokens of a layout -/

/-- Whether the token has this text, wherever it stands. -/
def Token.Spells (t : Token) (l : Lexeme) : Prop := t.kind = l.kind ∧ t.text = l.text

theorem Piece.tokensOf_spells (p : Position) (ps : List Piece) :
    List.Forall₂ Token.Spells (tokensOf p ps) (ps.filterMap lexeme?) := by
  induction ps generalizing p with
  | nil => exact .nil
  | cons q ps ih =>
    cases q with
    | filler f => exact ih _
    | lexeme l => exact .cons ⟨rfl, rfl⟩ (ih _)

end BuildOrder
