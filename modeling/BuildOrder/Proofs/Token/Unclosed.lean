/-
Why and where the reading of a source text fails. The text is split from its beginning into what
stands in gaps and the texts of tokens; the reading fails where the split reaches a string or a block
comment that is not closed, and the fault is that one.

The piece in front of a text is the only one that can stand there, and none stands in front of what
is not closed. So a text has one split, it ends where the reading fails, and what follows there does
not matter.
-/
import BuildOrder.Proofs.Token.Place
import Mathlib.Order.Bounds.Basic

namespace BuildOrder

/-! ## Where a text is not closed -/

/-- The split of a text reaches an offset: what stands in front of the offset are pieces, each where
it may. -/
def SplitReaches (text : List Char) (k : Nat) : Prop :=
  k ≤ text.length ∧ ∃ ps, Piece.textOf ps = text.take k ∧ Piece.Fit (text.drop k) ps

/-- A fault that a text has at an offset. It is said of no file. -/
inductive FaultAt (text : List Char) (k : Nat) : Fault → Prop
  /-- A quote without a second one on its line: the position is that of the quote. -/
  | string (h : OpenString (text.drop k)) : FaultAt text k
      { kind := .unterminatedString, message := "Unterminated string", path := none,
        position := .ofOffset text k }
  /-- The beginning of a block comment without an end: the position is that of the last character of
  the text, or of the end of the text where this character belongs to the beginning. -/
  | comment (h : OpenComment (text.drop k)) : FaultAt text k
      { kind := .unterminatedComment, message := "Unterminated block comment", path := none,
        position := .ofOffset text (max (k + 2) (text.length - 1)) }

/-! ## One piece -/

/-- How many characters the piece in front of a text has, if one can stand there. -/
def frontLength? (text : List Char) : Option Nat :=
  match Gap.ofText text with
  | .piece n => some n
  | .unclosed _ => none
  | .absent =>
    match Scan.token ⟨text, 0, .start⟩ with
    | .ok _ c => some c.offset
    | .error _ _ => none

theorem frontLength?_piece {p : Piece} {rest : List Char} (h : p.FitsBefore rest) :
    frontLength? (p.chars ++ rest) = some p.chars.length := by
  unfold frontLength?
  cases p with
  | filler f =>
    rw [show (Piece.filler f).chars = f.chars from rfl, Gap.ofText_filler h]
  | lexeme l =>
    have hc : (⟨l.chars ++ rest, 0, .start⟩ : Cursor).rest = l.chars ++ rest := rfl
    rw [show (Piece.lexeme l).chars = l.chars from rfl, Lexeme.absent_of_fitsBefore h]
    dsimp only
    rw [Scan.token_lexeme h hc, Cursor.advance_append hc]
    exact congrArg some (Nat.zero_add _)

theorem frontLength?_of_openString {text : List Char} (h : OpenString text) :
    frontLength? text = none := by
  obtain ⟨c, hc⟩ := Scan.token_of_openString (c := ⟨text, 0, .start⟩) h
  rw [frontLength?, Gap.absent_of_openString h]
  dsimp only
  rw [hc]

theorem frontLength?_of_openComment {text : List Char} (h : OpenComment text) :
    frontLength? text = none := by
  rw [frontLength?, Gap.unclosed_iff.2 ⟨h, rfl⟩]

theorem FaultAt.frontLength?_eq {text : List Char} {k : Nat} {f : Fault} (h : FaultAt text k f) :
    frontLength? (text.drop k) = none := by
  cases h with
  | string h => exact frontLength?_of_openString h
  | comment h => exact frontLength?_of_openComment h

/-! ## The split of a text -/

/-- Where no piece can stand every split of the text has ended. -/
theorem Piece.length_textOf_le {ps ps' : List Piece} {rest rest' : List Char} (hps : Fit rest ps)
    (hps' : Fit rest' ps') (h : textOf ps ++ rest = textOf ps' ++ rest')
    (hrest : frontLength? rest = none) : (textOf ps').length ≤ (textOf ps).length := by
  induction ps generalizing ps' with
  | nil =>
    cases ps' with
    | nil => exact Nat.le_refl _
    | cons p' ps' =>
      rw [textOf_nil, List.nil_append, textOf_cons, List.append_assoc] at h
      rw [h, frontLength?_piece hps'.1] at hrest
      cases hrest
  | cons p ps ih =>
    cases ps' with
    | nil => exact Nat.zero_le _
    | cons p' ps' =>
      rw [textOf_cons, textOf_cons, List.append_assoc, List.append_assoc] at h
      -- the same text has one piece in front, so the two splits go on with the same text
      have hfront := frontLength?_piece hps.1
      rw [h, frontLength?_piece hps'.1] at hfront
      have hlen := Option.some.inj hfront
      have htail := ih hps.2 hps'.2 (List.append_inj_right h hlen.symm)
      rw [textOf_cons, textOf_cons, List.length_append, List.length_append]
      omega

variable {text : List Char} {k : Nat} {f : Fault}

theorem SplitReaches.le_of_faultAt {j : Nat} (hk : SplitReaches text k) (hf : FaultAt text k f)
    (hj : SplitReaches text j) : j ≤ k := by
  obtain ⟨hk, ps, hps, hfit⟩ := hk
  obtain ⟨hj, ps', hps', hfit'⟩ := hj
  have hle := Piece.length_textOf_le hfit hfit' (by simp [hps, hps']) hf.frontLength?_eq
  rw [hps, hps', List.length_take_of_le hk, List.length_take_of_le hj] at hle
  exact hle

/-- Every text has a split that reaches its end or a fault. -/
theorem exists_splitReaches (text : List Char) :
    ∃ k, SplitReaches text k ∧ (k = text.length ∨ ∃ f, FaultAt text k f) := by
  obtain ⟨ps, rest, rfl, hps, hrest⟩ := Piece.exists_cut text
  have hdrop : (Piece.textOf ps ++ rest).drop (Piece.textOf ps).length = rest := List.drop_left
  refine ⟨(Piece.textOf ps).length, ⟨by simp, ps, List.take_left.symm, hdrop.symm ▸ hps⟩, ?_⟩
  rcases hrest with rfl | ho | ho
  · exact .inl (by simp)
  · exact .inr ⟨_, .string (hdrop.symm ▸ ho)⟩
  · exact .inr ⟨_, .comment (hdrop.symm ▸ ho)⟩

/-! ## The reading -/

theorem Cursor.position_advance_start (source : String) (n : Nat) :
    ((Cursor.start source).advance n).position = .ofOffset source.toList n :=
  (Position.ofOffset_eq ..).symm

/-- Behind the split the reading goes on as from there. -/
theorem SplitReaches.tokenize_eq_error {source : String} (hk : SplitReaches source.toList k)
    {e : LexicalFault} (he : tokensFrom ((Cursor.start source).advance k) = .error e) :
    tokenize source = .error e := by
  obtain ⟨hle, ps, hps, hfit⟩ := hk
  have hc : (Cursor.start source).rest = Piece.textOf ps ++ source.toList.drop k := by
    rw [hps, List.take_append_drop]
    rfl
  rw [tokenize, tokensFrom_pieces hfit hc, hps, List.length_take_of_le hle, he]
  rfl

/-- Where the split reaches a fault the reading fails with it. -/
theorem FaultAt.exists_error {source : String} (h : FaultAt source.toList k f)
    (hk : SplitReaches source.toList k) : ∃ e, tokenize source = .error e ∧ e.toFault = f := by
  cases h with
  | string h =>
    refine ⟨_, hk.tokenize_eq_error (tokensFrom_of_openString h), ?_⟩
    rw [LexicalFault.toFault, Cursor.position_advance_start]
    rfl
  | comment h =>
    refine ⟨_, hk.tokenize_eq_error (tokensFrom_of_openComment h), ?_⟩
    have hlen : k + 2 ≤ source.toList.length := by
      obtain ⟨rest, hr, -⟩ := h
      have := congrArg List.length hr
      simp only [List.length_drop, List.length_cons] at this
      omega
    have hstop : k + max 2 (((Cursor.start source).advance k).rest.length - 1) =
        max (k + 2) (source.toList.length - 1) := by
      show k + max 2 ((source.toList.drop k).length - 1) = _
      rw [List.length_drop]
      omega
    rw [LexicalFault.toFault, ← Cursor.advance_add, hstop, Cursor.position_advance_start]
    rfl

/-- The reading of a text fails if and only if the split of the text reaches a string or a block
comment that is not closed. It fails with the fault at the first such offset. -/
theorem tokenize_error_iff (source : String) :
    ((∃ e, tokenize source = .error e) ↔
      ∃ k f, SplitReaches source.toList k ∧ FaultAt source.toList k f) ∧
    ∀ e, tokenize source = .error e →
      ∃ k, IsLeast {j | SplitReaches source.toList j ∧ ∃ f, FaultAt source.toList j f} k ∧
        FaultAt source.toList k e.toFault := by
  have fails : ∀ e, tokenize source = .error e →
      ∃ k, SplitReaches source.toList k ∧ FaultAt source.toList k e.toFault := by
    intro e he
    obtain ⟨k, hk, rfl | ⟨f, hf⟩⟩ := exists_splitReaches source.toList
    · -- at the end of the text the reading would end
      obtain ⟨-, ps, hps, hfit⟩ := hk
      rw [List.take_length] at hps
      rw [List.drop_length] at hfit
      rw [tokenize_pieces hfit hps.symm] at he
      cases he
    · obtain ⟨e', he', rfl⟩ := hf.exists_error hk
      obtain rfl := Except.error.inj (he'.symm.trans he)
      exact ⟨k, hk, hf⟩
  constructor
  · constructor
    · rintro ⟨e, he⟩
      obtain ⟨k, hk, hf⟩ := fails e he
      exact ⟨k, _, hk, hf⟩
    · rintro ⟨k, f, hk, hf⟩
      obtain ⟨e, he, -⟩ := hf.exists_error hk
      exact ⟨e, he⟩
  · intro e he
    obtain ⟨k, hk, hf⟩ := fails e he
    refine ⟨k, ⟨⟨hk, _, hf⟩, ?_⟩, hf⟩
    rintro j ⟨hj, f, hfj⟩
    exact hj.le_of_faultAt hfj hk

end BuildOrder
