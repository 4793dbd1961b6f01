/-
Reading a whole source text. Every text can be cut from its beginning into pieces, up to its end or
to a string or a block comment that is not closed; the tokens that are read are those of the pieces.

The main statement of this file is that a text is read to its end just when it is a sequence of
pieces, each standing where it may, and that the tokens are then the ones the pieces denote.
-/
import BuildOrder.Proofs.Token.Piece
import BuildOrder.Proofs.Tokens

namespace BuildOrder

open Text

/-! ## Cutting a text -/

/-- A string that is still open at the end of its line. -/
def OpenString (text : List Char) : Prop :=
  ∃ rest, text = '"' :: rest ∧ '"' ∉ rest.takeWhile (· ≠ '\n')

/-- A block comment that is not closed. -/
def OpenComment (text : List Char) : Prop :=
  ∃ rest, text = '/' :: '*' :: rest ∧ ¬ ['*', '/'] <:+: rest

theorem Gap.unclosed_iff {text : List Char} {n : Nat} :
    Gap.ofText text = .unclosed n ↔ OpenComment text ∧ n = max 2 (text.length - 1) := by
  constructor
  · intro h
    unfold Gap.ofText at h
    split at h
    · cases h
    · cases h
    · rename_i rest
      split at h
      · cases h
      · rename_i hr
        cases h
        refine ⟨⟨rest, rfl, commentEnd?_eq_none_iff.1 hr⟩, ?_⟩
        simp only [List.length_cons]
        omega
    · split at h <;> cases h
  · rintro ⟨⟨rest, rfl, hr⟩, rfl⟩
    rw [Gap.ofText, commentEnd?_eq_none_iff.2 hr]
    simp only [List.length_cons]
    congr 1
    omega

theorem Gap.absent_of_openString {text : List Char} (h : OpenString text) :
    Gap.ofText text = .absent := by
  obtain ⟨rest, rfl, -⟩ := h
  exact Gap.absent_iff.2 ⟨by decide, by rintro ⟨h, -⟩; cases h⟩

/-- Behind a gap stands the end of the text, a token or a string that is not closed. -/
theorem Lexeme.exists_of_absent {text : List Char} (h : Gap.ofText text = .absent)
    (hne : text ≠ []) (ho : ¬ OpenString text) :
    ∃ l : Lexeme, ∃ rest, text = l.chars ++ rest ∧ l.FitsBefore rest := by
  cases text with
  | nil => exact absurd rfl hne
  | cons c rest =>
    obtain ⟨hb, hs⟩ := Gap.absent_iff.1 h
    by_cases hc : Scan.startsWord c = true
    · refine ⟨.word (c :: rest.takeWhile Scan.continuesWord), rest.dropWhile Scan.continuesWord,
        by simp [chars], ⟨c, _, rfl, hc, fun x => List.mem_takeWhile_imp⟩, fun x hx => ?_⟩
      have := List.head?_dropWhile_not Scan.continuesWord rest
      rw [hx] at this
      simpa using this
    · by_cases hq : c = '"'
      · subst hq
        have hclosed : '"' ∈ rest.takeWhile (· ≠ '\n') := by
          by_contra hn
          exact ho ⟨rest, rfl, hn⟩
        obtain ⟨text, tail, ht, hnot⟩ := List.eq_append_cons_of_mem hclosed
        refine ⟨.quoted text, tail ++ rest.dropWhile (· ≠ '\n'), ?_, hnot, fun hl => ?_⟩
        · have hcut := List.takeWhile_append_dropWhile (p := (· ≠ '\n')) (l := rest)
          rw [ht] at hcut
          simpa [chars] using hcut.symm
        · have hmem : '\n' ∈ rest.takeWhile (· ≠ '\n') := by
            rw [ht]
            exact List.mem_append_left _ hl
          simpa using List.mem_takeWhile_imp hmem
      · exact ⟨.symbol c, rest, rfl, by simpa using hc, hb, hq, hs⟩

/-- Every text is cut into pieces, up to its end or to what is not closed. -/
theorem Piece.exists_cut (text : List Char) : ∃ ps rest, text = textOf ps ++ rest ∧
    Fit rest ps ∧ (rest = [] ∨ OpenString rest ∨ OpenComment rest) := by
  induction hn : text.length using Nat.strong_induction_on generalizing text with
  | _ n ih =>
    by_cases hne : text = []
    · exact ⟨[], [], by simp [hne], trivial, .inl rfl⟩
    by_cases ho : OpenString text
    · exact ⟨[], text, rfl, trivial, .inr (.inl ho)⟩
    -- a piece in front is cut off, and what is behind it is shorter
    have step : ∀ p : Piece, ∀ rest, p.chars ≠ [] → text = p.chars ++ rest → p.FitsBefore rest →
        ∃ ps rest, text = textOf ps ++ rest ∧
          Fit rest ps ∧ (rest = [] ∨ OpenString rest ∨ OpenComment rest) := by
      rintro p rest hp rfl hf
      have hlt : rest.length < n := by
        rw [← hn, List.length_append]
        have := List.length_pos_iff.2 hp
        omega
      obtain ⟨ps, rest, rfl, hps, hr⟩ := ih _ hlt rest rfl
      exact ⟨p :: ps, rest, by simp, ⟨hf, hps⟩, hr⟩
    cases hg : Gap.ofText text with
    | absent =>
      obtain ⟨l, rest, ht, hl⟩ := Lexeme.exists_of_absent hg hne ho
      exact step (.lexeme l) rest (Lexeme.chars_ne_nil hl) ht hl
    | piece n =>
      obtain ⟨f, rest, ht, -, hf⟩ := Gap.eq_filler hg
      exact step (.filler f) rest f.chars_ne_nil ht hf
    | unclosed n => exact ⟨[], text, rfl, trivial, .inr (.inr (Gap.unclosed_iff.1 hg).1)⟩

/-! ## One token -/

theorem Cursor.advance_append {c : Cursor} {a b : List Char} (h : c.rest = a ++ b) :
    c.advance a.length = ⟨b, c.offset + a.length, c.position.afterAll a⟩ := by
  simp [Cursor.advance, h]

namespace Scan

theorem skipGaps_eq (c : Cursor) : skipGaps c =
    match Gap.ofText c.rest with
    | .absent => .ok () c
    | .piece n => skipGaps (c.advance n)
    | .unclosed n => .error (.unterminatedComment (c.advance n).position) (c.advance n) := by
  rw [skipGaps]
  split <;> (rename_i h; rw [h])

theorem next_of_absent {c : Cursor} (h : Gap.ofText c.rest = .absent) : next c = token c := by
  rw [next, skipGaps_eq, h]

theorem next_of_piece {c : Cursor} {n : Nat} (h : Gap.ofText c.rest = .piece n) :
    next c = next (c.advance n) := by
  rw [next, skipGaps_eq, h]
  rfl

theorem next_of_unclosed {c : Cursor} {n : Nat} (h : Gap.ofText c.rest = .unclosed n) :
    next c = .error (.unterminatedComment (c.advance n).position) (c.advance n) := by
  rw [next, skipGaps_eq, h]

theorem next_of_end {c : Cursor} (h : c.rest = []) :
    next c = .ok ⟨.endOfFile, "", c.position⟩ c := by
  rw [next_of_absent (by rw [h]; rfl), token, h]

/-- A string that is not closed is no token. -/
theorem token_of_openString {c : Cursor} (h : OpenString c.rest) :
    ∃ c', token c = .error (.unterminatedString c.position) c' := by
  obtain ⟨rest, hr, hq⟩ := h
  -- a quote behind the text of the string would lie on the same line
  have hopen : (rest.drop (rest.takeWhile fun x => x ≠ '"' && x ≠ '\n').length).head? ≠ some '"' := by
    intro hd
    obtain ⟨tail, hd⟩ := List.head?_eq_some_iff.1 hd
    have hcut := List.prefix_iff_eq_append.1
      (List.takeWhile_prefix (l := rest) fun x => x ≠ '"' && x ≠ '\n')
    rw [hd] at hcut
    apply hq
    rw [← hcut, List.takeWhile_append_of_pos fun x hx => ?_]
    · simp
    · have := List.mem_takeWhile_imp hx
      simp only [Bool.and_eq_true] at this
      exact this.2
  rw [token, hr]
  dsimp only
  rw [if_neg (by simp [not_startsWord_quote]), if_pos rfl, if_neg hopen]
  exact ⟨_, rfl⟩

/-- At a string that is not closed the reading fails. -/
theorem next_of_openString {c : Cursor} (h : OpenString c.rest) :
    ∃ c', next c = .error (.unterminatedString c.position) c' := by
  rw [next_of_absent (Gap.absent_of_openString h)]
  exact token_of_openString h

/-- At a block comment that is not closed the reading fails. -/
theorem next_of_openComment {c : Cursor} (h : OpenComment c.rest) :
    next c = .error (.unterminatedComment (c.advance (max 2 (c.rest.length - 1))).position)
      (c.advance (max 2 (c.rest.length - 1))) :=
  next_of_unclosed (Gap.unclosed_iff.2 ⟨h, rfl⟩)

theorem next_of_lexeme {l : Lexeme} {rest : List Char} (h : l.FitsBefore rest) {c : Cursor}
    (hc : c.rest = l.chars ++ rest) :
    next c = .ok (l.token c.position) (c.advance l.chars.length) := by
  rw [next_of_absent (by rw [hc]; exact Lexeme.absent_of_fitsBefore h), token_lexeme h hc]

end Scan

/-! ## The whole text -/

theorem tokensFrom_eq (c : Cursor) : tokensFrom c =
    match Scan.next c with
    | .error e _ => .error e
    | .ok t c' =>
      if ht : t.kind = .endOfFile then .ok (.only t ht) else (tokensFrom c').map (.cons t) := by
  rw [tokensFrom]
  split <;> (rename_i h; rw [h])

theorem tokensFrom_of_end {c : Cursor} (h : c.rest = []) :
    tokensFrom c = .ok (.only ⟨.endOfFile, "", c.position⟩ rfl) := by
  rw [tokensFrom_eq, Scan.next_of_end h]
  rfl

theorem tokensFrom_of_openString {c : Cursor} (h : OpenString c.rest) :
    tokensFrom c = .error (.unterminatedString c.position) := by
  obtain ⟨c', hc⟩ := Scan.next_of_openString h
  rw [tokensFrom_eq, hc]

theorem tokensFrom_of_openComment {c : Cursor} (h : OpenComment c.rest) : tokensFrom c =
    .error (.unterminatedComment (c.advance (max 2 (c.rest.length - 1))).position) := by
  rw [tokensFrom_eq, Scan.next_of_openComment h]

/-- Pieces at the front of a text give their tokens, and the reading goes on behind them. -/
theorem tokensFrom_pieces {ps : List Piece} {rest : List Char} (h : Piece.Fit rest ps) {c : Cursor}
    (hc : c.rest = Piece.textOf ps ++ rest) :
    tokensFrom c = (tokensFrom (c.advance (Piece.textOf ps).length)).map
      (.prepend (Piece.tokensOf c.position ps)) := by
  induction ps generalizing c with
  | nil =>
    rw [Piece.textOf_nil, List.length_nil, Cursor.advance_zero]
    cases tokensFrom c <;> rfl
  | cons p ps ih =>
    obtain ⟨hp, hps⟩ := h
    rw [Piece.textOf_cons, List.append_assoc] at hc
    have hadv := Cursor.advance_append hc
    have htail := ih hps (c := c.advance p.chars.length) (by rw [hadv])
    rw [Piece.textOf_cons, List.length_append, Cursor.advance_add]
    cases p with
    | filler f =>
      -- the step that reads the next token passes over the gap first
      have hnext : Scan.next c = Scan.next (c.advance (Piece.filler f).chars.length) :=
        Scan.next_of_piece (by rw [hc]; exact Gap.ofText_filler hp)
      rw [tokensFrom_eq, hnext, ← tokensFrom_eq, htail, hadv]
      rfl
    | lexeme l =>
      have hnext : Scan.next c = .ok (l.token c.position)
          (c.advance (Piece.lexeme l).chars.length) := Scan.next_of_lexeme hp hc
      have hk : (l.token c.position).kind ≠ .endOfFile := l.kind_ne_endOfFile
      rw [tokensFrom_eq, hnext]
      dsimp only
      rw [dif_neg hk, htail, hadv]
      cases tokensFrom _ <;> rfl

/-- What is read to its end is a sequence of pieces, each standing where it may. -/
theorem exists_pieces_of_tokensFrom {c : Cursor} {tokens : Tokens}
    (h : tokensFrom c = .ok tokens) : ∃ ps, Piece.Fit [] ps ∧ c.rest = Piece.textOf ps := by
  obtain ⟨ps, rest, hc, hps, hrest⟩ := Piece.exists_cut c.rest
  have hd : (c.advance (Piece.textOf ps).length).rest = rest := by rw [Cursor.advance_append hc]
  rw [tokensFrom_pieces hps hc] at h
  -- what is not closed would be a fault
  rcases hrest with rfl | ho | ho
  · exact ⟨ps, hps, by rw [hc, List.append_nil]⟩
  · rw [tokensFrom_of_openString (hd.symm ▸ ho)] at h
    cases h
  · rw [tokensFrom_of_openComment (hd.symm ▸ ho)] at h
    cases h

/-- The end of the file behind a text. -/
def endOf (text : List Char) : Tokens := .only ⟨.endOfFile, "", Position.start.afterAll text⟩ rfl

theorem tokenize_cut {ps : List Piece} {rest : List Char} (h : Piece.Fit rest ps) {source : String}
    (hs : source.toList = Piece.textOf ps ++ rest) : tokenize source =
      (tokensFrom ⟨rest, (Piece.textOf ps).length, Position.start.afterAll (Piece.textOf ps)⟩).map
        (.prepend (Piece.tokensOf .start ps)) := by
  have hc : (Cursor.start source).rest = Piece.textOf ps ++ rest := hs
  rw [tokenize, tokensFrom_pieces h hc, Cursor.advance_append hc]
  simp [Cursor.start]

theorem tokenize_pieces {ps : List Piece} (h : Piece.Fit [] ps) {source : String}
    (hs : source.toList = Piece.textOf ps) :
    tokenize source = .ok ((endOf source.toList).prepend (Piece.tokensOf .start ps)) := by
  rw [tokenize_cut h (by rw [hs, List.append_nil]), tokensFrom_of_end rfl, hs]
  rfl

/-- A text is read to its end just when it is a sequence of pieces, each standing where it may; the
tokens are those that the pieces denote. -/
theorem tokenize_eq_ok_iff (source : String) (ts : Tokens) :
    tokenize source = .ok ts ↔ ∃ ps, Piece.Fit [] ps ∧ Piece.textOf ps = source.toList ∧
      Piece.Denote .start ps ts.toList := by
  constructor
  · intro h
    obtain ⟨ps, rest, ht, hps, rfl | ho | ho⟩ := Piece.exists_cut source.toList
    · rw [List.append_nil] at ht
      obtain rfl := Except.ok.inj ((tokenize_pieces hps ht).symm.trans h)
      refine ⟨ps, hps, ht.symm, Piece.denote_iff.2 ?_⟩
      rw [Tokens.toList_prepend, ht]
      rfl
    -- what is not closed is reached, and it is a fault
    · rw [tokenize_cut hps ht, tokensFrom_of_openString ho] at h
      cases h
    · rw [tokenize_cut hps ht, tokensFrom_of_openComment ho] at h
      cases h
  · rintro ⟨ps, hps, ht, hd⟩
    rw [tokenize_pieces hps ht.symm]
    refine congrArg Except.ok (Tokens.toList_injective ?_)
    rw [Piece.denote_iff.1 hd, Tokens.toList_prepend, ht]
    rfl

end BuildOrder
