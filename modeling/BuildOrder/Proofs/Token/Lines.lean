/-
Source texts joined by a line feed. The tokens of the whole are those of the first text and, as many
lines farther down, those of the second; and a string that the first text leaves open is a fault of
the whole.

Every piece may stand before a line feed, so the pieces of the first text are pieces of the whole and
none of them reaches across the seam. Behind the seam the text is read as from its beginning: where a
reading starts shows in nothing but the positions.
-/
import BuildOrder.Proofs.Token.Place

namespace BuildOrder

open Text

/-! ## Lines farther down -/

namespace Position

/-- The place some lines farther down, in the same column. -/
def below (n : Nat) (p : Position) : Position := ⟨p.line + n, p.column⟩

theorem after_below (n : Nat) (p : Position) (c : Char) :
    (p.below n).after c = (p.after c).below n := by
  unfold after below
  split
  · simp only [Position.mk.injEq, and_true]
    omega
  · rfl

theorem afterAll_below (n : Nat) (p : Position) (text : List Char) :
    (p.below n).afterAll text = (p.afterAll text).below n := by
  induction text generalizing p with
  | nil => rfl
  | cons c text ih => rw [afterAll_cons, afterAll_cons, after_below, ih]

/-- Behind a text and a line feed stands the first character of a line. -/
theorem afterAll_line (text : List Char) :
    start.afterAll (text ++ ['\n']) = start.below (1 + text.count '\n') := by
  rw [afterAll_append, afterAll_start, afterAll_cons, afterAll_nil, after, if_pos rfl]
  simp only [below, start, Position.mk.injEq, and_true]
  omega

end Position

/-- The same fault at another place. -/
def LexicalFault.relocate (f : Position → Position) : LexicalFault → LexicalFault
  | .unterminatedString opening => .unterminatedString (f opening)
  | .unterminatedComment stop => .unterminatedComment (f stop)

/-- What a reading comes to, at other places. -/
def relocated (f : Position → Position) :
    Except LexicalFault Tokens → Except LexicalFault Tokens
  | .ok tokens => .ok (tokens.relocate f)
  | .error e => .error (e.relocate f)

/-! ## Reading from another line -/

theorem Piece.tokensOf_below (n : Nat) (p : Position) (ps : List Piece) :
    tokensOf (p.below n) ps = (tokensOf p ps).map (.relocate (.below n)) := by
  induction ps generalizing p with
  | nil => rfl
  | cons q ps ih =>
    cases q with
    | filler f => rw [tokensOf, tokensOf, Position.afterAll_below, ih]
    | lexeme l => rw [tokensOf, tokensOf, Position.afterAll_below, ih, List.map_cons]; rfl

theorem Cursor.position_advance_below {c c' : Cursor} {n : Nat} (hr : c'.rest = c.rest)
    (hp : c'.position = c.position.below n) (k : Nat) :
    (c'.advance k).position = (c.advance k).position.below n := by
  show c'.position.afterAll (c'.rest.take k) = _
  rw [hr, hp, Position.afterAll_below]
  rfl

theorem relocated_prepend (f : Position → Position) (ts : List Token)
    (r : Except LexicalFault Tokens) :
    relocated f (r.map (.prepend ts)) = (relocated f r).map (.prepend (ts.map (.relocate f))) := by
  cases r with
  | error e => rfl
  | ok tokens => exact congrArg Except.ok (Tokens.relocate_prepend f tokens ts)

/-- At the end of a text, and at what is not closed. -/
theorem tokensFrom_below_of_stopped {c c' : Cursor} {n : Nat} (hr : c'.rest = c.rest)
    (hp : c'.position = c.position.below n)
    (h : c.rest = [] ∨ OpenString c.rest ∨ OpenComment c.rest) :
    tokensFrom c' = relocated (.below n) (tokensFrom c) := by
  rcases h with h | h | h
  · rw [tokensFrom_of_end h, tokensFrom_of_end (hr.trans h), hp]
    rfl
  · rw [tokensFrom_of_openString h, tokensFrom_of_openString (hr ▸ h), hp]
    rfl
  · rw [tokensFrom_of_openComment h, tokensFrom_of_openComment (hr ▸ h), hr,
      Cursor.position_advance_below hr hp]
    rfl

/-- The reading of a text from a lower line comes to the same on lower lines. -/
theorem tokensFrom_below {c c' : Cursor} {n : Nat} (hr : c'.rest = c.rest)
    (hp : c'.position = c.position.below n) :
    tokensFrom c' = relocated (.below n) (tokensFrom c) := by
  obtain ⟨ps, rest, hc, hps, hrest⟩ := Piece.exists_cut c.rest
  have hd : (c.advance (Piece.textOf ps).length).rest = rest := by rw [Cursor.advance_append hc]
  have hstop : tokensFrom (c'.advance (Piece.textOf ps).length) =
      relocated (.below n) (tokensFrom (c.advance (Piece.textOf ps).length)) :=
    tokensFrom_below_of_stopped (congrArg (List.drop _) hr)
      (Cursor.position_advance_below hr hp _) (by rwa [hd])
  rw [tokensFrom_pieces hps hc, tokensFrom_pieces hps (hr.trans hc), hstop, relocated_prepend, hp,
    Piece.tokensOf_below]

/-! ## The seam -/

theorem Piece.fit_line {ps : List Piece} {rest : List Char} (h : Fit rest ps) (next : List Char) :
    Fit (rest ++ '\n' :: next) ps := by
  refine h.of_forall fun p hp => ?_
  cases rest with
  | nil => exact hp.of_blank (by decide) (.inl rfl)
  | cons c cs => exact hp.of_head? rfl

theorem openString_line {text : List Char} (h : OpenString text) (next : List Char) :
    OpenString (text ++ '\n' :: next) := by
  obtain ⟨rest, rfl, hq⟩ := h
  refine ⟨rest ++ '\n' :: next, rfl, ?_⟩
  -- the line feed at the seam ends the line of the quote, if no other one does so before
  have hline : (rest ++ '\n' :: next).takeWhile (· ≠ '\n') = rest.takeWhile (· ≠ '\n') := by
    rw [List.takeWhile_append]
    split
    · rename_i hl
      rw [(List.takeWhile_prefix _).eq_of_length hl, List.takeWhile_cons_of_neg (by simp),
        List.append_nil]
    · rfl
  rw [hline]
  exact hq

/-- The first text in pieces: the second one is read behind them and the line feed. -/
theorem tokenize_line {a b : String} {ps : List Piece} (hps : Piece.Fit [] ps)
    (ha : a.toList = Piece.textOf ps) :
    tokenize (a ++ "\n" ++ b) =
      (relocated (.below (1 + a.toList.count '\n')) (tokenize b)).map
        (.prepend (Piece.tokensOf .start ps)) := by
  have hline : Piece.Fit b.toList [.filler (.blank '\n')] :=
    ⟨show isBlank '\n' = true by decide, trivial⟩
  have hfit : Piece.Fit b.toList (ps ++ [.filler (.blank '\n')]) :=
    Piece.fit_append.2 ⟨Piece.fit_line hps b.toList, hline⟩
  have htext : Piece.textOf (ps ++ [.filler (.blank '\n')]) = a.toList ++ ['\n'] := by
    rw [Piece.textOf_append, ha]
    rfl
  have hsource : (a ++ "\n" ++ b).toList =
      Piece.textOf (ps ++ [.filler (.blank '\n')]) ++ b.toList := by
    rw [htext]
    simp
  have htokens : Piece.tokensOf .start (ps ++ [.filler (.blank '\n')]) =
      Piece.tokensOf .start ps := by
    rw [Piece.tokensOf_append]
    exact List.append_nil _
  have hbehind : tokensFrom ⟨b.toList, (a.toList ++ ['\n']).length,
        Position.start.below (1 + a.toList.count '\n')⟩ =
      relocated (.below (1 + a.toList.count '\n')) (tokenize b) := tokensFrom_below rfl rfl
  rw [tokenize_cut hfit hsource, htokens, htext, Position.afterAll_line, hbehind]

/-- A text that is read to its end, a line feed and any second text: the tokens are those of the
first text without the end of the file, then those of the second text, or its fault, as many lines
farther down as the first text with the line feed takes. A string that the first text leaves open is
the same fault whatever text follows behind a line feed. -/
theorem tokenize_joined (a b : String) :
    (∀ tokens, tokenize a = .ok tokens → tokenize (a ++ "\n" ++ b) =
      match tokenize b with
      | .ok more =>
        .ok ((more.relocate (.below (1 + a.toList.count '\n'))).prepend tokens.ahead)
      | .error e => .error (e.relocate (.below (1 + a.toList.count '\n')))) ∧
    ∀ opening, tokenize a = .error (.unterminatedString opening) →
      tokenize (a ++ "\n" ++ b) = .error (.unterminatedString opening) := by
  constructor
  · intro tokens htokens
    obtain ⟨ps, hps, ha⟩ := exists_pieces_of_tokensFrom htokens
    obtain rfl := Except.ok.inj ((tokenize_pieces hps ha).symm.trans htokens)
    have hahead : ((endOf a.toList).prepend (Piece.tokensOf .start ps)).ahead =
        Piece.tokensOf .start ps := List.append_nil _
    rw [tokenize_line hps ha, hahead]
    cases tokenize b <;> rfl
  · intro opening hopening
    obtain ⟨ps, rest, ha, hps, hrest⟩ := Piece.exists_cut a.toList
    rw [tokenize_cut hps ha] at hopening
    rcases hrest with rfl | ho | ho
    · rw [tokensFrom_of_end rfl] at hopening
      cases hopening
    · have hsource : (a ++ "\n" ++ b).toList =
          Piece.textOf ps ++ (rest ++ '\n' :: b.toList) := by
        simp [ha]
      rw [tokensFrom_of_openString ho] at hopening
      rw [tokenize_cut (Piece.fit_line hps _) hsource,
        tokensFrom_of_openString (openString_line ho _)]
      exact hopening
    · rw [tokensFrom_of_openComment ho] at hopening
      cases hopening

/-- A slash in front of the line feed does not begin a comment with the star behind it, and a string
is not closed on the next line. -/
theorem tokenize_joined_slash :
    tokenize ("a/" ++ "\n" ++ "*\"") = .error (.unterminatedString ⟨2, 2⟩) ∧
      tokenize ("\"a" ++ "\n" ++ "\"") = .error (.unterminatedString ⟨1, 1⟩) := by
  constructor
  · have ha : tokenize "a/" = .ok ⟨[⟨.identifier, "a", ⟨1, 1⟩⟩, ⟨.invalid, "/", ⟨1, 2⟩⟩],
        ⟨.endOfFile, "", ⟨1, 3⟩⟩, rfl⟩ := by decide +kernel
    have hb : tokenize "*\"" = .error (.unterminatedString ⟨1, 2⟩) := by decide +kernel
    rw [(tokenize_joined "a/" "*\"").1 _ ha, hb]
    decide
  · exact (tokenize_joined "\"a" "\"").2 _ (by decide +kernel)

end BuildOrder
