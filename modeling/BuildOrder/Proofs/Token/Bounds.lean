/-
Looks at the characters of a text. The same reader once more, one character at a time, where a look
at a character that the text does not have is an outcome of its own. The main statement of this file
is that this outcome never comes up: from any cursor the two readers answer the same.

For each loop of the reader that looks ahead there is a description of how far it moves at once; the
loop moves so far because it looks at one character, or at two where two are left.
-/
import BuildOrder.Proofs.Text.Classes
import BuildOrder.Proofs.Token.Place

namespace BuildOrder

open Text

/-- The character that stands some places behind the cursor, if the text goes so far. -/
def Cursor.char? (c : Cursor) (i : Nat) : Option Char := c.rest[i]?

/-- Looks from a cursor are looks at the text behind its offset. -/
theorem Cursor.StandsIn.char?_eq {c : Cursor} {text : List Char} (h : c.StandsIn text) (i : Nat) :
    c.char? i = text[c.offset + i]? := by
  rw [Cursor.char?, h.rest_eq, List.getElem?_drop]

namespace Scan.Checked

/-! ## Single characters -/

/-- Moves past the next character, which must be there. -/
def bump (c : Cursor) : Option Cursor := (c.char? 0).map fun _ => c.advance 1

theorem bump_of_char? {c : Cursor} {ch : Char} (h : c.char? 0 = some ch) :
    bump c = some (c.advance 1) := by
  rw [bump, h]
  rfl

theorem bump_eq {c : Cursor} (h : c.rest ≠ []) : bump c = some (c.advance 1) := by
  obtain ⟨ch, rest, hr⟩ := List.exists_cons_of_ne_nil h
  exact bump_of_char? (show c.char? 0 = some ch by simp [Cursor.char?, hr])

theorem bump_rest_lt {c c' : Cursor} (h : bump c = some c') : c'.rest.length < c.rest.length := by
  have hne : c.rest ≠ [] := by
    intro hn
    simp [bump, Cursor.char?, hn] at h
  rw [bump_eq hne] at h
  cases h
  exact Cursor.advance_rest_lt (by simp) hne

/-- The character some places behind the cursor, where the end of the text is an answer too. -/
def peek (c : Cursor) (i : Nat) : Option (Option Char) :=
  if i < c.rest.length then (c.char? i).map some else some none

theorem peek_eq (c : Cursor) (i : Nat) : peek c i = some (c.char? i) := by
  unfold peek Cursor.char?
  split
  · rename_i h
    rw [List.getElem?_eq_getElem h]
    rfl
  · rename_i h
    rw [List.getElem?_eq_none (Nat.not_lt.1 h)]

/-- Moves on to the end, or to the first character of another class. -/
def bumpWhile (p : Char → Bool) (c : Cursor) : Option Cursor :=
  if c.rest.length = 0 then some c
  else
    match c.char? 0 with
    | none => none
    | some ch =>
      if p ch then
        match _h : bump c with
        | none => none
        | some c' => bumpWhile p c'
      else some c
termination_by c.rest.length
decreasing_by exact bump_rest_lt _h

theorem bumpWhile_of_cons {p : Char → Bool} {c : Cursor} {ch : Char} {rest : List Char}
    (h : c.rest = ch :: rest) :
    bumpWhile p c = if p ch then bumpWhile p (c.advance 1) else some c := by
  have hb : bump c = some (c.advance 1) := bump_eq (by simp [h])
  rw [bumpWhile, if_neg (by simp [h]), show c.char? 0 = some ch by simp [Cursor.char?, h]]
  dsimp only
  split
  · split
    · rename_i hn
      rw [hb] at hn
      cases hn
    · rename_i c' hc'
      rw [hb] at hc'
      cases hc'
      rfl
  · rfl

theorem bumpWhile_eq (p : Char → Bool) (c : Cursor) :
    bumpWhile p c = some (c.advance (c.rest.takeWhile p).length) := by
  induction hr : c.rest generalizing c with
  | nil => rw [bumpWhile, if_pos (by simp [hr])]; simp
  | cons ch rest ih =>
    rw [bumpWhile_of_cons hr, List.takeWhile_cons]
    split
    · rw [ih (c.advance 1) (by simp [hr]), List.length_cons, Nat.add_comm, Cursor.advance_add]
    · simp

/-- Moves past the end of a block comment, or to where the last two characters do not make one; and
whether the end was found. -/
def bumpComment (c : Cursor) : Option (Cursor × Bool) :=
  if c.rest.length ≤ 1 then some (c, false)
  else
    match c.char? 0, c.char? 1, _h : bump c with
    | some ch, some ch', some c' =>
      if ch = '*' ∧ ch' = '/' then (bump c').map (·, true) else bumpComment c'
    | _, _, _ => none
termination_by c.rest.length
decreasing_by exact bump_rest_lt _h

theorem bumpComment_of_cons {c : Cursor} {ch ch' : Char} {rest : List Char}
    (h : c.rest = ch :: ch' :: rest) : bumpComment c =
      if ch = '*' ∧ ch' = '/' then some (c.advance 2, true) else bumpComment (c.advance 1) := by
  have hb : bump c = some (c.advance 1) := bump_eq (by simp [h])
  have hb' : bump (c.advance 1) = some (c.advance 2) := by
    rw [bump_eq (by simp [h]), ← Cursor.advance_add]
  rw [bumpComment, if_neg (by simp [h])]
  have h0 : c.char? 0 = some ch := by simp [Cursor.char?, h]
  have h1 : c.char? 1 = some ch' := by simp [Cursor.char?, h]
  split
  · rename_i c' hc hc' hb''
    rw [h0] at hc
    rw [h1] at hc'
    rw [hb] at hb''
    cases hc
    cases hc'
    cases hb''
    rw [hb']
    rfl
  · rename_i hno
    exact (hno _ _ _ h0 h1 hb).elim

theorem bumpComment_eq (c : Cursor) : bumpComment c = some (match commentEnd? c.rest with
    | some n => (c.advance n, true)
    | none => (c.advance (c.rest.length - 1), false)) := by
  induction hr : c.rest generalizing c with
  | nil => rw [bumpComment, if_pos (by simp [hr])]; simp [commentEnd?]
  | cons ch rest ih =>
    cases rest with
    | nil =>
      have hnone : commentEnd? [ch] = none := commentEnd?_eq_none_iff.2 fun h => by
        have := h.length_le
        simp at this
      rw [bumpComment, if_pos (by simp [hr]), hnone]
      simp
    | cons ch' rest =>
      rw [bumpComment_of_cons hr]
      split
      · rename_i h
        obtain ⟨rfl, rfl⟩ := h
        rfl
      · rename_i h
        have hend : commentEnd? (ch :: ch' :: rest) = (commentEnd? (ch' :: rest)).map (· + 1) := by
          rw [commentEnd?]
          rintro _ rfl h'
          cases h'
          exact h ⟨rfl, rfl⟩
        rw [ih (c.advance 1) (by simp [hr]), hend]
        cases commentEnd? (ch' :: rest) with
        | some n =>
          dsimp only [Option.map_some]
          rw [Nat.add_comm, Cursor.advance_add]
        | none =>
          dsimp only [Option.map_none, List.length_cons]
          rw [← Cursor.advance_add, Nat.add_comm 1]
          rfl

/-! ## Gaps -/

/-- Moves past a blank or a comment, and answers whether one stood there. -/
def gap (c : Cursor) : Option (EStateM.Result LexicalFault Cursor Bool) :=
  if c.rest.length = 0 then some (.ok false c)
  else do
    let ch ← c.char? 0
    if isBlank ch then return .ok true (← bump c)
    else if ch = '/' then
      let mark ← peek c 1
      if mark = some '/' then return .ok true (← bumpWhile (· ≠ '\n') c)
      else if mark = some '*' then
        let (c', closed) ← bumpComment (← bump (← bump c))
        return if closed then .ok true c' else .error (.unterminatedComment c'.position) c'
      else return .ok false c
    else return .ok false c

theorem gap_eq (c : Cursor) : gap c = some (match Gap.ofText c.rest with
    | .absent => .ok false c
    | .piece n => .ok true (c.advance n)
    | .unclosed n => .error (.unterminatedComment (c.advance n).position) (c.advance n)) := by
  unfold gap
  cases hr : c.rest with
  | nil => rfl
  | cons ch rest =>
    have h0 : c.char? 0 = some ch := by simp [Cursor.char?, hr]
    have h1 : peek c 1 = some rest.head? := by
      rw [peek_eq, Cursor.char?, hr, List.getElem?_cons_succ, List.head?_eq_getElem?]
    rw [if_neg (by simp), h0, bump_of_char? h0, h1]
    by_cases hblank : isBlank ch = true
    · rw [show Gap.ofText (ch :: rest) = .piece 1 from Gap.ofText_filler (f := .blank ch) hblank]
      simp [hblank]
    by_cases hmark : ch = '/' ∧ (rest.head? = some '/' ∨ rest.head? = some '*')
    · obtain ⟨rfl, hmark | hmark⟩ := hmark
      · obtain ⟨rest, rfl⟩ := List.head?_eq_some_iff.1 hmark
        rw [show Gap.ofText ('/' :: '/' :: rest) =
          .piece ((rest.takeWhile (· ≠ '\n')).length + 2) from rfl, bumpWhile_eq, hr]
        simp [hblank]
      · obtain ⟨rest, rfl⟩ := List.head?_eq_some_iff.1 hmark
        have hb' : bump (c.advance 1) = some (c.advance 2) := by
          rw [bump_eq (by simp [hr]), ← Cursor.advance_add]
        have hrest : (c.advance 2).rest = rest := by simp [hr]
        rw [Gap.ofText]
        simp only [hblank, hb', bumpComment_eq, hrest, Bool.false_eq_true, if_false, if_true,
          List.head?_cons, Option.some.injEq, Char.reduceEq, Option.bind_eq_bind, Option.bind_some]
        cases commentEnd? rest with
        | some n => simp [← Cursor.advance_add, Nat.add_comm]
        | none => simp [← Cursor.advance_add, Nat.add_comm]
    · have hg : Gap.ofText (ch :: rest) = .absent := Gap.absent_iff.2 ⟨by simpa using hblank, hmark⟩
      rw [hg]
      by_cases hslash : ch = '/'
      · subst hslash
        simp only [true_and, not_or] at hmark
        simp [hblank, hmark]
      · simp [hblank, hslash]

/-- Moves past blanks and comments. -/
def skip (c : Cursor) : Option (EStateM.Result LexicalFault Cursor Unit) :=
  match _h : gap c with
  | none => none
  | some (.ok true c') => skip c'
  | some (.ok false c') => some (.ok () c')
  | some (.error e c') => some (.error e c')
termination_by c.rest.length
decreasing_by
  rw [gap_eq] at _h
  cases hg : Gap.ofText c.rest with
  | absent => simp [hg] at _h
  | piece n =>
    rw [hg] at _h
    cases _h
    exact Cursor.advance_rest_lt (Gap.piece_pos hg).1 (Gap.piece_pos hg).2
  | unclosed n => simp [hg] at _h

theorem skip_unfold (c : Cursor) : skip c = match gap c with
    | none => none
    | some (.ok true c') => skip c'
    | some (.ok false c') => some (.ok () c')
    | some (.error e c') => some (.error e c') := by
  rw [skip]
  split <;> (rename_i hg; rw [hg])

theorem skip_eq (c : Cursor) : skip c = some (skipGaps c) := by
  fun_induction skipGaps c with
  | case1 c hg => rw [skip_unfold, gap_eq, hg]
  | case2 c n hg ih =>
    rw [skip_unfold, gap_eq, hg]
    exact ih
  | case3 c n hg => rw [skip_unfold, gap_eq, hg]

/-! ## Tokens -/

/-- The characters between two cursors. -/
def between (c c' : Cursor) : List Char := c.rest.take (c'.offset - c.offset)

theorem between_takeWhile (c : Cursor) (p : Char → Bool) :
    between c (c.advance (c.rest.takeWhile p).length) = c.rest.takeWhile p := by
  have hcut : c.rest.takeWhile p = c.rest.take (c.rest.takeWhile p).length :=
    List.prefix_iff_eq_take.1 (List.takeWhile_prefix p)
  rw [between, Cursor.advance]
  dsimp only
  rw [Nat.add_sub_cancel_left, ← hcut, ← hcut]

/-- Reads the token at the cursor. -/
def token (c : Cursor) : Option (EStateM.Result LexicalFault Cursor Token) :=
  if c.rest.length = 0 then some (.ok ⟨.endOfFile, "", c.position⟩ c)
  else do
    let ch ← c.char? 0
    if startsWord ch then
      let c' ← bumpWhile continuesWord c
      let word := between c c'
      return .ok ⟨.ofWord (.ofList word), .ofList word, c.position⟩ c'
    else if ch = '"' then
      let opening ← bump c
      let closing ← bumpWhile (fun x => x ≠ '"' && x ≠ '\n') opening
      if (← peek closing 0) = some '"' then
        return .ok ⟨.string, .ofList (between opening closing), c.position⟩ (← bump closing)
      else return .error (.unterminatedString c.position) closing
    else return .ok ⟨.ofSymbol ch, .singleton ch, c.position⟩ (← bump c)

theorem token_eq (c : Cursor) : token c = some (Scan.token c) := by
  unfold token Scan.token
  cases hr : c.rest with
  | nil => rfl
  | cons ch rest =>
    have h0 : c.char? 0 = some ch := by simp [Cursor.char?, hr]
    rw [if_neg (by simp), h0]
    simp only [Option.bind_eq_bind, Option.bind_some]
    split
    · rename_i hword
      have htake : c.rest.takeWhile continuesWord = ch :: rest.takeWhile continuesWord := by
        rw [hr, List.takeWhile_cons_of_pos (continuesWord_of_startsWord hword)]
      rw [bumpWhile_eq, Option.bind_some, between_takeWhile, htake]
      rfl
    · rw [bump_of_char? h0]
      split
      · have hrest : (c.advance 1).rest = rest := by simp [hr]
        rw [Option.bind_some, bumpWhile_eq, Option.bind_some, between_takeWhile, hrest, peek_eq,
          Option.bind_some]
        -- behind the text of the string both readers look for its end
        have hlook : ((c.advance 1).advance
            (rest.takeWhile fun x => x ≠ '"' && x ≠ '\n').length).char? 0 =
              (rest.drop (rest.takeWhile fun x => x ≠ '"' && x ≠ '\n').length).head? := by
          rw [Cursor.char?, Cursor.advance_rest, hrest, List.head?_eq_getElem?]
        rw [← hlook]
        split
        · rename_i hclose
          rw [bump_of_char? hclose, Option.bind_some, ← Cursor.advance_add, ← Cursor.advance_add,
            Nat.add_comm 1]
          rfl
        · rw [← Cursor.advance_add, Nat.add_comm 1]
          rfl
      · rfl

/-- The next token. -/
def next (c : Cursor) : Option (EStateM.Result LexicalFault Cursor Token) := do
  match ← skip c with
  | .ok _ c' => token c'
  | .error e c' => return .error e c'

/-- No look fails: the reader that checks them answers what the reader answers. -/
theorem next_eq (c : Cursor) : next c = some (Scan.next c) := by
  rw [next, skip_eq]
  unfold Scan.next
  cases skipGaps c with
  | ok _ c' => exact token_eq c'
  | error e c' => rfl

end Scan.Checked

end BuildOrder
