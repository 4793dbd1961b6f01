/-
Reading tokens off a source text. Between tokens lie gaps: white space, line comments and block
comments. A step skips the gap before a token and reads the token; a fault leaves the cursor where
the reading stopped, and the next step goes on from there. Every step that does not reach the end of
the text moves the cursor, so the whole text is read in finitely many steps.
-/
import BuildOrder.Fault
import BuildOrder.Text.Blank
import BuildOrder.Text.Letter
import BuildOrder.Text.Number
import BuildOrder.Token.Cursor
import BuildOrder.Tokens

namespace BuildOrder

open Text

/-- Why a text is no sequence of tokens. -/
inductive LexicalFault where
  /-- A string that is still open at the end of its line or of the text; it begins at `opening`. -/
  | unterminatedString (opening : Position)
  /-- A block comment without its end; the search for the end stopped at `stop`. -/
  | unterminatedComment (stop : Position)
deriving DecidableEq, Repr

/-- The fault that a reader of the build file is told. -/
def LexicalFault.toFault : LexicalFault → Fault
  | .unterminatedString opening => .unterminatedString opening
  | .unterminatedComment stop => .unterminatedComment stop

/-- A reader of source text. After a fault the cursor stays where the reading stopped. -/
abbrev Scan := EStateM LexicalFault Cursor

theorem Token.Kind.ofWord_ne_endOfFile (text : String) : Kind.ofWord text ≠ .endOfFile := by
  unfold Kind.ofWord
  cases Keyword.ofWord? text <;> simp

theorem Token.Kind.ofSymbol_ne_endOfFile (c : Char) : Kind.ofSymbol c ≠ .endOfFile := by
  unfold Kind.ofSymbol
  split <;> simp

/-! ## Gaps -/

/-- How many characters of the text the first end of a block comment takes, counted up to and with
it. -/
def commentEnd? : List Char → Option Nat
  | [] => none
  | '*' :: '/' :: _ => some 2
  | _ :: rest => (commentEnd? rest).map (· + 1)

/-- What a text begins with, as far as it is no token. -/
inductive Gap where
  | absent
  /-- A blank or a comment of this many characters. -/
  | piece (length : Nat)
  /-- A block comment that is not closed; the search for its end passes this many characters. -/
  | unclosed (passed : Nat)
deriving DecidableEq, Repr

/-- The gap at the front of a text. A line comment ends before its line feed. The end of a block
comment shares no character with its beginning; where it is missing, the search stops before the
last character of the text, which alone cannot be an end. -/
def Gap.ofText : List Char → Gap
  | [] => .absent
  | '/' :: '/' :: rest => .piece ((rest.takeWhile (· ≠ '\n')).length + 2)
  | '/' :: '*' :: rest =>
    match commentEnd? rest with
    | some n => .piece (n + 2)
    | none => .unclosed (rest.length - 1 + 2)
  | c :: _ => if isBlank c then .piece 1 else .absent

theorem Gap.piece_pos {text : List Char} {n : Nat} (h : Gap.ofText text = .piece n) :
    0 < n ∧ text ≠ [] := by
  unfold Gap.ofText at h
  split at h
  · cases h
  · cases h; simp
  · split at h <;> cases h; simp
  · split at h <;> cases h; simp

namespace Scan

/-- Moves past white space and comments. -/
def skipGaps (c : Cursor) : EStateM.Result LexicalFault Cursor Unit :=
  match _h : Gap.ofText c.rest with
  | .absent => .ok () c
  | .piece n => skipGaps (c.advance n)
  | .unclosed n => .error (.unterminatedComment (c.advance n).position) (c.advance n)
termination_by c.rest.length
decreasing_by exact Cursor.advance_rest_lt (Gap.piece_pos _h).1 (Gap.piece_pos _h).2

/-! ## Tokens -/

/-- A character that begins a word. -/
def startsWord (c : Char) : Bool := isLetter c || c = '_'

/-- A character that continues a word. -/
def continuesWord (c : Char) : Bool := isLetter c || isNumber c || c = '_'

/-- Reads the token at the cursor, which stands behind a gap: a word as long as it can be, a string
up to its closing quote on the same line, or one character. -/
def token (c : Cursor) : EStateM.Result LexicalFault Cursor Token :=
  match c.rest with
  | [] => .ok ⟨.endOfFile, "", c.position⟩ c
  | ch :: rest =>
    if startsWord ch then
      let word := ch :: rest.takeWhile continuesWord
      .ok ⟨.ofWord (.ofList word), .ofList word, c.position⟩ (c.advance word.length)
    else if ch = '"' then
      let text := rest.takeWhile fun x => x ≠ '"' && x ≠ '\n'
      if (rest.drop text.length).head? = some '"' then
        .ok ⟨.string, .ofList text, c.position⟩ (c.advance (text.length + 2))
      else
        .error (.unterminatedString c.position) (c.advance (text.length + 1))
    else
      .ok ⟨.ofSymbol ch, .singleton ch, c.position⟩ (c.advance 1)

/-- The next token; at the end of the text, and as often as asked there, the end of the file. -/
def next : Scan Token := fun c =>
  match skipGaps c with
  | .ok () c => token c
  | .error e c => .error e c

theorem skipGaps_rest_le {c c' : Cursor} (h : skipGaps c = .ok () c') :
    c'.rest.length ≤ c.rest.length := by
  fun_induction skipGaps c with
  | case1 c => cases h; exact Nat.le_refl _
  | case2 c n _ ih => exact Nat.le_trans (ih h) (c.advance_rest_le n)
  | case3 => cases h

theorem token_rest_lt {c c' : Cursor} {t : Token} (h : token c = .ok t c')
    (ht : t.kind ≠ .endOfFile) : c'.rest.length < c.rest.length := by
  unfold token at h
  split at h
  · cases h; exact absurd rfl ht
  · rename_i ch rest hr
    have hne : c.rest ≠ [] := by simp [hr]
    split at h
    · cases h; exact Cursor.advance_rest_lt (by simp) hne
    · split at h
      · dsimp only at h
        split at h <;> cases h
        exact Cursor.advance_rest_lt (by simp) hne
      · cases h; exact Cursor.advance_rest_lt (by simp) hne

theorem next_rest_lt {c c' : Cursor} {t : Token} (h : next c = .ok t c')
    (ht : t.kind ≠ .endOfFile) : c'.rest.length < c.rest.length := by
  unfold next at h
  split at h
  · rename_i c₁ hs
    exact Nat.lt_of_lt_of_le (token_rest_lt h ht) (skipGaps_rest_le hs)
  · cases h

end Scan

open Scan in
/-- All tokens from the cursor on. -/
def tokensFrom (c : Cursor) : Except LexicalFault Tokens :=
  match _h : next c with
  | .error e _ => .error e
  | .ok t c' => if ht : t.kind = .endOfFile then .ok (.only t ht) else (tokensFrom c').map (.cons t)
termination_by c.rest.length
decreasing_by exact next_rest_lt _h ht

/-- The tokens of a source text. -/
def tokenize (source : String) : Except LexicalFault Tokens := tokensFrom (.start source)

end BuildOrder
