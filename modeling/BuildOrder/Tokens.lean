/-
Lists of tokens that are to be read. Such a list is closed by a token for the end of the file, which
is never passed: behind it nothing is left, so the next token always exists.
-/
import BuildOrder.Refusal
import BuildOrder.Token

namespace BuildOrder

/-- Tokens to be read. The list is closed by a token for the end of the file, which is never
passed. -/
structure Tokens where
  ahead : List Token
  final : Token
  final_kind : final.kind = .endOfFile

namespace Tokens

/-- All tokens, the closing one with them. -/
def toList (s : Tokens) : List Token := s.ahead ++ [s.final]

/-- A list that ends with the end of the file. -/
def ofList (tokens : List Token) : Except Refusal Tokens :=
  match tokens.getLast? with
  | none => .error .unclosedTokens
  | some final =>
    if h : final.kind = .endOfFile then .ok ⟨tokens.dropLast, final, h⟩
    else .error .unclosedTokens

/-- The end of the file alone. -/
def only (final : Token) (h : final.kind = .endOfFile) : Tokens := ⟨[], final, h⟩

/-- The tokens with one more in front. -/
def cons (t : Token) (s : Tokens) : Tokens := { s with ahead := t :: s.ahead }

/-- The next token. -/
def current (s : Tokens) : Token := s.ahead.headD s.final

/-- The tokens behind the next one. -/
def advance (s : Tokens) : Tokens := { s with ahead := s.ahead.tail }

/-- The tokens behind a separator, where one stands next. -/
def skipComma (s : Tokens) : Tokens := if s.current.kind = .comma then s.advance else s

theorem current_eq_final {s : Tokens} (h : s.ahead = []) : s.current = s.final := by
  simp [current, h]

/-- A token other than the end of the file is one that can be passed. -/
theorem ahead_ne_nil {s : Tokens} (h : s.current.kind ≠ .endOfFile) : s.ahead ≠ [] := by
  intro hn
  rw [current_eq_final hn] at h
  exact h s.final_kind

theorem advance_length_lt {s : Tokens} (h : s.current.kind ≠ .endOfFile) :
    s.advance.ahead.length < s.ahead.length := by
  have := List.length_pos_iff.mpr (ahead_ne_nil h)
  simp only [advance, List.length_tail]
  omega

theorem advance_length_le (s : Tokens) : s.advance.ahead.length ≤ s.ahead.length := by
  simp [advance]

theorem skipComma_length_le (s : Tokens) : s.skipComma.ahead.length ≤ s.ahead.length := by
  unfold skipComma
  split
  · exact s.advance_length_le
  · exact Nat.le_refl _

end Tokens

end BuildOrder
