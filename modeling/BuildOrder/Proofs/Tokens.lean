/-
Tokens put in front of others, tokens from a position on, and tokens moved to other places of a text.
What is read off the front of a list of tokens leaves the ones behind, so a reader is described by the
tokens that it takes away.
-/
import BuildOrder.Tokens

namespace BuildOrder

deriving instance DecidableEq for Tokens

namespace Tokens

/-- The tokens with more in front. -/
def prepend (ts : List Token) (s : Tokens) : Tokens := { s with ahead := ts ++ s.ahead }

@[simp] theorem prepend_nil (s : Tokens) : s.prepend [] = s := rfl

@[simp] theorem current_prepend (t : Token) (ts : List Token) (s : Tokens) :
    (s.prepend (t :: ts)).current = t := rfl

@[simp] theorem advance_prepend (t : Token) (ts : List Token) (s : Tokens) :
    (s.prepend (t :: ts)).advance = s.prepend ts := rfl

@[simp] theorem prepend_append (ts us : List Token) (s : Tokens) :
    s.prepend (ts ++ us) = (s.prepend us).prepend ts := by
  simp [prepend]

/-- Only the next token of the tokens behind matters for the next token. -/
theorem current_prepend_congr {s s' : Tokens} (h : s'.current = s.current) (ts : List Token) :
    (s'.prepend ts).current = (s.prepend ts).current := by
  cases ts with
  | nil => exact h
  | cons t ts => rfl

theorem toList_prepend (ts : List Token) (s : Tokens) : (s.prepend ts).toList = ts ++ s.toList := by
  simp [prepend, toList]

theorem toList_eq_cons (s : Tokens) : s.toList = s.current :: s.toList.tail := by
  obtain ⟨ahead, final, _⟩ := s
  cases ahead with
  | nil => rfl
  | cons t ts => rfl

theorem toList_injective {s s' : Tokens} (h : s.toList = s'.toList) : s = s' := by
  obtain ⟨ahead, final, _⟩ := s
  obtain ⟨ahead', final', _⟩ := s'
  obtain ⟨rfl, hf⟩ := List.append_inj' h rfl
  cases hf
  rfl

theorem prepend_current {s : Tokens} (h : s.current.kind ≠ .endOfFile) :
    s.advance.prepend [s.current] = s := by
  obtain ⟨t, ts, ht⟩ := List.exists_cons_of_ne_nil (ahead_ne_nil h)
  obtain ⟨ahead, final, hf⟩ := s
  subst ht
  rfl

/-! ## Positions -/

/-- The tokens from a position on; behind the last position the end of the file stays. -/
def drop (n : Nat) (s : Tokens) : Tokens := { s with ahead := s.ahead.drop n }

theorem toList_drop {n : Nat} {s : Tokens} (h : n ≤ s.ahead.length) :
    (s.drop n).toList = s.toList.drop n := by
  unfold drop toList
  rw [List.drop_append_of_le_length h]

theorem drop_drop (m n : Nat) (s : Tokens) : (s.drop m).drop n = s.drop (m + n) := by
  simp [drop, List.drop_drop]

theorem drop_prepend (ts : List Token) (s : Tokens) : (s.prepend ts).drop ts.length = s := by
  simp [drop, prepend]

theorem drop_injective {m n : Nat} {s : Tokens} (hm : m ≤ s.ahead.length) (hn : n ≤ s.ahead.length)
    (h : s.drop m = s.drop n) : m = n := by
  have hl := congrArg (fun s : Tokens => s.ahead.length) h
  simp only [drop, List.length_drop] at hl
  omega

/-- Tokens at the front that do not end with the end of the file leave the rest of the list. -/
theorem drop_of_prefix {ts : List Token} {s : Tokens} (hp : ts <+: s.toList)
    (he : ∀ t ∈ ts.getLast?, t.kind ≠ .endOfFile) :
    ts.length ≤ s.ahead.length ∧ s = (s.drop ts.length).prepend ts := by
  obtain ⟨us, hus⟩ := hp
  rcases List.eq_nil_or_concat us with rfl | ⟨us, u, rfl⟩
  · rw [List.append_nil] at hus
    have hlast : s.final ∈ ts.getLast? := by
      rw [hus, toList, List.getLast?_concat]
      rfl
    exact absurd s.final_kind (he _ hlast)
  · rw [List.concat_eq_append, ← List.append_assoc] at hus
    obtain ⟨ha, -⟩ := List.append_inj' hus rfl
    have hs : s = Tokens.prepend ts { s with ahead := us } := by
      unfold prepend
      rw [ha]
    refine ⟨by rw [← ha, List.length_append]; omega, ?_⟩
    rw [hs, drop_prepend]

end Tokens

/-! ## Places -/

/-- The same token at another place. -/
def Token.relocate (f : Position → Position) (t : Token) : Token :=
  { t with position := f t.position }

namespace Tokens

/-- The same tokens at other places. -/
def relocate (f : Position → Position) (s : Tokens) : Tokens where
  ahead := s.ahead.map (.relocate f)
  final := s.final.relocate f
  final_kind := s.final_kind

variable (f : Position → Position) (s : Tokens)

@[simp] theorem current_relocate : (s.relocate f).current = s.current.relocate f := by
  obtain ⟨ahead, final, _⟩ := s
  cases ahead <;> rfl

theorem kind_current_relocate : (s.relocate f).current.kind = s.current.kind := by
  rw [current_relocate]
  rfl

@[simp] theorem advance_relocate : (s.relocate f).advance = s.advance.relocate f := by
  simp [advance, relocate, List.map_tail]

@[simp] theorem skipComma_relocate : (s.relocate f).skipComma = s.skipComma.relocate f := by
  unfold skipComma
  rw [kind_current_relocate, advance_relocate]
  split <;> rfl

@[simp] theorem relocate_prepend (ts : List Token) :
    (s.prepend ts).relocate f = (s.relocate f).prepend (ts.map (.relocate f)) := by
  simp [prepend, relocate]

theorem toList_relocate : (s.relocate f).toList = s.toList.map (.relocate f) := by
  simp [toList, relocate]

end Tokens

end BuildOrder
