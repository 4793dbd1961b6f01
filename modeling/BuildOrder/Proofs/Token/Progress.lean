/-
Step after step of the reader, whether it succeeds or fails. Every step that does not find the end
of the text takes at least one character, a fault in the middle of a comment or a string included;
so the end is found before there are more steps than characters, and from then on the reader stands
still and finds it again.
-/
import BuildOrder.Proofs.Token.Bounds

namespace BuildOrder

namespace Scan

/-! ## Steps that take characters -/

theorem skipGaps_error_rest_lt {c c' : Cursor} {e : LexicalFault}
    (h : skipGaps c = .error e c') : c'.rest.length < c.rest.length := by
  fun_induction skipGaps c with
  | case1 c hg => cases h
  | case2 c n hg ih => exact Nat.lt_of_lt_of_le (ih h) (c.advance_rest_le n)
  | case3 c n hg =>
    cases h
    obtain ⟨⟨rest, hr, -⟩, rfl⟩ := Gap.unclosed_iff.1 hg
    exact Cursor.advance_rest_lt (by omega) (by simp [hr])

theorem token_error_rest_lt {c c' : Cursor} {e : LexicalFault}
    (h : token c = .error e c') : c'.rest.length < c.rest.length := by
  unfold token at h
  split at h
  · cases h
  · rename_i ch rest hr
    split at h
    · cases h
    · split at h
      · dsimp only at h
        split at h <;> cases h
        exact Cursor.advance_rest_lt (by simp) (by simp [hr])
      · cases h

/-- A fault is not found again at the same place: the next step begins behind what led to it. -/
theorem next_error_rest_lt {c c' : Cursor} {e : LexicalFault}
    (h : next c = .error e c') : c'.rest.length < c.rest.length := by
  unfold next at h
  split at h
  · rename_i c₁ hs
    exact Nat.lt_of_lt_of_le (token_error_rest_lt h) (skipGaps_rest_le hs)
  · rename_i hs
    cases h
    exact skipGaps_error_rest_lt hs

/-- The step from a cursor finds the end of the text. -/
def AtEnd (c : Cursor) : Prop := ∃ t c', next c = .ok t c' ∧ t.kind = .endOfFile

theorem behind_rest_lt {c : Cursor} (h : ¬ AtEnd c) : (behind c).rest.length < c.rest.length := by
  cases hn : next c with
  | ok t c' =>
    rw [behind_of_ok hn]
    exact next_rest_lt hn fun he => h ⟨t, c', hn, he⟩
  | error e c' =>
    rw [behind_of_error hn]
    exact next_error_rest_lt hn

/-! ## The end of the text -/

/-- The end of the file is read where nothing is left, and carries the position of this place. -/
theorem next_end {c c' : Cursor} {t : Token} (h : next c = .ok t c') (ht : t.kind = .endOfFile) :
    c'.rest = [] ∧ t = ⟨.endOfFile, "", c'.position⟩ := by
  obtain ⟨n, hn⟩ := next_eq_ok h
  obtain ⟨-, -, -, hend, -⟩ := token_written hn
  have hr := hend.1 ht
  rw [token, hr] at hn
  cases hn
  exact ⟨hr, rfl⟩

/-- Behind the end of the file the same is read without a move. -/
theorem next_behind_end {c c' : Cursor} {t : Token} (h : next c = .ok t c')
    (ht : t.kind = .endOfFile) : next c' = .ok t c' := by
  obtain ⟨hr, rfl⟩ := next_end h ht
  exact next_of_end hr

theorem iterate_behind_end {c c' : Cursor} {t : Token} (h : next c = .ok t c')
    (ht : t.kind = .endOfFile) {m : Nat} (hm : 0 < m) : behind^[m] c = c' := by
  obtain ⟨m, rfl⟩ := Nat.exists_eq_succ_of_ne_zero hm.ne'
  rw [Function.iterate_succ_apply, behind_of_ok h]
  exact Function.iterate_fixed (behind_of_ok (next_behind_end h ht)) m

end Scan

/-! ## Runs of the reader -/

namespace Cursor.StandsIn

variable {c : Cursor} {text : List Char}

theorem length_rest (h : c.StandsIn text) : c.offset + c.rest.length = text.length := by
  have := h.offset_le
  rw [h.rest_eq, List.length_drop]
  omega

theorem offset_lt_behind (h : c.StandsIn text) (hend : ¬ Scan.AtEnd c) :
    c.offset < (Scan.behind c).offset := by
  have := Scan.behind_rest_lt hend
  have := h.length_rest
  have := h.behind.length_rest
  omega

/-- Each step that does not find the end takes a character, so as many steps take as many. -/
theorem le_offset_iterate (h : c.StandsIn text) {n : Nat}
    (hno : ∀ m < n, ¬ Scan.AtEnd (Scan.behind^[m] c)) : n ≤ (Scan.behind^[n] c).offset := by
  induction n with
  | zero => exact Nat.zero_le _
  | succ n ih =>
    have hlt := (h.iterate_behind n).offset_lt_behind (hno n (Nat.lt_succ_self n))
    have := ih fun m hm => hno m (Nat.lt_succ_of_lt hm)
    rw [Function.iterate_succ_apply']
    omega

/-- The end is found before there are more steps than characters. -/
theorem exists_atEnd (h : c.StandsIn text) : ∃ n ≤ text.length, Scan.AtEnd (Scan.behind^[n] c) := by
  by_contra hno
  have := h.le_offset_iterate (n := text.length + 1) fun m hm hend =>
    hno ⟨m, Nat.le_of_lt_succ hm, hend⟩
  have := (h.iterate_behind (text.length + 1)).offset_le
  omega

end Cursor.StandsIn

/-- After any number of steps the next one answers without a look at a character that the text does
not have: the looks from the places that it can get to are looks at the text. Unless it finds the
end it moves on, also when it fails; the end is found at the end of the text only, and then again by
every later step, with the same token and without a move. It is found before there are more steps
than characters. -/
theorem Scan.steps_progress (source : String) :
    (∀ n, (behind^[n] (.start source)).StandsIn source.toList ∧
      (∀ k i, ((behind^[n] (.start source)).advance k).char? i =
        source.toList[((behind^[n] (.start source)).advance k).offset + i]?) ∧
      Checked.next (behind^[n] (.start source)) = some (next (behind^[n] (.start source)))) ∧
    (∀ n, (∀ t c', next (behind^[n] (.start source)) = .ok t c' → t.kind ≠ .endOfFile) →
      (behind^[n] (.start source)).offset < (behind^[n + 1] (.start source)).offset) ∧
    (∀ n t c', next (behind^[n] (.start source)) = .ok t c' → t.kind = .endOfFile →
      c'.offset = source.length ∧ ∀ m, n < m → behind^[m] (.start source) = c' ∧
        next (behind^[m] (.start source)) = .ok t c') ∧
    ∃ n ≤ source.length, ∃ t c', next (behind^[n] (.start source)) = .ok t c' ∧
      t.kind = .endOfFile := by
  have hstand := (Cursor.StandsIn.start source).iterate_behind
  refine ⟨fun n => ⟨hstand n, fun k i => ((hstand n).advance k).char?_eq i, Checked.next_eq _⟩,
    fun n hno => ?_, fun n t c' hn ht => ⟨?_, fun m hm => ?_⟩, ?_⟩
  · rw [Function.iterate_succ_apply']
    exact (hstand n).offset_lt_behind fun ⟨t, c', hn, ht⟩ => hno t c' hn ht
  · have hlen := (hstand (n + 1)).length_rest
    rw [Function.iterate_succ_apply', behind_of_ok hn, (next_end hn ht).1] at hlen
    rw [← String.length_toList]
    exact hlen
  · obtain ⟨d, rfl⟩ := Nat.exists_eq_add_of_lt hm
    have hc : behind^[n + d + 1] (.start source) = c' := by
      rw [show n + d + 1 = (d + 1) + n by omega, Function.iterate_add_apply]
      exact iterate_behind_end hn ht (Nat.succ_pos d)
    rw [hc]
    exact ⟨rfl, next_behind_end hn ht⟩
  · obtain ⟨n, hle, hend⟩ := (Cursor.StandsIn.start source).exists_atEnd
    exact ⟨n, String.length_toList ▸ hle, hend⟩

end BuildOrder
