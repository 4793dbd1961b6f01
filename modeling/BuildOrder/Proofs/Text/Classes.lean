/-
The character classes that a source text is cut by keep apart: white space is no part of a word, and
neither are the marks of comments, strings and punctuation. The tables are compared range by range.
-/
import BuildOrder.Token.Scan

namespace BuildOrder

namespace Text

/-! ## Tables -/

namespace Ranges

/-- No range of one set meets a range of the other. -/
def apart (a b : Ranges) : Bool := a.rows.all fun r => b.rows.all fun s => r.2 < s.1 || s.2 < r.1

theorem not_mem_of_apart {a b : Ranges} (h : a.apart b = true) {c : Char}
    (hc : a.contains c = true) : b.contains c = false := by
  rw [Bool.eq_false_iff]
  intro hb
  obtain ⟨r, hr, hr₁, hr₂⟩ := mem_of_row hc
  obtain ⟨s, hs, hs₁, hs₂⟩ := mem_of_row hb
  have := List.all_eq_true.1 (List.all_eq_true.1 h r hr) s hs
  simp only [Bool.or_eq_true, decide_eq_true_eq] at this
  omega

end Ranges

theorem blanks_apart_letters : blanks.apart letters = true := by decide +kernel

theorem blanks_apart_numbers : blanks.apart numbers = true := by decide +kernel

end Text

namespace Scan

open Text

/-! ## Words -/

theorem not_continuesWord_of_isBlank {c : Char} (h : isBlank c = true) :
    continuesWord c = false := by
  unfold continuesWord
  rw [show isLetter c = false from Ranges.not_mem_of_apart blanks_apart_letters h,
    show isNumber c = false from Ranges.not_mem_of_apart blanks_apart_numbers h]
  have : c ≠ '_' := by
    rintro rfl
    exact absurd h (by decide)
  simp [this]

theorem continuesWord_of_startsWord {c : Char} (h : startsWord c = true) :
    continuesWord c = true := by
  unfold startsWord at h
  unfold continuesWord
  simp only [Bool.or_eq_true] at h ⊢
  rcases h with h | h
  · exact .inl (.inl h)
  · exact .inr h

end Scan

end BuildOrder
