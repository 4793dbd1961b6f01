/-
White space: the space separators, the line and paragraph separators and the control characters that
act as white space in bidirectional text. The zero-width space and the byte-order mark are none.
-/
import BuildOrder.Text.Ranges

namespace BuildOrder.Text

/-- The code points that count as white space. -/
def blanks : Ranges := ⟨[
    (0x9, 0xD), (0x1C, 0x20), (0x85, 0x85), (0xA0, 0xA0), (0x1680, 0x1680), (0x2000, 0x200A),
    (0x2028, 0x2029), (0x202F, 0x202F), (0x205F, 0x205F), (0x3000, 0x3000)]⟩

/-- White space, line ends included. -/
def isBlank (c : Char) : Bool := blanks.contains c

/-- White space in the narrower sense of the Unicode property, which the information separators
U+001C to U+001F do not have. -/
def isSpacing (c : Char) : Bool := isBlank c && !(0x1C ≤ c.toNat && c.toNat ≤ 0x1F)

end BuildOrder.Text
