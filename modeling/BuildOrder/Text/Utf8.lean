/-
Reading UTF-8. A character is a first byte, which fixes how many bytes follow and in what range each
of them lies, and the bytes that follow. The first byte that fits nowhere is the fault; a fault
names the bytes that were read in vain, from the first byte of the broken character on.
-/
import BuildOrder.Text.Hex

namespace BuildOrder.Text.Utf8

/-- Why bytes are no character. -/
inductive Reason where
  | invalidStart
  | invalidContinuation
  | unexpectedEnd
deriving DecidableEq, Repr

/-- The words for a reason. -/
def Reason.text : Reason → String
  | .invalidStart => "invalid start byte"
  | .invalidContinuation => "invalid continuation byte"
  | .unexpectedEnd => "unexpected end of data"

/-- A broken character: its first byte, where that stands, how many of its bytes were read, and why
they are no character. -/
structure Fault where
  byte : UInt8
  offset : Nat
  length : Nat
  reason : Reason
deriving DecidableEq, Repr

/-- The line for a fault: one byte is shown, several are counted. -/
def Fault.render (f : Fault) : String :=
  let last := f.offset + f.length - 1
  if f.length = 1 then
    "'utf-8' codec can't decode byte 0x" ++ hex 2 f.byte.toNat ++ s!" in position {f.offset}: " ++
      f.reason.text
  else
    s!"'utf-8' codec can't decode bytes in position {f.offset}-{last}: " ++ f.reason.text

/-- What a first byte says: the bits that it gives itself and the ranges of the bytes to follow. The
range of the second byte keeps out longer forms of short characters, surrogates and what lies above
the last code point. -/
def lead? (b : UInt8) : Option (Nat × List (UInt8 × UInt8)) :=
  let tail : UInt8 × UInt8 := (0x80, 0xBF)
  if b < 0x80 then some (b.toNat, [])
  else if b < 0xC2 then none
  else if b < 0xE0 then some (b.toNat - 0xC0, [tail])
  else if b = 0xE0 then some (0, [(0xA0, 0xBF), tail])
  else if b = 0xED then some (0xD, [(0x80, 0x9F), tail])
  else if b < 0xF0 then some (b.toNat - 0xE0, [tail, tail])
  else if b = 0xF0 then some (0, [(0x90, 0xBF), tail, tail])
  else if b < 0xF4 then some (b.toNat - 0xF0, [tail, tail, tail])
  else if b = 0xF4 then some (4, [(0x80, 0x8F), tail, tail])
  else none

/-- Reads the bytes that follow a first byte. `value` is the number read so far and `taken` the
number of bytes; answers the code point and what is left, or how the character breaks off. -/
def readTail (value taken : Nat) : List (UInt8 × UInt8) → List UInt8 →
    Except (Nat × Reason) (Nat × List UInt8)
  | [], bytes => .ok (value, bytes)
  | _ :: _, [] => .error (taken, .unexpectedEnd)
  | (low, high) :: ranges, b :: bytes =>
    if low ≤ b ∧ b ≤ high then
      readTail (64 * value + (b.toNat - 0x80)) (taken + 1) ranges bytes
    else .error (taken, .invalidContinuation)

theorem readTail_length_le {value taken code : Nat} {ranges : List (UInt8 × UInt8)}
    {bytes rest : List UInt8} (h : readTail value taken ranges bytes = .ok (code, rest)) :
    rest.length ≤ bytes.length := by
  fun_induction readTail value taken ranges bytes with
  | case1 => cases h; exact Nat.le_refl _
  | case2 => cases h
  | case3 value taken low high ranges b bytes _ ih =>
    exact Nat.le_trans (ih h) (Nat.le_succ _)
  | case4 => cases h

/-- The characters of bytes whose first one stands at `offset`. -/
def decodeFrom (offset : Nat) (bytes : List UInt8) : Except Fault (List Char) :=
  match bytes with
  | [] => .ok []
  | b :: bytes =>
    match lead? b with
    | none => .error ⟨b, offset, 1, .invalidStart⟩
    | some (value, ranges) =>
      match _h : readTail value 1 ranges bytes with
      | .error (taken, reason) => .error ⟨b, offset, taken, reason⟩
      | .ok (code, rest) =>
        (decodeFrom (offset + 1 + ranges.length) rest).map (Char.ofNat code :: ·)
termination_by bytes.length
decreasing_by exact Nat.lt_succ_of_le (readTail_length_le _h)

/-- The characters of a whole text. -/
def decode (bytes : List UInt8) : Except Fault (List Char) := decodeFrom 0 bytes

end BuildOrder.Text.Utf8
