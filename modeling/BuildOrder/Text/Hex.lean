/-
Hexadecimal digits with a fixed least width, as escapes in quoted texts show code points.
-/

namespace BuildOrder.Text

/-- The lower-case hexadecimal digits of `n`, filled up with zeros to `width` places. -/
def hex (width n : Nat) : String :=
  let digits := Nat.toDigits 16 n
  .ofList (List.replicate (width - digits.length) '0' ++ digits)

end BuildOrder.Text
