/-
Texts quoted inside messages. The quote mark is the apostrophe, unless only the text's own quotes
are apostrophes; a backslash, the quote mark and what cannot be printed are escaped.
-/
import BuildOrder.Text.Hex
import BuildOrder.Text.Printable

namespace BuildOrder.Text

/-- The mark that encloses a text: the one that needs no escape, the apostrophe where both
would do. -/
def quoteMark (text : List Char) : Char :=
  if '\'' ∈ text ∧ '"' ∉ text then '"' else '\''

/-- A character between the quote marks. -/
def quoteChar (mark c : Char) : List Char :=
  if c = mark ∨ c = '\\' then ['\\', c]
  else if c = '\n' then ['\\', 'n']
  else if c = '\r' then ['\\', 'r']
  else if c = '\t' then ['\\', 't']
  else if isPrintable c then [c]
  else if c.toNat < 0x100 then '\\' :: 'x' :: (hex 2 c.toNat).toList
  else if c.toNat < 0x10000 then '\\' :: 'u' :: (hex 4 c.toNat).toList
  else '\\' :: 'U' :: (hex 8 c.toNat).toList

/-- A text with its quote marks. -/
def quoted (text : String) : String :=
  let mark := quoteMark text.toList
  .ofList (mark :: text.toList.flatMap (quoteChar mark) ++ [mark])

end BuildOrder.Text
