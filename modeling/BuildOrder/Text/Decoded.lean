/-
The text of a file. A byte-order mark in front is not part of the text and does not count for
positions; the three ways to end a line are one and the same.
-/
import BuildOrder.Text.Utf8

namespace BuildOrder.Text

/-- The bytes of the byte-order mark. -/
def byteOrderMark : List UInt8 := [0xEF, 0xBB, 0xBF]

/-- The bytes of a file without the byte-order mark. A file that breaks off within the mark is
empty. -/
def withoutMark (bytes : List UInt8) : List UInt8 :=
  if byteOrderMark.isPrefixOf bytes then bytes.drop 3
  else if bytes.isPrefixOf byteOrderMark then []
  else bytes

/-- The text with a line feed at the end of each line, where there may have been a carriage return
or both. -/
def unifyLineEnds : List Char → List Char
  | [] => []
  | '\r' :: '\n' :: rest => '\n' :: unifyLineEnds rest
  | '\r' :: rest => '\n' :: unifyLineEnds rest
  | c :: rest => c :: unifyLineEnds rest

/-- The text of a file with these bytes. -/
def decodeFile (bytes : List UInt8) : Except Utf8.Fault String :=
  (Utf8.decode (withoutMark bytes)).map fun text => .ofList (unifyLineEnds text)

end BuildOrder.Text
