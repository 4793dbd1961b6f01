/-
Case-insensitive comparison with fixed words. The words are `.build`, the names of the properties
and those of the module kinds. A character outside ASCII whose lower case is an ASCII letter is the
Kelvin sign alone, and none of the words holds a `k`: so lowering the ASCII letters decides the
comparison.
-/

namespace BuildOrder.Text

/-- The text with its ASCII letters in lower case. -/
def lower (text : String) : String := .ofList (text.toList.map Char.toLower)

/-- Whether a text ends in a word that is given in lower case, in any case of its letters. -/
def endsInWord (text word : String) : Bool := word.toList.isSuffixOf (lower text).toList

end BuildOrder.Text
