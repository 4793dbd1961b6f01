/-
Tokens of a build file. A word is a keyword only in its exact spelling, a character that is no part
of the language is a token of its own kind, and the end of the file is a token too.
-/
import BuildOrder.Position

namespace BuildOrder

/-- The reserved words. -/
inductive Keyword where
  | module
  | type
  | sources
  | publicIncludes
  | privateIncludes
  | defines
  | deps
deriving DecidableEq, Repr

namespace Keyword

/-- All reserved words. -/
def all : List Keyword :=
  [.module, .type, .sources, .publicIncludes, .privateIncludes, .defines, .deps]

/-- The word as it is written. -/
def word : Keyword → String
  | .module => "module"
  | .type => "type"
  | .sources => "sources"
  | .publicIncludes => "public_includes"
  | .privateIncludes => "private_includes"
  | .defines => "defines"
  | .deps => "deps"

/-- The name of the word in messages. -/
def name : Keyword → String
  | .module => "Module"
  | .type => "Type"
  | .sources => "Sources"
  | .publicIncludes => "PublicIncludes"
  | .privateIncludes => "PrivateIncludes"
  | .defines => "Defines"
  | .deps => "Deps"

/-- The reserved word with this exact spelling. -/
def ofWord? (text : String) : Option Keyword := all.find? (·.word = text)

end Keyword

namespace Token

/-- The kinds of tokens. -/
inductive Kind where
  | keyword (word : Keyword)
  | identifier
  | string
  | leftBrace
  | rightBrace
  | leftBracket
  | rightBracket
  | equals
  | comma
  | endOfFile
  /-- A character that begins no other token. -/
  | invalid
deriving DecidableEq, Repr

namespace Kind

/-- All kinds. -/
def all : List Kind :=
  Keyword.all.map .keyword ++
    [.identifier, .string, .leftBrace, .rightBrace, .leftBracket, .rightBracket, .equals, .comma,
      .endOfFile, .invalid]

/-- The name of a kind in messages. -/
def name : Kind → String
  | .keyword word => word.name
  | .identifier => "Identifier"
  | .string => "String"
  | .leftBrace => "LeftBrace"
  | .rightBrace => "RightBrace"
  | .leftBracket => "LeftBracket"
  | .rightBracket => "RightBracket"
  | .equals => "Equals"
  | .comma => "Comma"
  | .endOfFile => "EndOfFile"
  | .invalid => "Invalid"

/-- The kind of a word: reserved, or an identifier. -/
def ofWord (text : String) : Kind := ((Keyword.ofWord? text).map keyword).getD identifier

/-- The kind of a character that stands alone. -/
def ofSymbol : Char → Kind
  | '{' => leftBrace
  | '}' => rightBrace
  | '[' => leftBracket
  | ']' => rightBracket
  | '=' => equals
  | ',' => comma
  | _ => invalid

end Kind

end Token

/-- A token: its kind, its text (a string's without the quotes) and where it begins. -/
structure Token where
  kind : Token.Kind
  text : String
  position : Position
deriving DecidableEq, Repr

/-- The token as a line of a listing. -/
def Token.render (t : Token) : String :=
  s!"[{t.kind.name}] '{t.text}' at ({t.position.line},{t.position.column})"

end BuildOrder
