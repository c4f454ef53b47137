import PascalSyntax.Token.Basic
import PascalSyntax.Token.Vocabulary

/-!
# Lexemes

A lexeme is what can stand at one place of a source, whatever its position.
Each kind is taken as long as it can be, so that `beginx` is one word and `<=`
one symbol.  All character classes are those of ASCII; other characters stand
only in comments and strings.
-/

namespace PascalSyntax

inductive Lexeme where
  /-- A whole lexeme, its characters and the text after it. -/
  | whole (kind : Token.Kind) (text rest : List Char)
  /-- A comment that no brace closes; it takes all of the text. -/
  | openComment
  /-- A string that no quote closes on its line: its characters, and the text
  from the line end on. -/
  | openString (text rest : List Char)
  /-- A character that starts no lexeme. -/
  | unknown (c : Char)
deriving DecidableEq, Repr

namespace Lexeme

/-- The characters that separate lexemes: space, tab, line feed, form feed and
carriage return. -/
def isBlank (c : Char) : Bool :=
  c = ' ' || c = '\t' || c = '\n' || c = '\x0c' || c = '\r'

def inComment (c : Char) : Bool :=
  c ≠ '\x7d'

def inString (c : Char) : Bool :=
  c ≠ '\'' && c ≠ '\n' && c ≠ '\r'

def comment (c : Char) (cs : List Char) : Lexeme :=
  match cs.dropWhile inComment with
  | close :: rest => .whole .comment (c :: cs.takeWhile inComment ++ [close]) rest
  | [] => .openComment

/-- A word, which is reserved or an identifier, after its first letter. -/
def word (c : Char) (cs : List Char) : Lexeme :=
  let text := c :: cs.takeWhile Char.isAlphanum
  let kind := if String.ofList text ∈ Vocabulary.reservedWords then .reservedWord else .identifier
  .whole kind text (cs.dropWhile Char.isAlphanum)

def number (c : Char) (cs : List Char) : Lexeme :=
  .whole .number (c :: cs.takeWhile Char.isDigit) (cs.dropWhile Char.isDigit)

def isSymbol (text : List Char) : Bool :=
  String.ofList text ∈ Vocabulary.symbols

/-- A symbol, after its first character: of two characters where those are one.
-/
def symbol (c : Char) : List Char → Lexeme
  | d :: rest =>
    if isSymbol [c, d] then .whole .symbol [c, d] rest else .whole .symbol [c] (d :: rest)
  | [] => .whole .symbol [c] []

def string (c : Char) (cs : List Char) : Lexeme :=
  let body := cs.takeWhile inString
  match cs.dropWhile inString with
  | '\'' :: rest => .whole .string (c :: body ++ ['\'']) rest
  | rest => .openString (c :: body) rest

/-- What stands at the start of the text `c :: cs`, whose first character is no
blank. -/
def read (c : Char) (cs : List Char) : Lexeme :=
  if c = '\x7b' then comment c cs
  else if c.isAlpha then word c cs
  else if c.isDigit then number c cs
  else if isSymbol [c] then symbol c cs
  else if c = '\'' then string c cs
  else .unknown c

end Lexeme
end PascalSyntax
