import PascalSyntax.Text.Quoted
import PascalSyntax.Token.Lexeme

/-!
# The lexer

A lexer holds the characters not yet read and the position of the first of them,
and one call reads tokens up to the end of the text, the first error or the
bound on their number.  The lexer that a call leaves behind can be called again,
after an error too: it goes on where that call stopped.
-/

namespace PascalSyntax

inductive LexError where
  | unterminatedComment (position : Position)
  | unterminatedString (position : Position)
  | unrecognizedToken (c : Char) (position : Position)
  | tooManyTokens (limit : Nat) (position : Position)
deriving DecidableEq, Repr

namespace LexError

def position : LexError → Position
  | unterminatedComment p => p
  | unterminatedString p => p
  | unrecognizedToken _ p => p
  | tooManyTokens _ p => p

def message : LexError → String
  | unterminatedComment p => s!"unterminated comment starting at {p.describe}"
  | unterminatedString p => s!"unterminated string starting at {p.describe}"
  | unrecognizedToken c p => s!"unrecognized token {Text.quoted c} at {p.describe}"
  | tooManyTokens limit p => s!"more than {limit} tokens, stopped at {p.describe}"

end LexError

/-- The text still to be read and the position of its first character. -/
structure Lexer where
  rest : List Char
  position : Position
deriving DecidableEq, Repr

namespace Lexer

def ofSource (source : String) : Lexer :=
  ⟨source.toList, .start⟩

def skipBlanks (l : Lexer) : Lexer :=
  ⟨l.rest.dropWhile Lexeme.isBlank, l.position.after (l.rest.takeWhile Lexeme.isBlank)⟩

/-- Reads tokens, at most `budget` of them.  The budget is looked at before a
lexeme is, so that one lexeme too many is reported as such even if it is
malformed.  An unknown character is not read, an open string is read up to the
line end, and an open comment takes the rest of the text. -/
def run (limit budget : Nat) (l : Lexer) : Except LexError (List Token) × Lexer :=
  let l := l.skipBlanks
  match l.rest with
  | [] => (.ok [], l)
  | c :: cs =>
    match budget with
    | 0 => (.error (.tooManyTokens limit l.position), l)
    | budget + 1 =>
      match Lexeme.read c cs with
      | .whole kind text rest =>
        let others := run limit budget ⟨rest, l.position.after text⟩
        (others.1.map (⟨kind, String.ofList text, l.position⟩ :: ·), others.2)
      | .openComment =>
        (.error (.unterminatedComment l.position), ⟨[], l.position.after (c :: cs)⟩)
      | .openString text rest =>
        (.error (.unterminatedString l.position), ⟨rest, l.position.after text⟩)
      | .unknown c => (.error (.unrecognizedToken c l.position), l)

/-- One call: the tokens up to the end of the text, and the lexer that the call
leaves behind. -/
def tokenize (limit : Nat) (l : Lexer) : Except LexError (List Token) × Lexer :=
  run limit limit l

end Lexer

/-- The tokens of a source, comments included. -/
def tokenize (maxTokens : Nat) (source : String) : Except LexError (List Token) :=
  ((Lexer.ofSource source).tokenize maxTokens).1

end PascalSyntax
