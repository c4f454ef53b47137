import PascalSyntax.Limits
import PascalSyntax.Token.Lexer
import PascalSyntax.Program.Parser

/-!
# From a source to its program

The lexer and the parser run one after the other, under the bounds on both.
-/

namespace PascalSyntax

inductive FrontEndError where
  | lexical (error : LexError)
  | syntactic (error : ParseError)
deriving DecidableEq, Repr

namespace FrontEndError

def position : FrontEndError → Position
  | lexical e => e.position
  | syntactic e => e.position

def message : FrontEndError → String
  | lexical e => s!"lexical error: {e.message}"
  | syntactic e => s!"syntax error: {e.message}"

end FrontEndError

namespace Program

def ofSource (limits : Limits) (source : String) : Except FrontEndError Program :=
  match tokenize limits.maxTokens source with
  | .error e => .error (.lexical e)
  | .ok tokens => (parse limits.maxDepth tokens).mapError .syntactic

end Program
end PascalSyntax
