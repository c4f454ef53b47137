import PascalSyntax.Text.Position

/-!
# Tokens

A token keeps its exact text, the quotes of a string and the braces of a comment
included, and the position of its first character.
-/

namespace PascalSyntax

inductive Token.Kind where
  | symbol
  | reservedWord
  | identifier
  | number
  | string
  | comment
deriving DecidableEq, Repr

def Token.Kind.name : Token.Kind → String
  | .symbol => "Symbol"
  | .reservedWord => "ReservedWord"
  | .identifier => "Identifier"
  | .number => "Number"
  | .string => "String"
  | .comment => "Comment"

structure Token where
  kind : Token.Kind
  text : String
  position : Position
deriving DecidableEq, Repr

/-- Where a node of a tree comes from: the position and text of its leading
token. -/
structure Origin where
  position : Position
  text : String
deriving DecidableEq, Repr

namespace Token

/-- The position just past the token. -/
def endPosition (t : Token) : Position :=
  t.position.after t.text.toList

def origin (t : Token) : Origin :=
  ⟨t.position, t.text⟩

def describe (t : Token) : String :=
  match t.kind with
  | .symbol => s!"symbol '{t.text}'"
  | .reservedWord => s!"reserved word '{t.text}'"
  | .identifier => s!"identifier '{t.text}'"
  | .number => s!"number {t.text}"
  | .string => s!"string {t.text}"
  | .comment => "comment"

/-- The tokens that the grammar sees: all but the comments. -/
def significant (tokens : List Token) : List Token :=
  tokens.filter (·.kind ≠ .comment)

/-- The position just past the last token, a comment counted; that of an empty
list is the start. -/
def endOf (tokens : List Token) : Position :=
  match tokens.getLast? with
  | some t => t.endPosition
  | none => .start

end Token
end PascalSyntax
