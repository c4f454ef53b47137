import PascalSyntax.Expr.Operator

/-!
# Expressions

Every node keeps its origin: the position and text of its leading token, which
for an operator between two operands is the operator.  Parentheses leave no node
of their own.
-/

namespace PascalSyntax

structure Identifier where
  name : String
  origin : Origin
deriving DecidableEq, Repr

/-- An integer, which has no sign of its own in a source. -/
structure IntegerLiteral where
  value : Int
  origin : Origin
deriving DecidableEq, Repr

/-- A string: its value is without the quotes, which the text of its origin
keeps. -/
structure StringLiteral where
  value : String
  origin : Origin
deriving DecidableEq, Repr

mutual

inductive Expr where
  | identifier (identifier : Identifier)
  | integer (literal : IntegerLiteral)
  | string (literal : StringLiteral)
  | call (call : Call)
  | binary (op : BinaryOperator) (left right : Expr) (origin : Origin)
  | unary (op : UnaryOperator) (operand : Expr) (origin : Origin)

/-- An argument of a call.  The formal parameter that it belongs to is not known
from the call alone and is filled in by `Argument.bind`. -/
structure Argument where
  value : Expr
  parameter : Option Identifier
  typeName : Option Identifier
  byReference : Bool
  origin : Origin

structure Call where
  routine : Identifier
  arguments : List Argument
  origin : Origin

end

def Expr.origin : Expr → Origin
  | .identifier name => name.origin
  | .integer literal => literal.origin
  | .string literal => literal.origin
  | .call c => c.origin
  | .binary _ _ _ origin => origin
  | .unary _ _ origin => origin

namespace Argument

def ofValue (value : Expr) : Argument where
  value := value
  parameter := none
  typeName := none
  byReference := false
  origin := value.origin

def isBound (a : Argument) : Bool :=
  a.parameter.isSome

end Argument

namespace Token

def toIdentifier (t : Token) : Identifier :=
  ⟨t.text, t.origin⟩

/-- The text of a string token without its quotes; a text that lacks one of them
is left as it is. -/
def unquoted (t : Token) : String :=
  match t.text.toList with
  | '\'' :: cs => if cs.getLast? = some '\'' then String.ofList cs.dropLast else t.text
  | _ => t.text

end Token
end PascalSyntax
