import PascalSyntax.Parser.Terminal

/-!
# Operators

A binary operator is on one of three levels, of which the relational binds the
least and the multiplicative the most.  A unary operator binds more than any of
them.
-/

namespace PascalSyntax

inductive BinaryOperator where
  | equal
  | notEqual
  | less
  | lessOrEqual
  | greater
  | greaterOrEqual
  | or
  | add
  | subtract
  | multiply
  | divide
  | quotient
  | remainder
  | and
deriving DecidableEq, Repr

inductive UnaryOperator where
  | negate
  | not
deriving DecidableEq, Repr

namespace BinaryOperator

/-- The relational level, which binds the least. -/
def relational : List BinaryOperator :=
  [equal, notEqual, less, lessOrEqual, greater, greaterOrEqual, or]

def additive : List BinaryOperator :=
  [add, subtract]

/-- The multiplicative level, which binds the most. -/
def multiplicative : List BinaryOperator :=
  [multiply, divide, quotient, remainder, and]

def text : BinaryOperator → String
  | equal => "="
  | notEqual => "<>"
  | less => "<"
  | lessOrEqual => "<="
  | greater => ">"
  | greaterOrEqual => ">="
  | or => "or"
  | add => "+"
  | subtract => "-"
  | multiply => "*"
  | divide => "/"
  | quotient => "div"
  | remainder => "mod"
  | and => "and"

def isWord : BinaryOperator → Bool
  | or => true
  | quotient => true
  | remainder => true
  | and => true
  | _ => false

def terminal (op : BinaryOperator) : Terminal :=
  if op.isWord then .word op.text else .symbol op.text

end BinaryOperator

namespace UnaryOperator

def all : List UnaryOperator :=
  [negate, not]

def text : UnaryOperator → String
  | negate => "-"
  | not => "not"

def isWord : UnaryOperator → Bool
  | negate => false
  | not => true

def terminal (op : UnaryOperator) : Terminal :=
  if op.isWord then .word op.text else .symbol op.text

end UnaryOperator
end PascalSyntax
