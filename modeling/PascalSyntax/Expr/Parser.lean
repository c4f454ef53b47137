import PascalSyntax.Text.Numeral
import PascalSyntax.Parser.Basic
import PascalSyntax.Expr.Basic

/-!
# Reading expressions

The binary levels nest, each around the next one that binds more, and each
groups to the left.  An expression takes one level of nesting, and so does the
operand of a unary operator.

The readers recurse on a number of levels.  On cursors it is the bound on the
nesting; on places, which know how deep they are, it has only to be greater than
the number of levels that are left.
-/

namespace PascalSyntax
namespace Parser

variable {σ : Type} [Spot σ]

def identifier : Parser σ Identifier := do
  return (← take .identifier none).toIdentifier

/-- Reads a number, which has to be one of 64 bits. -/
def integer (t : Token) : Parser σ IntegerLiteral := fun s =>
  match Numeral.signed? t.text.toList with
  | some value => .ok (⟨value, t.origin⟩, Spot.advance s)
  | none => .error ⟨.integerOutOfRange t, s⟩

/-- Reads an operator and its right operand, if one of the operators is next. -/
def operation (operators : List BinaryOperator) (operand : Parser σ Expr) :
    Parser σ (Option (BinaryOperator × Origin × Expr)) := do
  match ← takeFirst? operators BinaryOperator.terminal with
  | some (op, t) => return some (op, t.origin, ← operand)
  | none => return none

def apply (left : Expr) (operation : BinaryOperator × Origin × Expr) : Expr :=
  .binary operation.1 left operation.2.2 operation.2.1

/-- Reads operands of one level with its operators between them, grouped to the
left. -/
def binaryLevel (operators : List BinaryOperator) (operand : Parser σ Expr) : Parser σ Expr := do
  let first ← operand
  let others ← many (operation operators operand)
  return others.foldl apply first

def relational (operand : Parser σ Expr) : Parser σ Expr :=
  binaryLevel BinaryOperator.relational <|
    binaryLevel BinaryOperator.additive <|
      binaryLevel BinaryOperator.multiplicative operand

def arguments (expression : Parser σ Expr) : Parser σ (List Argument) := do
  match ← take? (.symbol ")") with
  | some _ => return []
  | none =>
    let values ← separated (.symbol ",") expression
    let _ ← symbol ")" "after call arguments"
    return values.map Argument.ofValue

/-- Reads the rest of a call after the name; a call may do without parentheses.
-/
def callOf (expression : Parser σ Expr) (routine : Identifier) : Parser σ Call := do
  match ← take? (.symbol "(") with
  | some _ => return ⟨routine, ← arguments expression, routine.origin⟩
  | none => return ⟨routine, [], routine.origin⟩

/-- Reads an operand without operators: a literal, a name, a call or an
expression in parentheses. -/
def primaryOver (expression : Parser σ Expr) : Parser σ Expr := do
  match ← peek? with
  | none => fail .expression
  | some t =>
    match t.kind with
    | .number => return .integer (← integer t)
    | .string => return .string ⟨t.unquoted, (← take .string none).origin⟩
    | .identifier =>
      let name ← identifier
      if ← sees (.symbol "(") then
        return .call (← callOf expression name)
      else
        return .identifier name
    | _ =>
      match ← take? (.symbol "(") with
      | some _ =>
        let inner ← expression
        let _ ← symbol ")" "to close parenthesized expression"
        return inner
      | none => fail .expression

/-- Reads an operand, unary operators included, given the readers one level
further in. -/
def unaryOver (operand expression : Parser σ Expr) : Parser σ Expr := do
  match ← takeFirst? UnaryOperator.all UnaryOperator.terminal with
  | some (op, t) => return .unary op (← operand) t.origin
  | none => primaryOver expression

/-- Reads an operand with `levels` levels of nesting allowed inside it. -/
def unary : Nat → Parser σ Expr
  | 0 => unaryOver tooDeep tooDeep
  | levels + 1 => unaryOver (Spot.nested (unary levels)) (Spot.nested (relational (unary levels)))

/-- Reads an expression, which takes one of the levels allowed. -/
def expression : Nat → Parser σ Expr
  | 0 => tooDeep
  | levels + 1 => Spot.nested (relational (unary levels))

def primary (levels : Nat) : Parser σ Expr :=
  primaryOver (expression levels)

end Parser
end PascalSyntax
