import PascalSyntax.Expr.Basic

/-!
# Statements

The body of a branch or of a loop is always a block: a single statement that
stands there without `begin` and `end` is wrapped into a block that takes over
its origin.
-/

namespace PascalSyntax

inductive Direction where
  | upward
  | downward
deriving DecidableEq, Repr

def Direction.word : Direction → String
  | .upward => "to"
  | .downward => "downto"

mutual

/-- A statement.  A conditional keeps its chain of `else if` as one list of
branches. -/
inductive Statement where
  | assignment (target : Identifier) (value : Expr) (origin : Origin)
  | call (call : Call)
  | conditional (branches : List Branch) (otherwise : Option Block) (origin : Origin)
  | whileLoop (branch : Branch) (origin : Origin)
  | forLoop (counter : Identifier) (first last : Expr) (direction : Direction) (body : Block)
      (origin : Origin)
  | block (block : Block)

structure Branch where
  condition : Expr
  body : Block
  origin : Origin

structure Block where
  statements : List Statement
  origin : Origin

end

def Statement.origin : Statement → Origin
  | .assignment _ _ origin => origin
  | .call c => c.origin
  | .conditional _ _ origin => origin
  | .whileLoop _ origin => origin
  | .forLoop _ _ _ _ _ origin => origin
  | .block b => b.origin

/-- The block that a body is: a block stays as it is, any other statement is
wrapped. -/
def Block.ofStatement : Statement → Block
  | .block b => b
  | statement => ⟨[statement], statement.origin⟩

end PascalSyntax
