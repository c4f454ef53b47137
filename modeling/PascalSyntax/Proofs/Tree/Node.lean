import Mathlib.Logic.Relation
import PascalSyntax.Proofs.Expr.Rendering
import PascalSyntax.Proofs.Tree.Nested

/-!
# The nodes of a tree

Every part of a tree that has an origin is a node, from the program down to its
names and literals, and the tree is given by the children of each node.  A node
is sound if it says of itself what its origin says, and shares its origin with
the part that it starts with (`Node.Sound`).

A block comes in two places.  As a body it may be wrapped around a statement, and
as a statement it always has its `begin`.
-/

namespace PascalSyntax

/-- A node of a tree; a block that is a body is a node `block`. -/
inductive Node where
  | program (p : Program)
  | varSection (s : DeclSection VarDecl)
  | constSection (s : DeclSection ConstDecl)
  | varDecl (d : VarDecl)
  | constDecl (d : ConstDecl)
  | routine (r : Routine)
  | parameter (p : Parameter)
  | block (b : Block)
  | branch (b : Branch)
  | statement (s : Statement)
  | expr (e : Expr)
  | argument (a : Argument)
  | identifier (x : Identifier)

/-- The type that a routine returns, if it is a function. -/
def Routine.Kind.returnType? : Routine.Kind → Option Identifier
  | .function returnType => some returnType
  | .procedure => none

namespace Node

def origin : Node → Origin
  | program p => p.origin
  | varSection s => s.origin
  | constSection s => s.origin
  | varDecl d => d.origin
  | constDecl d => d.origin
  | routine r => r.origin
  | parameter p => p.origin
  | block b => b.origin
  | branch b => b.origin
  | statement s => s.origin
  | expr e => e.origin
  | argument a => a.origin
  | identifier x => x.origin

/-- The nodes of a call: the name of the routine and the arguments. -/
def ofCall (c : Call) : List Node :=
  identifier c.routine :: c.arguments.map argument

/-- The nodes directly below a node. -/
def children : Node → List Node
  | program p =>
    identifier p.name :: (p.vars.toList.map varSection ++ (p.consts.toList.map constSection ++
      (p.routines.map routine ++ [block p.body])))
  | varSection s => s.decls.map varDecl
  | constSection s => s.decls.map constDecl
  | varDecl d => identifier d.name :: identifier d.typeName :: d.init.toList.map expr
  | constDecl d => [identifier d.name, expr d.value]
  | routine r =>
    identifier r.name :: (r.kind.returnType?.toList.map identifier ++
      (r.parameters.map parameter ++ (r.locals.map varDecl ++ [block r.body])))
  | parameter p => [identifier p.name, identifier p.typeName]
  | block b => b.statements.map statement
  | branch b => [expr b.condition, block b.body]
  | statement (.assignment target value _) => [identifier target, expr value]
  | statement (.call c) => ofCall c
  | statement (.conditional branches otherwise _) =>
    branches.map branch ++ otherwise.toList.map block
  | statement (.whileLoop b _) => [branch b]
  | statement (.forLoop counter first last _ body _) =>
    [identifier counter, expr first, expr last, block body]
  | statement (.block b) => b.statements.map statement
  | expr (.identifier _) => []
  | expr (.integer _) => []
  | expr (.string _) => []
  | expr (.call c) => ofCall c
  | expr (.binary _ left right _) => [expr left, expr right]
  | expr (.unary _ operand _) => [expr operand]
  | argument a =>
    expr a.value :: (a.parameter.toList ++ a.typeName.toList).map identifier
  | identifier _ => []

/-- One step down the tree. -/
def Child (n m : Node) : Prop :=
  m ∈ n.children

/-- The node is that of the tree or lies below it. -/
def Below (root n : Node) : Prop :=
  Relation.ReflTransGen Child root n

/-- What a node says agrees with its origin and with its parts. -/
def Sound : Node → Prop
  | varSection s => s.decls ≠ []
  | constSection s => s.decls ≠ []
  | varDecl d => d.origin = d.name.origin
  | constDecl d => d.origin = d.name.origin
  | parameter p => if p.byReference then p.origin.text = "var" else p.origin = p.name.origin
  | block b => b.origin.text = "begin" ∨ ∃ s, b.IsBare s ∧ ∀ inner, s ≠ .block inner
  | statement (.assignment target _ origin) => origin = target.origin
  | statement (.call c) => c.origin = c.routine.origin
  | statement (.conditional branches _ origin) => branches.head?.map Branch.origin = some origin
  | statement (.whileLoop b origin) => origin = b.origin
  | statement (.block b) => b.origin.text = "begin"
  | expr (.identifier x) => x.name = x.origin.text
  | expr (.call c) => c.origin = c.routine.origin
  | expr (.binary op _ _ origin) =>
    op ∈ BinaryOperator.relational ++ (BinaryOperator.additive ++ BinaryOperator.multiplicative) ∧
      origin.text = op.text
  | expr (.unary op _ origin) => op ∈ UnaryOperator.all ∧ origin.text = op.text
  | argument a => a.Unbound ∧ a.origin = a.value.origin
  | identifier x => x.name = x.origin.text
  | _ => True

end Node
end PascalSyntax
