import PascalSyntax.Expr.Basic

/-!
# Declarations

A group that declares several names at once is kept as one declaration for each
name, and all of them share the type.
-/

namespace PascalSyntax

structure VarDecl where
  name : Identifier
  typeName : Identifier
  init : Option Expr
  origin : Origin

structure ConstDecl where
  name : Identifier
  value : Expr
  origin : Origin

/-- A section of declarations after one keyword. -/
structure DeclSection (α : Type) where
  decls : List α
  origin : Origin

/-- A formal parameter.  Its origin is the `var` before it, if there is one, and
else its name. -/
structure Parameter where
  name : Identifier
  typeName : Identifier
  byReference : Bool
  origin : Origin
deriving DecidableEq, Repr

/-- The argument once its formal parameter is known. -/
def Argument.bind (a : Argument) (p : Parameter) : Argument :=
  { a with
    parameter := some p.name
    typeName := some p.typeName
    byReference := p.byReference }

end PascalSyntax
