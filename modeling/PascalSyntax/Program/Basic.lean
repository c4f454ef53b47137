import PascalSyntax.Declaration.Basic
import PascalSyntax.Statement.Basic

/-!
# Programs

A program has sections of variables and constants, routines and a body.  A
routine has parameters, variables of its own and a body.
-/

namespace PascalSyntax

inductive Routine.Kind where
  | function (returnType : Identifier)
  | procedure
deriving DecidableEq, Repr

structure Routine where
  kind : Routine.Kind
  name : Identifier
  parameters : List Parameter
  locals : List VarDecl
  body : Block
  origin : Origin

/-- The words that open a routine: its keyword, which tells a function from a
procedure, and its name. -/
structure Routine.Heading where
  isFunction : Bool
  name : Identifier
  origin : Origin
deriving DecidableEq, Repr

structure Program where
  name : Identifier
  vars : Option (DeclSection VarDecl)
  consts : Option (DeclSection ConstDecl)
  routines : List Routine
  body : Block
  origin : Origin

end PascalSyntax
