import Mathlib.Data.List.SplitBy
import PascalSyntax.Program.Basic

/-!
# A tree in the order of its source

The names, literals and operators of a tree, in the order in which a source
gives them.  Every one of them has an origin of its own, the token that it is
read from.  Blocks, branches and calls share the origin of something inside
them or come from a keyword, so they have no entry.

The tree keeps one declaration for each name, and the type that a group of names
shares is in each of them.  A run of declarations with the same type, the same
in its origin too, has one entry for it, after all names of the run.
-/

namespace PascalSyntax

/-- A name or a literal of a tree, or an operator. -/
inductive Entry where
  | leaf (origin : Origin)
  | operator (origin : Origin)
deriving DecidableEq, Repr

namespace Entry

def origin : Entry → Origin
  | leaf origin => origin
  | operator origin => origin

/-- The origin of a name or a literal. -/
def leaf? : Entry → Option Origin
  | leaf origin => some origin
  | operator _ => none

end Entry

def Identifier.entry (x : Identifier) : Entry :=
  .leaf x.origin

/-! ## Expressions -/

mutual

def Expr.entries : Expr → List Entry
  | .identifier x => [x.entry]
  | .integer literal => [.leaf literal.origin]
  | .string literal => [.leaf literal.origin]
  | .call c => c.entries
  | .binary _ left right origin => left.entries ++ .operator origin :: right.entries
  | .unary _ operand origin => .operator origin :: operand.entries

def Argument.entries : Argument → List Entry
  | ⟨value, parameter, typeName, _, _⟩ =>
    value.entries ++ (parameter.toList ++ typeName.toList).map Identifier.entry

def Argument.allEntries : List Argument → List Entry
  | [] => []
  | a :: rest => a.entries ++ Argument.allEntries rest

def Call.entries : Call → List Entry
  | ⟨routine, arguments, _⟩ => routine.entry :: Argument.allEntries arguments

end

theorem Argument.allEntries_eq (args : List Argument) :
    Argument.allEntries args = args.flatMap Argument.entries := by
  induction args with
  | nil => rfl
  | cons a rest ih => rw [allEntries, ih, List.flatMap_cons]

@[simp] theorem Argument.entries_ofValue (e : Expr) : (ofValue e).entries = e.entries :=
  List.append_nil _

/-! ## Statements -/

mutual

def Statement.entries : Statement → List Entry
  | .assignment target value _ => target.entry :: value.entries
  | .call c => c.entries
  | .conditional branches otherwise _ =>
    Branch.allEntries branches ++ Block.optionalEntries otherwise
  | .whileLoop branch _ => branch.entries
  | .forLoop counter first last _ body _ =>
    counter.entry :: (first.entries ++ last.entries ++ body.entries)
  | .block b => b.entries

def Branch.entries : Branch → List Entry
  | ⟨condition, body, _⟩ => condition.entries ++ body.entries

def Branch.allEntries : List Branch → List Entry
  | [] => []
  | b :: rest => b.entries ++ Branch.allEntries rest

def Block.entries : Block → List Entry
  | ⟨statements, _⟩ => Statement.allEntries statements

def Block.optionalEntries : Option Block → List Entry
  | none => []
  | some b => b.entries

def Statement.allEntries : List Statement → List Entry
  | [] => []
  | s :: rest => s.entries ++ Statement.allEntries rest

end

theorem Statement.allEntries_eq (statements : List Statement) :
    Statement.allEntries statements = statements.flatMap Statement.entries := by
  induction statements with
  | nil => rfl
  | cons s rest ih => rw [allEntries, ih, List.flatMap_cons]

theorem Branch.allEntries_eq (branches : List Branch) :
    Branch.allEntries branches = branches.flatMap Branch.entries := by
  induction branches with
  | nil => rfl
  | cons b rest ih => rw [allEntries, ih, List.flatMap_cons]

theorem Statement.entries_conditional (branches : List Branch) (otherwise : Option Block)
    (origin : Origin) :
    (conditional branches otherwise origin).entries =
      branches.flatMap Branch.entries ++ otherwise.toList.flatMap Block.entries := by
  rw [entries, Branch.allEntries_eq]
  cases otherwise with
  | none => rfl
  | some b => rw [Block.optionalEntries, Option.toList_some, List.flatMap_singleton]

/-- A body that is wrapped into a block has the entries of its statement. -/
@[simp] theorem Block.entries_ofStatement (s : Statement) :
    (ofStatement s).entries = s.entries := by
  cases s with
  | block b => rfl
  | _ => exact List.append_nil _

theorem Branch.entries_mk (condition : Expr) (s : Statement) (origin : Origin) :
    Branch.entries ⟨condition, .ofStatement s, origin⟩ = condition.entries ++ s.entries := by
  rw [entries, Block.entries_ofStatement]

/-! ## Declarations -/

section Runs

variable {α : Type} (name typeName : α → Identifier) (rest : α → List Entry)

/-- The entries of declarations that share a type: their names, the type of the
first of them, and what else they have. -/
def runEntries (run : List α) : List Entry :=
  run.map (Identifier.entry ∘ name) ++
    (run.head?.toList.map (Identifier.entry ∘ typeName) ++ run.flatMap rest)

/-- The entries of declarations, one run with the same type after another. -/
def declEntries (decls : List α) : List Entry :=
  (decls.splitBy fun a b => typeName a = typeName b).flatMap (runEntries name typeName rest)

end Runs

/-- The entries of the initial value of a variable. -/
def VarDecl.initEntries (d : VarDecl) : List Entry :=
  d.init.toList.flatMap Expr.entries

def VarDecl.allEntries : List VarDecl → List Entry :=
  declEntries VarDecl.name VarDecl.typeName VarDecl.initEntries

def ConstDecl.entries (c : ConstDecl) : List Entry :=
  c.name.entry :: c.value.entries

def Parameter.allEntries : List Parameter → List Entry :=
  declEntries Parameter.name Parameter.typeName fun _ => []

/-! ## Programs -/

def Routine.Kind.entries : Routine.Kind → List Entry
  | .function returnType => [returnType.entry]
  | .procedure => []

def Routine.entries (r : Routine) : List Entry :=
  r.name.entry :: (Parameter.allEntries r.parameters ++
    (r.kind.entries ++ (VarDecl.allEntries r.locals ++ r.body.entries)))

def Program.entries (p : Program) : List Entry :=
  p.name.entry :: (p.vars.toList.flatMap (VarDecl.allEntries ·.decls) ++
    (p.consts.toList.flatMap (·.decls.flatMap ConstDecl.entries) ++
      (p.routines.flatMap Routine.entries ++ p.body.entries)))

end PascalSyntax
