import PascalSyntax.Program.Basic

/-!
# Trees without their origins

Two trees are the same apart from their origins when they are equal once every
origin has been replaced by one and the same.  The replacement is a map over the
whole tree, and keeps all else: names, values, operators, directions, and which
parts there are.
-/

namespace PascalSyntax

/-- The origin that stands for all origins. -/
def Origin.erased : Origin := ⟨.start, ""⟩

namespace Identifier

def mapOrigin (f : Origin → Origin) (x : Identifier) : Identifier :=
  { x with origin := f x.origin }

end Identifier

mutual

def Expr.mapOrigin (f : Origin → Origin) : Expr → Expr
  | .identifier x => .identifier (x.mapOrigin f)
  | .integer literal => .integer ⟨literal.value, f literal.origin⟩
  | .string literal => .string ⟨literal.value, f literal.origin⟩
  | .call c => .call (c.mapOrigin f)
  | .binary op left right origin =>
    .binary op (left.mapOrigin f) (right.mapOrigin f) (f origin)
  | .unary op operand origin => .unary op (operand.mapOrigin f) (f origin)

def Argument.mapOrigin (f : Origin → Origin) : Argument → Argument
  | ⟨value, parameter, typeName, byReference, origin⟩ =>
    ⟨value.mapOrigin f, parameter.map (·.mapOrigin f), typeName.map (·.mapOrigin f), byReference,
      f origin⟩

def Argument.mapOrigins (f : Origin → Origin) : List Argument → List Argument
  | [] => []
  | a :: rest => a.mapOrigin f :: Argument.mapOrigins f rest

def Call.mapOrigin (f : Origin → Origin) : Call → Call
  | ⟨routine, arguments, origin⟩ =>
    ⟨routine.mapOrigin f, Argument.mapOrigins f arguments, f origin⟩

end

mutual

def Statement.mapOrigin (f : Origin → Origin) : Statement → Statement
  | .assignment target value origin =>
    .assignment (target.mapOrigin f) (value.mapOrigin f) (f origin)
  | .call c => .call (c.mapOrigin f)
  | .conditional branches otherwise origin =>
    .conditional (Branch.mapOrigins f branches) (Block.mapOrigin? f otherwise) (f origin)
  | .whileLoop branch origin => .whileLoop (branch.mapOrigin f) (f origin)
  | .forLoop counter first last direction body origin =>
    .forLoop (counter.mapOrigin f) (first.mapOrigin f) (last.mapOrigin f) direction
      (body.mapOrigin f) (f origin)
  | .block b => .block (b.mapOrigin f)

def Branch.mapOrigin (f : Origin → Origin) : Branch → Branch
  | ⟨condition, body, origin⟩ => ⟨condition.mapOrigin f, body.mapOrigin f, f origin⟩

def Branch.mapOrigins (f : Origin → Origin) : List Branch → List Branch
  | [] => []
  | b :: rest => b.mapOrigin f :: Branch.mapOrigins f rest

def Block.mapOrigin (f : Origin → Origin) : Block → Block
  | ⟨statements, origin⟩ => ⟨Statement.mapOrigins f statements, f origin⟩

def Block.mapOrigin? (f : Origin → Origin) : Option Block → Option Block
  | none => none
  | some b => some (b.mapOrigin f)

def Statement.mapOrigins (f : Origin → Origin) : List Statement → List Statement
  | [] => []
  | s :: rest => s.mapOrigin f :: Statement.mapOrigins f rest

end

theorem Argument.mapOrigins_eq_map (f : Origin → Origin) (args : List Argument) :
    Argument.mapOrigins f args = args.map (·.mapOrigin f) := by
  induction args with
  | nil => rfl
  | cons a rest ih => rw [mapOrigins, ih, List.map_cons]

theorem Branch.mapOrigins_eq_map (f : Origin → Origin) (branches : List Branch) :
    Branch.mapOrigins f branches = branches.map (·.mapOrigin f) := by
  induction branches with
  | nil => rfl
  | cons b rest ih => rw [mapOrigins, ih, List.map_cons]

theorem Statement.mapOrigins_eq_map (f : Origin → Origin) (statements : List Statement) :
    Statement.mapOrigins f statements = statements.map (·.mapOrigin f) := by
  induction statements with
  | nil => rfl
  | cons s rest ih => rw [mapOrigins, ih, List.map_cons]

theorem Block.mapOrigin?_eq_map (f : Origin → Origin) (b : Option Block) :
    Block.mapOrigin? f b = b.map (·.mapOrigin f) := by
  cases b <;> rfl

/-- An expression without its origins. -/
def Expr.erase (e : Expr) : Expr :=
  e.mapOrigin fun _ => .erased

def Statement.erase (s : Statement) : Statement :=
  s.mapOrigin fun _ => .erased

def Branch.erase (b : Branch) : Branch :=
  b.mapOrigin fun _ => .erased

def Block.erase (b : Block) : Block :=
  b.mapOrigin fun _ => .erased

theorem Branch.erase_mk {b : Branch} {condition : Expr} {body : Block} {origin : Origin}
    (hcondition : condition.erase = b.condition.erase) (hbody : body.erase = b.body.erase) :
    Branch.erase ⟨condition, body, origin⟩ = b.erase := by
  cases b
  simp only [Expr.erase, Block.erase] at hcondition hbody
  simp only [erase, mapOrigin, hcondition, hbody]

/-- Blocks of statements that are the same apart from their origins. -/
theorem Block.erase_mk {statements statements' : List Statement} {origin origin' : Origin}
    (h : statements.map Statement.erase = statements'.map Statement.erase) :
    Block.erase ⟨statements, origin⟩ = Block.erase ⟨statements', origin'⟩ := by
  simp only [erase, mapOrigin, Statement.mapOrigins_eq_map]
  rw [show statements.map (·.mapOrigin fun _ => .erased) = _ from h]
  rfl

namespace VarDecl

def mapOrigin (f : Origin → Origin) (d : VarDecl) : VarDecl where
  name := d.name.mapOrigin f
  typeName := d.typeName.mapOrigin f
  init := d.init.map (·.mapOrigin f)
  origin := f d.origin

def erase (d : VarDecl) : VarDecl :=
  d.mapOrigin fun _ => .erased

end VarDecl

namespace ConstDecl

def mapOrigin (f : Origin → Origin) (d : ConstDecl) : ConstDecl where
  name := d.name.mapOrigin f
  value := d.value.mapOrigin f
  origin := f d.origin

def erase (d : ConstDecl) : ConstDecl :=
  d.mapOrigin fun _ => .erased

end ConstDecl

namespace DeclSection

theorem map_getD {part : Option (DeclSection α)} {f : α → β} :
    ((part.map (·.decls)).getD []).map f = (part.map (·.decls.map f)).getD [] := by
  cases part <;> rfl

/-- Sections with the same declarations are the same once they have one origin. -/
theorem map_mk {part part' : Option (DeclSection α)} {f : α → β} (origin : Origin)
    (h : part.map (·.decls.map f) = part'.map (·.decls.map f)) :
    part.map (fun s => DeclSection.mk (s.decls.map f) origin) =
      part'.map fun s => DeclSection.mk (s.decls.map f) origin := by
  have := congrArg (Option.map (DeclSection.mk · origin)) h
  rwa [Option.map_map, Option.map_map] at this

end DeclSection

namespace Parameter

def mapOrigin (f : Origin → Origin) (p : Parameter) : Parameter where
  name := p.name.mapOrigin f
  typeName := p.typeName.mapOrigin f
  byReference := p.byReference
  origin := f p.origin

def erase (p : Parameter) : Parameter :=
  p.mapOrigin fun _ => .erased

end Parameter

namespace Routine

def Kind.mapOrigin (f : Origin → Origin) : Kind → Kind
  | .function returnType => .function (returnType.mapOrigin f)
  | .procedure => .procedure

def mapOrigin (f : Origin → Origin) (r : Routine) : Routine where
  kind := r.kind.mapOrigin f
  name := r.name.mapOrigin f
  parameters := r.parameters.map (·.mapOrigin f)
  locals := r.locals.map (·.mapOrigin f)
  body := r.body.mapOrigin f
  origin := f r.origin

def erase (r : Routine) : Routine :=
  r.mapOrigin fun _ => .erased

theorem erase_congr {r r' : Routine}
    (hkind : r.kind.mapOrigin (fun _ => .erased) = r'.kind.mapOrigin fun _ => .erased)
    (hname : r.name.mapOrigin (fun _ => .erased) = r'.name.mapOrigin fun _ => .erased)
    (hparameters : r.parameters.map Parameter.erase = r'.parameters.map Parameter.erase)
    (hlocals : r.locals.map VarDecl.erase = r'.locals.map VarDecl.erase)
    (hbody : r.body.erase = r'.body.erase) : r.erase = r'.erase := by
  unfold erase mapOrigin
  congr 1

end Routine

namespace Program

def mapOrigin (f : Origin → Origin) (p : Program) : Program where
  name := p.name.mapOrigin f
  vars := p.vars.map fun s => ⟨s.decls.map (·.mapOrigin f), f s.origin⟩
  consts := p.consts.map fun s => ⟨s.decls.map (·.mapOrigin f), f s.origin⟩
  routines := p.routines.map (·.mapOrigin f)
  body := p.body.mapOrigin f
  origin := f p.origin

/-- A program without its origins. -/
def erase (p : Program) : Program :=
  p.mapOrigin fun _ => .erased

theorem erase_congr {p q : Program}
    (hname : p.name.mapOrigin (fun _ => .erased) = q.name.mapOrigin fun _ => .erased)
    (hvars : p.vars.map (·.decls.map VarDecl.erase) = q.vars.map (·.decls.map VarDecl.erase))
    (hconsts : p.consts.map (·.decls.map ConstDecl.erase) =
      q.consts.map (·.decls.map ConstDecl.erase))
    (hroutines : p.routines.map Routine.erase = q.routines.map Routine.erase)
    (hbody : p.body.erase = q.body.erase) : p.erase = q.erase := by
  unfold erase mapOrigin
  congr 1
  · exact DeclSection.map_mk .erased hvars
  · exact DeclSection.map_mk .erased hconsts

end Program

end PascalSyntax
