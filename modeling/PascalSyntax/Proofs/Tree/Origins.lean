import PascalSyntax.Proofs.Tree.Erasure

/-!
# Maps over the origins of a tree

A map over the origins of a tree goes along with the ways in which trees are
built from others, and the identity changes no tree (`Program.mapOrigin_id`).
-/

namespace PascalSyntax

section Parts

variable (f : Origin → Origin)

theorem Expr.origin_mapOrigin (e : Expr) : (e.mapOrigin f).origin = f e.origin := by
  cases e with
  | call c => cases c; rfl
  | _ => rfl

theorem Statement.origin_mapOrigin (s : Statement) : (s.mapOrigin f).origin = f s.origin := by
  cases s with
  | call c => cases c; rfl
  | block b => cases b; rfl
  | _ => rfl

theorem Argument.mapOrigin_ofValue (e : Expr) :
    (ofValue e).mapOrigin f = ofValue (e.mapOrigin f) := by
  rw [ofValue, ofValue, Argument.mapOrigin, Expr.origin_mapOrigin]
  rfl

theorem Block.mapOrigin_ofStatement (s : Statement) :
    (ofStatement s).mapOrigin f = ofStatement (s.mapOrigin f) := by
  cases s with
  | block b => rfl
  | call c => cases c; rfl
  | _ => rfl

end Parts

/-! ## The identity -/

theorem Identifier.mapOrigin_id (x : Identifier) : x.mapOrigin id = x := rfl

mutual

theorem Expr.mapOrigin_id : ∀ e : Expr, e.mapOrigin id = e
  | .identifier _ => rfl
  | .integer _ => rfl
  | .string _ => rfl
  | .call c => by rw [Expr.mapOrigin, Call.mapOrigin_id c]
  | .binary op left right origin => by
    rw [Expr.mapOrigin, Expr.mapOrigin_id left, Expr.mapOrigin_id right, id]
  | .unary op operand origin => by rw [Expr.mapOrigin, Expr.mapOrigin_id operand, id]

theorem Argument.mapOrigin_id : ∀ a : Argument, a.mapOrigin id = a
  | ⟨value, parameter, typeName, byReference, origin⟩ => by
    rw [Argument.mapOrigin, Expr.mapOrigin_id value]
    cases parameter <;> cases typeName <;> rfl

theorem Argument.mapOrigins_id : ∀ args : List Argument, Argument.mapOrigins id args = args
  | [] => rfl
  | a :: rest => by rw [Argument.mapOrigins, Argument.mapOrigin_id a, Argument.mapOrigins_id rest]

theorem Call.mapOrigin_id : ∀ c : Call, c.mapOrigin id = c
  | ⟨routine, arguments, origin⟩ => by
    rw [Call.mapOrigin, Argument.mapOrigins_id arguments, Identifier.mapOrigin_id, id]

end

mutual

theorem Statement.mapOrigin_id : ∀ s : Statement, s.mapOrigin id = s
  | .assignment target value origin => by
    rw [Statement.mapOrigin, Expr.mapOrigin_id, Identifier.mapOrigin_id, id]
  | .call c => by rw [Statement.mapOrigin, Call.mapOrigin_id]
  | .conditional branches otherwise origin => by
    rw [Statement.mapOrigin, Branch.mapOrigins_id branches, Block.mapOrigin?_id otherwise, id]
  | .whileLoop branch origin => by rw [Statement.mapOrigin, Branch.mapOrigin_id branch, id]
  | .forLoop counter first last direction body origin => by
    rw [Statement.mapOrigin, Expr.mapOrigin_id, Expr.mapOrigin_id, Identifier.mapOrigin_id,
      Block.mapOrigin_id body, id]
  | .block b => by rw [Statement.mapOrigin, Block.mapOrigin_id b]

theorem Branch.mapOrigin_id : ∀ b : Branch, b.mapOrigin id = b
  | ⟨condition, body, origin⟩ => by
    rw [Branch.mapOrigin, Expr.mapOrigin_id, Block.mapOrigin_id body, id]

theorem Branch.mapOrigins_id : ∀ branches : List Branch, Branch.mapOrigins id branches = branches
  | [] => rfl
  | b :: rest => by rw [Branch.mapOrigins, Branch.mapOrigin_id b, Branch.mapOrigins_id rest]

theorem Block.mapOrigin_id : ∀ b : Block, b.mapOrigin id = b
  | ⟨statements, origin⟩ => by rw [Block.mapOrigin, Statement.mapOrigins_id statements, id]

theorem Block.mapOrigin?_id : ∀ b : Option Block, Block.mapOrigin? id b = b
  | none => rfl
  | some b => by rw [Block.mapOrigin?, Block.mapOrigin_id b]

theorem Statement.mapOrigins_id :
    ∀ statements : List Statement, Statement.mapOrigins id statements = statements
  | [] => rfl
  | s :: rest => by
    rw [Statement.mapOrigins, Statement.mapOrigin_id s, Statement.mapOrigins_id rest]

end

theorem VarDecl.mapOrigin_id (d : VarDecl) : d.mapOrigin id = d := by
  simp only [mapOrigin, Identifier.mapOrigin_id, Expr.mapOrigin_id, Option.map_id', id]

theorem ConstDecl.mapOrigin_id (d : ConstDecl) : d.mapOrigin id = d := by
  simp only [mapOrigin, Identifier.mapOrigin_id, Expr.mapOrigin_id, id]

theorem Parameter.mapOrigin_id (p : Parameter) : p.mapOrigin id = p := rfl

theorem Routine.mapOrigin_id (r : Routine) : r.mapOrigin id = r := by
  have hkind : r.kind.mapOrigin id = r.kind := by
    cases r.kind <;> rfl
  simp only [mapOrigin, hkind, Identifier.mapOrigin_id, Parameter.mapOrigin_id,
    VarDecl.mapOrigin_id, Block.mapOrigin_id, List.map_id', id]

/-- A map that changes no origin changes no program. -/
theorem Program.mapOrigin_id (p : Program) : p.mapOrigin id = p := by
  simp only [mapOrigin, Identifier.mapOrigin_id, VarDecl.mapOrigin_id, ConstDecl.mapOrigin_id,
    Routine.mapOrigin_id, Block.mapOrigin_id, List.map_id', Option.map_id', id]

end PascalSyntax
