import PascalSyntax.Program.Basic

/-!
# Trees with the directions turned

A counting loop goes upward or downward.  The other tree of a program has every
one of its counting loops turned, at whatever depth it is, and is the same in all
else.  Turning the loops twice changes nothing (`Program.turned_turned`).
-/

namespace PascalSyntax

/-- The other direction. -/
def Direction.opposite : Direction → Direction
  | .upward => .downward
  | .downward => .upward

@[simp] theorem Direction.opposite_opposite (d : Direction) : d.opposite.opposite = d := by
  cases d <;> rfl

mutual

/-- The statement with every counting loop in it turned. -/
def Statement.turned : Statement → Statement
  | .assignment target value origin => .assignment target value origin
  | .call c => .call c
  | .conditional branches otherwise origin =>
    .conditional (Branch.allTurned branches) (Block.turned? otherwise) origin
  | .whileLoop branch origin => .whileLoop branch.turned origin
  | .forLoop counter first last direction body origin =>
    .forLoop counter first last direction.opposite body.turned origin
  | .block b => .block b.turned

def Branch.turned : Branch → Branch
  | ⟨condition, body, origin⟩ => ⟨condition, body.turned, origin⟩

def Branch.allTurned : List Branch → List Branch
  | [] => []
  | b :: rest => b.turned :: Branch.allTurned rest

def Block.turned : Block → Block
  | ⟨statements, origin⟩ => ⟨Statement.allTurned statements, origin⟩

def Block.turned? : Option Block → Option Block
  | none => none
  | some b => some b.turned

def Statement.allTurned : List Statement → List Statement
  | [] => []
  | s :: rest => s.turned :: Statement.allTurned rest

end

theorem Statement.allTurned_eq_map (statements : List Statement) :
    allTurned statements = statements.map turned := by
  induction statements with
  | nil => rfl
  | cons s rest ih => rw [allTurned, ih, List.map_cons]

/-- A body is turned as the statement that it is made from. -/
theorem Block.turned_ofStatement (s : Statement) :
    (ofStatement s).turned = ofStatement s.turned := by
  cases s <;> rfl

mutual

theorem Statement.turned_turned : ∀ s : Statement, s.turned.turned = s
  | .assignment _ _ _ => rfl
  | .call _ => rfl
  | .conditional branches otherwise origin => by
    rw [Statement.turned, Statement.turned, Branch.allTurned_allTurned branches,
      Block.turned?_turned? otherwise]
  | .whileLoop branch origin => by
    rw [Statement.turned, Statement.turned, Branch.turned_turned branch]
  | .forLoop counter first last direction body origin => by
    rw [Statement.turned, Statement.turned, Direction.opposite_opposite, Block.turned_turned body]
  | .block b => by rw [Statement.turned, Statement.turned, Block.turned_turned b]

theorem Branch.turned_turned : ∀ b : Branch, b.turned.turned = b
  | ⟨condition, body, origin⟩ => by
    rw [Branch.turned, Branch.turned, Block.turned_turned body]

theorem Branch.allTurned_allTurned :
    ∀ branches : List Branch, Branch.allTurned (Branch.allTurned branches) = branches
  | [] => rfl
  | b :: rest => by
    rw [Branch.allTurned, Branch.allTurned, Branch.turned_turned b,
      Branch.allTurned_allTurned rest]

theorem Block.turned_turned : ∀ b : Block, b.turned.turned = b
  | ⟨statements, origin⟩ => by
    rw [Block.turned, Block.turned, Statement.allTurned_allTurned statements]

theorem Block.turned?_turned? : ∀ b : Option Block, Block.turned? (Block.turned? b) = b
  | none => rfl
  | some b => by rw [Block.turned?, Block.turned?, Block.turned_turned b]

theorem Statement.allTurned_allTurned :
    ∀ statements : List Statement, Statement.allTurned (Statement.allTurned statements) = statements
  | [] => rfl
  | s :: rest => by
    rw [Statement.allTurned, Statement.allTurned, Statement.turned_turned s,
      Statement.allTurned_allTurned rest]

end

/-- The routine with every counting loop of its body turned. -/
def Routine.turned (r : Routine) : Routine :=
  { r with body := r.body.turned }

@[simp] theorem Routine.turned_turned (r : Routine) : r.turned.turned = r := by
  rw [turned, turned, Block.turned_turned]

/-- The program with every counting loop turned, those of its routines
included. -/
def Program.turned (p : Program) : Program :=
  { p with
    routines := p.routines.map Routine.turned
    body := p.body.turned }

theorem Program.turned_turned (p : Program) : p.turned.turned = p := by
  have hroutines : (p.routines.map Routine.turned).map Routine.turned = p.routines := by
    rw [List.map_map]
    exact List.map_id'' Routine.turned_turned p.routines
  rw [turned, turned, Block.turned_turned]
  dsimp only
  rw [hroutines]

end PascalSyntax
