import PascalSyntax.Program.Basic

/-!
# Statements inside statements

The statements of a program are those of its body and of the bodies of its
routines, and all that stand inside them (`Program.statements`).

A bare block is one that a single statement without `begin` and `end` has been
wrapped into, and an open statement is one that an `else` after it could belong
to.  Whether a statement is open depends on what it ends with, through any number
of loops and conditionals.
-/

namespace PascalSyntax

/-! ## Nesting -/

mutual

/-- A statement and all that stand inside it. -/
def Statement.nested : Statement → List Statement
  | .assignment target value origin => [.assignment target value origin]
  | .call c => [.call c]
  | .conditional branches otherwise origin =>
    .conditional branches otherwise origin ::
      (Branch.allNested branches ++ Block.optionalNested otherwise)
  | .whileLoop branch origin => .whileLoop branch origin :: branch.nested
  | .forLoop counter first last direction body origin =>
    .forLoop counter first last direction body origin :: body.nested
  | .block b => .block b :: b.nested

def Branch.nested : Branch → List Statement
  | ⟨_, body, _⟩ => body.nested

def Branch.allNested : List Branch → List Statement
  | [] => []
  | b :: rest => b.nested ++ Branch.allNested rest

def Block.nested : Block → List Statement
  | ⟨statements, _⟩ => Statement.allNested statements

def Block.optionalNested : Option Block → List Statement
  | none => []
  | some b => b.nested

def Statement.allNested : List Statement → List Statement
  | [] => []
  | s :: rest => s.nested ++ Statement.allNested rest

end

theorem Statement.allNested_eq (statements : List Statement) :
    Statement.allNested statements = statements.flatMap Statement.nested := by
  induction statements with
  | nil => rfl
  | cons s rest ih => rw [allNested, ih, List.flatMap_cons]

theorem Branch.allNested_eq (branches : List Branch) :
    Branch.allNested branches = branches.flatMap (·.body.nested) := by
  induction branches with
  | nil => rfl
  | cons b rest ih =>
    cases b
    rw [allNested, ih, List.flatMap_cons, nested]

theorem Statement.nested_conditional (branches : List Branch) (otherwise : Option Block)
    (origin : Origin) :
    (conditional branches otherwise origin).nested = conditional branches otherwise origin ::
      (branches.flatMap (·.body.nested) ++ otherwise.toList.flatMap Block.nested) := by
  rw [nested, Branch.allNested_eq]
  cases otherwise with
  | none => rfl
  | some b => rw [Block.optionalNested, Option.toList_some, List.flatMap_singleton]

theorem Block.nested_eq (b : Block) : b.nested = b.statements.flatMap Statement.nested := by
  cases b
  rw [nested, Statement.allNested_eq]

/-- What stands inside the block of a statement stands inside the statement. -/
theorem Block.mem_nested_ofStatement {s s' : Statement} (h : s' ∈ (ofStatement s).nested) :
    s' ∈ s.nested := by
  cases s with
  | block b =>
    rw [Statement.nested]
    exact List.mem_cons_of_mem _ h
  | _ =>
    have hsingle : s' ∈ Statement.nested _ ++ [] := h
    rwa [List.append_nil] at hsingle

/-- All statements of a program, at any depth. -/
def Program.statements (p : Program) : List Statement :=
  p.routines.flatMap (·.body.nested) ++ p.body.nested

/-! ## Bare blocks and open statements -/

/-- The block is the single statement, whose origin it takes over. -/
def Block.IsBare (b : Block) (s : Statement) : Prop :=
  b.statements = [s] ∧ b.origin = s.origin

/-- The statement ends with a conditional that has no `else`. -/
inductive Statement.Open : Statement → Prop where
  | withoutElse (branches : List Branch) (origin : Origin) :
    Open (.conditional branches none origin)
  | withElse {b : Block} {s : Statement} (branches : List Branch) (origin : Origin) :
    b.IsBare s → Open s → Open (.conditional branches (some b) origin)
  | whileLoop {branch : Branch} {s : Statement} (origin : Origin) :
    branch.body.IsBare s → Open s → Open (.whileLoop branch origin)
  | forLoop {body : Block} {s : Statement} (counter : Identifier) (first last : Expr)
    (direction : Direction) (origin : Origin) :
    body.IsBare s → Open s → Open (.forLoop counter first last direction body origin)

namespace Statement

/-- Whether the statement has a body of its own, after a keyword. -/
def hasBody : Statement → Bool
  | .conditional _ _ _ => true
  | .whileLoop _ _ => true
  | .forLoop _ _ _ _ _ _ => true
  | _ => false

theorem Open.hasBody {s : Statement} (h : s.Open) : s.hasBody = true := by
  cases h <;> rfl

/-- The branches of a conditional do not matter to whether it is open. -/
theorem Open.changeBranches {branches : List Branch} {otherwise : Option Block} {origin : Origin}
    (h : Open (.conditional branches otherwise origin)) (branches' : List Branch)
    (origin' : Origin) : Open (.conditional branches' otherwise origin') := by
  cases h with
  | withoutElse => exact .withoutElse branches' origin'
  | withElse _ _ hbare hopen => exact .withElse branches' origin' hbare hopen

/-- Every `else` of a conditional belongs to the nearest `if` that can take it.  A
branch that an `else` follows has no open statement for its body, and after the
last `else` stands no conditional, which would be a branch more. -/
structure ElseNearest (branches : List Branch) (otherwise : Option Block) : Prop where
  closed : ∀ front b back, branches = front ++ b :: back → back ≠ [] ∨ otherwise ≠ none →
    ∀ s, b.body.IsBare s → ¬ s.Open
  flat : ∀ b s, otherwise = some b → b.IsBare s →
    ∀ branches' otherwise' origin', s ≠ .conditional branches' otherwise' origin'

namespace ElseNearest

variable {branches : List Branch} {otherwise : Option Block}

theorem nil (hflat : ∀ b s, otherwise = some b → b.IsBare s →
    ∀ branches' otherwise' origin', s ≠ .conditional branches' otherwise' origin') :
    ElseNearest [] otherwise := by
  refine ⟨?_, hflat⟩
  intro front b back hsplit
  exact absurd hsplit.symm (List.append_ne_nil_of_right_ne_nil front (List.cons_ne_nil b back))

theorem cons {b : Branch} (hb : ∀ s, b.body.IsBare s → ¬ s.Open)
    (h : ElseNearest branches otherwise) : ElseNearest (b :: branches) otherwise := by
  refine ⟨?_, h.flat⟩
  intro front b' back hsplit hnext
  cases front with
  | nil =>
    obtain ⟨rfl, -⟩ := List.cons.inj hsplit
    exact hb
  | cons x front =>
    obtain ⟨-, hrest⟩ := List.cons.inj hsplit
    exact h.closed front b' back hrest hnext

/-- No `else` follows the branch of a conditional that has only this one. -/
theorem withoutElse (b : Branch) : ElseNearest [b] none := by
  refine ⟨?_, nofun⟩
  intro front b' back hsplit hnext
  have hlength := congrArg List.length hsplit
  rw [List.length_append, List.length_singleton, List.length_cons] at hlength
  have hback : back = [] := List.eq_nil_of_length_eq_zero (by omega)
  rcases hnext with hne | hne
  · exact absurd hback hne
  · exact absurd rfl hne

end ElseNearest
end Statement
end PascalSyntax
