import PascalSyntax.Proofs.Tree.Nested

/-!
# The levels that a tree needs

How many levels of nesting a tree needs is read off the tree.  An expression
takes one level and a unary operator one more, the arguments of a call are
expressions of their own, and binary operators take none.  A statement takes one
level, and a body only takes one of its own if it has its `begin`.

Parentheses around an operand leave no node, so a source may need more than its
tree.
-/

namespace PascalSyntax

/-! ## The greatest of some numbers -/

/-- The greatest value on a list, and 0 if there is none. -/
def greatest (f : α → Nat) (as : List α) : Nat :=
  (as.map f).foldr max 0

theorem greatest_le_iff {f : α → Nat} {as : List α} {n : Nat} :
    greatest f as ≤ n ↔ ∀ a ∈ as, f a ≤ n := by
  induction as with
  | nil => simp [greatest]
  | cons a as ih =>
    rw [List.forall_mem_cons, ← ih]
    exact Nat.max_le

/-! ## Expressions -/

mutual

/-- The levels that an expression needs below its own. -/
def Expr.inner : Expr → Nat
  | .identifier _ => 0
  | .integer _ => 0
  | .string _ => 0
  | .call c => c.inner
  | .binary _ left right _ => max left.inner right.inner
  | .unary _ operand _ => operand.inner + 1

def Argument.need : Argument → Nat
  | ⟨value, _, _, _, _⟩ => value.inner + 1

def Argument.greatestNeed : List Argument → Nat
  | [] => 0
  | a :: rest => max a.need (Argument.greatestNeed rest)

def Call.inner : Call → Nat
  | ⟨_, arguments, _⟩ => Argument.greatestNeed arguments

end

/-- The levels that an expression needs, its own included. -/
def Expr.need (e : Expr) : Nat :=
  e.inner + 1

theorem Expr.exists_levels {e : Expr} {n : Nat} (h : e.need ≤ n) : ∃ m, n = m + 1 := by
  rw [need] at h
  exact ⟨n - 1, by omega⟩

theorem Argument.need_eq (a : Argument) : a.need = a.value.need := by
  cases a
  rfl

theorem Argument.greatestNeed_eq (args : List Argument) :
    Argument.greatestNeed args = greatest Argument.need args := by
  induction args with
  | nil => rfl
  | cons a rest ih =>
    rw [greatestNeed, ih]
    rfl

theorem Call.inner_le_iff {c : Call} {n : Nat} :
    c.inner ≤ n ↔ ∀ a ∈ c.arguments, a.value.need ≤ n := by
  cases c
  rw [inner, Argument.greatestNeed_eq, greatest_le_iff]
  simp only [Argument.need_eq]

/-! ## Statements -/

mutual

/-- The levels that a statement needs, its own included. -/
def Statement.need : Statement → Nat
  | .assignment _ value _ => value.need + 1
  | .call c => c.inner + 1
  | .conditional branches otherwise _ =>
    max (Branch.greatestNeed branches) (Block.optionalNeed otherwise) + 1
  | .whileLoop branch _ => branch.need + 1
  | .forLoop _ first last _ body _ => max (max first.need last.need) body.need + 1
  | .block b => b.inner + 1

def Branch.need : Branch → Nat
  | ⟨condition, body, _⟩ => max condition.need body.need

def Branch.greatestNeed : List Branch → Nat
  | [] => 0
  | b :: rest => max b.need (Branch.greatestNeed rest)

/-- The levels that a body needs: a block that is the single statement, whose
origin it takes over, needs what that statement needs. -/
def Block.need : Block → Nat
  | ⟨statements, origin⟩ =>
    Statement.greatestNeed statements +
      if statements.map Statement.origin = [origin] then 0 else 1

/-- The levels that the statements of a block need. -/
def Block.inner : Block → Nat
  | ⟨statements, _⟩ => Statement.greatestNeed statements

def Block.optionalNeed : Option Block → Nat
  | none => 0
  | some b => b.need

def Statement.greatestNeed : List Statement → Nat
  | [] => 0
  | s :: rest => max s.need (Statement.greatestNeed rest)

end

theorem Statement.greatestNeed_eq (statements : List Statement) :
    Statement.greatestNeed statements = greatest Statement.need statements := by
  induction statements with
  | nil => rfl
  | cons s rest ih =>
    rw [greatestNeed, ih]
    rfl

theorem Branch.greatestNeed_eq (branches : List Branch) :
    Branch.greatestNeed branches = greatest Branch.need branches := by
  induction branches with
  | nil => rfl
  | cons b rest ih =>
    rw [greatestNeed, ih]
    rfl

/-! ## Bounds on statements -/

theorem Branch.need_le_iff {b : Branch} {n : Nat} :
    b.need ≤ n ↔ b.condition.need ≤ n ∧ b.body.need ≤ n := by
  cases b
  exact Nat.max_le

theorem Block.inner_le_iff {b : Block} {n : Nat} :
    b.inner ≤ n ↔ ∀ s ∈ b.statements, s.need ≤ n := by
  cases b
  rw [inner, Statement.greatestNeed_eq, greatest_le_iff]

theorem Block.optionalNeed_le_iff {o : Option Block} {n : Nat} :
    optionalNeed o ≤ n ↔ ∀ b ∈ o, b.need ≤ n := by
  cases o <;> simp [optionalNeed]

/-- A block that is wrapped around a statement takes no level. -/
theorem Block.need_bare (s : Statement) : need ⟨[s], s.origin⟩ = s.need := by
  rw [need, List.map_singleton, if_pos rfl, Statement.greatestNeed, Statement.greatestNeed,
    Nat.add_zero, Nat.max_zero]

/-- A block with a `begin` of its own takes a level. -/
theorem Block.need_of_begin {b : Block} (h : b.statements.map Statement.origin ≠ [b.origin]) :
    b.need = b.inner + 1 := by
  cases b
  rw [need, inner, if_neg h]

/-- The body that a statement becomes needs no more than the statement. -/
theorem Block.need_ofStatement_le (s : Statement) : (ofStatement s).need ≤ s.need := by
  cases s with
  | block b =>
    rw [ofStatement, Statement.need]
    cases b
    rw [need, inner]
    split <;> omega
  | _ => exact Nat.le_of_eq (need_bare _)

namespace Statement

variable {n : Nat}

theorem exists_levels {s : Statement} (h : s.need ≤ n) : ∃ m, n = m + 1 := by
  refine ⟨n - 1, ?_⟩
  cases s <;> rw [need] at h <;> omega

theorem need_conditional_le_iff {branches : List Branch} {otherwise : Option Block}
    {origin : Origin} :
    (conditional branches otherwise origin).need ≤ n + 1 ↔
      (∀ b ∈ branches, b.condition.need ≤ n ∧ b.body.need ≤ n) ∧
        ∀ b ∈ otherwise, b.need ≤ n := by
  rw [need, Nat.succ_le_succ_iff, Nat.max_le, Branch.greatestNeed_eq, greatest_le_iff,
    Block.optionalNeed_le_iff]
  simp only [Branch.need_le_iff]

theorem need_whileLoop_le_iff {branch : Branch} {origin : Origin} :
    (whileLoop branch origin).need ≤ n + 1 ↔
      branch.condition.need ≤ n ∧ branch.body.need ≤ n := by
  rw [need, Nat.succ_le_succ_iff, Branch.need_le_iff]

theorem need_forLoop_le_iff {counter : Identifier} {first last : Expr} {direction : Direction}
    {body : Block} {origin : Origin} :
    (forLoop counter first last direction body origin).need ≤ n + 1 ↔
      first.need ≤ n ∧ last.need ≤ n ∧ body.need ≤ n := by
  rw [need, Nat.succ_le_succ_iff, Nat.max_le, Nat.max_le, and_assoc]

theorem need_block_le_iff {b : Block} :
    (block b).need ≤ n + 1 ↔ ∀ s ∈ b.statements, s.need ≤ n := by
  rw [need, Nat.succ_le_succ_iff, Block.inner_le_iff]

end Statement

/-! ## Programs -/

/-- The levels that the initial value of a variable needs. -/
def VarDecl.need (d : VarDecl) : Nat :=
  greatest Expr.need d.init.toList

def Routine.need (r : Routine) : Nat :=
  max (greatest VarDecl.need r.locals) r.body.inner

/-- The levels that a program needs: for the values of its variables and
constants, and for the statements in its body and in those of its routines. -/
def Program.need (p : Program) : Nat :=
  max (greatest (greatest VarDecl.need ·.decls) p.vars.toList)
    (max (greatest (greatest (·.value.need) ·.decls) p.consts.toList)
      (max (greatest Routine.need p.routines) p.body.inner))

theorem VarDecl.need_le_iff {d : VarDecl} {n : Nat} : d.need ≤ n ↔ ∀ e ∈ d.init, e.need ≤ n := by
  rw [need, greatest_le_iff]
  simp only [Option.mem_toList, Option.mem_def]

theorem Routine.need_le_iff {r : Routine} {n : Nat} :
    r.need ≤ n ↔ (∀ d ∈ r.locals, d.need ≤ n) ∧ r.body.inner ≤ n := by
  rw [need, Nat.max_le, greatest_le_iff]

theorem Program.need_le_iff {p : Program} {n : Nat} :
    p.need ≤ n ↔ (∀ s ∈ p.vars, ∀ d ∈ s.decls, d.need ≤ n) ∧
      (∀ s ∈ p.consts, ∀ d ∈ s.decls, d.value.need ≤ n) ∧
      (∀ r ∈ p.routines, r.need ≤ n) ∧ p.body.inner ≤ n := by
  rw [need, Nat.max_le, Nat.max_le, Nat.max_le]
  simp only [greatest_le_iff, Option.mem_toList, Option.mem_def]

end PascalSyntax
