import PascalSyntax.Proofs.Parser.Room
import PascalSyntax.Proofs.Statement.Failing

/-!
# Room in expressions and statements

The readers of expressions and statements have room for as many tokens as they
have levels of nesting (`Parser.expression_hasRoom`, `Parser.statement_hasRoom`):
what takes a level stands after a token that is not part of it, such as an
opening parenthesis, a unary operator or a keyword.
-/

namespace PascalSyntax
namespace Parser

variable {n : Nat}

/-! ## Expressions -/

theorem identifier_hasRoom : HasRoom identifier n :=
  (HasRoom.take _ _).map _

theorem integer_hasRoom (t : Token) : HasRoom (integer t) n := by
  refine ⟨?_, ?_⟩
  · intro us literal rest hreads
    obtain ⟨value, -, -, rfl⟩ := reads_integer_iff.mp hreads
    rw [List.length_tail]
    omega
  · intro us reason rest hfails _
    obtain ⟨-, rfl, -⟩ := fails_integer_iff.mp hfails
    exact Reason.noConfusion

section Over

variable {expression operand : Parser Cursor Expr} (he : HasRoom expression n)
  (ho : HasRoom operand n)

section Expressions

include he

theorem arguments_hasRoom : HasRoom (arguments expression) n :=
  (HasRoom.take? _).option_bind (fun _ => .pure [])
    ((he.separated _).bind fun _ => (HasRoom.take _ _).map _)

theorem callOf_hasRoom (routine : Identifier) : HasRoom (callOf expression routine) (n + 1) :=
  .take?_bind (fun _ => (arguments_hasRoom he).map _) (.pure _)

theorem nameOrCall_hasRoom : HasRoom (nameOrCall expression) (n + 1) :=
  identifier_hasRoom.bind fun name =>
    .sees_bind ((callOf_hasRoom he name).map _) (.pure _)

theorem parenthesized_hasRoom : HasRoom (parenthesized expression) (n + 1) :=
  .take?_bind (fun _ => he.bind fun _ => (HasRoom.take _ _).map _) (.fail _)

theorem primaryOver_hasRoom : HasRoom (primaryOver expression) (n + 1) := by
  apply HasRoom.peek?.option_bind
  · intro t
    simp only
    cases t.kind with
    | number => exact (integer_hasRoom t).map _
    | string => exact (HasRoom.take _ _).map _
    | identifier => exact nameOrCall_hasRoom he
    | _ => exact parenthesized_hasRoom he
  · exact .fail _

include ho in
theorem unaryOver_hasRoom : HasRoom (unaryOver operand expression) (n + 1) :=
  .takeFirst?_bind (fun _ _ => UnaryOperator.terminal_inj) (fun _ => ho.map _)
    (primaryOver_hasRoom he)

end Expressions

include ho

theorem binaryLevel_hasRoom (operators : List BinaryOperator) :
    HasRoom (binaryLevel operators operand) n := by
  have hround : HasRoom (operation operators operand) n :=
    (HasRoom.takeFirst? _ _).option_bind (fun _ => ho.map _) (.pure none)
  rw [binaryLevel]
  exact ho.bind fun first => hround.many.map _

theorem relational_hasRoom : HasRoom (relational operand) n :=
  binaryLevel_hasRoom (binaryLevel_hasRoom (binaryLevel_hasRoom ho _) _) _

end Over

theorem unary_hasRoom (levels : Nat) : HasRoom (unary levels) (levels + 1) := by
  induction levels with
  | zero => exact unaryOver_hasRoom .tooDeep .tooDeep
  | succ levels ih => exact unaryOver_hasRoom (relational_hasRoom ih) ih

theorem expression_hasRoom (levels : Nat) : HasRoom (expression levels) levels := by
  cases levels with
  | zero => exact .tooDeep
  | succ levels => exact relational_hasRoom (unary_hasRoom levels)

/-! ## Statements -/

section Over

variable {expression : Parser Cursor Expr} {statement : Parser Cursor Statement}
  (he : HasRoom expression n)
  (hs : HasRoom statement n)

section Statements

include hs

theorem body_hasRoom : HasRoom (body statement) n :=
  hs.map _

include he in
theorem branch_hasRoom (ending : String) (keyword : Token) :
    HasRoom (branch expression statement ending keyword) n :=
  he.bind fun _ => (HasRoom.take _ _).bind fun _ => (body_hasRoom hs).map _

include he in
theorem conditional_hasRoom (keyword : Token) :
    HasRoom (conditional expression statement keyword) n := by
  have hbranch := branch_hasRoom he hs "then"
  have helseIf : HasRoom (elseIf expression statement) n :=
    (HasRoom.takeBoth? _ _).option_bind (fun t => (hbranch t).map _) (.pure none)
  rw [conditional]
  exact (hbranch keyword).bind fun _ => helseIf.many.bind fun _ =>
    ((body_hasRoom hs).another _).map _

theorem item?_hasRoom : HasRoom (item? statement) n := by
  have hseparator : HasRoom separator n :=
    (HasRoom.take? _).option_bind (fun _ => .pure ()) (.sees_bind (.pure ()) (.fail _))
  exact (HasRoom.take? _).option_bind (fun _ => .pure none) <|
    (HasRoom.take? _).option_bind (fun _ => .pure (some none)) <|
      hs.bind fun _ => hseparator.map _

/-- A block has room for its `begin` too. -/
theorem blockOver_hasRoom : HasRoom (blockOver statement) (n + 1) :=
  .take_bind fun _ => (item?_hasRoom hs).many.map _

include he in
theorem forLoop_hasRoom (keyword : Token) : HasRoom (forLoop expression statement keyword) n := by
  have hdirection : HasRoom direction n :=
    (HasRoom.takeFirst? _ _).option_bind (fun _ => .pure _) (.fail _)
  exact identifier_hasRoom.bind fun _ => (HasRoom.take _ _).bind fun _ => he.bind fun _ =>
    hdirection.bind fun _ => he.bind fun _ => (HasRoom.take _ _).bind fun _ =>
      (body_hasRoom hs).map _

end Statements

include he

theorem nameStatement_hasRoom : HasRoom (nameStatement expression) (n + 1) :=
  identifier_hasRoom.bind fun name =>
    .take?_bind (fun _ => he.map _) ((callOf_hasRoom he name).map _)

include hs

theorem statementOver_hasRoom : HasRoom (statementOver expression statement) (n + 1) :=
  .take?_bind (conditional_hasRoom he hs) <|
    .take?_bind (fun keyword => (branch_hasRoom he hs "do" keyword).map _) <|
      .take?_bind (forLoop_hasRoom he hs) <|
        .sees_bind ((blockOver_hasRoom hs).map _) <|
          .sees_bind (nameStatement_hasRoom he) (.fail _)

end Over

theorem statement_hasRoom (levels : Nat) : HasRoom (statement levels) levels := by
  induction levels with
  | zero => exact .tooDeep
  | succ levels ih => exact statementOver_hasRoom (expression_hasRoom levels) ih

theorem block_hasRoom (levels : Nat) : HasRoom (block levels) (levels + 1) :=
  blockOver_hasRoom (statement_hasRoom levels)

end Parser
end PascalSyntax
