import PascalSyntax.Proofs.Expr.Reading
import PascalSyntax.Proofs.Parser.Local

/-!
# Where the reading of an expression fails

The kind of its first token decides how an operand can fail, and the readers of
expressions are local: an error in an expression depends on the tokens up to the
one at which it is found (`Parser.expression_local`).
-/

namespace PascalSyntax
namespace Parser

/-! ## Operands -/

theorem fails_integer_iff {t : Token} {us rest : List Token} {reason : Reason} :
    (integer t).Fails us reason rest ↔
      Numeral.signed? t.text.toList = none ∧ reason = .integerOutOfRange t ∧ rest = us := by
  rw [Fails, integer]
  cases h : Numeral.signed? t.text.toList with
  | none => simp [eq_comm]
  | some value => simp

section Over

variable {expression operand : Parser Cursor Expr}

theorem fails_primaryOver_nil_iff {rest : List Token} {reason : Reason} :
    (primaryOver expression).Fails [] reason rest ↔
      reason = .expected .expression ∧ rest = [] := by
  rw [primaryOver, fails_peek?_bind_iff]
  exact fails_fail_iff

/-- The kind of its first token decides how an operand fails. -/
theorem fails_primaryOver_cons_iff {t : Token} {us rest : List Token} {reason : Reason} :
    (primaryOver expression).Fails (t :: us) reason rest ↔
      match t.kind with
      | .number => Numeral.signed? t.text.toList = none ∧ reason = .integerOutOfRange t ∧
          rest = t :: us
      | .string => False
      | .identifier => (nameOrCall expression).Fails (t :: us) reason rest
      | _ => (parenthesized expression).Fails (t :: us) reason rest := by
  rw [primaryOver, fails_peek?_bind_iff, List.head?_cons]
  cases hk : t.kind <;> simp only [hk]
  case number => simp only [bind_pure_comp, fails_map_iff, fails_integer_iff]
  case string =>
    have hfront : Token.front? (t :: us) = some .string := by
      simp [Token.terminal?, hk]
    simp only [bind_pure_comp, fails_map_iff, fails_take_iff, hfront]
    simp
  all_goals exact Iff.rfl

/-! ## Locality -/

theorem callOf_local (he : Local expression) (routine : Identifier) :
    Local (callOf expression routine) := by
  have hargs : Local (arguments expression) :=
    .take?_bind (fun _ => .pure [])
      ((he.separated _).bind fun _ => (Local.take _ _).bind fun _ => .pure _)
  exact .take?_bind (fun _ => hargs.bind fun _ => .pure _) (.pure _)

theorem identifier_local : Local identifier :=
  (Local.take _ _).bind fun _ => .pure _

theorem nameOrCall_local (he : Local expression) : Local (nameOrCall expression) :=
  identifier_local.bind fun name =>
    .sees_bind ((callOf_local he name).bind fun _ => .pure _) (.pure _)

theorem parenthesized_local (he : Local expression) : Local (parenthesized expression) :=
  .take?_bind (fun _ => he.bind fun _ => (Local.take _ _).bind fun _ => .pure _) (.fail _)

theorem primaryOver_local (he : Local expression) : Local (primaryOver expression) := by
  refine Local.peek?_bind fun us => ?_
  cases hhead : us.head? with
  | none => exact Local.fail _ us
  | some t =>
    simp only
    cases t.kind with
    | number =>
      -- the literal that is out of range is the next token
      have hint : LocalAt (integer t) us := by
        obtain ⟨vs, rfl⟩ := List.head?_eq_some_iff.mp hhead
        refine ⟨?_, ?_⟩
        · intro literal rest h
          obtain ⟨value, hv, rfl, rfl⟩ := reads_integer_iff.mp h
          exact ⟨[t], rfl, fun rest' _ => reads_integer_iff.mpr ⟨value, hv, rfl, rfl⟩⟩
        · intro reason rest h
          obtain ⟨hv, rfl, rfl⟩ := fails_integer_iff.mp h
          refine ⟨?_, [], rfl, fun rest' _ => fails_integer_iff.mpr ⟨hv, rfl, rfl⟩⟩
          intro literal he
          cases he
          rfl
      exact hint.bind fun literal => .pure (Expr.integer literal)
    | string => exact ((Local.take _ _).bind fun _ => .pure _) us
    | identifier => exact nameOrCall_local he us
    | _ => exact parenthesized_local he us

theorem unaryOver_local (ho : Local operand) (he : Local expression) :
    Local (unaryOver operand expression) :=
  .takeFirst?_bind (fun _ => ho.bind fun _ => .pure _) (primaryOver_local he)

theorem operation_local (operators : List BinaryOperator) (ho : Local operand) :
    Local (operation operators operand) :=
  .takeFirst?_bind (fun _ => ho.bind fun _ => .pure _) (.pure none)

theorem binaryLevel_local (operators : List BinaryOperator) (ho : Local operand) :
    Local (binaryLevel operators operand) := by
  rw [binaryLevel]
  exact ho.bind fun first => (operation_local operators ho).many.bind fun others => .pure _

theorem relational_local (ho : Local operand) : Local (relational operand) :=
  binaryLevel_local _ <| binaryLevel_local _ <| binaryLevel_local _ ho

end Over

theorem unary_local (levels : Nat) : Local (unary levels) := by
  induction levels with
  | zero => exact unaryOver_local .tooDeep .tooDeep
  | succ levels ih => exact unaryOver_local ih (relational_local ih)

theorem expression_local (levels : Nat) : Local (expression levels) := by
  cases levels with
  | zero => exact .tooDeep
  | succ levels => exact relational_local (unary_local levels)

end Parser
end PascalSyntax
