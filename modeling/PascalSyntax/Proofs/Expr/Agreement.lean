import PascalSyntax.Proofs.Expr.Failing
import PascalSyntax.Proofs.Parser.Agreement
import PascalSyntax.Proofs.Tree.Origins

/-!
# Agreement of the readers of expressions

On tokens that are alike the readers of expressions read trees that are the same
but for positions, and more levels of nesting change nothing but the lack of them
(`Parser.expression_agrees`).
-/

namespace PascalSyntax

theorem Token.toIdentifier_of_mapPosition {g : Position → Position} {t u : Token}
    (h : t.mapPosition g = u.mapPosition g) :
    t.toIdentifier.mapOrigin (.mapPosition g) = u.toIdentifier.mapOrigin (.mapPosition g) := by
  have hname : (t.mapPosition g).toIdentifier = (u.mapPosition g).toIdentifier := by rw [h]
  exact hname

theorem Identifier.origin_of_mapOrigin {f : Origin → Origin} {x y : Identifier}
    (h : x.mapOrigin f = y.mapOrigin f) : f x.origin = f y.origin := by
  have horigin : (x.mapOrigin f).origin = (y.mapOrigin f).origin := by rw [h]
  exact horigin

namespace Parser

variable {g : Position → Position}

/-! ## Names and literals -/

theorem identifier_agrees :
    Agrees g (Identifier.mapOrigin (.mapPosition g)) identifier identifier :=
  (Agrees.take _ _).map fun _ _ h => Token.toIdentifier_of_mapPosition h

theorem integer_agrees {t u : Token} (h : t.mapPosition g = u.mapPosition g) :
    Agrees g (fun literal => Expr.mapOrigin (.mapPosition g) (.integer literal)) (integer t)
      (integer u) := by
  have htext := Token.text_eq_of_mapPosition h
  refine ⟨?_, ?_⟩
  · intro us vs halike literal rest hreads
    obtain ⟨value, hvalue, rfl, rfl⟩ := reads_integer_iff.mp hreads
    rw [htext] at hvalue
    refine ⟨_, vs.tail, reads_integer_iff.mpr ⟨value, hvalue, rfl, rfl⟩, ?_, halike.tail⟩
    rw [Expr.mapOrigin, Expr.mapOrigin, Token.origin_of_mapPosition h]
  · intro us vs halike reason rest hfails _
    obtain ⟨hvalue, rfl, rfl⟩ := fails_integer_iff.mp hfails
    rw [htext] at hvalue
    refine ⟨_, vs, fails_integer_iff.mpr ⟨hvalue, rfl, rfl⟩, ?_, halike⟩
    rw [Reason.mapPosition, Reason.mapPosition, h]

section Over

variable {expression expression' operand operand' : Parser Cursor Expr}
  (he : Agrees g (Expr.mapOrigin (.mapPosition g)) expression expression')
  (ho : Agrees g (Expr.mapOrigin (.mapPosition g)) operand operand')

/-! ## Calls -/

include he

theorem arguments_agrees :
    Agrees g (List.map (Argument.mapOrigin (.mapPosition g))) (arguments expression)
      (arguments expression') := by
  apply (Agrees.take? _).bindOption
  · intro _ _ _
    exact .pure rfl
  · apply (he.separated _).bind
    intro values values' hvalues
    apply (Agrees.take _ _).map
    intro _ _ _
    have hargs : (values.map (Expr.mapOrigin (.mapPosition g))).map Argument.ofValue =
        (values'.map (Expr.mapOrigin (.mapPosition g))).map Argument.ofValue := by rw [hvalues]
    simpa only [List.map_map, Function.comp_def, Argument.mapOrigin_ofValue] using hargs

theorem callOf_agrees {x y : Identifier}
    (h : x.mapOrigin (.mapPosition g) = y.mapOrigin (.mapPosition g)) :
    Agrees g (Call.mapOrigin (.mapPosition g)) (callOf expression x) (callOf expression' y) := by
  have horigin := Identifier.origin_of_mapOrigin h
  apply (Agrees.take? _).bindOption
  · intro _ _ _
    apply (arguments_agrees he).map
    intro args args' hargs
    rw [Call.mapOrigin, Call.mapOrigin, Argument.mapOrigins_eq_map, Argument.mapOrigins_eq_map,
      h, hargs, horigin]
  · apply Agrees.pure
    rw [Call.mapOrigin, Call.mapOrigin, h, horigin]

/-! ## Operands -/

theorem nameOrCall_agrees :
    Agrees g (Expr.mapOrigin (.mapPosition g)) (nameOrCall expression)
      (nameOrCall expression') := by
  apply identifier_agrees.bind
  intro x y h
  apply Agrees.sees_bind
  · apply (callOf_agrees he h).map
    intro c c' hc
    rw [Expr.mapOrigin, Expr.mapOrigin, hc]
  · apply Agrees.pure
    rw [Expr.mapOrigin, Expr.mapOrigin, h]

theorem parenthesized_agrees :
    Agrees g (Expr.mapOrigin (.mapPosition g)) (parenthesized expression)
      (parenthesized expression') := by
  apply (Agrees.take? _).bindOption
  · intro _ _ _
    apply he.bind
    intro inner inner' hinner
    apply (Agrees.take _ _).map
    intro _ _ _
    exact hinner
  · exact .fail _

theorem primaryOver_agrees :
    Agrees g (Expr.mapOrigin (.mapPosition g)) (primaryOver expression)
      (primaryOver expression') := by
  apply Agrees.peek?.bindOption
  · intro t u h
    simp only [Token.kind_eq_of_mapPosition h]
    cases u.kind with
    | number => exact (integer_agrees h).map fun _ _ hliteral => hliteral
    | string =>
      apply (Agrees.take _ _).map
      intro v w hstring
      have horigin := Token.origin_of_mapPosition hstring
      have hvalue : (t.mapPosition g).unquoted = (u.mapPosition g).unquoted := by rw [h]
      have hunquoted : t.unquoted = u.unquoted := hvalue
      rw [Expr.mapOrigin, Expr.mapOrigin, horigin, hunquoted]
    | identifier => exact nameOrCall_agrees he
    | _ => exact parenthesized_agrees he
  · exact .fail _

include ho

theorem unaryOver_agrees :
    Agrees g (Expr.mapOrigin (.mapPosition g)) (unaryOver operand expression)
      (unaryOver operand' expression') := by
  apply (Agrees.takeFirst? _ fun _ _ => UnaryOperator.terminal_inj).bindOption
  · intro choice choice' h
    obtain ⟨op, t⟩ := choice
    obtain ⟨op', u⟩ := choice'
    obtain ⟨hop, htoken⟩ := Prod.mk.inj h
    have hop : op = op' := hop
    apply ho.map
    intro e e' hoperand
    rw [Expr.mapOrigin, Expr.mapOrigin, hop, hoperand, Token.origin_of_mapPosition htoken]
  · exact primaryOver_agrees he

end Over

/-! ## Levels -/

section Levels

variable {operand operand' : Parser Cursor Expr}
  (ho : Agrees g (Expr.mapOrigin (.mapPosition g)) operand operand')
include ho

/-- An operation looks the same if its operator is the same and its operand looks
the same. -/
def viewOperation (g : Position → Position) (o : BinaryOperator × Origin × Expr) :
    BinaryOperator × Origin × Expr :=
  (o.1, o.2.1.mapPosition g, o.2.2.mapOrigin (.mapPosition g))

theorem operation_agrees (operators : List BinaryOperator) :
    Agrees g (Option.map (viewOperation g)) (operation operators operand)
      (operation operators operand') := by
  apply (Agrees.takeFirst? _ fun _ _ => BinaryOperator.terminal_inj).bindOption
  · intro choice choice' h
    obtain ⟨op, t⟩ := choice
    obtain ⟨op', u⟩ := choice'
    obtain ⟨hop, htoken⟩ := Prod.mk.inj h
    have hop : op = op' := hop
    apply ho.map
    intro e e' hoperand
    rw [Option.map_some, Option.map_some, viewOperation, viewOperation, hop, hoperand,
      Token.origin_of_mapPosition htoken]
  · exact .pure rfl

omit ho in
theorem mapOrigin_foldl_apply (others : List (BinaryOperator × Origin × Expr)) (first : Expr) :
    (others.foldl apply first).mapOrigin (.mapPosition g) =
      (others.map (viewOperation g)).foldl apply (first.mapOrigin (.mapPosition g)) := by
  induction others generalizing first with
  | nil => rfl
  | cons o others ih =>
    rw [List.foldl_cons, ih, List.map_cons, List.foldl_cons, apply, Expr.mapOrigin]
    rfl

theorem binaryLevel_agrees (operators : List BinaryOperator) :
    Agrees g (Expr.mapOrigin (.mapPosition g)) (binaryLevel operators operand)
      (binaryLevel operators operand') := by
  rw [binaryLevel, binaryLevel]
  apply ho.bind
  intro first first' hfirst
  apply (operation_agrees ho operators).many.map
  intro others others' hothers
  rw [mapOrigin_foldl_apply, mapOrigin_foldl_apply, hfirst, hothers]

theorem relational_agrees :
    Agrees g (Expr.mapOrigin (.mapPosition g)) (relational operand) (relational operand') :=
  binaryLevel_agrees (binaryLevel_agrees (binaryLevel_agrees ho _) _) _

end Levels

theorem unary_agrees {levels levels' : Nat} (h : levels ≤ levels') :
    Agrees g (Expr.mapOrigin (.mapPosition g)) (unary levels) (unary levels') := by
  induction levels generalizing levels' with
  | zero =>
    cases levels' with
    | zero => exact unaryOver_agrees (.tooDeep _) (.tooDeep _)
    | succ levels' => exact unaryOver_agrees (.tooDeep _) (.tooDeep _)
  | succ levels ih =>
    obtain ⟨more, rfl⟩ : ∃ more, levels' = more + 1 := ⟨levels' - 1, by omega⟩
    have hunary := ih (Nat.le_of_succ_le_succ h)
    exact unaryOver_agrees (relational_agrees hunary) hunary

theorem expression_agrees {levels levels' : Nat} (h : levels ≤ levels') :
    Agrees g (Expr.mapOrigin (.mapPosition g)) (expression levels) (expression levels') := by
  cases levels with
  | zero => exact .tooDeep _
  | succ levels =>
    obtain ⟨more, rfl⟩ : ∃ more, levels' = more + 1 := ⟨levels' - 1, by omega⟩
    exact relational_agrees (unary_agrees (Nat.le_of_succ_le_succ h))

end Parser
end PascalSyntax
