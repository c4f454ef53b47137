import PascalSyntax.Proofs.Expr.Agreement
import PascalSyntax.Proofs.Statement.Reading

/-!
# Agreement of the readers of statements

On tokens that are alike the readers of statements read trees that are the same
but for positions, and more levels of nesting change nothing but the lack of them
(`Parser.statement_agrees`).
-/

namespace PascalSyntax
namespace Parser

variable {g : Position → Position}

section Over

variable {expression expression' : Parser Cursor Expr}
  {statement statement' : Parser Cursor Statement}
  (he : Agrees g (Expr.mapOrigin (.mapPosition g)) expression expression')
  (hs : Agrees g (Statement.mapOrigin (.mapPosition g)) statement statement')

/-! ## Bodies and branches -/

include hs in
theorem body_agrees :
    Agrees g (Block.mapOrigin (.mapPosition g)) (body statement) (body statement') := by
  apply hs.map
  intro s s' h
  rw [Block.mapOrigin_ofStatement, Block.mapOrigin_ofStatement, h]

include he hs in
theorem branch_agrees (ending : String) {keyword keyword' : Token}
    (hk : keyword.mapPosition g = keyword'.mapPosition g) :
    Agrees g (Branch.mapOrigin (.mapPosition g)) (branch expression statement ending keyword)
      (branch expression' statement' ending keyword') := by
  apply he.bind
  intro condition condition' hcondition
  apply (Agrees.take _ _).bind
  intro _ _ _
  apply (body_agrees hs).map
  intro b b' hb
  rw [Branch.mapOrigin, Branch.mapOrigin, hcondition, hb, Token.origin_of_mapPosition hk]

/-! ## Conditionals -/

include he hs in
theorem elseIf_agrees :
    Agrees g (Option.map (Branch.mapOrigin (.mapPosition g))) (elseIf expression statement)
      (elseIf expression' statement') := by
  apply (Agrees.takeBoth? _ _).bindOption
  · intro t u h
    exact (branch_agrees he hs "then" h).some
  · exact .pure rfl

include he hs in
theorem conditional_agrees {keyword keyword' : Token}
    (hk : keyword.mapPosition g = keyword'.mapPosition g) :
    Agrees g (Statement.mapOrigin (.mapPosition g)) (conditional expression statement keyword)
      (conditional expression' statement' keyword') := by
  rw [conditional, conditional]
  apply (branch_agrees he hs "then" hk).bind
  intro first first' hfirst
  apply (elseIf_agrees he hs).many.bind
  intro others others' hothers
  apply ((body_agrees hs).another _).map
  intro otherwise otherwise' hotherwise
  simp only [Statement.mapOrigin, Branch.mapOrigins_eq_map, Block.mapOrigin?_eq_map,
    List.map_cons, hfirst, hothers, hotherwise, Token.origin_of_mapPosition hk]

/-! ## Blocks -/

theorem separator_agrees : Agrees g id separator separator :=
  (Agrees.take? _).bindOption (fun _ _ _ => .pure rfl) (.sees_bind (.pure rfl) (.fail _))

include hs in
theorem item?_agrees :
    Agrees g (Option.map (Option.map (Statement.mapOrigin (.mapPosition g)))) (item? statement)
      (item? statement') := by
  apply (Agrees.take? _).bindOption
  · intro _ _ _
    exact .pure rfl
  · apply (Agrees.take? _).bindOption
    · intro _ _ _
      exact .pure rfl
    · apply hs.bind
      intro s s' h
      apply separator_agrees.map
      intro _ _ _
      rw [Option.map_some, Option.map_some, Option.map_some, Option.map_some, h]

include hs in
theorem blockOver_agrees :
    Agrees g (Block.mapOrigin (.mapPosition g)) (blockOver statement) (blockOver statement') := by
  apply (Agrees.take _ _).bind
  intro t u h
  apply (item?_agrees hs).many.map
  intro items items' hitems
  have hstatements : (items.filterMap id).map (Statement.mapOrigin (.mapPosition g)) =
      (items'.filterMap id).map (Statement.mapOrigin (.mapPosition g)) := by
    have hkept := congrArg (List.filterMap id) hitems
    simpa only [List.filterMap_map, List.map_filterMap, Function.comp_def, id] using hkept
  rw [Block.mapOrigin, Block.mapOrigin, Statement.mapOrigins_eq_map, Statement.mapOrigins_eq_map,
    hstatements, Token.origin_of_mapPosition h]

/-! ## Loops and names -/

theorem direction_agrees : Agrees g id direction direction := by
  apply (Agrees.takeFirst? _ fun _ _ => direction_word_inj).bindOption
  · intro choice choice' h
    obtain ⟨d, t⟩ := choice
    obtain ⟨d', u⟩ := choice'
    exact .pure (Prod.mk.inj h).1
  · exact .fail _

include he hs in
theorem forLoop_agrees {keyword keyword' : Token}
    (hk : keyword.mapPosition g = keyword'.mapPosition g) :
    Agrees g (Statement.mapOrigin (.mapPosition g)) (forLoop expression statement keyword)
      (forLoop expression' statement' keyword') := by
  apply identifier_agrees.bind
  intro counter counter' hcounter
  apply (Agrees.take _ _).bind
  intro _ _ _
  apply he.bind
  intro first first' hfirst
  apply direction_agrees.bind
  intro way way' hway
  have hway : way = way' := hway
  apply he.bind
  intro last last' hlast
  apply (Agrees.take _ _).bind
  intro _ _ _
  apply (body_agrees hs).map
  intro b b' hb
  rw [Statement.mapOrigin, Statement.mapOrigin, hcounter, hfirst, hway, hlast, hb,
    Token.origin_of_mapPosition hk]

include he in
theorem nameStatement_agrees :
    Agrees g (Statement.mapOrigin (.mapPosition g)) (nameStatement expression)
      (nameStatement expression') := by
  apply identifier_agrees.bind
  intro x y h
  apply (Agrees.take? _).bindOption
  · intro _ _ _
    apply he.map
    intro value value' hvalue
    rw [Statement.mapOrigin, Statement.mapOrigin, h, hvalue, Identifier.origin_of_mapOrigin h]
  · apply (callOf_agrees he h).map
    intro c c' hc
    rw [Statement.mapOrigin, Statement.mapOrigin, hc]

/-! ## Statements -/

include he hs

theorem statementOver_agrees :
    Agrees g (Statement.mapOrigin (.mapPosition g)) (statementOver expression statement)
      (statementOver expression' statement') := by
  apply (Agrees.take? _).bindOption
  · intro t u h
    exact conditional_agrees he hs h
  apply (Agrees.take? _).bindOption
  · intro t u h
    apply (branch_agrees he hs "do" h).map
    intro b b' hb
    rw [Statement.mapOrigin, Statement.mapOrigin, hb, Token.origin_of_mapPosition h]
  apply (Agrees.take? _).bindOption
  · intro t u h
    exact forLoop_agrees he hs h
  apply Agrees.sees_bind
  · apply (blockOver_agrees hs).map
    intro b b' hb
    rw [Statement.mapOrigin, Statement.mapOrigin, hb]
  apply Agrees.sees_bind
  · exact nameStatement_agrees he
  · exact .fail _

end Over

theorem statement_agrees {levels levels' : Nat} (h : levels ≤ levels') :
    Agrees g (Statement.mapOrigin (.mapPosition g)) (statement levels) (statement levels') := by
  induction levels generalizing levels' with
  | zero => exact .tooDeep _
  | succ levels ih =>
    obtain ⟨more, rfl⟩ : ∃ more, levels' = more + 1 := ⟨levels' - 1, by omega⟩
    have hmore := Nat.le_of_succ_le_succ h
    exact statementOver_agrees (expression_agrees hmore) (ih hmore)

theorem block_agrees {levels levels' : Nat} (h : levels ≤ levels') :
    Agrees g (Block.mapOrigin (.mapPosition g)) (block levels) (block levels') :=
  blockOver_agrees (statement_agrees h)

end Parser
end PascalSyntax
