import PascalSyntax.Proofs.Grammar.Rules
import PascalSyntax.Proofs.Program.Spelling

/-!
# Spellings are derived

Whatever spells an expression, a statement or a program derives from the
nonterminal for it.  A chain of branches is derived as one conditional in the
`else` of another.
-/

namespace PascalSyntax

namespace Nonterminal

open Phrase (concat nonterminal oneOf)

/-- The nonterminal for a place of a binding strength. -/
def operand : Nat → Nonterminal
  | 0 => expression
  | 1 => additive
  | 2 => term
  | _ => unary

theorem rule_operand {j : Nat} (hj : j ≤ 2) :
    rule (operand j) = concat [nonterminal (operand (j + 1)),
      (concat [oneOf ((BinaryOperator.atLevel j).map (·.terminal)),
        nonterminal (operand (j + 1))]).many] := by
  obtain rfl | rfl | rfl : j = 0 ∨ j = 1 ∨ j = 2 := by omega
  all_goals rfl

/-- A place of less strength admits more. -/
theorem Derives.lower {j k : Nat} {ts : List Token} (h : (operand k).Derives ts) (hj : j ≤ k) :
    (operand j).Derives ts := by
  induction hj with
  | refl => exact h
  | @step k hj ih =>
    apply ih
    by_cases hk : k ≤ 2
    · refine .nonterminal ?_
      rw [rule_operand hk, ← List.append_nil ts]
      exact .sequence h .done
    · obtain ⟨n, rfl⟩ : ∃ n, k = n + 3 := ⟨k - 3, by omega⟩
      exact h

/-- What derives from a unary expression derives from any operand. -/
theorem Derives.ofUnary {ts : List Token} (h : unary.Derives ts) (k : Nat) :
    (operand k).Derives ts := by
  have h : (operand (k + 3)).Derives ts := h
  exact h.lower (by omega)

theorem Derives.ofPrimary {ts : List Token} (h : primary.Derives ts) (k : Nat) :
    (operand k).Derives ts :=
  ofUnary (.nonterminal (.second h)) k

theorem Derives.ofBinary {op : BinaryOperator} {us vs : List Token} {t : Token}
    (hl : (operand op.level).Derives us) (ht : op.terminal.admits t)
    (hr : (operand (op.level + 1)).Derives vs) : (operand op.level).Derives (us ++ t :: vs) := by
  have hmem : op.terminal ∈ (BinaryOperator.atLevel op.level).map (·.terminal) :=
    List.mem_map.mpr ⟨op, (BinaryOperator.mem_atLevel_iff op.level_le_two).mpr rfl, rfl⟩
  refine .nonterminal ?_
  cases hl with
  | nonterminal hl =>
    rw [rule_operand op.level_le_two] at hl ⊢
    cases hl with
    | sequence hfirst hmany =>
      rw [List.append_assoc]
      exact .sequence hfirst (hmany.snoc (.sequence (.oneOf hmem ht) hr))

/-- A call derives, with or without arguments. -/
theorem Derives.ofCall {spells : Expr → List Token → Prop}
    (each : ∀ e ts, spells e ts → expression.Derives ts) {name : Token} {args : List Argument}
    {ts : List Token} (hn : Terminal.identifier.admits name)
    (h : Call.Arguments spells args ts) : call.Derives (name :: ts) := by
  cases h with
  | empty ho hc =>
    exact .nonterminal (.cons hn (.present (.cons ho (.sequence .absent (.token hc)))))
  | given ho hs hc =>
    exact .nonterminal
      (.cons hn (.present (.cons ho (.sequence (.present (.list each hs)) (.token hc)))))

theorem Derives.ofSpelling {levels k : Nat} {e : Expr} {ts : List Token}
    (h : Expr.Spelling levels k e ts) : (operand k).Derives ts := by
  induction h with
  | identifier ht => exact ofPrimary (.nonterminal (.first (.token ht))) _
  | integer ht hv =>
    exact ofPrimary (.nonterminal (.second (.first (.integerLiteral ht
      (Numeral.signed?_eq_some_iff.mp ⟨_, hv⟩))))) _
  | string ht => exact ofPrimary (.nonterminal (.second (.second (.first (.token ht))))) _
  | emptyCall hn ho hc =>
    have hcall : call.Derives _ := ofCall (fun _ _ h => h) hn (.empty ho hc)
    exact ofPrimary (.nonterminal (.second (.second (.second (.first hcall))))) _
  | @call _ _ _ _ _ pieces _ hn ho _ hs hc ih =>
    have hargs : Separated (.symbol ",") (fun _ ts => expression.Derives ts) (pieces.map (·.1)) _ :=
      separated_iff_pieces.mpr ⟨pieces, rfl, ih, hs⟩
    have hcall : call.Derives _ := ofCall (fun _ _ h => h) hn (.given ho hargs hc)
    exact ofPrimary (.nonterminal (.second (.second (.second (.first hcall))))) _
  | parenthesized ho _ hc ih =>
    exact ofPrimary (.nonterminal (.second (.second (.second (.second
      (.cons ho (.sequence ih (.token hc)))))))) _
  | @unary _ _ op _ _ _ ht _ ih =>
    have hmem : op.terminal ∈ [Terminal.symbol "-", .word "not"] := by
      cases op <;> decide
    exact ofUnary (.nonterminal (.first (.sequence (.oneOf hmem ht) ih))) _
  | binary hk _ ht _ ihl ihr => exact (ofBinary ihl ht ihr).lower hk

theorem Derives.ofWithin {levels : Nat} {e : Expr} {ts : List Token}
    (h : Expr.Within levels e ts) : expression.Derives ts := by
  cases levels with
  | zero => exact h.elim
  | succ levels => exact ofSpelling h

/-! ## Statements -/

/-- A block derives if each of its statements does. -/
theorem Derives.ofBlock {spells : Statement → List Token → Prop}
    (each : ∀ s ts, spells s ts → statement.Derives ts) {opening closing : Token}
    {items : List (Option Statement)} {ts : List Token}
    (ho : (Terminal.word "begin").admits opening)
    (h : Separated (.symbol ";") (Statement.Piece spells) items ts)
    (hc : (Terminal.word "end").admits closing) : block.Derives (opening :: (ts ++ [closing])) := by
  refine .nonterminal (.cons ho (.sequence (.list ?_ h) (.token hc)))
  intro o us hpiece
  cases o with
  | none =>
    obtain rfl := hpiece
    exact .absent
  | some s => exact .present (each _ _ hpiece)

/-- An `if` with one branch and perhaps an `else`. -/
theorem Derives.ofConditional {keyword thens : Token} {ts us vs : List Token}
    (hk : (Terminal.word "if").admits keyword) (he : expression.Derives ts)
    (ht : (Terminal.word "then").admits thens) (hs : statement.Derives us)
    (hrest : PascalSyntax.Derives rule
      (concat [Phrase.word "else", nonterminal statement]).optional vs) :
    statement.Derives (keyword :: (ts ++ thens :: (us ++ vs))) :=
  .nonterminal (.first (.nonterminal (.cons hk (.sequence he (.cons ht (.sequence hs
    (.noMore hrest)))))))

theorem Derives.ofStatement {levels : Nat} {isOpen : Bool} {s : Statement} {ts : List Token}
    (h : Statement.Spelling levels isOpen s ts) : statement.Derives ts := by
  induction h with
  | assignment hn hb he =>
    exact .nonterminal (.second (.second (.second (.second (.first
      (.nonterminal (.cons hn (.cons hb (ofWithin he)))))))))
  | bareCall hn =>
    exact .nonterminal (.second (.second (.second (.first (.nonterminal (.cons hn .absent))))))
  | call hn ha =>
    exact .nonterminal (.second (.second (.second (.first (ofCall (fun _ _ => ofWithin) hn ha)))))
  | @block _ _ opening closing pieces us ho _ hnone hs hc ih =>
    have hitems : Separated (.symbol ";") (Statement.Piece fun _ vs => statement.Derives vs)
        (pieces.map (·.1)) us := by
      refine separated_iff_pieces.mpr ⟨pieces, rfl, ?_, hs⟩
      intro h hpiece
      rcases h with ⟨o, vs⟩
      cases o with
      | none => exact hnone _ hpiece rfl
      | some s => exact ih _ hpiece s rfl
    exact .nonterminal (.second (.second (.second (.second (.second
      (ofBlock (fun _ _ h => h) ho hitems hc))))))
  | whileLoop hk he hd _ ih =>
    exact .nonterminal (.second (.first
      (.nonterminal (.cons hk (.sequence (ofWithin he) (.cons hd ih))))))
  | @forLoop _ _ _ _ _ _ _ _ _ d _ _ _ _ hk hn hb hf hw hl hd _ ih =>
    have hmem : Terminal.word d.word ∈ [Terminal.word "to", .word "downto"] := by
      cases d <;> decide
    exact .nonterminal (.second (.second (.first (.nonterminal (.cons hk (.cons hn (.cons hb
      (.sequence (ofWithin hf) (.sequence (.oneOf hmem hw)
        (.sequence (ofWithin hl) (.cons hd ih)))))))))))
  | @ifThen _ _ _ _ _ _ _ hk he ht _ ih =>
    have := ofConditional hk (ofWithin he) ht ih .absent
    rwa [List.append_nil] at this
  | ifElse hk he ht _ hel _ _ ih iho =>
    exact ofConditional hk (ofWithin he) ht ih (.present (.cons hel iho))
  | elseIf hk he ht _ hel _ ih iho =>
    exact ofConditional hk (ofWithin he) ht ih (.present (.cons hel iho))

theorem Derives.ofBlockSpelling {levels : Nat} {b : Block} {ts : List Token}
    (h : Block.Spelling levels b ts) : block.Derives ts := by
  cases h with
  | mk ho hs hc => exact ofBlock (fun _ _ => ofStatement) ho hs hc

/-! ## Declarations and programs -/

theorem Derives.ofNames {names : List Identifier} {ts : List Token}
    (h : Separated (.symbol ",") Identifier.Spelling names ts) :
    PascalSyntax.Derives rule (Phrase.identifier.list ",") ts := by
  refine .list ?_ h
  intro x us hx
  cases hx with
  | mk ht => exact .token ht

theorem Derives.ofVarGroup {levels : Nat} {decls : List VarDecl} {ts : List Token}
    (h : VarDecl.Group levels decls ts) : varGroup.Derives ts := by
  cases h with
  | plain hs hc ht hsemi =>
    exact .nonterminal (.second (.sequence (ofNames hs) (.cons hc (.cons ht (.token hsemi)))))
  | initialized hn hc ht he hv hsemi =>
    exact .nonterminal (.first (.cons hn (.cons hc (.cons ht
      (.sequence (.present (.cons he (ofWithin hv))) (.token hsemi))))))

theorem Derives.ofVarSection {levels : Nat} {o : Option (DeclSection VarDecl)} {ts : List Token}
    (h : VarSection.Spelling levels o ts) :
    PascalSyntax.Derives rule (nonterminal varSection).optional ts := by
  cases h with
  | absent => exact .absent
  | present hk hne hs =>
    exact .present (.nonterminal (.cons hk (.somePieces (fun _ _ => ofVarGroup) hne hs)))

theorem Derives.ofConstSection {levels : Nat} {o : Option (DeclSection ConstDecl)}
    {ts : List Token} (h : ConstSection.Spelling levels o ts) :
    PascalSyntax.Derives rule (nonterminal constSection).optional ts := by
  cases h with
  | absent => exact .absent
  | present hk hne hs =>
    refine .present (.nonterminal (.cons hk (.somePieces ?_ hne hs)))
    intro c us hc
    cases hc with
    | mk hn he hv hsemi => exact .cons hn (.cons he (.sequence (ofWithin hv) (.token hsemi)))

theorem Derives.ofParameterGroup {parameters : List Parameter} {ts : List Token}
    (h : Parameter.Group parameters ts) : parameterGroup.Derives ts := by
  cases h with
  | byValue hs hc ht =>
    exact .nonterminal (.skip (.sequence (ofNames hs) (.cons hc (.token ht))))
  | byReference hk hs hc ht =>
    exact .nonterminal (.sequence (.present (.token hk))
      (.sequence (ofNames hs) (.cons hc (.token ht))))

theorem Derives.ofFormals {parameters : List Parameter} {ts : List Token}
    (h : Routine.Formals parameters ts) : formals.Derives ts := by
  cases h with
  | absent => exact .nonterminal .absent
  | empty ho hc =>
    exact .nonterminal (.present (.cons ho (.sequence .absent (.token hc))))
  | given ho hs hc =>
    exact .nonterminal (.present (.cons ho (.sequence
      (.present (.list (fun _ _ => ofParameterGroup) hs)) (.token hc))))

theorem Derives.ofRoutine {levels : Nat} {r : Routine} {ts : List Token}
    (h : Routine.Spelling levels r ts) : routine.Derives ts := by
  cases h with
  | @mk isFunction keyword name semicolon last _ _ _ _ ts us vs ws hk hn hp hkind hs hl hb hlast =>
    refine .nonterminal ?_
    have he : keyword :: name :: (ts ++ (us ++ semicolon :: (vs ++ (ws ++ [last])))) =
        (keyword :: name :: (ts ++ us)) ++ semicolon :: (vs ++ (ws ++ [last])) := by
      simp
    rw [he]
    refine .sequence ?_ (.cons hs (.sequence (ofVarSection hl)
      (.sequence (ofBlockSpelling hb) (.token hlast))))
    cases hkind with
    | function hc ht =>
      exact .first (.cons hk (.cons hn (.sequence (ofFormals hp) (.cons hc (.token ht)))))
    | procedure =>
      rw [List.append_nil]
      exact .second (.cons hk (.cons hn (ofFormals hp)))

theorem Derives.ofProgram {levels : Nat} {p : Program} {ts : List Token}
    (h : Program.Spelling levels p ts) : program.Derives ts := by
  cases h with
  | mk hk hn hs hv hc hr hb hp =>
    exact .nonterminal (.cons hk (.cons hn (.cons hs (.sequence (ofVarSection hv)
      (.sequence (ofConstSection hc) (.sequence (.pieces (fun _ _ => ofRoutine) hr)
        (.sequence (ofBlockSpelling hb) (.token hp))))))))

end Nonterminal
end PascalSyntax
