import PascalSyntax.Proofs.Statement.Spelling
import PascalSyntax.Program.Parser

/-!
# Spellings of programs

Declarations, routines and programs with the tokens that stand for them.  A
group of names is spelled once and stands for one declaration for each name.
-/

namespace PascalSyntax

/-- The spelling of a name is a token. -/
inductive Identifier.Spelling : Identifier → List Token → Prop
  | mk {t : Token} : Terminal.identifier.admits t → Spelling t.toIdentifier [t]

/-! ## Variables and constants -/

/-- The tokens spell a group of variables.  Only one that stands alone may have
an initial value. -/
inductive VarDecl.Group (levels : Nat) : List VarDecl → List Token → Prop
  | plain {names : List Identifier} {ts : List Token} {colon typeName semicolon : Token} :
      Separated (.symbol ",") Identifier.Spelling names ts → (Terminal.symbol ":").admits colon →
      Terminal.identifier.admits typeName → (Terminal.symbol ";").admits semicolon →
      Group levels (names.map fun name => ⟨name, typeName.toIdentifier, none, name.origin⟩)
        (ts ++ [colon, typeName, semicolon])
  | initialized {name colon typeName equals semicolon : Token} {value : Expr} {ts : List Token} :
      Terminal.identifier.admits name → (Terminal.symbol ":").admits colon →
      Terminal.identifier.admits typeName → (Terminal.symbol "=").admits equals →
      Expr.Within levels value ts → (Terminal.symbol ";").admits semicolon →
      Group levels [⟨name.toIdentifier, typeName.toIdentifier, some value, name.origin⟩]
        (name :: colon :: typeName :: equals :: (ts ++ [semicolon]))

inductive ConstDecl.Spelling (levels : Nat) : ConstDecl → List Token → Prop
  | mk {name equals semicolon : Token} {value : Expr} {ts : List Token} :
      Terminal.identifier.admits name → (Terminal.symbol "=").admits equals →
      Expr.Within levels value ts → (Terminal.symbol ";").admits semicolon →
      Spelling levels ⟨name.toIdentifier, value, name.origin⟩
        (name :: equals :: (ts ++ [semicolon]))

inductive VarSection.Spelling (levels : Nat) : Option (DeclSection VarDecl) → List Token → Prop
  | absent : Spelling levels none []
  | present {keyword : Token} {groups : List (List VarDecl)} {ts : List Token} :
      (Terminal.word "var").admits keyword → groups ≠ [] →
      Sequence (VarDecl.Group levels) groups ts →
      Spelling levels (some ⟨groups.flatten, keyword.origin⟩) (keyword :: ts)

inductive ConstSection.Spelling (levels : Nat) :
    Option (DeclSection ConstDecl) → List Token → Prop
  | absent : Spelling levels none []
  | present {keyword : Token} {decls : List ConstDecl} {ts : List Token} :
      (Terminal.word "const").admits keyword → decls ≠ [] →
      Sequence (ConstDecl.Spelling levels) decls ts →
      Spelling levels (some ⟨decls, keyword.origin⟩) (keyword :: ts)

/-! ## Routines -/

/-- The tokens spell a group of parameters, which are all by reference if `var`
stands before them. -/
inductive Parameter.Group : List Parameter → List Token → Prop
  | byValue {names : List Identifier} {ts : List Token} {colon typeName : Token} :
      Separated (.symbol ",") Identifier.Spelling names ts → (Terminal.symbol ":").admits colon →
      Terminal.identifier.admits typeName →
      Group (names.map fun name => ⟨name, typeName.toIdentifier, false, name.origin⟩)
        (ts ++ [colon, typeName])
  | byReference {keyword : Token} {names : List Identifier} {ts : List Token}
      {colon typeName : Token} :
      (Terminal.word "var").admits keyword →
      Separated (.symbol ",") Identifier.Spelling names ts → (Terminal.symbol ":").admits colon →
      Terminal.identifier.admits typeName →
      Group (names.map fun name => ⟨name, typeName.toIdentifier, true, keyword.origin⟩)
        (keyword :: (ts ++ [colon, typeName]))

/-- The tokens spell the parameters of a routine, with their parentheses if they
have any. -/
inductive Routine.Formals : List Parameter → List Token → Prop
  | absent : Formals [] []
  | empty {opening closing : Token} : (Terminal.symbol "(").admits opening →
      (Terminal.symbol ")").admits closing → Formals [] [opening, closing]
  | given {opening closing : Token} {groups : List (List Parameter)} {ts : List Token} :
      (Terminal.symbol "(").admits opening → Separated (.symbol ";") Parameter.Group groups ts →
      (Terminal.symbol ")").admits closing →
      Formals groups.flatten (opening :: (ts ++ [closing]))

/-- The tokens tell what a routine gives back: a function has to say it, a
procedure may not. -/
inductive Routine.Kind.Spelling : Bool → Routine.Kind → List Token → Prop
  | function {colon typeName : Token} : (Terminal.symbol ":").admits colon →
      Terminal.identifier.admits typeName →
      Spelling true (.function typeName.toIdentifier) [colon, typeName]
  | procedure : Spelling false .procedure []

def Routine.keyword (isFunction : Bool) : Terminal :=
  .word (if isFunction then "function" else "procedure")

inductive Routine.Spelling (levels : Nat) : Routine → List Token → Prop
  | mk {isFunction : Bool} {keyword name semicolon last : Token} {parameters : List Parameter}
      {kind : Routine.Kind} {locals : Option (DeclSection VarDecl)} {body : Block}
      {ts us vs ws : List Token} :
      (Routine.keyword isFunction).admits keyword → Terminal.identifier.admits name →
      Routine.Formals parameters ts → Routine.Kind.Spelling isFunction kind us →
      (Terminal.symbol ";").admits semicolon → VarSection.Spelling levels locals vs →
      Block.Spelling levels body ws → (Terminal.symbol ";").admits last →
      Spelling levels
        ⟨kind, name.toIdentifier, parameters, (locals.map (·.decls)).getD [], body, keyword.origin⟩
        (keyword :: name :: (ts ++ (us ++ semicolon :: (vs ++ (ws ++ [last])))))

/-! ## Programs -/

inductive Program.Spelling (levels : Nat) : Program → List Token → Prop
  | mk {keyword name semicolon point : Token} {vars : Option (DeclSection VarDecl)}
      {consts : Option (DeclSection ConstDecl)} {routines : List Routine} {body : Block}
      {ts us vs ws : List Token} :
      (Terminal.word "program").admits keyword → Terminal.identifier.admits name →
      (Terminal.symbol ";").admits semicolon → VarSection.Spelling levels vars ts →
      ConstSection.Spelling levels consts us → Sequence (Routine.Spelling levels) routines vs →
      Block.Spelling levels body ws → (Terminal.symbol ".").admits point →
      Spelling levels ⟨name.toIdentifier, vars, consts, routines, body, keyword.origin⟩
        (keyword :: name :: semicolon :: (ts ++ (us ++ (vs ++ (ws ++ [point])))))

/-! ## Starts -/

theorem Identifier.Spelling.front {x : Identifier} {ts : List Token}
    (h : Identifier.Spelling x ts) : Token.front? ts = some .identifier := by
  cases h with
  | mk ht => exact Terminal.admits_iff.mp ht

theorem Identifier.separated_front {names : List Identifier} {ts : List Token}
    (h : Separated (.symbol ",") Identifier.Spelling names ts) :
    Token.front? ts = some .identifier := by
  cases h with
  | single hx => exact hx.front
  | cons hx _ _ => exact Token.front?_append hx.front

theorem Identifier.separated_singleton {x : Identifier} {ts : List Token}
    (h : Separated (.symbol ",") Identifier.Spelling [x] ts) :
    ∃ t, ts = [t] ∧ x = t.toIdentifier ∧ Terminal.identifier.admits t = true := by
  cases h with
  | single hx =>
    cases hx with
    | mk ht => exact ⟨_, rfl, rfl, ht⟩
  | cons _ _ h => cases h

theorem VarDecl.Group.front {levels : Nat} {decls : List VarDecl} {ts : List Token}
    (h : VarDecl.Group levels decls ts) : Token.front? ts = some .identifier := by
  cases h with
  | plain hs _ _ _ => exact Token.front?_append (Identifier.separated_front hs)
  | initialized hn _ _ _ _ _ => exact Terminal.admits_iff.mp hn

theorem ConstDecl.Spelling.front {levels : Nat} {c : ConstDecl} {ts : List Token}
    (h : ConstDecl.Spelling levels c ts) : Token.front? ts = some .identifier := by
  cases h with
  | mk hn _ _ _ => exact Terminal.admits_iff.mp hn

theorem Parameter.Group.front {parameters : List Parameter} {ts : List Token}
    (h : Parameter.Group parameters ts) :
    ∃ a ∈ [Terminal.identifier, .word "var"], Token.front? ts = some a := by
  cases h with
  | byValue hs _ _ => exact ⟨_, by decide, Token.front?_append (Identifier.separated_front hs)⟩
  | byReference hk _ _ _ => exact ⟨_, by decide, Terminal.admits_iff.mp hk⟩

theorem Routine.Spelling.front {levels : Nat} {r : Routine} {ts : List Token}
    (h : Routine.Spelling levels r ts) : ∃ b, Token.front? ts = some (Routine.keyword b) := by
  cases h with
  | mk hk _ _ _ _ _ _ _ => exact ⟨_, Terminal.admits_iff.mp hk⟩

end PascalSyntax
