import PascalSyntax.Proofs.Statement.Reading
import PascalSyntax.Proofs.Program.Mirroring
import PascalSyntax.Proofs.Program.Spelling

/-!
# What is read as a program

The readers of declarations, routines and programs read just the spellings, and
`Program.parse` gives a program just if the significant tokens spell it
(`Program.parse_iff`).  Each optional part is opened by a terminal that nothing
else can start with at its place, so a part that is there is never left out.
-/

namespace PascalSyntax
namespace Parser

open PascalSyntax.Expr (Within Stops)

variable {levels : Nat}

/-! ## Names -/

theorem identifier_readsOnly : identifier.ReadsOnly Identifier.Spelling := by
  intro us x rest h
  obtain ⟨t, rfl, rfl, ht⟩ := reads_identifier_iff.mp h
  exact ⟨[t], rfl, .mk ht⟩

theorem identifier_readsAll : identifier.ReadsAll Identifier.Spelling (fun _ => True) := by
  intro x ts rest h _
  cases h with
  | @mk t ht => exact reads_identifier_iff.mpr ⟨t, rfl, rfl, ht⟩

theorem identifierList_readsOnly :
    identifierList.ReadsOnly (Separated (.symbol ",") Identifier.Spelling) :=
  ReadsOnly.separated identifier_readsOnly _

theorem identifierList_reads {names : List Identifier} {ts rest : List Token}
    (h : Separated (.symbol ",") Identifier.Spelling names ts)
    (hrest : Token.front? rest ≠ some (.symbol ",")) :
    identifierList.Reads (ts ++ rest) names rest :=
  ReadsAll.separated identifier_readsOnly identifier_readsAll trivial _ _ _ h ⟨trivial, hrest⟩

theorem reads_expression_semicolon {e : Expr} {ts : List Token} (he : Within levels e ts)
    {t : Token} (ht : (Terminal.symbol ";").admits t) (rest : List Token) :
    (expression levels).Reads (ts ++ t :: rest) e (t :: rest) :=
  reads_expression_before (expression_readsAll levels) he ht (by decide) rest

/-! ## Variables -/

theorem reads_initializer?_iff {expression : Parser Cursor Expr} {names : List Identifier}
    {us rest : List Token} {o : Option Expr} :
    (initializer? expression names).Reads us o rest ↔
      (∃ x t mid value, names = [x] ∧ us = t :: mid ∧ (Terminal.symbol "=").admits t = true ∧
        expression.Reads mid value rest ∧ o = some value) ∨
      ((names.length = 1 → Token.front? us ≠ some (.symbol "=")) ∧ o = none ∧ rest = us) := by
  match names with
  | [] => simp [initializer?]
  | [x] =>
    rw [initializer?]
    simp only [reads_take?_bind_iff, bind_pure_comp, reads_map_iff, reads_pure_iff]
    constructor
    · intro h
      rcases h with ⟨t, mid, rfl, ht, value, rfl, h⟩ | ⟨hne, rfl, rfl⟩
      · exact .inl ⟨x, t, mid, value, rfl, rfl, ht, h, rfl⟩
      · exact .inr ⟨fun _ => hne, rfl, rfl⟩
    · intro h
      rcases h with ⟨x, t, mid, value, -, rfl, ht, h, rfl⟩ | ⟨hne, rfl, rfl⟩
      · exact .inl ⟨t, mid, rfl, ht, value, rfl, h⟩
      · exact .inr ⟨hne rfl, rfl, rfl⟩
  | x :: y :: names => simp [initializer?]

theorem reads_varGroup_iff {expression : Parser Cursor Expr} {us rest : List Token}
    {decls : List VarDecl} :
    (varGroup expression).Reads us decls rest ↔
      ∃ names colon typeName mid o semicolon,
        identifierList.Reads us names (colon :: typeName :: mid) ∧
        (Terminal.symbol ":").admits colon = true ∧ Terminal.identifier.admits typeName = true ∧
        (initializer? expression names).Reads mid o (semicolon :: rest) ∧
        (Terminal.symbol ";").admits semicolon = true ∧
        decls = names.map fun x => ⟨x, typeName.toIdentifier, o, x.origin⟩ := by
  simp only [varGroup, reads_bind_iff, bind_pure_comp, reads_map_iff, reads_identifier_iff,
    reads_symbol_iff]
  constructor
  · intro h
    rcases h with ⟨names, -, hnames, colon, -, ⟨rfl, hc⟩, x, mid, ⟨typeName, rfl, rfl, ht⟩, o, -,
        ho, semicolon, rfl, rfl, hs⟩
    exact ⟨names, colon, typeName, mid, o, semicolon, hnames, hc, ht, ho, hs, rfl⟩
  · intro h
    rcases h with ⟨names, colon, typeName, mid, o, semicolon, hnames, hc, ht, ho, hs, rfl⟩
    exact ⟨names, _, hnames, colon, _, ⟨rfl, hc⟩, _, mid, ⟨typeName, rfl, rfl, ht⟩, o, _, ho,
      semicolon, rfl, rfl, hs⟩

theorem varGroup_readsOnly : (varGroup (expression levels)).ReadsOnly (VarDecl.Group levels) := by
  intro us decls rest h
  obtain ⟨names, colon, typeName, mid, o, semicolon, hnames, hc, ht, ho, hs, rfl⟩ :=
    reads_varGroup_iff.mp h
  obtain ⟨ts, rfl, hspelled⟩ := identifierList_readsOnly _ _ _ hnames
  obtain ⟨x, t, mid, value, rfl, rfl, he, hvalue, rfl⟩ | ⟨-, rfl, rfl⟩ :=
    reads_initializer?_iff.mp ho
  · obtain ⟨name, rfl, rfl, hn⟩ := Identifier.separated_singleton hspelled
    obtain ⟨vs, rfl, hv⟩ := expression_readsOnly levels _ _ _ hvalue
    exact ⟨name :: colon :: typeName :: t :: (vs ++ [semicolon]), by simp,
      .initialized hn hc ht he hv hs⟩
  · exact ⟨ts ++ [colon, typeName, semicolon], by simp, .plain hspelled hc ht hs⟩

theorem varGroup_readsAll :
    (varGroup (expression levels)).ReadsAll (VarDecl.Group levels) (fun _ => True) := by
  intro decls ts rest h _
  cases h with
  | @plain names ts colon typeName semicolon hnames hc ht hs =>
    have hread := identifierList_reads hnames
      (Terminal.front?_ne hc (by decide) (typeName :: semicolon :: rest))
    have hinit : (initializer? (expression levels) names).Reads (semicolon :: rest) none
        (semicolon :: rest) :=
      reads_initializer?_iff.mpr
        (.inr ⟨fun _ => Terminal.front?_ne hs (by decide) rest, rfl, rfl⟩)
    rw [List.append_assoc]
    exact reads_varGroup_iff.mpr ⟨names, colon, typeName, _, none, semicolon, hread, hc, ht, hinit,
      hs, rfl⟩
  | @initialized name colon typeName equals semicolon value ts hn hc ht he hv hs =>
    have hread := identifierList_reads (.single (.mk hn))
      (Terminal.front?_ne hc (by decide) (typeName :: equals :: (ts ++ semicolon :: rest)))
    have hinit : (initializer? (expression levels) [name.toIdentifier]).Reads
        (equals :: (ts ++ semicolon :: rest)) (some value) (semicolon :: rest) :=
      reads_initializer?_iff.mpr (.inl ⟨_, equals, _, value, rfl, rfl, he,
        reads_expression_semicolon hv hs rest, rfl⟩)
    refine reads_varGroup_iff.mpr ⟨_, colon, typeName, _, some value, semicolon, ?_, hc, ht, hinit,
      hs, rfl⟩
    simpa using hread

theorem varGroups_readsOnly :
    (repeated .identifier (varGroup (expression levels))).ReadsOnly
      (fun groups ts => groups ≠ [] ∧ Sequence (VarDecl.Group levels) groups ts) :=
  ReadsOnly.repeated varGroup_readsOnly (fun _ _ h => Token.ne_nil_of_front h.front) _

theorem varGroups_readsAll :
    (repeated .identifier (varGroup (expression levels))).ReadsAll
      (fun groups ts => groups ≠ [] ∧ Sequence (VarDecl.Group levels) groups ts)
      (fun o => True ∧ o ≠ some .identifier) :=
  ReadsAll.repeated varGroup_readsAll (fun _ _ h => h.front) trivial

theorem varSection?_readsOnly :
    (varSection? (expression levels)).ReadsOnly (VarSection.Spelling levels) := by
  intro us o rest h
  simp only [varSection?, reads_take?_bind_iff, bind_pure_comp, reads_map_iff, reads_pure_iff] at h
  obtain ⟨keyword, mid, rfl, hk, groups, rfl, hread⟩ | ⟨-, rfl, rfl⟩ := h
  · obtain ⟨ts, rfl, hne, hs⟩ := varGroups_readsOnly _ _ _ hread
    exact ⟨keyword :: ts, rfl, .present hk hne hs⟩
  · exact ⟨[], rfl, .absent⟩

theorem varSection?_readsAll :
    (varSection? (expression levels)).ReadsAll (VarSection.Spelling levels)
      (fun o => o ≠ some .identifier ∧ o ≠ some (.word "var")) := by
  intro o ts rest h hrest
  simp only [varSection?, reads_take?_bind_iff, bind_pure_comp, reads_map_iff, reads_pure_iff]
  cases h with
  | absent => exact .inr ⟨hrest.2, rfl, rfl⟩
  | @present keyword groups ts hk hne hs =>
    exact .inl ⟨keyword, ts ++ rest, rfl, hk, groups, rfl,
      varGroups_readsAll _ _ _ ⟨hne, hs⟩ ⟨trivial, hrest.1⟩⟩

/-! ## Constants -/

theorem reads_constDecl_iff {expression : Parser Cursor Expr} {us rest : List Token}
    {c : ConstDecl} :
    (constDecl expression).Reads us c rest ↔
      ∃ name equals mid value semicolon, us = name :: equals :: mid ∧
        Terminal.identifier.admits name = true ∧ (Terminal.symbol "=").admits equals = true ∧
        expression.Reads mid value (semicolon :: rest) ∧
        (Terminal.symbol ";").admits semicolon = true ∧
        c = ⟨name.toIdentifier, value, name.origin⟩ := by
  simp only [constDecl, reads_bind_iff, bind_pure_comp, reads_map_iff, reads_identifier_iff,
    reads_symbol_iff]
  constructor
  · intro h
    rcases h with ⟨x, -, ⟨name, rfl, rfl, hn⟩, equals, mid, ⟨rfl, he⟩, value, -, hv, semicolon, rfl,
        rfl, hs⟩
    exact ⟨name, equals, mid, value, semicolon, rfl, hn, he, hv, hs, rfl⟩
  · intro h
    rcases h with ⟨name, equals, mid, value, semicolon, rfl, hn, he, hv, hs, rfl⟩
    exact ⟨_, _, ⟨name, rfl, rfl, hn⟩, equals, mid, ⟨rfl, he⟩, value, _, hv, semicolon, rfl, rfl,
      hs⟩

theorem constDecl_readsOnly :
    (constDecl (expression levels)).ReadsOnly (ConstDecl.Spelling levels) := by
  intro us c rest h
  obtain ⟨name, equals, mid, value, semicolon, rfl, hn, he, hv, hs, rfl⟩ := reads_constDecl_iff.mp h
  obtain ⟨ts, rfl, hvalue⟩ := expression_readsOnly levels _ _ _ hv
  exact ⟨name :: equals :: (ts ++ [semicolon]), by simp, .mk hn he hvalue hs⟩

theorem constDecl_readsAll :
    (constDecl (expression levels)).ReadsAll (ConstDecl.Spelling levels) (fun _ => True) := by
  intro c ts rest h _
  cases h with
  | @mk name equals semicolon value ts hn he hv hs =>
    have hread := reads_expression_semicolon hv hs rest
    exact reads_constDecl_iff.mpr ⟨name, equals, ts ++ semicolon :: rest, value, semicolon,
      by simp, hn, he, hread, hs, rfl⟩

theorem constSection?_readsOnly :
    (constSection? (expression levels)).ReadsOnly (ConstSection.Spelling levels) := by
  intro us o rest h
  simp only [constSection?, reads_take?_bind_iff, bind_pure_comp, reads_map_iff,
    reads_pure_iff] at h
  obtain ⟨keyword, mid, rfl, hk, decls, rfl, hread⟩ | ⟨-, rfl, rfl⟩ := h
  · have hne : ∀ c ts, ConstDecl.Spelling levels c ts → ts ≠ [] :=
      fun _ _ h => Token.ne_nil_of_front h.front
    obtain ⟨ts, rfl, hdecls, hs⟩ := ReadsOnly.repeated constDecl_readsOnly hne _ _ _ _ hread
    exact ⟨keyword :: ts, rfl, .present hk hdecls hs⟩
  · exact ⟨[], rfl, .absent⟩

theorem constSection?_readsAll :
    (constSection? (expression levels)).ReadsAll (ConstSection.Spelling levels)
      (fun o => o ≠ some .identifier ∧ o ≠ some (.word "const")) := by
  intro o ts rest h hrest
  simp only [constSection?, reads_take?_bind_iff, bind_pure_comp, reads_map_iff, reads_pure_iff]
  cases h with
  | absent => exact .inr ⟨hrest.2, rfl, rfl⟩
  | @present keyword decls ts hk hne hs =>
    have hread := ReadsAll.repeated constDecl_readsAll (fun _ _ h => h.front) trivial _ _ rest
      ⟨hne, hs⟩ ⟨trivial, hrest.1⟩
    exact .inl ⟨keyword, ts ++ rest, rfl, hk, decls, rfl, hread⟩

/-! ## Parameters -/

theorem reads_parameterGroup_iff {us rest : List Token} {parameters : List Parameter} :
    parameterGroup.Reads us parameters rest ↔
      ∃ keyword mid names colon typeName, (take? (.word "var")).Reads us keyword mid ∧
        identifierList.Reads mid names (colon :: typeName :: rest) ∧
        (Terminal.symbol ":").admits colon = true ∧ Terminal.identifier.admits typeName = true ∧
        parameters = names.map fun x => ⟨x, typeName.toIdentifier, keyword.isSome,
          (keyword.map Token.origin).getD x.origin⟩ := by
  simp only [parameterGroup, reads_bind_iff, bind_pure_comp, reads_map_iff, reads_identifier_iff,
    reads_symbol_iff]
  constructor
  · intro h
    rcases h with ⟨keyword, mid, hk, names, -, hnames, colon, -, ⟨rfl, hc⟩, x, rfl, typeName, rfl,
        rfl, ht⟩
    exact ⟨keyword, mid, names, colon, typeName, hk, hnames, hc, ht, rfl⟩
  · intro h
    rcases h with ⟨keyword, mid, names, colon, typeName, hk, hnames, hc, ht, rfl⟩
    exact ⟨keyword, mid, hk, names, _, hnames, colon, _, ⟨rfl, hc⟩, _, rfl, typeName, rfl, rfl, ht⟩

theorem parameterGroup_readsOnly : parameterGroup.ReadsOnly Parameter.Group := by
  intro us parameters rest h
  obtain ⟨keyword, mid, names, colon, typeName, hk, hnames, hc, ht, rfl⟩ :=
    reads_parameterGroup_iff.mp h
  obtain ⟨ts, rfl, hs⟩ := identifierList_readsOnly _ _ _ hnames
  cases keyword with
  | none =>
    obtain ⟨-, rfl⟩ := reads_take?_none_iff.mp hk
    exact ⟨ts ++ [colon, typeName], by simp, .byValue hs hc ht⟩
  | some keyword =>
    obtain ⟨rfl, hvar⟩ := reads_take?_some_iff.mp hk
    exact ⟨keyword :: (ts ++ [colon, typeName]), by simp, .byReference hvar hs hc ht⟩

theorem parameterGroup_readsAll : parameterGroup.ReadsAll Parameter.Group (fun _ => True) := by
  intro parameters ts rest h _
  cases h with
  | @byValue names ts colon typeName hs hc ht =>
    have hnames := identifierList_reads hs (Terminal.front?_ne hc (by decide) (typeName :: rest))
    have hk : (take? (.word "var")).Reads (ts ++ colon :: typeName :: rest) none
        (ts ++ colon :: typeName :: rest) := by
      refine reads_take?_none_iff.mpr ⟨?_, rfl⟩
      rw [Token.front?_append (Identifier.separated_front hs)]
      decide
    rw [List.append_assoc]
    exact reads_parameterGroup_iff.mpr ⟨none, _, names, colon, typeName, hk, hnames, hc, ht, rfl⟩
  | @byReference keyword names ts colon typeName hk hs hc ht =>
    have hnames := identifierList_reads hs (Terminal.front?_ne hc (by decide) (typeName :: rest))
    refine reads_parameterGroup_iff.mpr ⟨some keyword, _, names, colon, typeName,
      reads_take?_some_iff.mpr ⟨?_, hk⟩, hnames, hc, ht, rfl⟩
    simp

theorem reads_parameterList_iff {us rest : List Token} {parameters : List Parameter} :
    parameterList.Reads us parameters rest ↔
      (Token.front? us = some (.symbol ")") ∧ parameters = [] ∧ rest = us) ∨
        (Token.front? us ≠ some (.symbol ")") ∧ ∃ groups, parameters = groups.flatten ∧
          (separated (.symbol ";") parameterGroup).Reads us groups rest) := by
  rw [parameterList]
  simp only [reads_sees_bind_iff, bind_pure_comp, if_true, Bool.false_eq_true, if_false,
    reads_pure_iff, reads_map_iff]

/-- Parameters are read just where an opening parenthesis is next. -/
theorem reads_formals_iff {us rest : List Token} {parameters : List Parameter} :
    formals.Reads us parameters rest ↔
      (∃ opening mid closing, us = opening :: mid ∧ (Terminal.symbol "(").admits opening = true ∧
        parameterList.Reads mid parameters (closing :: rest) ∧
        (Terminal.symbol ")").admits closing = true) ∨
      (Token.front? us ≠ some (.symbol "(") ∧ parameters = [] ∧ rest = us) := by
  rw [formals]
  simp only [reads_take?_bind_iff, reads_pure_iff]
  simp only [reads_bind_iff, bind_pure_comp, reads_map_iff, reads_symbol_iff]
  constructor
  · intro h
    rcases h with ⟨opening, mid, rfl, ho, ps, -, h, closing, rfl, rfl, hc⟩ | h
    · exact .inl ⟨opening, mid, closing, rfl, ho, h, hc⟩
    · exact .inr h
  · intro h
    rcases h with ⟨opening, mid, closing, rfl, ho, h, hc⟩ | h
    · exact .inl ⟨opening, mid, rfl, ho, parameters, _, h, closing, rfl, rfl, hc⟩
    · exact .inr h

theorem formals_readsOnly : formals.ReadsOnly Routine.Formals := by
  intro us parameters rest h
  obtain ⟨opening, mid, closing, rfl, ho, h, hc⟩ | ⟨-, rfl, rfl⟩ := reads_formals_iff.mp h
  · obtain ⟨-, rfl, rfl⟩ | ⟨-, groups, rfl, hgroups⟩ := reads_parameterList_iff.mp h
    · exact ⟨[opening, closing], rfl, .empty ho hc⟩
    · obtain ⟨ts, rfl, hs⟩ := ReadsOnly.separated parameterGroup_readsOnly _ _ _ _ hgroups
      exact ⟨opening :: (ts ++ [closing]), by simp, .given ho hs hc⟩
  · exact ⟨[], rfl, .absent⟩

theorem formals_readsAll :
    formals.ReadsAll Routine.Formals (fun o => o ≠ some (.symbol "(")) := by
  intro parameters ts rest h hrest
  cases h with
  | absent => exact reads_formals_iff.mpr (.inr ⟨hrest, rfl, rfl⟩)
  | @empty opening closing ho hc =>
    exact reads_formals_iff.mpr (.inl ⟨opening, closing :: rest, closing, rfl, ho,
      reads_parameterList_iff.mpr (.inl ⟨Terminal.admits_iff.mp hc, rfl, rfl⟩), hc⟩)
  | @given opening closing groups ts ho hs hc =>
    have hread := ReadsAll.separated parameterGroup_readsOnly parameterGroup_readsAll trivial _ _
      (closing :: rest) hs ⟨trivial, Terminal.front?_ne hc (by decide) rest⟩
    have hne : Token.front? (ts ++ closing :: rest) ≠ some (.symbol ")") := by
      obtain ⟨a, ha, hfront⟩ := hs.front fun _ _ h => h.front
      rw [Token.front?_append hfront]
      intro h
      cases h
      revert ha
      decide
    exact reads_formals_iff.mpr (.inl ⟨opening, ts ++ closing :: rest, closing, by simp, ho,
      reads_parameterList_iff.mpr (.inr ⟨hne, groups, rfl, hread⟩), hc⟩)

/-! ## Routines -/

theorem routineKind_readsOnly (isFunction : Bool) :
    (routineKind isFunction).ReadsOnly (Routine.Kind.Spelling isFunction) := by
  intro us kind rest h
  cases isFunction with
  | true =>
    simp only [routineKind, if_true, reads_bind_iff, bind_pure_comp, reads_map_iff,
      reads_symbol_iff, reads_identifier_iff] at h
    obtain ⟨colon, -, ⟨rfl, hc⟩, x, rfl, typeName, rfl, rfl, ht⟩ := h
    exact ⟨[colon, typeName], rfl, .function hc ht⟩
  | false =>
    obtain ⟨rfl, rfl⟩ := reads_pure_iff.mp h
    exact ⟨[], rfl, .procedure⟩

theorem routineKind_readsAll (isFunction : Bool) :
    (routineKind isFunction).ReadsAll (Routine.Kind.Spelling isFunction) (fun _ => True) := by
  intro kind ts rest h _
  cases h with
  | @function colon typeName hc ht =>
    simp only [routineKind, if_true, reads_bind_iff, bind_pure_comp, reads_map_iff,
      reads_symbol_iff, reads_identifier_iff]
    exact ⟨colon, _, ⟨rfl, hc⟩, _, rfl, typeName, rfl, rfl, ht⟩
  | procedure => exact reads_pure_iff.mpr ⟨rfl, rfl⟩

theorem routine_keyword_inj : ∀ b b', Routine.keyword b = Routine.keyword b' → b = b' := by
  decide

theorem reads_heading?_some_iff {us rest : List Token} {heading : Routine.Heading} :
    heading?.Reads us (some heading) rest ↔
      ∃ keyword name, us = keyword :: name :: rest ∧
        (Routine.keyword heading.isFunction).admits keyword = true ∧
        Terminal.identifier.admits name = true ∧
        heading = ⟨heading.isFunction, name.toIdentifier, keyword.origin⟩ := by
  rw [heading?, reads_bind_iff]
  constructor
  · intro h
    rcases h with ⟨o, mid, ho, h⟩
    cases o with
    | none => simp at h
    | some choice =>
      obtain ⟨b, keyword⟩ := choice
      obtain ⟨rfl, -, hk⟩ := (reads_takeFirst?_some_iff routine_keyword_inj).mp ho
      simp only [bind_pure_comp, reads_map_iff, reads_identifier_iff, Option.some.injEq] at h
      obtain ⟨x, rfl, name, rfl, rfl, hn⟩ := h
      exact ⟨keyword, name, rfl, hk, hn, rfl⟩
  · intro h
    rcases h with ⟨keyword, name, rfl, hk, hn, he⟩
    refine ⟨some (heading.isFunction, keyword), name :: rest,
      (reads_takeFirst?_some_iff routine_keyword_inj).mpr ⟨rfl, ?_, hk⟩, ?_⟩
    · cases heading.isFunction <;> decide
    · simp only [bind_pure_comp, reads_map_iff, reads_identifier_iff, Option.some.injEq]
      exact ⟨name.toIdentifier, he, name, rfl, rfl, hn⟩

theorem reads_heading?_none_iff {us rest : List Token} :
    heading?.Reads us none rest ↔
      (∀ b, Token.front? us ≠ some (Routine.keyword b)) ∧ rest = us := by
  rw [heading?, reads_bind_iff]
  constructor
  · intro h
    rcases h with ⟨o, mid, ho, h⟩
    cases o with
    | none =>
      obtain ⟨hne, rfl⟩ := reads_takeFirst?_none_iff.mp ho
      refine ⟨fun b => hne b ?_, (reads_pure_iff.mp h).2⟩
      cases b <;> decide
    | some choice => simp at h
  · intro h
    rcases h with ⟨hne, rfl⟩
    exact ⟨none, rest, reads_takeFirst?_none_iff.mpr ⟨fun b _ => hne b, rfl⟩,
      reads_pure_iff.mpr ⟨rfl, rfl⟩⟩

theorem reads_routineAfter_iff {heading : Routine.Heading} {us rest : List Token} {r : Routine} :
    (routineAfter levels heading).Reads us r rest ↔
      ∃ parameters mid kind semicolon front locals middle body last,
        formals.Reads us parameters mid ∧
        (routineKind heading.isFunction).Reads mid kind (semicolon :: front) ∧
        (Terminal.symbol ";").admits semicolon = true ∧
        (varSection? (expression levels)).Reads front locals middle ∧
        (block levels).Reads middle body (last :: rest) ∧
        (Terminal.symbol ";").admits last = true ∧
        r = ⟨kind, heading.name, parameters, (locals.map (·.decls)).getD [], body,
          heading.origin⟩ := by
  simp only [routineAfter, reads_bind_iff, bind_pure_comp, reads_map_iff, reads_symbol_iff]
  constructor
  · intro h
    rcases h with ⟨parameters, mid, hp, kind, -, hk, semicolon, front, ⟨rfl, hs⟩, locals, middle,
        hl, body, -, hb, last, rfl, rfl, hlast⟩
    exact ⟨parameters, mid, kind, semicolon, front, locals, middle, body, last, hp, hk, hs, hl, hb,
      hlast, rfl⟩
  · intro h
    rcases h with ⟨parameters, mid, kind, semicolon, front, locals, middle, body, last, hp, hk, hs,
        hl, hb, hlast, rfl⟩
    exact ⟨parameters, mid, hp, kind, _, hk, semicolon, front, ⟨rfl, hs⟩, locals, middle, hl, body,
      _, hb, last, rfl, rfl, hlast⟩

theorem reads_routine?_some_iff {us rest : List Token} {r : Routine} :
    (routine? levels).Reads us (some r) rest ↔
      ∃ heading mid, heading?.Reads us (some heading) mid ∧
        (routineAfter levels heading).Reads mid r rest := by
  rw [routine?, reads_bind_iff]
  constructor
  · intro h
    rcases h with ⟨o, mid, ho, h⟩
    cases o with
    | none => simp at h
    | some heading =>
      simp only [bind_pure_comp, reads_map_iff, Option.some.injEq] at h
      obtain ⟨r, rfl, h⟩ := h
      exact ⟨heading, mid, ho, h⟩
  · intro h
    rcases h with ⟨heading, mid, ho, h⟩
    refine ⟨some heading, mid, ho, ?_⟩
    simp only [bind_pure_comp, reads_map_iff]
    exact ⟨r, rfl, h⟩

theorem reads_routine?_none_iff {us rest : List Token} :
    (routine? levels).Reads us none rest ↔
      (∀ b, Token.front? us ≠ some (Routine.keyword b)) ∧ rest = us := by
  rw [← reads_heading?_none_iff, routine?, reads_bind_iff]
  constructor
  · intro h
    rcases h with ⟨o, mid, ho, h⟩
    cases o with
    | none =>
      obtain ⟨-, rfl⟩ := reads_pure_iff.mp h
      exact ho
    | some heading => simp at h
  · intro h
    exact ⟨none, rest, h, reads_pure_iff.mpr ⟨rfl, rfl⟩⟩

theorem routine?_only {us rest : List Token} {r : Routine}
    (h : (routine? levels).Reads us (some r) rest) :
    ∃ ts, us = ts ++ rest ∧ Routine.Spelling levels r ts := by
  obtain ⟨heading, mid, hheading, hr⟩ := reads_routine?_some_iff.mp h
  obtain ⟨keyword, name, rfl, hk, hn, he⟩ := reads_heading?_some_iff.mp hheading
  obtain ⟨parameters, mid', kind, semicolon, front, locals, middle, body, last, hformals, hkind, hs,
    hlocals, hbody, hlast, rfl⟩ := reads_routineAfter_iff.mp hr
  obtain ⟨ts, rfl, hp⟩ := formals_readsOnly _ _ _ hformals
  obtain ⟨us, rfl, hk'⟩ := routineKind_readsOnly _ _ _ _ hkind
  obtain ⟨vs, rfl, hl⟩ := varSection?_readsOnly _ _ _ hlocals
  obtain ⟨ws, rfl, hb⟩ := block_readsOnly levels _ _ _ hbody
  refine ⟨keyword :: name :: (ts ++ (us ++ semicolon :: (vs ++ (ws ++ [last])))), by simp, ?_⟩
  rw [he]
  exact .mk hk hn hp hk' hs hl hb hlast

theorem routine?_all {r : Routine} {ts : List Token} (h : Routine.Spelling levels r ts)
    (rest : List Token) : (routine? levels).Reads (ts ++ rest) (some r) rest := by
  cases h with
  | @mk isFunction keyword name semicolon last parameters kind locals body ts us vs ws hk hn hp
      hkind hs hl hb hlast =>
    have hheading : heading?.Reads
        (keyword :: name :: (ts ++ (us ++ semicolon :: (vs ++ (ws ++ last :: rest)))))
        (some ⟨isFunction, name.toIdentifier, keyword.origin⟩)
        (ts ++ (us ++ semicolon :: (vs ++ (ws ++ last :: rest)))) :=
      reads_heading?_some_iff.mpr ⟨keyword, name, rfl, hk, hn, rfl⟩
    have hopening : Token.front? (us ++ semicolon :: (vs ++ (ws ++ last :: rest))) ≠
        some (.symbol "(") := by
      cases hkind with
      | function hc _ => exact Terminal.front?_ne hc (by decide) _
      | procedure => exact Terminal.front?_ne hs (by decide) _
    have hbegin : Token.front? (ws ++ last :: rest) = some (.word "begin") :=
      Token.front?_append hb.front
    have hlocals := varSection?_readsAll _ _ (ws ++ last :: rest) hl (by rw [hbegin]; decide)
    have hafter : (routineAfter levels ⟨isFunction, name.toIdentifier, keyword.origin⟩).Reads
        (ts ++ (us ++ semicolon :: (vs ++ (ws ++ last :: rest)))) _ rest :=
      reads_routineAfter_iff.mpr ⟨parameters, _, kind, semicolon, _, locals, _, body, last,
        formals_readsAll _ _ _ hp hopening, routineKind_readsAll isFunction _ _ _ hkind trivial, hs,
        hlocals, block_reads hb (last :: rest), hlast, rfl⟩
    have hread := reads_routine?_some_iff.mpr ⟨_, _, hheading, hafter⟩
    simpa using hread

theorem advances_routine? : Advances (routine? levels) := by
  intro us r rest h
  obtain ⟨ts, rfl, hr⟩ := routine?_only h
  obtain ⟨b, hb⟩ := hr.front
  have := List.length_pos_iff.mpr (Token.ne_nil_of_front hb)
  rw [List.length_append]
  omega

theorem routines_readsOnly :
    (many (routine? levels)).ReadsOnly (Sequence (Routine.Spelling levels)) := by
  intro us rs rest h
  obtain ⟨mid, rounds, last⟩ := (reads_many_iff advances_routine?).mp h
  obtain ⟨-, rfl⟩ := reads_routine?_none_iff.mp last
  exact rounds.sequence fun _ _ _ => routine?_only

theorem routines_readsAll :
    (many (routine? levels)).ReadsAll (Sequence (Routine.Spelling levels))
      (fun o => ∀ b, o ≠ some (Routine.keyword b)) := by
  intro rs ts rest h hrest
  induction h with
  | nil => exact reads_many_nil (reads_routine?_none_iff.mpr ⟨hrest, rfl⟩)
  | @cons r rs ts us hr _ ih =>
    have hread := routine?_all hr (us ++ rest)
    rw [List.append_assoc]
    exact reads_many_cons hread (advances_routine? _ _ _ hread) ih

/-! ## Programs -/

theorem reads_opening_iff {us rest : List Token} {front : Opening} :
    (opening levels).Reads us front rest ↔
      ∃ keyword name semicolon mid vars mid' consts, us = keyword :: name :: semicolon :: mid ∧
        (Terminal.word "program").admits keyword = true ∧ Terminal.identifier.admits name = true ∧
        (Terminal.symbol ";").admits semicolon = true ∧
        (varSection? (expression levels)).Reads mid vars mid' ∧
        (constSection? (expression levels)).Reads mid' consts rest ∧
        front = ⟨name.toIdentifier, vars, consts, keyword.origin⟩ := by
  simp only [opening, reads_bind_iff, bind_pure_comp, reads_map_iff, reads_word_iff,
    reads_identifier_iff, reads_symbol_iff]
  constructor
  · intro h
    rcases h with ⟨keyword, -, ⟨rfl, hk⟩, x, -, ⟨name, rfl, rfl, hn⟩, semicolon, mid, ⟨rfl, hs⟩,
        vars, mid', hv, consts, rfl, hc⟩
    exact ⟨keyword, name, semicolon, mid, vars, mid', consts, rfl, hk, hn, hs, hv, hc, rfl⟩
  · intro h
    rcases h with ⟨keyword, name, semicolon, mid, vars, mid', consts, rfl, hk, hn, hs, hv, hc, rfl⟩
    exact ⟨keyword, _, ⟨rfl, hk⟩, _, _, ⟨name, rfl, rfl, hn⟩, semicolon, mid, ⟨rfl, hs⟩, vars, mid',
      hv, consts, rfl, hc⟩

theorem reads_closing_iff {front : Opening} {routines : List Routine} {us rest : List Token}
    {p : Program} :
    (closing levels front routines).Reads us p rest ↔
      ∃ body point, (block levels).Reads us body (point :: rest) ∧
        (Terminal.symbol ".").admits point = true ∧
        p = ⟨front.name, front.vars, front.consts, routines, body, front.origin⟩ := by
  simp only [closing, reads_bind_iff, bind_pure_comp, reads_map_iff, reads_symbol_iff]
  constructor
  · intro h
    rcases h with ⟨body, -, hb, point, rfl, rfl, hp⟩
    exact ⟨body, point, hb, hp, rfl⟩
  · intro h
    rcases h with ⟨body, point, hb, hp, rfl⟩
    exact ⟨body, _, hb, point, rfl, rfl, hp⟩

theorem program_readsOnly : (programUntraced levels).ReadsOnly (Program.Spelling levels) := by
  intro us p rest h
  simp only [programUntraced, reads_bind_iff] at h
  obtain ⟨front, mid, hfront, routines, mid', hroutines, hclosing⟩ := h
  obtain ⟨keyword, name, semicolon, _, vars, _, consts, rfl, hk, hn, hs, hvars, hconsts, rfl⟩ :=
    reads_opening_iff.mp hfront
  obtain ⟨body, point, hbody, hp, rfl⟩ := reads_closing_iff.mp hclosing
  obtain ⟨ts, rfl, hv⟩ := varSection?_readsOnly _ _ _ hvars
  obtain ⟨us, rfl, hc⟩ := constSection?_readsOnly _ _ _ hconsts
  obtain ⟨vs, rfl, hr⟩ := routines_readsOnly _ _ _ hroutines
  obtain ⟨ws, rfl, hb⟩ := block_readsOnly levels _ _ _ hbody
  exact ⟨keyword :: name :: semicolon :: (ts ++ (us ++ (vs ++ (ws ++ [point])))), by simp,
    .mk hk hn hs hv hc hr hb hp⟩

/-- The terminals that may follow the sections of a program. -/
theorem routines_front {routines : List Routine} {vs ws : List Token}
    (hr : Sequence (Routine.Spelling levels) routines vs)
    (hb : Token.front? ws = some (.word "begin")) :
    ∃ a ∈ [Terminal.word "function", .word "procedure", .word "begin"],
      Token.front? (vs ++ ws) = some a := by
  cases hr with
  | nil => exact ⟨_, by decide, hb⟩
  | cons h _ =>
    obtain ⟨b, hfront⟩ := h.front
    rw [List.append_assoc]
    refine ⟨_, ?_, Token.front?_append hfront⟩
    cases b <;> decide

theorem program_reads {p : Program} {ts : List Token} (h : Program.Spelling levels p ts)
    (rest : List Token) : (programUntraced levels).Reads (ts ++ rest) p rest := by
  cases h with
  | @mk keyword name semicolon point vars consts routines body ts us vs ws hk hn hs hv hc hr hb
      hp =>
    have hbegin : Token.front? (ws ++ point :: rest) = some (.word "begin") :=
      Token.front?_append hb.front
    obtain ⟨a, ha, hfront⟩ := routines_front hr hbegin
    have hne {b : Terminal}
        (hb : b ∉ [Terminal.word "function", .word "procedure", .word "begin"]) :
        Token.front? (vs ++ (ws ++ point :: rest)) ≠ some b := by
      rw [hfront]
      intro h
      cases h
      exact hb ha
    have hconsts := constSection?_readsAll _ _ _ hc ⟨hne (by decide), hne (by decide)⟩
    have hvars : (varSection? (expression levels)).Reads
        (ts ++ (us ++ (vs ++ (ws ++ point :: rest)))) vars
        (us ++ (vs ++ (ws ++ point :: rest))) := by
      refine varSection?_readsAll _ _ _ hv ?_
      cases hc with
      | absent => exact ⟨hne (by decide), hne (by decide)⟩
      | present hk _ _ =>
        exact ⟨Terminal.front?_ne hk (by decide) _, Terminal.front?_ne hk (by decide) _⟩
    have hopening := reads_opening_iff.mpr
      ⟨keyword, name, semicolon, _, vars, _, consts, rfl, hk, hn, hs, hvars, hconsts, rfl⟩
    have hroutines := routines_readsAll _ _ (ws ++ point :: rest) hr (by
      rw [hbegin]
      decide)
    have hclosing :
        (closing levels ⟨name.toIdentifier, vars, consts, keyword.origin⟩ routines).Reads
          (ws ++ point :: rest) _ rest :=
      reads_closing_iff.mpr ⟨body, point, block_reads hb (point :: rest), hp, rfl⟩
    have hread : (programUntraced levels).Reads _ _ rest :=
      reads_bind_iff.mpr ⟨_, _, hopening, reads_bind_iff.mpr ⟨_, _, hroutines, hclosing⟩⟩
    simpa using hread

end Parser

theorem Program.parse_eq_ok_iff {maxDepth : Nat} {tokens : List Token} {p : Program} :
    Program.parse maxDepth tokens = .ok p ↔
      (Parser.programUntraced maxDepth).Reads (Token.significant tokens) p [] := by
  have hover : Cursor.ofTokens tokens = .before (Token.significant tokens) := rfl
  rw [parse, trace_eq, Parser.wholeProgram, Parser.bind_apply, Parser.andThen, Parser.Reads,
    ← hover]
  cases h : Parser.programUntraced maxDepth (Cursor.ofTokens tokens) with
  | error failure =>
    constructor
    · intro h
      cases h
    · intro h
      cases h
  | ok read =>
    obtain ⟨p', last⟩ := read
    rw [last.eq_before]
    cases last.rest with
    | nil =>
      show Except.ok p' = Except.ok p ↔ _
      simp
    | cons t ts =>
      show Except.error _ = Except.ok p ↔ _
      simp

/-- A program is parsed just if the significant tokens spell it. -/
theorem Program.parse_iff {maxDepth : Nat} {tokens : List Token} {p : Program} :
    Program.parse maxDepth tokens = .ok p ↔
      Program.Spelling maxDepth p (Token.significant tokens) := by
  rw [parse_eq_ok_iff]
  constructor
  · intro h
    obtain ⟨ts, he, hp⟩ := Parser.program_readsOnly _ _ _ h
    rw [he, List.append_nil]
    exact hp
  · intro h
    have := Parser.program_reads h []
    rwa [List.append_nil] at this

end PascalSyntax
