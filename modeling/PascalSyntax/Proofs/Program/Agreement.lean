import PascalSyntax.Proofs.Program.Failing
import PascalSyntax.Proofs.Statement.Agreement

/-!
# Agreement of the readings of a program

Two readings of programs are compared, of tokens that are alike and with bounds
on the nesting of which the second is no smaller.  Unless the first lacks a
level, both have the same outcome but for positions (`Program.parse_agrees`).
-/

namespace PascalSyntax

/-! ## Groups -/

/-- The declarations of a group look the same if its names, its type and its
initial value do. -/
theorem VarDecl.map_mapOrigin_group (f : Origin → Origin) (names : List Identifier)
    (typeName : Identifier) (init : Option Expr) :
    (names.map fun x => VarDecl.mk x typeName init x.origin).map (VarDecl.mapOrigin f) =
      (names.map (Identifier.mapOrigin f)).map fun x =>
        ⟨x, typeName.mapOrigin f, init.map (Expr.mapOrigin f), x.origin⟩ := by
  rw [List.map_map, List.map_map]
  rfl

/-- The parameters of a group look the same if its names, its type and the `var`
before them do. -/
theorem Parameter.map_mapOrigin_group (g : Position → Position) (names : List Identifier)
    (typeName : Identifier) (keyword : Option Token) :
    (names.map fun x => Parameter.mk x typeName keyword.isSome
        ((keyword.map Token.origin).getD x.origin)).map (Parameter.mapOrigin (.mapPosition g)) =
      (names.map (Identifier.mapOrigin (.mapPosition g))).map fun x =>
        ⟨x, typeName.mapOrigin (.mapPosition g), (keyword.map (Token.mapPosition g)).isSome,
          ((keyword.map (Token.mapPosition g)).map Token.origin).getD x.origin⟩ := by
  rw [List.map_map, List.map_map]
  cases keyword <;> rfl

/-- What a section looks like. -/
def DeclSection.mapOrigin (f : Origin → Origin) (view : α → α) (s : DeclSection α) :
    DeclSection α :=
  ⟨s.decls.map view, f s.origin⟩

theorem DeclSection.map_decls_mapOrigin (f : Origin → Origin) (view : α → α)
    (part : Option (DeclSection α)) :
    ((part.map (·.decls)).getD []).map view =
      ((part.map (mapOrigin f view)).map (·.decls)).getD [] := by
  cases part <;> rfl

namespace Parser

variable {g : Position → Position}

/-! ## Declarations -/

theorem identifierList_agrees :
    Agrees g (List.map (Identifier.mapOrigin (.mapPosition g))) identifierList identifierList :=
  identifier_agrees.separated _

section Over

variable {expression expression' : Parser Cursor Expr}
  (he : Agrees g (Expr.mapOrigin (.mapPosition g)) expression expression')

include he

/-- How many names there are decides on an initial value, and lists of names that
look the same are as long. -/
theorem initializer?_agrees {names names' : List Identifier}
    (h : names.map (Identifier.mapOrigin (.mapPosition g)) =
      names'.map (Identifier.mapOrigin (.mapPosition g))) :
    Agrees g (Option.map (Expr.mapOrigin (.mapPosition g))) (initializer? expression names)
      (initializer? expression' names') := by
  have hlength : names.length = names'.length := by
    have := congrArg List.length h
    rwa [List.length_map, List.length_map] at this
  match names, names', hlength with
  | [], [], _ => exact .pure rfl
  | [_], [_], _ => exact he.another (.symbol "=")
  | _ :: _ :: _, _ :: _ :: _, _ => exact .pure rfl

theorem varGroup_agrees :
    Agrees g (List.map (VarDecl.mapOrigin (.mapPosition g))) (varGroup expression)
      (varGroup expression') := by
  apply identifierList_agrees.bind
  intro names names' hnames
  apply (Agrees.take _ _).bind
  intro _ _ _
  apply identifier_agrees.bind
  intro typeName typeName' htype
  apply (initializer?_agrees he hnames).bind
  intro init init' hinit
  apply (Agrees.take _ _).map
  intro _ _ _
  rw [VarDecl.map_mapOrigin_group, VarDecl.map_mapOrigin_group, hnames, htype, hinit]

theorem constDecl_agrees :
    Agrees g (ConstDecl.mapOrigin (.mapPosition g)) (constDecl expression)
      (constDecl expression') := by
  apply identifier_agrees.bind
  intro x y h
  apply (Agrees.take _ _).bind
  intro _ _ _
  apply he.bind
  intro value value' hvalue
  apply (Agrees.take _ _).map
  intro _ _ _
  rw [ConstDecl.mapOrigin, ConstDecl.mapOrigin, h, hvalue, Identifier.origin_of_mapOrigin h]

theorem varSection?_agrees :
    Agrees g (Option.map (DeclSection.mapOrigin (.mapPosition g)
      (VarDecl.mapOrigin (.mapPosition g)))) (varSection? expression)
      (varSection? expression') := by
  apply (Agrees.take? _).bindOption
  · intro t u h
    apply ((varGroup_agrees he).repeated _).map
    intro groups groups' hgroups
    have hdecls := congrArg List.flatten hgroups
    rw [← List.map_flatten, ← List.map_flatten] at hdecls
    rw [Option.map_some, Option.map_some, DeclSection.mapOrigin, DeclSection.mapOrigin, hdecls,
      Token.origin_of_mapPosition h]
  · exact .pure rfl

theorem constSection?_agrees :
    Agrees g (Option.map (DeclSection.mapOrigin (.mapPosition g)
      (ConstDecl.mapOrigin (.mapPosition g)))) (constSection? expression)
      (constSection? expression') := by
  apply (Agrees.take? _).bindOption
  · intro t u h
    apply ((constDecl_agrees he).repeated _).map
    intro decls decls' hdecls
    rw [Option.map_some, Option.map_some, DeclSection.mapOrigin, DeclSection.mapOrigin, hdecls,
      Token.origin_of_mapPosition h]
  · exact .pure rfl

end Over

/-! ## Routines -/

theorem parameterGroup_agrees :
    Agrees g (List.map (Parameter.mapOrigin (.mapPosition g))) parameterGroup parameterGroup := by
  apply (Agrees.take? _).bind
  intro keyword keyword' hkeyword
  apply identifierList_agrees.bind
  intro names names' hnames
  apply (Agrees.take _ _).bind
  intro _ _ _
  apply identifier_agrees.map
  intro typeName typeName' htype
  rw [Parameter.map_mapOrigin_group, Parameter.map_mapOrigin_group, hnames, htype, hkeyword]

theorem parameterList_agrees :
    Agrees g (List.map (Parameter.mapOrigin (.mapPosition g))) parameterList parameterList := by
  apply Agrees.sees_bind
  · exact .pure rfl
  · apply (parameterGroup_agrees.separated _).map
    intro groups groups' hgroups
    have hparameters := congrArg List.flatten hgroups
    rwa [← List.map_flatten, ← List.map_flatten] at hparameters

theorem formals_agrees :
    Agrees g (List.map (Parameter.mapOrigin (.mapPosition g))) formals formals := by
  apply (Agrees.take? _).bindOption
  · intro _ _ _
    apply parameterList_agrees.bind
    intro parameters parameters' hparameters
    apply (Agrees.take _ _).map
    intro _ _ _
    exact hparameters
  · exact .pure rfl

theorem routineKind_agrees (isFunction : Bool) :
    Agrees g (Routine.Kind.mapOrigin (.mapPosition g)) (routineKind isFunction)
      (routineKind isFunction) := by
  cases isFunction with
  | true =>
    apply (Agrees.take _ _).bind
    intro _ _ _
    apply identifier_agrees.map
    intro x y h
    rw [Routine.Kind.mapOrigin, Routine.Kind.mapOrigin, h]
  | false => exact .pure rfl

/-- What a heading looks like. -/
def viewHeading (g : Position → Position) (heading : Routine.Heading) : Routine.Heading :=
  ⟨heading.isFunction, heading.name.mapOrigin (.mapPosition g), heading.origin.mapPosition g⟩

theorem heading?_agrees : Agrees g (Option.map (viewHeading g)) heading? heading? := by
  apply (Agrees.takeFirst? _ routine_keyword_inj).bindOption
  · intro choice choice' h
    obtain ⟨b, t⟩ := choice
    obtain ⟨b', u⟩ := choice'
    obtain ⟨hb, htoken⟩ := Prod.mk.inj h
    have hb : b = b' := hb
    apply identifier_agrees.map
    intro x y hname
    rw [Option.map_some, Option.map_some, viewHeading, viewHeading, hb, hname,
      Token.origin_of_mapPosition htoken]
  · exact .pure rfl

section Levels

variable {levels levels' : Nat} (h : levels ≤ levels')
include h

theorem routineAfter_agrees {heading heading' : Routine.Heading}
    (hheading : viewHeading g heading = viewHeading g heading') :
    Agrees g (Routine.mapOrigin (.mapPosition g)) (routineAfter levels heading)
      (routineAfter levels' heading') := by
  obtain ⟨hkind, hname, horigin⟩ := Routine.Heading.mk.inj hheading
  apply formals_agrees.bind
  intro parameters parameters' hparameters
  rw [hkind]
  apply (routineKind_agrees _).bind
  intro kind kind' hk
  apply (Agrees.take _ _).bind
  intro _ _ _
  apply (varSection?_agrees (expression_agrees h)).bind
  intro locals locals' hlocals
  apply (block_agrees h).bind
  intro body body' hbody
  apply (Agrees.take _ _).map
  intro _ _ _
  rw [Routine.mapOrigin, Routine.mapOrigin, hk, hname, hparameters, hbody, horigin,
    DeclSection.map_decls_mapOrigin (.mapPosition g), hlocals,
    ← DeclSection.map_decls_mapOrigin (.mapPosition g)]

theorem routine?_agrees :
    Agrees g (Option.map (Routine.mapOrigin (.mapPosition g))) (routine? levels)
      (routine? levels') := by
  apply heading?_agrees.bindOption
  · intro heading heading' hheading
    exact (routineAfter_agrees h hheading).some
  · exact .pure rfl

/-! ## Programs -/

/-- What the front part of a program looks like. -/
def viewOpening (g : Position → Position) (front : Opening) : Opening where
  name := front.name.mapOrigin (.mapPosition g)
  vars := front.vars.map (.mapOrigin (.mapPosition g) (VarDecl.mapOrigin (.mapPosition g)))
  consts := front.consts.map (.mapOrigin (.mapPosition g) (ConstDecl.mapOrigin (.mapPosition g)))
  origin := front.origin.mapPosition g

theorem opening_agrees : Agrees g (viewOpening g) (opening levels) (opening levels') := by
  apply (Agrees.take _ _).bind
  intro t u htoken
  apply identifier_agrees.bind
  intro x y hname
  apply (Agrees.take _ _).bind
  intro _ _ _
  apply (varSection?_agrees (expression_agrees h)).bind
  intro vars vars' hvars
  apply (constSection?_agrees (expression_agrees h)).map
  intro consts consts' hconsts
  rw [viewOpening, viewOpening, hname, hvars, hconsts, Token.origin_of_mapPosition htoken]

theorem closing_agrees {front front' : Opening}
    (hfront : viewOpening g front = viewOpening g front') {routines routines' : List Routine}
    (hroutines : routines.map (Routine.mapOrigin (.mapPosition g)) =
      routines'.map (Routine.mapOrigin (.mapPosition g))) :
    Agrees g (Program.mapOrigin (.mapPosition g)) (closing levels front routines)
      (closing levels' front' routines') := by
  obtain ⟨hname, hvars, hconsts, horigin⟩ := Opening.mk.inj hfront
  apply (block_agrees h).bind
  intro body body' hbody
  apply (Agrees.take _ _).map
  intro _ _ _
  show Program.mk _ _ _ _ _ _ = Program.mk _ _ _ _ _ _
  congr 1

theorem programUntraced_agrees :
    Agrees g (Program.mapOrigin (.mapPosition g)) (programUntraced levels)
      (programUntraced levels') := by
  apply (opening_agrees h).bind
  intro front front' hfront
  apply (routine?_agrees h).many.bind
  intro routines routines' hroutines
  exact closing_agrees h hfront hroutines

omit h in
theorem endOfInput_agrees : Agrees g id endOfInput endOfInput := by
  refine ⟨?_, ?_⟩
  · intro us vs halike _ rest hreads
    obtain ⟨rfl, rfl⟩ := reads_endOfInput_iff.mp hreads
    exact ⟨(), [], reads_endOfInput_iff.mpr ⟨halike.eq_nil, halike.eq_nil.symm⟩, rfl, rfl⟩
  · intro us vs halike reason rest hfails _
    obtain ⟨hne, rfl, rfl⟩ := fails_endOfInput_iff.mp hfails
    have hne' : vs ≠ [] := by
      intro hnil
      subst hnil
      exact hne (Token.Alike.eq_nil halike.symm)
    exact ⟨_, vs, fails_endOfInput_iff.mpr ⟨hne', rfl, rfl⟩, rfl, halike⟩

theorem wholeProgram_agrees :
    Agrees g (Program.mapOrigin (.mapPosition g)) (wholeProgram levels)
      (wholeProgram levels') := by
  apply (programUntraced_agrees h).bind
  intro p p' hp
  apply endOfInput_agrees.map
  intro _ _ _
  exact hp

end Levels
end Parser

/-! ## Outcomes -/

/-- The error at another position, and the token that it is about too. -/
def ParseError.mapPosition (g : Position → Position) : ParseError → ParseError
  | .unexpectedToken what found => .unexpectedToken what (found.mapPosition g)
  | .missingTerminal what position => .missingTerminal what (g position)
  | .integerOutOfRange literal => .integerOutOfRange (literal.mapPosition g)
  | .nestingTooDeep limit position => .nestingTooDeep limit (g position)

/-- The errors of two readings that stop in the same way are the same but for
positions. -/
theorem FailureAt.report_mapPosition {g : Position → Position} {reason reason' : Reason}
    {rest rest' : List Token} {finish finish' : Position} {maxDepth maxDepth' : Nat}
    (hreason : reason.mapPosition g = reason'.mapPosition g) (hdeep : reason ≠ .nestingTooDeep)
    (halike : Token.Alike g rest rest') (hfinish : g finish = g finish') :
    (report ⟨reason, Cursor.before rest⟩ finish maxDepth).mapPosition g =
      (report ⟨reason', Cursor.before rest'⟩ finish' maxDepth').mapPosition g := by
  cases reason with
  | nestingTooDeep => exact absurd rfl hdeep
  | integerOutOfRange literal =>
    cases reason' with
    | integerOutOfRange literal' =>
      have hliteral := Reason.integerOutOfRange.inj hreason
      exact congrArg ParseError.integerOutOfRange hliteral
    | _ => cases hreason
  | expected what =>
    cases reason' with
    | expected what' =>
      cases hreason
      cases rest with
      | nil =>
        rw [halike.eq_nil]
        exact congrArg (ParseError.missingTerminal what) hfinish
      | cons t rest =>
        obtain ⟨u, rest', rfl, hu, -⟩ := halike.exists_cons
        exact congrArg (ParseError.unexpectedToken what) hu
    | _ => cases hreason

namespace Program

/-- The outcome of a reading without the positions that `g` does not keep apart. -/
def outcome (g : Position → Position) (result : Except ParseError Program) :
    Except ParseError Program :=
  (result.map (mapOrigin (.mapPosition g))).mapError (ParseError.mapPosition g)

/-- A second reading, of tokens that are alike and with at least as many levels of
nesting, has the outcome of the first, unless the first lacks a level. -/
theorem parse_agrees {g : Position → Position} {maxDepth maxDepth' : Nat}
    (h : maxDepth ≤ maxDepth') {tokens tokens' : List Token}
    (halike : Token.Alike g (Token.significant tokens) (Token.significant tokens'))
    (hfinish : g (Token.endOf tokens) = g (Token.endOf tokens')) :
    (∃ position, parse maxDepth tokens = .error (.nestingTooDeep maxDepth position)) ∨
      outcome g (parse maxDepth tokens) = outcome g (parse maxDepth' tokens') := by
  cases hparse : parse maxDepth tokens with
  | ok p =>
    have hreads := parse_eq_ok_iff.mp hparse
    obtain ⟨p', rest', hreads', hp, hrest⟩ := (Parser.programUntraced_agrees h).reads halike hreads
    rw [hrest.eq_nil] at hreads'
    rw [parse_eq_ok_iff.mpr hreads']
    exact .inr (congrArg Except.ok hp)
  | error e =>
    obtain ⟨reason, rest, hfails, rfl⟩ := parse_eq_error_iff.mp hparse
    by_cases hdeep : reason = .nestingTooDeep
    · subst hdeep
      exact .inl ⟨_, rfl⟩
    · obtain ⟨reason', rest', hfails', hreason, hrest⟩ :=
        (Parser.wholeProgram_agrees h).fails halike hfails hdeep
      rw [parse_eq_error_iff.mpr ⟨reason', rest', hfails', rfl⟩]
      refine .inr (congrArg Except.error ?_)
      exact FailureAt.report_mapPosition hreason hdeep hrest hfinish

end Program
end PascalSyntax
