import PascalSyntax.Proofs.Parser.Places
import PascalSyntax.Program.Parser

/-!
# Reading at places and at cursors

Every reader of the grammar reads at a place what it reads at the cursor of that place, with as many
levels as are left there.  The readers of expressions and of statements recurse on a number, and a
place has levels left: what is mirrored is the reader with the lesser of the two
(`Parser.expression_mirrors`, `Parser.statement_mirrors`).

So a program, which is read at the places among all tokens, is what would be read at the cursors of
the significant ones (`Program.trace_eq`).
-/

namespace PascalSyntax
namespace Parser

variable {maxDepth levels : Nat}

/-! ## Expressions -/

section Expressions

variable {operand expression : Parser (Place maxDepth) Expr}
  {operand' expression' : Parser Cursor Expr}

theorem identifier_mirrors :
    Mirrors levels (identifier : Parser (Place maxDepth) Identifier) identifier :=
  (Mirrors.take _ _).bind fun _ => .pure _

theorem integer_mirrors (t : Token) :
    Mirrors levels (integer t : Parser (Place maxDepth) IntegerLiteral) (integer t) := by
  intro place off _
  rw [integer, integer, ← Place.cursor_advance off]
  cases Numeral.signed? t.text.toList with
  | none => exact .error rfl off
  | some value => exact .ok (Place.onward_advance off)

theorem operation_mirrors (operators : List BinaryOperator) (h : Mirrors levels operand operand') :
    Mirrors levels (operation operators operand) (operation operators operand') := by
  refine (Mirrors.takeFirst? _ _).bind fun o => ?_
  cases o with
  | none => exact .pure none
  | some read => exact h.bind fun _ => .pure _

theorem binaryLevel_mirrors (operators : List BinaryOperator)
    (h : Mirrors levels operand operand') :
    Mirrors levels (binaryLevel operators operand) (binaryLevel operators operand') :=
  h.bind fun _ => (operation_mirrors operators h).many.bind fun _ => .pure _

theorem relational_mirrors (h : Mirrors levels operand operand') :
    Mirrors levels (relational operand) (relational operand') :=
  binaryLevel_mirrors _ (binaryLevel_mirrors _ (binaryLevel_mirrors _ h))

theorem arguments_mirrors (h : Mirrors levels expression expression') :
    Mirrors levels (arguments expression) (arguments expression') := by
  refine (Mirrors.take? _).bind fun o => ?_
  cases o with
  | none => exact (h.separated _).bind fun _ => (Mirrors.take _ _).bind fun _ => .pure _
  | some _ => exact .pure []

theorem callOf_mirrors (h : Mirrors levels expression expression') (routine : Identifier) :
    Mirrors levels (callOf expression routine) (callOf expression' routine) := by
  refine (Mirrors.take? _).bind fun o => ?_
  cases o with
  | none => exact .pure _
  | some _ => exact (arguments_mirrors h).bind fun _ => .pure _

theorem primaryOver_mirrors (h : Mirrors levels expression expression') :
    Mirrors levels (primaryOver expression) (primaryOver expression') := by
  refine Mirrors.peek?.bind fun o => ?_
  cases o with
  | none => exact .fail _
  | some t =>
    obtain ⟨kind, text, position⟩ := t
    cases kind
    case number => exact (integer_mirrors _).bind fun _ => .pure _
    case string => exact (Mirrors.take _ _).bind fun _ => .pure _
    case identifier =>
      refine identifier_mirrors.bind fun name => (Mirrors.sees _).bind fun seen => ?_
      cases seen with
      | false => exact .pure _
      | true => exact (callOf_mirrors h name).bind fun _ => .pure _
    -- all other tokens that start an operand are opening parentheses
    all_goals
      refine (Mirrors.take? _).bind fun o => ?_
      cases o with
      | none => exact .fail _
      | some _ => exact h.bind fun _ => (Mirrors.take _ _).bind fun _ => .pure _

theorem unaryOver_mirrors (ho : Mirrors levels operand operand')
    (he : Mirrors levels expression expression') :
    Mirrors levels (unaryOver operand expression) (unaryOver operand' expression') := by
  refine (Mirrors.takeFirst? _ _).bind fun o => ?_
  cases o with
  | none => exact primaryOver_mirrors he
  | some read => exact ho.bind fun _ => .pure _

end Expressions

/-- A number that bounds the recursion is of no account beyond the levels that are left. -/
theorem unary_mirrors (bound levels : Nat) :
    Mirrors levels (unary bound : Parser (Place maxDepth) Expr) (unary (min bound levels)) := by
  induction bound generalizing levels with
  | zero =>
    rw [Nat.zero_min]
    exact unaryOver_mirrors .tooDeep .tooDeep
  | succ bound ih =>
    cases levels with
    | zero => exact unaryOver_mirrors (.nested_zero _) (.nested_zero _)
    | succ levels =>
      rw [Nat.succ_min_succ]
      exact unaryOver_mirrors (.nested_succ (ih levels))
        (.nested_succ (relational_mirrors (ih levels)))

theorem expression_mirrors (bound levels : Nat) :
    Mirrors levels (expression bound : Parser (Place maxDepth) Expr)
      (expression (min bound levels)) := by
  cases bound with
  | zero =>
    rw [Nat.zero_min]
    exact .tooDeep
  | succ bound =>
    cases levels with
    | zero => exact .nested_zero _
    | succ levels =>
      rw [Nat.succ_min_succ]
      exact .nested_succ (relational_mirrors (unary_mirrors bound levels))

theorem primary_mirrors (bound levels : Nat) :
    Mirrors levels (primary bound : Parser (Place maxDepth) Expr) (primary (min bound levels)) :=
  primaryOver_mirrors (expression_mirrors bound levels)

/-! ## Statements -/

section Statements

variable {expression : Parser (Place maxDepth) Expr} {expression' : Parser Cursor Expr}
  {statement : Parser (Place maxDepth) Statement} {statement' : Parser Cursor Statement}

theorem separator_mirrors :
    Mirrors levels (separator : Parser (Place maxDepth) Unit) separator := by
  refine (Mirrors.take? _).bind fun o => ?_
  cases o with
  | none =>
    refine (Mirrors.sees _).bind fun seen => ?_
    cases seen with
    | false => exact .fail _
    | true => exact .pure ()
  | some _ => exact .pure ()

theorem item?_mirrors (h : Mirrors levels statement statement') :
    Mirrors levels (item? statement) (item? statement') := by
  refine (Mirrors.take? _).bind fun o => ?_
  cases o with
  | none =>
    refine (Mirrors.take? _).bind fun o => ?_
    cases o with
    | none => exact h.bind fun _ => separator_mirrors.bind fun _ => .pure _
    | some _ => exact .pure _
  | some _ => exact .pure none

theorem blockOver_mirrors (h : Mirrors levels statement statement') :
    Mirrors levels (blockOver statement) (blockOver statement') :=
  (Mirrors.take _ _).bind fun _ => (item?_mirrors h).many.bind fun _ => .pure _

theorem body_mirrors (h : Mirrors levels statement statement') :
    Mirrors levels (body statement) (body statement') :=
  h.bind fun _ => .pure _

theorem branch_mirrors (he : Mirrors levels expression expression')
    (hs : Mirrors levels statement statement') (ending : String) (keyword : Token) :
    Mirrors levels (branch expression statement ending keyword)
      (branch expression' statement' ending keyword) :=
  he.bind fun _ => (Mirrors.take _ _).bind fun _ => (body_mirrors hs).bind fun _ => .pure _

theorem elseIf_mirrors (he : Mirrors levels expression expression')
    (hs : Mirrors levels statement statement') :
    Mirrors levels (elseIf expression statement) (elseIf expression' statement') := by
  refine (Mirrors.takeBoth? _ _).bind fun o => ?_
  cases o with
  | none => exact .pure none
  | some keyword => exact (branch_mirrors he hs _ keyword).bind fun _ => .pure _

theorem conditional_mirrors (he : Mirrors levels expression expression')
    (hs : Mirrors levels statement statement') (keyword : Token) :
    Mirrors levels (conditional expression statement keyword)
      (conditional expression' statement' keyword) :=
  (branch_mirrors he hs _ keyword).bind fun _ => (elseIf_mirrors he hs).many.bind fun _ =>
    ((body_mirrors hs).another _).bind fun _ => .pure _

theorem direction_mirrors :
    Mirrors levels (direction : Parser (Place maxDepth) Direction) direction := by
  refine (Mirrors.takeFirst? _ _).bind fun o => ?_
  cases o with
  | none => exact .fail _
  | some _ => exact .pure _

theorem forLoop_mirrors (he : Mirrors levels expression expression')
    (hs : Mirrors levels statement statement') (keyword : Token) :
    Mirrors levels (forLoop expression statement keyword)
      (forLoop expression' statement' keyword) :=
  identifier_mirrors.bind fun _ => (Mirrors.take _ _).bind fun _ => he.bind fun _ =>
    direction_mirrors.bind fun _ => he.bind fun _ => (Mirrors.take _ _).bind fun _ =>
      (body_mirrors hs).bind fun _ => .pure _

theorem nameStatement_mirrors (he : Mirrors levels expression expression') :
    Mirrors levels (nameStatement expression) (nameStatement expression') := by
  refine identifier_mirrors.bind fun name => (Mirrors.take? _).bind fun o => ?_
  cases o with
  | none => exact (callOf_mirrors he name).bind fun _ => .pure _
  | some _ => exact he.bind fun _ => .pure _

theorem statementOver_mirrors (he : Mirrors levels expression expression')
    (hs : Mirrors levels statement statement') :
    Mirrors levels (statementOver expression statement) (statementOver expression' statement') := by
  -- one keyword after another is looked for
  refine (Mirrors.take? _).bind fun o => ?_
  cases o with
  | some keyword => exact conditional_mirrors he hs keyword
  | none =>
  refine (Mirrors.take? _).bind fun o => ?_
  cases o with
  | some keyword => exact (branch_mirrors he hs _ keyword).bind fun _ => .pure _
  | none =>
  refine (Mirrors.take? _).bind fun o => ?_
  cases o with
  | some keyword => exact forLoop_mirrors he hs keyword
  | none =>
  refine (Mirrors.sees _).bind fun seen => ?_
  cases seen with
  | true => exact (blockOver_mirrors hs).bind fun _ => .pure _
  | false =>
  refine (Mirrors.sees _).bind fun seen => ?_
  cases seen with
  | true => exact nameStatement_mirrors he
  | false => exact .fail _

end Statements

theorem statement_mirrors (bound levels : Nat) :
    Mirrors levels (statement bound : Parser (Place maxDepth) Statement)
      (statement (min bound levels)) := by
  induction bound generalizing levels with
  | zero =>
    rw [Nat.zero_min]
    exact .tooDeep
  | succ bound ih =>
    cases levels with
    | zero => exact .nested_zero _
    | succ levels =>
      rw [Nat.succ_min_succ]
      exact .nested_succ (statementOver_mirrors (expression_mirrors bound levels) (ih levels))

theorem block_mirrors (bound levels : Nat) :
    Mirrors levels (block bound : Parser (Place maxDepth) Block) (block (min bound levels)) :=
  blockOver_mirrors (statement_mirrors bound levels)

/-! ## Declarations -/

section Declarations

variable {expression : Parser (Place maxDepth) Expr} {expression' : Parser Cursor Expr}

theorem identifierList_mirrors :
    Mirrors levels (identifierList : Parser (Place maxDepth) (List Identifier)) identifierList :=
  identifier_mirrors.separated _

theorem initializer?_mirrors (h : Mirrors levels expression expression')
    (names : List Identifier) :
    Mirrors levels (initializer? expression names) (initializer? expression' names) := by
  match names with
  | [] => exact .pure none
  | [_] =>
    refine (Mirrors.take? _).bind fun o => ?_
    cases o with
    | none => exact .pure none
    | some _ => exact h.bind fun _ => .pure _
  | _ :: _ :: _ => exact .pure none

theorem varGroup_mirrors (h : Mirrors levels expression expression') :
    Mirrors levels (varGroup expression) (varGroup expression') :=
  identifierList_mirrors.bind fun names => (Mirrors.take _ _).bind fun _ =>
    identifier_mirrors.bind fun _ => (initializer?_mirrors h names).bind fun _ =>
      (Mirrors.take _ _).bind fun _ => .pure _

theorem constDecl_mirrors (h : Mirrors levels expression expression') :
    Mirrors levels (constDecl expression) (constDecl expression') :=
  identifier_mirrors.bind fun _ => (Mirrors.take _ _).bind fun _ => h.bind fun _ =>
    (Mirrors.take _ _).bind fun _ => .pure _

theorem varSection?_mirrors (h : Mirrors levels expression expression') :
    Mirrors levels (varSection? expression) (varSection? expression') := by
  refine (Mirrors.take? _).bind fun o => ?_
  cases o with
  | none => exact .pure none
  | some _ => exact ((varGroup_mirrors h).repeated _).bind fun _ => .pure _

theorem constSection?_mirrors (h : Mirrors levels expression expression') :
    Mirrors levels (constSection? expression) (constSection? expression') := by
  refine (Mirrors.take? _).bind fun o => ?_
  cases o with
  | none => exact .pure none
  | some _ => exact ((constDecl_mirrors h).repeated _).bind fun _ => .pure _

theorem parameterGroup_mirrors :
    Mirrors levels (parameterGroup : Parser (Place maxDepth) (List Parameter)) parameterGroup :=
  (Mirrors.take? _).bind fun _ => identifierList_mirrors.bind fun _ =>
    (Mirrors.take _ _).bind fun _ => identifier_mirrors.bind fun _ => .pure _

theorem parameterList_mirrors :
    Mirrors levels (parameterList : Parser (Place maxDepth) (List Parameter)) parameterList := by
  refine (Mirrors.sees _).bind fun seen => ?_
  cases seen with
  | true => exact .pure []
  | false => exact (parameterGroup_mirrors.separated _).bind fun _ => .pure _

end Declarations

/-! ## Routines -/

theorem heading?_mirrors :
    Mirrors levels (heading? : Parser (Place maxDepth) (Option Routine.Heading)) heading? := by
  refine (Mirrors.takeFirst? _ _).bind fun o => ?_
  cases o with
  | none => exact .pure none
  | some read => exact identifier_mirrors.bind fun _ => .pure _

theorem formals_mirrors :
    Mirrors levels (formals : Parser (Place maxDepth) (List Parameter)) formals := by
  refine (Mirrors.take? _).bind fun o => ?_
  cases o with
  | none => exact .pure []
  | some _ => exact parameterList_mirrors.bind fun _ => (Mirrors.take _ _).bind fun _ => .pure _

theorem routineKind_mirrors (isFunction : Bool) :
    Mirrors levels (routineKind isFunction : Parser (Place maxDepth) Routine.Kind)
      (routineKind isFunction) := by
  cases isFunction with
  | false => exact .pure _
  | true => exact (Mirrors.take _ _).bind fun _ => identifier_mirrors.bind fun _ => .pure _

theorem routineAfter_mirrors (bound levels : Nat) (heading : Routine.Heading) :
    Mirrors levels (routineAfter bound heading : Parser (Place maxDepth) Routine)
      (routineAfter (min bound levels) heading) :=
  formals_mirrors.bind fun _ => (routineKind_mirrors _).bind fun _ =>
    (Mirrors.take _ _).bind fun _ => (varSection?_mirrors (expression_mirrors _ _)).bind fun _ =>
      (block_mirrors _ _).bind fun _ => (Mirrors.take _ _).bind fun _ => .pure _

theorem routine?_mirrors (bound levels : Nat) :
    Mirrors levels (routine? bound : Parser (Place maxDepth) (Option Routine))
      (routine? (min bound levels)) := by
  refine heading?_mirrors.bind fun o => ?_
  cases o with
  | none => exact .pure none
  | some heading => exact (routineAfter_mirrors bound levels heading).bind fun _ => .pure _

/-! ## Programs -/

theorem opening_mirrors (bound levels : Nat) :
    Mirrors levels (opening bound : Parser (Place maxDepth) Opening)
      (opening (min bound levels)) :=
  (Mirrors.take _ _).bind fun _ => identifier_mirrors.bind fun _ => (Mirrors.take _ _).bind fun _ =>
    (varSection?_mirrors (expression_mirrors _ _)).bind fun _ =>
      (constSection?_mirrors (expression_mirrors _ _)).bind fun _ => .pure _

theorem closing_mirrors (bound levels : Nat) (front : Opening) (routines : List Routine) :
    Mirrors levels (closing bound front routines : Parser (Place maxDepth) Program)
      (closing (min bound levels) front routines) :=
  (block_mirrors _ _).bind fun _ => (Mirrors.take _ _).bind fun _ => .pure _

theorem programUntraced_mirrors (bound levels : Nat) :
    Mirrors levels (programUntraced bound : Parser (Place maxDepth) Program)
      (programUntraced (min bound levels)) :=
  (opening_mirrors _ _).bind fun _ => (routine?_mirrors _ _).many.bind fun _ =>
    closing_mirrors _ _ _ _

theorem endOfInput_mirrors :
    Mirrors levels (endOfInput : Parser (Place maxDepth) Unit) endOfInput := by
  intro place off _
  rw [endOfInput, endOfInput, Place.atEnd_cursor off]
  cases Spot.atEnd place with
  | false => exact .error rfl off
  | true => exact .ok (.refl off)

/-- The headings that are met at places are those that are met at their cursors. -/
theorem routines_headings (bound : Nat) (place : Place maxDepth) (off : place.OffComments)
    (hlevels : maxDepth - place.depth = levels) :
    (routines bound place).headings = (routines (min bound levels) place.cursor).headings := by
  have hheading := heading?_mirrors place off hlevels
  fun_induction routines bound place with
  | case1 place failure hread =>
    rw [hread] at hheading
    rw [routines, hheading.eq_error.1]
  | case2 place next hread =>
    rw [hread] at hheading
    rw [routines, hheading.eq_ok.1]
  | case3 place heading next hread failure hread' =>
    rw [hread] at hheading
    obtain ⟨hcursor, onward⟩ := hheading.eq_ok
    have hafter := (routineAfter_mirrors bound levels heading).after onward hlevels
    rw [hread'] at hafter
    rw [routines, hcursor]
    simp only [hafter.eq_error.1]
  | case4 place heading next hread routine last hread' hlt others ih =>
    rw [hread] at hheading
    obtain ⟨hcursor, onward⟩ := hheading.eq_ok
    have hafter := (routineAfter_mirrors bound levels heading).after onward hlevels
    rw [hread'] at hafter
    obtain ⟨hcursor', onward'⟩ := hafter.eq_ok
    have honward := onward.trans onward'
    have hlt' := (honward.left_lt_cursor_iff off).mpr hlt
    have hothers := ih honward.offComments (honward.levels hlevels)
      (heading?_mirrors.after honward hlevels)
    rw [routines, hcursor]
    simp only [hcursor', if_pos hlt']
    exact congrArg _ hothers
  | case5 place heading next hread routine last hread' hlt =>
    rw [hread] at hheading
    obtain ⟨hcursor, onward⟩ := hheading.eq_ok
    have hafter := (routineAfter_mirrors bound levels heading).after onward hlevels
    rw [hread'] at hafter
    obtain ⟨hcursor', onward'⟩ := hafter.eq_ok
    have honward := onward.trans onward'
    have hlt' := (not_congr (honward.left_lt_cursor_iff off)).mpr hlt
    rw [routines, hcursor]
    simp only [hcursor', if_neg hlt']

theorem program_headings_eq {σ : Type} [Spot σ] (levels : Nat) (s : σ) :
    (program levels s).headings =
      match opening levels s with
      | .error _ => []
      | .ok (_, next) => (routines levels next).headings := by
  rw [program]
  cases opening levels s with
  | error failure => rfl
  | ok read =>
    obtain ⟨front, next⟩ := read
    cases h : (routines levels next).outcome <;> simp [h]

theorem program_headings (bound : Nat) (place : Place maxDepth) (off : place.OffComments)
    (hlevels : maxDepth - place.depth = levels) :
    (program bound place).headings = (program (min bound levels) place.cursor).headings := by
  have hopening := opening_mirrors bound levels place off hlevels
  rw [program_headings_eq, program_headings_eq]
  generalize opening bound place = read, opening (min bound levels) place.cursor = read' at hopening
  cases hopening with
  | error _ _ => rfl
  | @ok front next onward =>
    exact routines_headings bound next onward.offComments (onward.levels hlevels)

/-- Reads a program that nothing follows. -/
def wholeProgram {σ : Type} [Spot σ] (levels : Nat) : Parser σ Program := do
  let p ← programUntraced levels
  let _ ← endOfInput
  return p

theorem wholeProgram_eq {σ : Type} [Spot σ] (levels : Nat) (s : σ) :
    (do
      let (p, last) ← (program levels s).outcome
      let _ ← endOfInput last
      return p) = (wholeProgram levels s).map Prod.fst := by
  rw [program_outcome, wholeProgram, bind_apply, andThen]
  cases programUntraced levels s with
  | error failure => rfl
  | ok read =>
    obtain ⟨p, last⟩ := read
    show (endOfInput last >>= _) = Except.map _ (endOfInput.andThen _ last)
    rw [andThen]
    cases endOfInput last <;> rfl

theorem wholeProgram_mirrors (bound levels : Nat) :
    Mirrors levels (wholeProgram bound : Parser (Place maxDepth) Program)
      (wholeProgram (min bound levels)) :=
  (programUntraced_mirrors _ _).bind fun _ => endOfInput_mirrors.bind fun _ => .pure _

section Start

variable {bound : Nat} (hbound : maxDepth ≤ bound) (tokens : List Token)

include hbound

/-- A reading of all tokens starts with all levels left, so that any number that is not less bounds
the recursion. -/
theorem wholeProgram_start :
    (Place.start maxDepth tokens).Agree (wholeProgram bound (.start maxDepth tokens))
      (wholeProgram maxDepth (.ofTokens tokens)) := by
  have hagree := wholeProgram_mirrors bound maxDepth _
    (Place.onward_start maxDepth tokens).offComments (Place.levels_start maxDepth tokens)
  rwa [Nat.min_eq_right hbound, Place.cursor_start] at hagree

theorem program_headings_start :
    (program bound (Place.start maxDepth tokens)).headings =
      (program maxDepth (Cursor.ofTokens tokens)).headings := by
  rw [program_headings bound _ (Place.onward_start maxDepth tokens).offComments
    (Place.levels_start maxDepth tokens), Place.cursor_start, Nat.min_eq_right hbound]

end Start

end Parser

/-- Tokens are read as a program at the places among them. -/
theorem Program.parse_places (maxDepth : Nat) (tokens : List Token) :
    parse maxDepth tokens =
      match Parser.wholeProgram (maxDepth + 1) (Place.start maxDepth tokens) with
      | .error failure => .error (failure.report (Token.endOf tokens) maxDepth)
      | .ok (p, _) => .ok p := by
  rw [parse, trace]
  simp only [Parser.wholeProgram_eq]
  cases Parser.wholeProgram (maxDepth + 1) (Place.start maxDepth tokens) <;> rfl

/-- Off the comments, a failure at a place is reported as the one at its cursor is. -/
theorem FailureAt.report_cursor {reason : Reason} {stop : Place maxDepth} (off : stop.OffComments)
    (finish : Position) (limit : Nat) :
    FailureAt.report ⟨reason, stop.cursor⟩ finish limit =
      FailureAt.report ⟨reason, stop⟩ finish limit := by
  simp only [FailureAt.report, Spot.location, Place.peek?_cursor off]

/-- A program is read at the places among all tokens, and comments are skipped on the way.  What is
read is what would be read at the cursors of the significant tokens, which have no comments. -/
theorem Program.trace_eq (maxDepth : Nat) (tokens : List Token) :
    trace maxDepth tokens =
      ((Parser.program maxDepth (Cursor.ofTokens tokens)).headings,
        ((Parser.wholeProgram maxDepth (Cursor.ofTokens tokens)).map Prod.fst).mapError
          (·.report (Token.endOf tokens) maxDepth)) := by
  have hagree := Parser.wholeProgram_start (Nat.le_succ maxDepth) tokens
  rw [trace, Parser.program_headings_start (Nat.le_succ maxDepth)]
  simp only [Parser.wholeProgram_eq]
  generalize Parser.wholeProgram (maxDepth + 1) (Place.start maxDepth tokens) = read,
    Parser.wholeProgram maxDepth (Cursor.ofTokens tokens) = read' at hagree
  cases hagree with
  | ok _ => rfl
  | error _ hstop =>
    exact congrArg (fun e => (_, Except.error e)) (FailureAt.report_cursor hstop _ _).symm

end PascalSyntax
