import PascalSyntax.Proofs.Program.Agreement
import PascalSyntax.Proofs.Statement.Room

/-!
# The bound on the nesting

The bound decides nothing but whether there is an outcome: a reading that does
not lack a level of nesting has the same outcome with every larger bound, and
with as many levels as there are tokens none is ever lacking
(`Program.parse_maxDepth`).

The first part is the agreement of two readings of the same tokens, for positions
that are all kept apart.  The second needs that the readers of declarations and
programs have room too.
-/

namespace PascalSyntax

/-! ## Positions that are all kept apart -/

theorem ParseError.mapPosition_id (e : ParseError) : e.mapPosition id = e := by
  cases e <;> rfl

theorem Program.outcome_id (result : Except ParseError Program) : outcome id result = result := by
  cases result with
  | ok p => exact congrArg Except.ok (mapOrigin_id p)
  | error e => exact congrArg Except.error e.mapPosition_id

namespace Parser

variable {n : Nat}

/-! ## Room in declarations -/

theorem identifierList_hasRoom : HasRoom identifierList n :=
  identifier_hasRoom.separated _

section Over

variable {expression : Parser Cursor Expr} (he : HasRoom expression n)
include he

theorem initializer?_hasRoom (names : List Identifier) :
    HasRoom (initializer? expression names) n := by
  match names with
  | [] => exact .pure none
  | [_] => exact (HasRoom.take? _).option_bind (fun _ => he.map _) (.pure none)
  | _ :: _ :: _ => exact .pure none

theorem varGroup_hasRoom : HasRoom (varGroup expression) n :=
  identifierList_hasRoom.bind fun names => (HasRoom.take _ _).bind fun _ =>
    identifier_hasRoom.bind fun _ => (initializer?_hasRoom he names).bind fun _ =>
      (HasRoom.take _ _).map _

theorem constDecl_hasRoom : HasRoom (constDecl expression) n :=
  identifier_hasRoom.bind fun _ => (HasRoom.take _ _).bind fun _ => he.bind fun _ =>
    (HasRoom.take _ _).map _

theorem varSection?_hasRoom : HasRoom (varSection? expression) (n + 1) :=
  .take?_bind (fun _ => ((varGroup_hasRoom he).repeated _).map _) (.pure none)

theorem constSection?_hasRoom : HasRoom (constSection? expression) (n + 1) :=
  .take?_bind (fun _ => ((constDecl_hasRoom he).repeated _).map _) (.pure none)

end Over

/-! ## Room in programs -/

theorem formals_hasRoom : HasRoom formals n := by
  have hgroup : HasRoom parameterGroup n :=
    (HasRoom.take? _).bind fun _ => identifierList_hasRoom.bind fun _ =>
      (HasRoom.take _ _).bind fun _ => identifier_hasRoom.map _
  have hlist : HasRoom parameterList n := .sees_bind (.pure []) ((hgroup.separated _).map _)
  exact (HasRoom.take? _).option_bind
    (fun _ => hlist.bind fun _ => (HasRoom.take _ _).map _) (.pure [])

theorem routineKind_hasRoom (isFunction : Bool) : HasRoom (routineKind isFunction) n := by
  cases isFunction with
  | true => exact (HasRoom.take _ _).bind fun _ => identifier_hasRoom.map _
  | false => exact .pure _

variable (levels : Nat)

theorem routine?_hasRoom : HasRoom (routine? levels) (levels + 1) := by
  have hheading : HasRoom heading? (levels + 1) :=
    (HasRoom.takeFirst? _ _).option_bind (fun _ => identifier_hasRoom.map _) (.pure none)
  apply hheading.option_bind
  · intro heading
    have hafter : HasRoom (routineAfter levels heading) (levels + 1) :=
      formals_hasRoom.bind fun _ => (routineKind_hasRoom _).bind fun _ =>
        (HasRoom.take _ _).bind fun _ =>
          (varSection?_hasRoom (expression_hasRoom levels)).bind fun _ =>
            (block_hasRoom levels).bind fun _ => (HasRoom.take _ _).map _
    exact hafter.map _
  · exact .pure none

theorem wholeProgram_hasRoom : HasRoom (wholeProgram levels) (levels + 1) := by
  have hopening : HasRoom (opening levels) (levels + 1) :=
    (HasRoom.take _ _).bind fun _ => identifier_hasRoom.bind fun _ => (HasRoom.take _ _).bind
      fun _ => (varSection?_hasRoom (expression_hasRoom levels)).bind fun _ =>
        (constSection?_hasRoom (expression_hasRoom levels)).map _
  have hend : HasRoom endOfInput (levels + 1) := by
    refine ⟨endOfInput_local.shrinks, ?_⟩
    intro us reason rest hfails _
    obtain ⟨-, rfl, -⟩ := fails_endOfInput_iff.mp hfails
    exact Reason.noConfusion
  have hprogram : HasRoom (programUntraced levels) (levels + 1) :=
    hopening.bind fun _ => (routine?_hasRoom levels).many.bind fun _ =>
      (block_hasRoom levels).bind fun _ => (HasRoom.take _ _).map _
  exact hprogram.bind fun _ => hend.map _

end Parser

namespace Program

/-- The reading of some tokens fails for want of a level of nesting. -/
def TooDeep (maxDepth : Nat) (tokens : List Token) : Prop :=
  ∃ limit position, parse maxDepth tokens = .error (.nestingTooDeep limit position)

variable {maxDepth : Nat} {tokens : List Token}

/-- Only a reader that lacks a level gives the error for it, which names the bound. -/
theorem fails_of_tooDeep {limit : Nat} {position : Position}
    (h : parse maxDepth tokens = .error (.nestingTooDeep limit position)) :
    limit = maxDepth ∧ ∃ rest,
      (Parser.wholeProgram maxDepth).Fails (Token.significant tokens) .nestingTooDeep rest := by
  obtain ⟨reason, rest, hfails, he⟩ := parse_eq_error_iff.mp h
  cases reason with
  | nestingTooDeep =>
    obtain ⟨hlimit, -⟩ := ParseError.nestingTooDeep.inj he
    exact ⟨hlimit, rest, hfails⟩
  | integerOutOfRange literal => cases he
  | expected what => cases rest <;> cases he

theorem not_tooDeep_of_length (h : (Token.significant tokens).length ≤ maxDepth) :
    ¬ TooDeep maxDepth tokens := by
  intro hdeep
  obtain ⟨limit, position, hparse⟩ := hdeep
  obtain ⟨-, rest, hfails⟩ := fails_of_tooDeep hparse
  exact (Parser.wholeProgram_hasRoom maxDepth).fits hfails (Nat.lt_succ_of_le h) rfl

theorem parse_of_le {maxDepth' : Nat} (h : maxDepth ≤ maxDepth')
    (hdeep : ¬ TooDeep maxDepth tokens) : parse maxDepth' tokens = parse maxDepth tokens := by
  have hself : Token.Alike id (Token.significant tokens) (Token.significant tokens) := rfl
  rcases parse_agrees h hself rfl with ⟨position, htoo⟩ | heq
  · exact absurd ⟨_, position, htoo⟩ hdeep
  · rw [outcome_id, outcome_id] at heq
    exact heq.symm

/-- The bound on the nesting only filters.  A reading that does not lack a level
has the same outcome, with all positions, under every larger bound; the error for
want of a level names the bound; and there is no such error if there are at least
as many levels as tokens, comments not counted. -/
theorem parse_maxDepth (maxDepth : Nat) (tokens : List Token) :
    (∀ maxDepth', maxDepth ≤ maxDepth' → ¬ TooDeep maxDepth tokens →
      parse maxDepth' tokens = parse maxDepth tokens) ∧
    (∀ limit position, parse maxDepth tokens = .error (.nestingTooDeep limit position) →
      limit = maxDepth) ∧
    ((Token.significant tokens).length ≤ maxDepth → ¬ TooDeep maxDepth tokens) :=
  ⟨fun _ h hdeep => parse_of_le h hdeep, fun _ _ h => (fails_of_tooDeep h).1,
    not_tooDeep_of_length⟩

/-- The tokens of `program p; begin x := (-(1)) end.` -/
def nestedSigns : List Token :=
  [(.reservedWord, "program"), (.identifier, "p"), (.symbol, ";"), (.reservedWord, "begin"),
    (.identifier, "x"), (.symbol, ":="), (.symbol, "("), (.symbol, "-"), (.symbol, "("),
    (.number, "1"), (.symbol, ")"), (.symbol, ")"), (.reservedWord, "end"), (.symbol, ".")].map
  fun (kind, text) => ⟨kind, text, .start⟩

/-- The statement, the value, both parentheses and the sign take a level each, so
that five levels do and four do not. -/
theorem nestedSigns_maxDepth :
    ¬ TooDeep 5 nestedSigns ∧ parse 64 nestedSigns = parse 5 nestedSigns ∧
      parse 4 nestedSigns = .error (.nestingTooDeep 4 .start) ∧
      (Token.significant nestedSigns).length ≤ 14 ∧ ¬ TooDeep 14 nestedSigns := by
  have hread : (parse 5 nestedSigns).isOk = true := by decide +kernel
  have hfive : ¬ TooDeep 5 nestedSigns := by
    intro hdeep
    obtain ⟨limit, position, he⟩ := hdeep
    rw [he] at hread
    cases hread
  have hfour : parse 4 nestedSigns = .error (.nestingTooDeep 4 .start) := by
    rw [parse_places]
    cbv
  have hlength : (Token.significant nestedSigns).length ≤ 14 := by decide
  obtain ⟨same, -, -⟩ := parse_maxDepth 5 nestedSigns
  obtain ⟨-, -, never⟩ := parse_maxDepth 14 nestedSigns
  exact ⟨hfive, same 64 (by decide) hfive, hfour, hlength, never hlength⟩

end Program
end PascalSyntax
