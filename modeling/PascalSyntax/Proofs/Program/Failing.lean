import PascalSyntax.Proofs.Program.Reading
import PascalSyntax.Proofs.Statement.Failing

/-!
# Where the reading of a program fails

The reader of a whole program, up to the end of input, is local
(`Parser.wholeProgram_local`), and an error of `Program.parse` is what that
reader reports (`Program.parse_eq_error_iff`).

An error at a token is therefore settled by the tokens up to that one: any list
of tokens that starts with them has the same error
(`Program.parse_error_abort`).  At the end of input there is no such token.
-/

namespace PascalSyntax

/-! ## Comments -/

namespace Token

theorem significant_append (ts us : List Token) :
    significant (ts ++ us) = significant ts ++ significant us :=
  List.filter_append ts us

theorem significant_significant (ts : List Token) :
    significant (significant ts) = significant ts := by
  simp [significant]

theorem significant_append_cons (before after : List Token) {t : Token} (ht : t.kind ≠ .comment) :
    significant (before ++ t :: after) = significant before ++ t :: significant after := by
  simp [significant, ht]

/-- A place among the significant tokens is one among all tokens. -/
theorem exists_split {tokens front rest : List Token} {t : Token}
    (h : significant tokens = front ++ t :: rest) :
    ∃ before after, tokens = before ++ t :: after ∧ t.kind ≠ .comment ∧
      significant before = front := by
  obtain ⟨xs, ys, rfl, rfl, hys⟩ := List.filter_eq_append_iff.mp h
  obtain ⟨zs, after, rfl, hzs, ht, rfl⟩ := List.filter_eq_cons_iff.mp hys
  refine ⟨xs ++ zs, after, (List.append_assoc _ _ _).symm, by simpa using ht, ?_⟩
  rw [significant, List.filter_append, List.filter_eq_nil_iff.mpr hzs, List.append_nil]

end Token

namespace Parser

/-! ## Declarations -/

theorem identifierList_local : Local identifierList :=
  identifier_local.separated _

section Over

variable {expression : Parser Cursor Expr}

theorem initializer?_local (he : Local expression) (names : List Identifier) :
    Local (initializer? expression names) := by
  match names with
  | [] => exact .pure none
  | [_] => exact .take?_bind (fun _ => he.bind fun _ => .pure _) (.pure none)
  | _ :: _ :: _ => exact .pure none

theorem varGroup_local (he : Local expression) : Local (varGroup expression) :=
  identifierList_local.bind fun names => (Local.take _ _).bind fun _ =>
    identifier_local.bind fun _ => (initializer?_local he names).bind fun _ =>
      (Local.take _ _).bind fun _ => .pure _

theorem constDecl_local (he : Local expression) : Local (constDecl expression) :=
  identifier_local.bind fun _ => (Local.take _ _).bind fun _ => he.bind fun _ =>
    (Local.take _ _).bind fun _ => .pure _

theorem varSection?_local (he : Local expression) : Local (varSection? expression) :=
  .take?_bind (fun _ => ((varGroup_local he).repeated _).bind fun _ => .pure _) (.pure none)

theorem constSection?_local (he : Local expression) : Local (constSection? expression) :=
  .take?_bind (fun _ => ((constDecl_local he).repeated _).bind fun _ => .pure _) (.pure none)

end Over

/-! ## Routines -/

theorem parameterGroup_local : Local parameterGroup :=
  (Local.take? _).bind fun _ => identifierList_local.bind fun _ => (Local.take _ _).bind fun _ =>
    identifier_local.bind fun _ => .pure _

theorem parameterList_local : Local parameterList :=
  .sees_bind (.pure []) ((parameterGroup_local.separated _).bind fun _ => .pure _)

theorem formals_local : Local formals :=
  .take?_bind (fun _ => parameterList_local.bind fun parameters => (Local.take _ _).bind fun _ =>
    .pure parameters) (.pure [])

theorem routineKind_local (isFunction : Bool) : Local (routineKind isFunction) := by
  cases isFunction with
  | true => exact (Local.take _ _).bind fun _ => identifier_local.bind fun _ => .pure _
  | false => exact .pure _

theorem heading?_local : Local heading? :=
  .takeFirst?_bind (fun _ => identifier_local.bind fun _ => .pure _) (.pure none)

variable (levels : Nat)

theorem routine?_local : Local (routine? levels) := by
  refine heading?_local.bind fun o => ?_
  cases o with
  | some heading =>
    have hafter : Local (routineAfter levels heading) :=
      formals_local.bind fun _ => (routineKind_local _).bind fun _ => (Local.take _ _).bind fun _ =>
        (varSection?_local (expression_local levels)).bind fun _ => (block_local levels).bind
          fun _ => (Local.take _ _).bind fun _ => .pure _
    exact hafter.bind fun _ => .pure _
  | none => exact .pure none

/-! ## Programs -/

theorem programUntraced_local : Local (programUntraced levels) := by
  have hopening : Local (opening levels) :=
    (Local.take _ _).bind fun _ => identifier_local.bind fun _ => (Local.take _ _).bind fun _ =>
      (varSection?_local (expression_local levels)).bind fun _ =>
        (constSection?_local (expression_local levels)).bind fun _ => .pure _
  refine hopening.bind fun front => (routine?_local levels).many.bind fun routines => ?_
  exact (block_local levels).bind fun _ => (Local.take _ _).bind fun _ => .pure _

theorem reads_endOfInput_iff {us rest : List Token} :
    endOfInput.Reads us () rest ↔ us = [] ∧ rest = us := by
  cases us with
  | nil => simp [Reads, endOfInput, Spot.atEnd, Cursor.atEnd, Cursor.before, eq_comm]
  | cons t us => simp [Reads, endOfInput, Spot.atEnd, Cursor.atEnd, Cursor.before]

theorem fails_endOfInput_iff {us rest : List Token} {reason : Reason} :
    endOfInput.Fails us reason rest ↔
      us ≠ [] ∧ reason = .expected .endOfInput ∧ rest = us := by
  cases us with
  | nil => simp [Fails, endOfInput, Spot.atEnd, Cursor.atEnd, Cursor.before]
  | cons t us =>
    simp only [ne_eq, List.cons_ne_nil, not_false_eq_true, true_and]
    exact fails_fail_iff

theorem endOfInput_local : Local endOfInput := by
  intro us
  refine ⟨?_, ?_⟩
  · intro _ rest h
    obtain ⟨rfl, rfl⟩ := reads_endOfInput_iff.mp h
    refine ⟨[], rfl, fun rest' hhead => ?_⟩
    obtain rfl := List.head?_eq_none_iff.mp hhead
    exact h
  · intro reason rest h
    obtain ⟨hne, rfl, rfl⟩ := fails_endOfInput_iff.mp h
    refine ⟨nofun, [], rfl, fun rest' hhead => fails_endOfInput_iff.mpr ⟨?_, rfl, rfl⟩⟩
    intro hnil
    rw [List.nil_append] at hnil
    subst hnil
    exact hne (List.head?_eq_none_iff.mp hhead.symm)

theorem wholeProgram_local : Local (wholeProgram levels) :=
  (programUntraced_local levels).bind fun p => endOfInput_local.bind fun _ => .pure p

end Parser

namespace Program

theorem parse_eq (maxDepth : Nat) (tokens : List Token) :
    parse maxDepth tokens =
      ((Parser.wholeProgram maxDepth (Cursor.before (Token.significant tokens))).map
        Prod.fst).mapError (·.report (Token.endOf tokens) maxDepth) :=
  congrArg Prod.snd (trace_eq maxDepth tokens)

/-- An error of a program is what the reader of whole programs reports. -/
theorem parse_eq_error_iff {maxDepth : Nat} {tokens : List Token} {e : ParseError} :
    parse maxDepth tokens = .error e ↔
      ∃ reason rest, (Parser.wholeProgram maxDepth).Fails (Token.significant tokens) reason rest ∧
        e = FailureAt.report ⟨reason, Cursor.before rest⟩ (Token.endOf tokens) maxDepth := by
  rw [parse_eq]
  constructor
  · intro h
    cases hread : Parser.wholeProgram maxDepth (Cursor.before (Token.significant tokens)) with
    | ok read =>
      rw [hread] at h
      cases h
    | error failure =>
      obtain ⟨reason, stop⟩ := failure
      rw [hread] at h
      cases h
      rw [stop.eq_before] at hread ⊢
      exact ⟨reason, stop.rest, hread, rfl⟩
  · intro h
    rcases h with ⟨reason, rest, hfail, rfl⟩
    rw [show Parser.wholeProgram maxDepth _ = _ from hfail]
    rfl

/-- The reading of some tokens stops, with an error, only after all of them. -/
def StopsAtEnd (maxDepth : Nat) (tokens : List Token) : Prop :=
  ∃ reason, (Parser.wholeProgram maxDepth).Fails (Token.significant tokens) reason []

/-- An error before the end of input is at one of the tokens, and any tokens
that start with those up to that one have the same error. -/
theorem exists_offending {maxDepth : Nat} {tokens : List Token} {reason : Reason} {t : Token}
    {rest : List Token}
    (h : (Parser.wholeProgram maxDepth).Fails (Token.significant tokens) reason (t :: rest)) :
    (∀ literal, reason = .integerOutOfRange literal → literal = t) ∧
      ∃ before after, tokens = before ++ t :: after ∧ t.kind ≠ .comment ∧
        Token.significant tokens = Token.significant before ++ t :: rest ∧
        ∀ others, parse maxDepth (before ++ t :: others) =
          .error (FailureAt.report ⟨reason, Cursor.before [t]⟩ .start maxDepth) := by
  obtain ⟨hliteral, front, hsplit, hfail⟩ := (Parser.wholeProgram_local maxDepth _).fails _ _ h
  refine ⟨fun literal he => (Option.some.inj (hliteral literal he)).symm, ?_⟩
  obtain ⟨before, after, rfl, ht, rfl⟩ := Token.exists_split hsplit
  refine ⟨before, after, rfl, ht, hsplit, fun others => parse_eq_error_iff.mpr ?_⟩
  rw [Token.significant_append_cons before others ht]
  refine ⟨reason, t :: Token.significant others, hfail _ rfl, ?_⟩
  -- the end of the tokens is of no account, as a token is at the cursor
  cases reason <;> rfl

/-- The first error ends the reading: an error at a token depends on the tokens
up to that one only.  Whatever other tokens stand after it, the error is the
same, and it is about this token. -/
theorem parse_error_abort {maxDepth : Nat} {tokens : List Token} {e : ParseError}
    (h : parse maxDepth tokens = .error e)
    (inside : (∃ what found, e = .unexpectedToken what found) ∨
      (∃ literal, e = .integerOutOfRange literal) ∨
      ((∃ limit p, e = .nestingTooDeep limit p) ∧ ¬ StopsAtEnd maxDepth tokens)) :
    ∃ before t after, tokens = before ++ t :: after ∧ t.kind ≠ .comment ∧
      e.position = t.position ∧ (∀ what found, e = .unexpectedToken what found → found = t) ∧
      (∀ literal, e = .integerOutOfRange literal → literal = t) ∧
      ∀ others, parse maxDepth (before ++ t :: others) = .error e := by
  obtain ⟨reason, rest, hfail, rfl⟩ := parse_eq_error_iff.mp h
  cases rest with
  | nil =>
    -- no error of these kinds is at the end of input
    have hliteral := ((Parser.wholeProgram_local maxDepth _).fails _ _ hfail).1
    rcases inside with ⟨what, found, he⟩ | ⟨literal, he⟩ | ⟨-, hinside⟩
    · cases reason <;> cases he
    · cases reason with
      | integerOutOfRange literal => cases hliteral literal rfl
      | _ => cases he
    · exact absurd ⟨reason, hfail⟩ hinside
  | cons t rest =>
    obtain ⟨hliteral, before, after, rfl, ht, -, hothers⟩ := exists_offending hfail
    have he : FailureAt.report ⟨reason, Cursor.before [t]⟩ .start maxDepth =
        FailureAt.report ⟨reason, Cursor.before (t :: rest)⟩ (Token.endOf (before ++ t :: after))
          maxDepth := by
      cases reason <;> rfl
    rw [he] at hothers
    refine ⟨before, t, after, rfl, ht, ?_, ?_, ?_, hothers⟩
    · cases reason with
      | integerOutOfRange literal => exact congrArg Token.position (hliteral literal rfl)
      | expected what => rfl
      | nestingTooDeep => rfl
    · intro what found he
      cases reason <;> cases he
      rfl
    · intro literal he
      cases reason <;> cases he
      exact hliteral _ rfl

/-- The tokens of `program p; begin if a then {nothing} else x := - end.` -/
def orphanElse : List Token :=
  [(.reservedWord, "program"), (.identifier, "p"), (.symbol, ";"), (.reservedWord, "begin"),
    (.reservedWord, "if"), (.identifier, "a"), (.reservedWord, "then"),
    (.comment, "\x7bnothing\x7d"), (.reservedWord, "else"), (.identifier, "x"), (.symbol, ":="),
    (.symbol, "-"), (.reservedWord, "end"), (.symbol, ".")].map
  fun (kind, text) => ⟨kind, text, .start⟩

theorem parse_orphanElse : parse 16 orphanElse =
    .error (.unexpectedToken .statement ⟨.reservedWord, "else", .start⟩) := by
  rw [parse_places]
  cbv

/-- The `else` is the error, and the expression that is not there later on is not
looked for. -/
theorem orphanElse_abort :
    ∃ e, e = .unexpectedToken .statement ⟨.reservedWord, "else", .start⟩ ∧
      parse 16 orphanElse = .error e ∧
      ∃ before t after, orphanElse = before ++ t :: after ∧ t.kind ≠ .comment ∧
        e.position = t.position ∧ (∀ what found, e = .unexpectedToken what found → found = t) ∧
        (∀ literal, e = .integerOutOfRange literal → literal = t) ∧
        ∀ others, parse 16 (before ++ t :: others) = .error e := by
  exact ⟨_, rfl, parse_orphanElse, parse_error_abort parse_orphanElse (.inl ⟨_, _, rfl⟩)⟩

end Program
end PascalSyntax
