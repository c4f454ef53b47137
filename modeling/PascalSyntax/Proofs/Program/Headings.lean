import PascalSyntax.Proofs.Parser.Avoiding
import PascalSyntax.Proofs.Program.Failing

/-!
# The record of headings

While a program is read, the headings of its routines are recorded.  The record is
complete and in order, whether the reading succeeds or fails: it holds just the pairs
of a keyword of a routine and a name right after it that are found, comments left out,
before the place where the reading stops (`Program.trace_headings`).

The words `function` and `procedure` are read as the keywords of routines and nowhere
else, so that no part of a program but a heading goes past one.
-/

namespace PascalSyntax

open Token (Without)

/-- The words that open a routine. -/
def Routine.keywords : List Terminal :=
  [.word "function", .word "procedure"]

/-! ## Readers without headings -/

namespace Parser

open Routine (keywords)

theorem identifier_avoids : Avoids keywords identifier :=
  (Avoids.take (by decide) _).bind fun _ => .pure _

theorem symbol_avoids (text place : String) : Avoids keywords (symbol text place) :=
  .take (by simp [keywords]) _

section Over

variable {expression operand : Parser Cursor Expr} {statement : Parser Cursor Statement}

theorem callOf_avoids (he : Avoids keywords expression) (routine : Identifier) :
    Avoids keywords (callOf expression routine) := by
  have hargs : Avoids keywords (arguments expression) :=
    .take?_bind (by decide) (fun _ => .pure [])
      ((he.separated (by decide)).bind fun _ => (symbol_avoids _ _).bind fun _ => .pure _)
  exact .take?_bind (by decide) (fun _ => hargs.bind fun _ => .pure _) (.pure _)

theorem nameOrCall_avoids (he : Avoids keywords expression) :
    Avoids keywords (nameOrCall expression) :=
  identifier_avoids.bind fun name =>
    .sees_bind ((callOf_avoids he name).bind fun _ => .pure _) (.pure _)

theorem parenthesized_avoids (he : Avoids keywords expression) :
    Avoids keywords (parenthesized expression) :=
  .take?_bind (by decide) (fun _ => he.bind fun _ => (symbol_avoids _ _).bind fun _ => .pure _)
    (.fail _)

theorem primaryOver_avoids (he : Avoids keywords expression) :
    Avoids keywords (primaryOver expression) := by
  intro us rest h
  cases us with
  | nil =>
    rcases h with ⟨e, h⟩ | ⟨reason, h⟩
    · exact absurd h not_reads_primaryOver_nil
    · obtain ⟨-, rfl⟩ := fails_primaryOver_nil_iff.mp h
      exact ⟨[], rfl, .nil⟩
  | cons t us =>
    simp only [Halts, reads_primaryOver_cons_iff, fails_primaryOver_cons_iff] at h
    cases hk : t.kind <;> simp only [hk] at h
    case number =>
      have ht : Terminal.number.admits t = true := by simp [Terminal.admits, hk]
      rcases h with ⟨e, value, -, -, rfl⟩ | ⟨reason, -, -, rfl⟩
      · exact ⟨[t], rfl, .single ht (by decide)⟩
      · exact ⟨[], rfl, .nil⟩
    case string =>
      have ht : Terminal.string.admits t = true := by simp [Terminal.admits, hk]
      rcases h with ⟨e, -, rfl⟩ | ⟨reason, h⟩
      · exact ⟨[t], rfl, .single ht (by decide)⟩
      · exact h.elim
    case identifier => exact nameOrCall_avoids he _ _ h
    all_goals exact parenthesized_avoids he _ _ h

theorem unaryOver_avoids (ho : Avoids keywords operand) (he : Avoids keywords expression) :
    Avoids keywords (unaryOver operand expression) :=
  (Avoids.takeFirst? (fun _ _ => UnaryOperator.terminal_inj) (by decide)).option_bind
    (fun _ => ho.bind fun _ => .pure _) (primaryOver_avoids he)

theorem binaryLevel_avoids (operators : List BinaryOperator) (ho : Avoids keywords operand) :
    Avoids keywords (binaryLevel operators operand) := by
  have hterminals : ∀ op ∈ operators, op.terminal ∉ keywords := by
    intro op _
    cases op <;> decide
  have hround : Avoids keywords (operation operators operand) :=
    (Avoids.takeFirst? (fun _ _ => BinaryOperator.terminal_inj) hterminals).option_bind
      (fun _ => ho.bind fun _ => .pure _) (.pure none)
  exact ho.bind fun first => hround.many.bind fun others => .pure _

theorem relational_avoids (ho : Avoids keywords operand) : Avoids keywords (relational operand) :=
  binaryLevel_avoids _ <| binaryLevel_avoids _ <| binaryLevel_avoids _ ho

theorem body_avoids (hs : Avoids keywords statement) : Avoids keywords (body statement) :=
  hs.bind fun _ => .pure _

theorem branch_avoids (he : Avoids keywords expression) (hs : Avoids keywords statement)
    {ending : String} (hending : .word ending ∉ keywords) (keyword : Token) :
    Avoids keywords (branch expression statement ending keyword) :=
  he.bind fun _ => (Avoids.take hending _).bind fun _ => (body_avoids hs).bind fun _ => .pure _

theorem conditional_avoids (he : Avoids keywords expression) (hs : Avoids keywords statement)
    (keyword : Token) : Avoids keywords (conditional expression statement keyword) := by
  have hbranch := branch_avoids he hs (show Terminal.word "then" ∉ keywords by decide)
  have hround : Avoids keywords (elseIf expression statement) :=
    (Avoids.takeBoth? (by decide) (by decide)).option_bind
      (fun t => (hbranch t).bind fun b => .pure (some b)) (.pure none)
  exact (hbranch keyword).bind fun _ => hround.many.bind fun _ =>
    (Avoids.another (by decide) (body_avoids hs)).bind fun _ => .pure _

theorem item?_avoids (hs : Avoids keywords statement) : Avoids keywords (item? statement) := by
  have hseparator : Avoids keywords separator :=
    .take?_bind (by decide) (fun _ => .pure ()) (.sees_bind (.pure ()) (.fail _))
  exact .take?_bind (by decide) (fun _ => .pure none) (.take?_bind (by decide)
    (fun _ => .pure (some none)) (hs.bind fun s => hseparator.bind fun _ => .pure (some (some s))))

theorem blockOver_avoids (hs : Avoids keywords statement) :
    Avoids keywords (blockOver statement) :=
  (Avoids.take (by decide) _).bind fun _ => (item?_avoids hs).many.bind fun _ => .pure _

theorem direction_avoids : Avoids keywords direction :=
  (Avoids.takeFirst? (fun _ _ => direction_word_inj) (by decide)).option_bind (fun _ => .pure _)
    (.fail _)

theorem forLoop_avoids (he : Avoids keywords expression) (hs : Avoids keywords statement)
    (keyword : Token) : Avoids keywords (forLoop expression statement keyword) :=
  identifier_avoids.bind fun _ => (symbol_avoids _ _).bind fun _ => he.bind fun _ =>
    direction_avoids.bind fun _ => he.bind fun _ => (Avoids.take (by decide) _).bind fun _ =>
      (body_avoids hs).bind fun _ => .pure _

theorem nameStatement_avoids (he : Avoids keywords expression) :
    Avoids keywords (nameStatement expression) :=
  identifier_avoids.bind fun name => .take?_bind (by decide) (fun _ => he.bind fun _ => .pure _)
    ((callOf_avoids he name).bind fun _ => .pure _)

theorem statementOver_avoids (he : Avoids keywords expression) (hs : Avoids keywords statement) :
    Avoids keywords (statementOver expression statement) :=
  .take?_bind (by decide) (conditional_avoids he hs)
    (.take?_bind (by decide)
      (fun keyword => (branch_avoids he hs (by decide) keyword).bind fun _ => .pure _)
      (.take?_bind (by decide) (forLoop_avoids he hs)
        (.sees_bind ((blockOver_avoids hs).bind fun _ => .pure _)
          (.sees_bind (nameStatement_avoids he) (.fail _)))))

end Over

theorem unary_avoids (levels : Nat) : Avoids keywords (unary levels) := by
  induction levels with
  | zero => exact unaryOver_avoids .tooDeep .tooDeep
  | succ levels ih => exact unaryOver_avoids ih (relational_avoids ih)

theorem expression_avoids (levels : Nat) : Avoids keywords (expression levels) := by
  cases levels with
  | zero => exact .tooDeep
  | succ levels => exact relational_avoids (unary_avoids levels)

theorem statement_avoids (levels : Nat) : Avoids keywords (statement levels) := by
  induction levels with
  | zero => exact .tooDeep
  | succ levels ih => exact statementOver_avoids (expression_avoids levels) ih

theorem block_avoids (levels : Nat) : Avoids keywords (block levels) :=
  blockOver_avoids (statement_avoids levels)

/-! ### Declarations -/

section Over

variable {expression : Parser Cursor Expr} (he : Avoids keywords expression)

theorem identifierList_avoids : Avoids keywords identifierList :=
  identifier_avoids.separated (by decide)

include he

theorem initializer?_avoids (names : List Identifier) :
    Avoids keywords (initializer? expression names) := by
  match names with
  | [] => exact .pure none
  | [_] => exact .take?_bind (by decide) (fun _ => he.bind fun _ => .pure _) (.pure none)
  | _ :: _ :: _ => exact .pure none

theorem varGroup_avoids : Avoids keywords (varGroup expression) :=
  identifierList_avoids.bind fun names => (symbol_avoids _ _).bind fun _ =>
    identifier_avoids.bind fun _ => (initializer?_avoids he names).bind fun _ =>
      (symbol_avoids _ _).bind fun _ => .pure _

theorem constDecl_avoids : Avoids keywords (constDecl expression) :=
  identifier_avoids.bind fun _ => (symbol_avoids _ _).bind fun _ => he.bind fun _ =>
    (symbol_avoids _ _).bind fun _ => .pure _

theorem varSection?_avoids : Avoids keywords (varSection? expression) :=
  .take?_bind (by decide) (fun _ => ((varGroup_avoids he).repeated _).bind fun _ => .pure _)
    (.pure none)

theorem constSection?_avoids : Avoids keywords (constSection? expression) :=
  .take?_bind (by decide) (fun _ => ((constDecl_avoids he).repeated _).bind fun _ => .pure _)
    (.pure none)

end Over

theorem parameterGroup_avoids : Avoids keywords parameterGroup :=
  (Avoids.take? (by decide)).bind fun _ => identifierList_avoids.bind fun _ =>
    (symbol_avoids _ _).bind fun _ => identifier_avoids.bind fun _ => .pure _

theorem formals_avoids : Avoids keywords formals := by
  have hparameters : Avoids keywords parameterList :=
    .sees_bind (.pure []) ((parameterGroup_avoids.separated (by decide)).bind fun _ => .pure _)
  exact .take?_bind (by decide) (fun _ => hparameters.bind fun parameters =>
    (symbol_avoids _ _).bind fun _ => .pure parameters) (.pure [])

theorem routineKind_avoids (isFunction : Bool) : Avoids keywords (routineKind isFunction) := by
  cases isFunction with
  | true => exact (symbol_avoids _ _).bind fun _ => identifier_avoids.bind fun _ => .pure _
  | false => exact .pure _

variable (levels : Nat)

theorem routineAfter_avoids (heading : Routine.Heading) :
    Avoids keywords (routineAfter levels heading) :=
  formals_avoids.bind fun _ => (routineKind_avoids _).bind fun _ => (symbol_avoids _ _).bind
    fun _ => (varSection?_avoids (expression_avoids levels)).bind fun _ =>
      (block_avoids levels).bind fun _ => (symbol_avoids _ _).bind fun _ => .pure _

theorem opening_avoids : Avoids keywords (opening levels) :=
  (Avoids.take (by decide) _).bind fun _ => identifier_avoids.bind fun _ =>
    (symbol_avoids _ _).bind fun _ => (varSection?_avoids (expression_avoids levels)).bind
      fun _ => (constSection?_avoids (expression_avoids levels)).bind fun _ => .pure _

theorem closing_avoids (front : Opening) (routines : List Routine) :
    Avoids keywords (closing levels front routines) :=
  (block_avoids levels).bind fun _ => (symbol_avoids _ _).bind fun _ => .pure _

end Parser

/-! ## Headings among tokens -/

/-- The heading that two tokens are: the keyword of a routine and a name. -/
def Routine.Heading.ofPair? (keyword name : Token) : Option Routine.Heading :=
  if Terminal.identifier.admits name then
    if (Terminal.word "function").admits keyword then
      some ⟨true, name.toIdentifier, keyword.origin⟩
    else if (Terminal.word "procedure").admits keyword then
      some ⟨false, name.toIdentifier, keyword.origin⟩
    else
      none
  else
    none

/-- The headings that are found among some tokens, in their order: all that two
neighbours are. -/
def Token.headings (tokens : List Token) : List Routine.Heading :=
  (tokens.zip tokens.tail).filterMap fun (keyword, name) =>
    Routine.Heading.ofPair? keyword name

namespace Token

variable {keyword name : Token} {ts us : List Token}

theorem headings_cons_cons (t u : Token) (ts : List Token) :
    headings (t :: u :: ts) = (Routine.Heading.ofPair? t u).toList ++ headings (u :: ts) := by
  rw [headings, List.tail_cons, List.zip_cons_cons, List.filterMap_cons]
  cases h : Routine.Heading.ofPair? t u <;> simp [h, headings]

/-- A keyword and a name are a heading. -/
theorem headings_heading {isFunction : Bool} (hk : (Routine.keyword isFunction).admits keyword)
    (hn : Terminal.identifier.admits name) (ts : List Token) :
    headings (keyword :: name :: ts) =
      ⟨isFunction, name.toIdentifier, keyword.origin⟩ :: headings (name :: ts) := by
  have hpair : Routine.Heading.ofPair? keyword name =
      some ⟨isFunction, name.toIdentifier, keyword.origin⟩ := by
    rw [Routine.Heading.ofPair?, if_pos hn]
    cases isFunction with
    | true => exact if_pos hk
    | false =>
      have hne : (Terminal.word "function").admits keyword = false :=
        Terminal.not_admits hk (by decide)
      rw [hne]
      exact if_pos hk
  rw [headings_cons_cons, hpair]
  rfl

/-- Tokens that are no keywords of routines have no part in a heading as its start. -/
theorem Without.headings_append (h : Without Routine.keywords ts) (us : List Token) :
    headings (ts ++ us) = headings us := by
  induction ts with
  | nil => rfl
  | cons t ts ih =>
    obtain ⟨ht, hts⟩ := List.forall_mem_cons.mp h
    have hpair (u : Token) : Routine.Heading.ofPair? t u = none := by
      simp [Routine.Heading.ofPair?, ht (.word "function") (by decide),
        ht (.word "procedure") (by decide)]
    rw [← ih hts, List.cons_append]
    cases ts ++ us with
    | nil => rfl
    | cons u us => rw [headings_cons_cons, hpair, Option.toList_none, List.nil_append]

theorem Without.headings (h : Without Routine.keywords ts) : headings ts = [] := by
  have happend := h.headings_append []
  rwa [List.append_nil] at happend

end Token

/-! ## What is recorded -/

/-- The heading of a routine. -/
def Routine.heading (r : Routine) : Routine.Heading :=
  ⟨match r.kind with
    | .function _ => true
    | .procedure => false, r.name, r.origin⟩

namespace Parser

variable {levels : Nat}

theorem heading_of_routineAfter {heading : Routine.Heading} {us rest : List Token} {r : Routine}
    (h : (routineAfter levels heading).Reads us r rest) : r.heading = heading := by
  obtain ⟨_, _, kind, _, _, _, _, _, _, -, hkind, -, -, -, -, rfl⟩ := reads_routineAfter_iff.mp h
  obtain ⟨ts, -, hkind⟩ := routineKind_readsOnly heading.isFunction _ _ _ hkind
  obtain ⟨isFunction, name, origin⟩ := heading
  cases hkind with
  | function _ _ => rfl
  | procedure => rfl

/-- A heading that breaks off is a keyword alone. -/
theorem fails_heading? {us rest : List Token} {reason : Reason}
    (h : heading?.Fails us reason rest) : ∃ keyword, us = keyword :: rest := by
  rw [heading?, fails_bind_iff] at h
  rcases h with h | ⟨o, mid, ho, h⟩
  · exact absurd h not_fails_takeFirst?
  · cases o with
    | none => exact absurd h not_fails_pure
    | some choice =>
      obtain ⟨isFunction, keyword⟩ := choice
      obtain ⟨rfl, -, -⟩ := (reads_takeFirst?_some_iff routine_keyword_inj).mp ho
      simp only [identifier, bind_pure_comp, fails_map_iff, fails_take_iff] at h
      obtain ⟨-, -, rfl⟩ := h
      exact ⟨keyword, rfl⟩

/-- A heading and what is read after it, up to the next keyword of a routine. -/
theorem headings_of_routine {heading : Routine.Heading} {us mid rest : List Token}
    (hheading : heading?.Reads us (some heading) mid)
    (hafter : (routineAfter levels heading).Halts mid rest) :
    ∃ front, us = front ++ rest ∧
      ∀ vs, Token.headings (front ++ vs) = heading :: Token.headings vs := by
  obtain ⟨keyword, name, rfl, hk, hn, he⟩ := reads_heading?_some_iff.mp hheading
  obtain ⟨ts, rfl, hts⟩ := routineAfter_avoids levels heading _ _ hafter
  refine ⟨keyword :: name :: ts, rfl, fun vs => ?_⟩
  have hname : Without Routine.keywords (name :: ts) :=
    (Without.single hn (by decide)).append hts
  have htail := hname.headings_append vs
  rw [List.cons_append] at htail
  rw [List.cons_append, List.cons_append, Token.headings_heading hk hn, htail, ← he]

/-- Routines that are read have recorded all headings among their tokens, and these are
their own. -/
theorem headings_of_routines_ok (c last : Cursor) :
    ∀ {rs : List Routine}, (routines levels c).outcome = .ok (rs, last) →
      (routines levels c).headings = rs.map Routine.heading ∧
        ∃ front, c.rest = front ++ last.rest ∧ ∀ us,
          Token.headings (front ++ us) = (routines levels c).headings ++ Token.headings us := by
  fun_induction routines levels c with
  | case1 c failure hheading => exact fun h => by cases h
  | case2 c next hheading =>
    intro rs h
    cases h
    obtain ⟨-, hrest⟩ := reads_heading?_none_iff.mp (reads_iff_ok.mp hheading)
    exact ⟨rfl, [], hrest.symm, fun us => rfl⟩
  | case3 c heading next hheading failure hafter => exact fun h => by cases h
  | case4 c heading next hheading routine mid hafter hlt others =>
    rename_i ih
    intro rs h
    have hafter := reads_iff_ok.mp hafter
    cases hothers : others.outcome with
    | error failure =>
      rw [hothers] at h
      cases h
    | ok read =>
      obtain ⟨rs', last'⟩ := read
      rw [hothers] at h
      cases h
      obtain ⟨hsame, back, hback, hheadings⟩ := ih hothers
      obtain ⟨front, hfront, hfirst⟩ :=
        headings_of_routine (reads_iff_ok.mp hheading) (.inl ⟨routine, hafter⟩)
      refine ⟨?_, front ++ back, by rw [hfront, hback, List.append_assoc], fun us => ?_⟩
      · rw [List.map_cons, heading_of_routineAfter hafter]
        exact congrArg (heading :: ·) hsame
      · rw [List.append_assoc, hfirst, hheadings]
        rfl
  | case5 c heading next hheading routine mid hafter hlt =>
    intro rs h
    cases h
    have hafter := reads_iff_ok.mp hafter
    obtain ⟨front, hfront, hfirst⟩ :=
      headings_of_routine (reads_iff_ok.mp hheading) (.inl ⟨routine, hafter⟩)
    exact ⟨by rw [List.map_singleton, heading_of_routineAfter hafter], front, hfront, hfirst⟩

/-- Routines that cannot be read to the end have recorded the headings up to there. -/
theorem headings_of_routines_error {c : Cursor} {failure : Failure}
    (h : (routines levels c).outcome = .error failure) :
    ∃ front, c.rest = front ++ failure.stop.rest ∧
      Token.headings front = (routines levels c).headings := by
  fun_induction routines levels c with
  | case1 c failure' hheading =>
    cases h
    obtain ⟨keyword, hc⟩ := fails_heading? (fails_iff_error.mp hheading)
    exact ⟨[keyword], hc, rfl⟩
  | case2 c next hheading => cases h
  | case3 c heading next hheading failure' hafter =>
    cases h
    obtain ⟨front, hfront, hfirst⟩ := headings_of_routine (reads_iff_ok.mp hheading)
      (.inr ⟨_, fails_iff_error.mp hafter⟩)
    have hall := hfirst []
    rw [List.append_nil] at hall
    exact ⟨front, hfront, hall⟩
  | case4 c heading next hheading routine mid hafter hlt others ih =>
    have hothers : others.outcome = .error failure := by
      cases hothers : others.outcome with
      | error failure' =>
        rw [hothers] at h
        exact congrArg _ (Except.error.inj h)
      | ok read =>
        rw [hothers] at h
        cases h
    obtain ⟨back, hback, hheadings⟩ := ih hothers
    obtain ⟨front, hfront, hfirst⟩ := headings_of_routine (reads_iff_ok.mp hheading)
      (.inl ⟨routine, reads_iff_ok.mp hafter⟩)
    exact ⟨front ++ back, by rw [hfront, hback, List.append_assoc], by rw [hfirst, hheadings]⟩
  | case5 c heading next hheading routine mid hafter hlt => cases h

theorem headings_of_program_ok {c last : Cursor} {p : Program}
    (h : (program levels c).outcome = .ok (p, last)) :
    (program levels c).headings = p.routines.map Routine.heading ∧
      ∃ front, c.rest = front ++ last.rest ∧
        Token.headings front = (program levels c).headings := by
  rw [program] at h ⊢
  cases hopening : opening levels c with
  | error failure => simp [hopening] at h
  | ok read =>
    obtain ⟨front, next⟩ := read
    simp only [hopening] at h ⊢
    cases hmiddle : (routines levels next).outcome with
    | error failure => simp [hmiddle] at h
    | ok read =>
      obtain ⟨rs, mid⟩ := read
      simp only [hmiddle] at h ⊢
      have hclosing := reads_iff_ok.mp h
      obtain ⟨ts, hts, hquiet⟩ := opening_avoids levels _ _ (.inl ⟨_, reads_iff_ok.mp hopening⟩)
      obtain ⟨hsame, us, hus, hheadings⟩ := headings_of_routines_ok _ _ hmiddle
      obtain ⟨vs, hvs, hquiet'⟩ := closing_avoids levels front rs _ _ (.inl ⟨_, hclosing⟩)
      obtain ⟨_, _, _, _, rfl⟩ := reads_closing_iff.mp hclosing
      refine ⟨hsame, ts ++ (us ++ vs), by simp [hts, hus, hvs], ?_⟩
      rw [hquiet.headings_append, hheadings, hquiet'.headings, List.append_nil]

theorem headings_of_program_error {c : Cursor} {failure : Failure}
    (h : (program levels c).outcome = .error failure) :
    ∃ front, c.rest = front ++ failure.stop.rest ∧
      Token.headings front = (program levels c).headings := by
  rw [program] at h ⊢
  cases hopening : opening levels c with
  | error failure' =>
    simp only [hopening] at h ⊢
    cases h
    obtain ⟨ts, hts, hquiet⟩ := opening_avoids levels _ _ (.inr ⟨_, fails_iff_error.mp hopening⟩)
    exact ⟨ts, hts, hquiet.headings⟩
  | ok read =>
    obtain ⟨front, next⟩ := read
    simp only [hopening] at h ⊢
    obtain ⟨ts, hts, hquiet⟩ := opening_avoids levels _ _ (.inl ⟨_, reads_iff_ok.mp hopening⟩)
    cases hmiddle : (routines levels next).outcome with
    | error failure' =>
      simp only [hmiddle] at h ⊢
      cases h
      obtain ⟨us, hus, hheadings⟩ := headings_of_routines_error hmiddle
      exact ⟨ts ++ us, by simp [hts, hus], by rw [hquiet.headings_append, hheadings]⟩
    | ok read =>
      obtain ⟨rs, mid⟩ := read
      simp only [hmiddle] at h ⊢
      obtain ⟨-, us, hus, hheadings⟩ := headings_of_routines_ok _ _ hmiddle
      obtain ⟨vs, hvs, hquiet'⟩ :=
        closing_avoids levels front rs _ _ (.inr ⟨_, fails_iff_error.mp h⟩)
      refine ⟨ts ++ (us ++ vs), by simp [hts, hus, hvs], ?_⟩
      rw [hquiet.headings_append, hheadings, hquiet'.headings, List.append_nil]

end Parser

/-- The error is about the first of the tokens, or about the end of input if there are
none. -/
def ParseError.IsAt (e : ParseError) (finish : Position) : List Token → Prop
  | [] => e.position = finish ∧ (∀ what found, e ≠ .unexpectedToken what found) ∧
      ∀ literal, e ≠ .integerOutOfRange literal
  | t :: _ => e.position = t.position ∧ (∀ what found, e = .unexpectedToken what found → found = t) ∧
      (∀ literal, e = .integerOutOfRange literal → literal = t) ∧
      ∀ what place, e ≠ .missingTerminal what place

theorem FailureAt.report_isAt {reason : Reason} {rest : List Token}
    (hliteral : ∀ literal, reason = .integerOutOfRange literal → rest.head? = some literal)
    (finish : Position) (maxDepth : Nat) :
    (FailureAt.report ⟨reason, Cursor.before rest⟩ finish maxDepth).IsAt finish rest := by
  cases rest with
  | nil =>
    cases reason with
    | expected what => exact ⟨rfl, nofun, nofun⟩
    | integerOutOfRange literal => cases hliteral literal rfl
    | nestingTooDeep => exact ⟨rfl, nofun, nofun⟩
  | cons t rest =>
    cases reason with
    | expected what =>
      refine ⟨rfl, fun what' found he => ?_, nofun, nofun⟩
      cases he
      rfl
    | integerOutOfRange literal =>
      obtain rfl : t = literal := Option.some.inj (hliteral literal rfl)
      refine ⟨rfl, nofun, fun literal he => ?_, nofun⟩
      cases he
      rfl
    | nestingTooDeep => exact ⟨rfl, nofun, nofun, nofun⟩

namespace Program

/-- The headings that are met while a program is read are all that there are among its
tokens, comments left out, in their order and each once: if the reading succeeds those
among all tokens, which are the headings of the routines of the program, and if it fails
those before the token at which the error is, or before the end of input. -/
theorem trace_headings (maxDepth : Nat) (tokens : List Token) :
    match parse maxDepth tokens with
    | .ok p => (trace maxDepth tokens).1 = Token.headings (Token.significant tokens) ∧
        (trace maxDepth tokens).1 = p.routines.map Routine.heading
    | .error e => ∃ reason front rest, Token.significant tokens = front ++ rest ∧
        (Parser.wholeProgram maxDepth).Fails (Token.significant tokens) reason rest ∧
        e = FailureAt.report ⟨reason, Cursor.before rest⟩ (Token.endOf tokens) maxDepth ∧
        e.IsAt (Token.endOf tokens) rest ∧
        (trace maxDepth tokens).1 = Token.headings front := by
  have houtcome := Parser.program_outcome maxDepth (Cursor.ofTokens tokens)
  have htrace : (trace maxDepth tokens).1 =
      (Parser.program maxDepth (Cursor.ofTokens tokens)).headings :=
    congrArg Prod.fst (trace_eq maxDepth tokens)
  rw [htrace]
  cases h : parse maxDepth tokens with
  | ok p =>
    have hread : Parser.programUntraced maxDepth (Cursor.ofTokens tokens) = .ok (p, .before []) :=
      parse_eq_ok_iff.mp h
    obtain ⟨hsame, front, hfront, hheadings⟩ :=
      Parser.headings_of_program_ok (houtcome.trans hread)
    have htokens : Token.significant tokens = front :=
      hfront.trans (List.append_nil front)
    exact ⟨by rw [htokens, hheadings], hsame⟩
  | error e =>
    obtain ⟨reason, rest, hfail, rfl⟩ := parse_eq_error_iff.mp h
    have hliteral := ((Parser.wholeProgram_local maxDepth _).fails _ _ hfail).1
    have hfront : ∃ front, Token.significant tokens = front ++ rest ∧
        Token.headings front =
          (Parser.program maxDepth (Cursor.ofTokens tokens)).headings := by
      rw [Parser.wholeProgram, Parser.fails_bind_iff] at hfail
      rcases hfail with hprogram | ⟨p, mid, hread, hend⟩
      · exact Parser.headings_of_program_error (houtcome.trans hprogram)
      · simp only [Parser.fails_bind_iff, Parser.not_fails_pure, and_false, exists_false,
          or_false, Parser.fails_endOfInput_iff] at hend
        obtain ⟨-, -, rfl⟩ := hend
        exact (Parser.headings_of_program_ok (houtcome.trans hread)).2
    obtain ⟨front, htokens, hheadings⟩ := hfront
    exact ⟨reason, front, rest, htokens, hfail, rfl, FailureAt.report_isAt hliteral _ _,
      hheadings.symm⟩

/-- The function is met although there is a comment before its name, and the procedure is
not, as it has none: `program p; function {} f: t; begin end; procedure 5`. -/
example :
    trace 64 [⟨.reservedWord, "program", ⟨1, 1⟩⟩, ⟨.identifier, "p", ⟨1, 9⟩⟩,
        ⟨.symbol, ";", ⟨1, 10⟩⟩, ⟨.reservedWord, "function", ⟨1, 12⟩⟩, ⟨.comment, "\x7b\x7d", ⟨1, 21⟩⟩,
        ⟨.identifier, "f", ⟨1, 24⟩⟩, ⟨.symbol, ":", ⟨1, 25⟩⟩, ⟨.identifier, "t", ⟨1, 27⟩⟩,
        ⟨.symbol, ";", ⟨1, 28⟩⟩, ⟨.reservedWord, "begin", ⟨1, 30⟩⟩, ⟨.reservedWord, "end", ⟨1, 36⟩⟩,
        ⟨.symbol, ";", ⟨1, 39⟩⟩, ⟨.reservedWord, "procedure", ⟨1, 41⟩⟩, ⟨.number, "5", ⟨1, 51⟩⟩] =
      ([⟨true, ⟨"f", ⟨⟨1, 24⟩, "f"⟩⟩, ⟨⟨1, 12⟩, "function"⟩⟩],
        .error (.unexpectedToken (.oneOf [.identifier] none) ⟨.number, "5", ⟨1, 51⟩⟩)) := by
  cbv

end Program
end PascalSyntax
