import PascalSyntax.Proofs.Grammar.Exact
import PascalSyntax.Proofs.Grammar.Tracking
import PascalSyntax.Proofs.Program.Failing

/-!
# Errors are as early as they can be

An error for want of something stands after a viable prefix: some program starts
with the tokens before it.  What the error says was expected could indeed come
next (`Program.parse_error_viable`).

The bound on the nesting plays no part in this: the completions are accepted
where nesting is allowed deep enough.
-/

namespace PascalSyntax

open Nonterminal (rule)

namespace Parser

open Phrase (viable_nil concat)

/-! ## Declarations -/

theorem identifierList_tracks : Tracks identifierList (Phrase.identifier.list ",") :=
  identifier_tracks.separated ","

section Over

variable {expression : Parser Cursor Expr} (he : Tracks expression (.nonterminal .expression))

include he in
theorem initializer?_tracks (x : Identifier) :
    Tracks (initializer? expression [x])
      (concat [.symbol "=", .nonterminal .expression]).optional :=
  .take?_bind (fun _ => he.map fun _ => _) (.pure none)

include he in
theorem varGroup_tracks : Tracks (varGroup expression) (.nonterminal .varGroup) := by
  obtain ⟨back, hback⟩ := viable_nil (p := concat [.symbol ":", .identifier, .symbol ";"]) rfl
  refine .nonterminal (identifierList_tracks.bind
    (fun ts hts => ⟨back, .second (.sequence hts hback)⟩) ?_)
  -- a single name may have an initial value, and it alone
  intro ts names rest hread hts
  have hplain (hnone : initializer? expression names = pure none) :
      Tracks (do
          let _ ← symbol ":" "after variable names"
          let typeName ← identifier
          let init ← initializer? expression names
          let _ ← symbol ";" "after variable declaration"
          return names.map fun name => VarDecl.mk name typeName init name.origin)
        (concat [.symbol ":", .identifier, .symbol ";"]) := by
    rw [hnone]
    simp only [pure_bind]
    exact (Tracks.take _ _).seq rfl fun _ => identifier_tracks.seq rfl fun _ =>
      (Tracks.take _ _).map fun _ => _
  match names with
  | [] => exact ⟨_, hplain rfl, fun us hus => .second (.sequence hts hus)⟩
  | x :: y :: names => exact ⟨_, hplain rfl, fun us hus => .second (.sequence hts hus)⟩
  | [x] =>
    obtain ⟨us, he', hspelled⟩ := identifierList_readsOnly _ _ _ hread
    obtain rfl := List.append_cancel_right he'
    obtain ⟨t, rfl, -, ht⟩ := Identifier.separated_singleton hspelled
    exact ⟨_, (Tracks.take _ _).seq rfl fun _ => identifier_tracks.seq rfl fun _ =>
      (initializer?_tracks he x).seq rfl fun _ => (Tracks.take _ _).map fun _ => _,
      fun us hus => .first (.cons ht hus)⟩

include he in
theorem constDecl_tracks : Tracks (constDecl expression)
    (concat [.identifier, .symbol "=", .nonterminal .expression, .symbol ";"]) :=
  identifier_tracks.seq rfl fun _ => (Tracks.take _ _).seq rfl fun _ => he.seq rfl fun _ =>
    (Tracks.take _ _).map fun _ => _

include he in
theorem varSection?_tracks :
    Tracks (varSection? expression) (Phrase.nonterminal .varSection).optional := by
  have h : Tracks (varSection? expression) (rule .varSection).optional :=
    .take?_bind (fun _ => ((varGroup_tracks he).repeated .identifier).map fun _ => _) (.pure none)
  refine h.weaken fun ts hts => ?_
  cases hts with
  | first hts => exact .present (.nonterminal hts)
  | second hts => exact .second hts

include he in
theorem constSection?_tracks :
    Tracks (constSection? expression) (Phrase.nonterminal .constSection).optional := by
  have h : Tracks (constSection? expression) (rule .constSection).optional :=
    .take?_bind (fun _ => ((constDecl_tracks he).repeated .identifier).map fun _ => _)
      (.pure none)
  refine h.weaken fun ts hts => ?_
  cases hts with
  | first hts => exact .present (.nonterminal hts)
  | second hts => exact .second hts

end Over

/-! ## Routines -/

theorem parameterGroup_tracks : Tracks parameterGroup (.nonterminal .parameterGroup) := by
  have h : Tracks parameterGroup
      (.choice (.sequence (.word "var")
          (concat [Phrase.identifier.list ",", .symbol ":", .identifier]))
        (concat [Phrase.identifier.list ",", .symbol ":", .identifier])) :=
    .take?_bind
      (fun _ => identifierList_tracks.seq rfl fun _ => (Tracks.take _ _).seq rfl fun _ =>
        identifier_tracks.map fun _ => _)
      (identifierList_tracks.seq rfl fun _ => (Tracks.take _ _).seq rfl fun _ =>
        identifier_tracks.map fun _ => _)
  refine h.weaken fun ts hts => .nonterminal ?_
  cases hts with
  | first hts =>
    cases hts with
    | sequence hk hts => exact .sequence (.present hk) hts
  | second hts => exact .skip hts

theorem parameterList_tracks :
    Tracks parameterList ((Phrase.nonterminal .parameterGroup).list ";").optional := by
  have h : Tracks parameterList
      (.choice .empty ((Phrase.nonterminal .parameterGroup).list ";")) :=
    .sees_bind (.pure []) ((parameterGroup_tracks.separated ";").map fun _ => _)
  refine h.weaken fun ts hts => ?_
  cases hts with
  | first hts => exact .second hts
  | second hts => exact .present hts

theorem formals_tracks : Tracks formals (.nonterminal .formals) :=
  .nonterminal (.take?_bind
    (fun _ => parameterList_tracks.seq rfl fun _ => (Tracks.take _ _).map fun _ => _) (.pure []))

/-- The phrase for what a routine gives back. -/
def kindPhrase : Bool → Phrase Nonterminal
  | true => concat [.symbol ":", .identifier]
  | false => .empty

theorem routineKind_tracks (isFunction : Bool) :
    Tracks (routineKind isFunction) (kindPhrase isFunction) := by
  cases isFunction with
  | true =>
    exact (Tracks.take _ _).seq rfl fun _ => identifier_tracks.map fun _ => _
  | false => exact .pure _

/-- The phrase for a routine after its keyword and name. -/
def routinePhrase (isFunction : Bool) : Phrase Nonterminal :=
  concat [.nonterminal .formals, kindPhrase isFunction, .symbol ";",
    (Phrase.nonterminal .varSection).optional, .nonterminal .block, .symbol ";"]

theorem routinePhrase_viable (isFunction : Bool) : (routinePhrase isFunction).Viable [] :=
  viable_nil (by cases isFunction <;> rfl)

theorem heading?_tracks : Tracks heading?
    (concat [.oneOf [.word "function", .word "procedure"], .identifier]).optional :=
  .takeFirst?_bind routine_keyword_inj (fun _ _ => identifier_tracks.map fun _ => _) (.pure none)

/-- The keyword, the name and the rest of a routine, put together. -/
theorem derives_routine {isFunction : Bool} {keyword name : Token} {ts : List Token}
    (hk : (Routine.keyword isFunction).admits keyword) (hn : Terminal.identifier.admits name)
    (h : Derives rule (routinePhrase isFunction) ts) :
    Nonterminal.routine.Derives (keyword :: name :: ts) := by
  cases h with
  | @sequence _ _ us vs hp h =>
    cases h with
    | @sequence _ _ ws xs hkind h =>
      have he : keyword :: name :: (us ++ (ws ++ xs)) = (keyword :: name :: (us ++ ws)) ++ xs := by
        simp
      rw [he]
      refine .nonterminal (.sequence ?_ h)
      cases isFunction with
      | true => exact .first (.cons hk (.cons hn (.sequence hp hkind)))
      | false =>
        cases hkind
        rw [List.append_nil]
        exact .second (.cons hk (.cons hn hp))

variable (levels : Nat)

theorem routineAfter_tracks (heading : Routine.Heading) :
    Tracks (routineAfter levels heading) (routinePhrase heading.isFunction) :=
  formals_tracks.seq (by cases heading.isFunction <;> rfl) fun _ =>
    (routineKind_tracks _).seq rfl fun _ => (Tracks.take _ _).seq rfl fun _ =>
      (varSection?_tracks (expression_tracks levels)).seq rfl fun _ =>
        (block_tracks levels).seq rfl fun _ => (Tracks.take _ _).map fun _ => _

theorem routine?_tracks :
    Tracks (routine? levels) (Phrase.nonterminal .routine).optional := by
  refine heading?_tracks.bind ?_ ?_
  · intro ts hts
    obtain ⟨_, _, rfl, ⟨keyword, rfl, a, ha, hk⟩, name, rfl, b, hb, hn⟩ | rfl :=
      Derives.iff_means.mp hts
    · obtain rfl := List.mem_singleton.mp hb
      obtain ⟨isFunction, rfl⟩ : ∃ isFunction, Routine.keyword isFunction = a := by
        simpa [Routine.keyword, eq_comm, or_comm] using ha
      obtain ⟨back, hback⟩ := routinePhrase_viable isFunction
      exact ⟨back, .present (derives_routine hk hn hback)⟩
    · exact ⟨[], .absent⟩
  · intro ts o rest hread hts
    cases o with
    | none =>
      obtain ⟨-, he⟩ := reads_heading?_none_iff.mp hread
      obtain rfl := List.append_left_eq_self.mp he.symm
      exact ⟨.empty, .pure none, fun us hus => .second hus⟩
    | some heading =>
      obtain ⟨keyword, name, he, hk, hn, -⟩ := reads_heading?_some_iff.mp hread
      obtain rfl : ts = [keyword, name] := List.append_cancel_right he
      exact ⟨_, (routineAfter_tracks levels heading).map fun _ => _,
        fun us hus => .present (derives_routine hk hn hus)⟩

/-! ## Programs -/

theorem programUntraced_tracks : Tracks (programUntraced levels) (.nonterminal .program) := by
  simp only [programUntraced, opening, closing, bind_assoc, pure_bind]
  exact .nonterminal ((Tracks.take _ _).seq rfl fun _ => identifier_tracks.seq rfl fun _ =>
    (Tracks.take _ _).seq rfl fun _ =>
      (varSection?_tracks (expression_tracks levels)).seq rfl fun _ =>
      (constSection?_tracks (expression_tracks levels)).seq rfl fun _ =>
        (routine?_tracks levels).many.seq rfl fun _ => (block_tracks levels).seq rfl fun _ =>
          (Tracks.take _ _).map fun _ => _)

/-- Where something is missing, the program could go on with it, or it is
complete. -/
theorem wholeProgram_stuck {us rest : List Token} {what : Expectation}
    (h : (wholeProgram levels).Fails us (.expected what) rest) :
    ∃ front, us = front ++ rest ∧ ((Phrase.nonterminal .program).Stuck front what ∨
      (what = .endOfInput ∧ Nonterminal.program.Derives front)) := by
  simp only [wholeProgram, fails_bind_iff, not_fails_pure, and_false, exists_false,
    or_false] at h
  rcases h with h | ⟨p, mid, hread, h⟩
  · obtain ⟨front, he, hstuck⟩ := (programUntraced_tracks levels).stuck _ _ _ h
    exact ⟨front, he, .inl hstuck⟩
  · obtain ⟨-, he, rfl⟩ := fails_endOfInput_iff.mp h
    cases he
    obtain ⟨front, he, hd⟩ := (programUntraced_tracks levels).derives _ _ _ hread
    exact ⟨front, he, .inr ⟨rfl, hd⟩⟩

end Parser

/-! ## Programs that go on -/

/-- No comment derives from any phrase. -/
theorem Derives.significant {N : Type} {rule : N → Phrase N} {p : Phrase N} {ts : List Token}
    (h : Derives rule p ts) : Token.significant ts = ts := by
  induction h with
  | empty => rfl
  | oneOf _ ht => simp [Token.significant, Terminal.ne_comment_of_admits ht]
  | integerLiteral ht _ => simp [Token.significant, Terminal.ne_comment_of_admits ht]
  | nonterminal _ ih => exact ih
  | sequence _ _ ih ih' => rw [Token.significant_append, ih, ih']
  | first _ ih => exact ih
  | second _ ih => exact ih
  | done => rfl
  | more _ _ ih ih' => rw [Token.significant_append, ih, ih']

namespace Program

/-- The tokens are a program for every parser that allows enough nesting. -/
def Accepted (tokens : List Token) : Prop :=
  ∃ enough, ∀ maxDepth, enough ≤ maxDepth → ∃ p, parse maxDepth tokens = .ok p

/-- Something can be written after the tokens so that the whole is accepted. -/
def Viable (front : List Token) : Prop :=
  ∃ back, Accepted (front ++ back)

/-- What is expected can come after the tokens: any instance of each of the
terminals that are named, some statement, some expression, or nothing at all. -/
def CanContinue (front : List Token) : Expectation → Prop
  | .oneOf choices _ => ∀ a ∈ choices, ∀ t, a.admits t = true → Viable (front ++ [t])
  | .statement => ∃ ts, Nonterminal.statement.Derives ts ∧ Viable (front ++ ts)
  | .expression => ∃ ts, Nonterminal.expression.Derives ts ∧ Viable (front ++ ts)
  | .endOfInput => Accepted front
  | .described _ => False

theorem accepted_of_derives {tokens : List Token}
    (h : Nonterminal.program.Derives (Token.significant tokens)) : Accepted tokens := by
  refine ⟨(Token.significant tokens).length, fun maxDepth hdepth => ?_⟩
  obtain ⟨p, hp⟩ := h.spelled maxDepth hdepth
  exact ⟨p, parse_iff.mpr hp⟩

theorem viable_append {front middle : List Token}
    (h : (Phrase.nonterminal .program).Viable (Token.significant front ++ middle)) :
    Viable (front ++ middle) := by
  obtain ⟨back, hback⟩ := h
  refine ⟨back, accepted_of_derives ?_⟩
  have hsignificant := hback.significant
  simp only [Token.significant_append, Token.significant_significant] at hsignificant ⊢
  rwa [hsignificant]

theorem canContinue_of_stuck {front : List Token} {what : Expectation}
    (h : (Phrase.nonterminal .program).Stuck (Token.significant front) what) :
    Viable front ∧ CanContinue front what := by
  refine ⟨?_, ?_⟩
  · have hviable := h.viable
    rw [← List.append_nil (Token.significant front)] at hviable
    have := viable_append hviable
    rwa [List.append_nil] at this
  · have hcontinues := h.continues
    cases what with
    | oneOf choices place =>
      intro a ha t ht
      exact viable_append (hcontinues a ha t ht)
    | statement =>
      obtain ⟨ts, hts, hviable⟩ := hcontinues
      exact ⟨ts, hts, viable_append hviable⟩
    | expression =>
      obtain ⟨ts, hts, hviable⟩ := hcontinues
      exact ⟨ts, hts, viable_append hviable⟩
    | endOfInput => exact hcontinues.elim
    | described text => exact hcontinues

theorem canContinue_of_fails {maxDepth : Nat} {front rest : List Token} {what : Expectation}
    (h : (Parser.wholeProgram maxDepth).Fails (Token.significant front ++ rest) (.expected what)
      rest) : Viable front ∧ CanContinue front what := by
  obtain ⟨ts, he, hstuck | ⟨rfl, hd⟩⟩ := Parser.wholeProgram_stuck maxDepth h
  · obtain rfl := List.append_cancel_right he
    exact canContinue_of_stuck hstuck
  · obtain rfl := List.append_cancel_right he
    have haccepted := accepted_of_derives hd
    exact ⟨⟨[], by rwa [List.append_nil]⟩, haccepted⟩

/-- An error for want of something comes as early as it can, and is honest.  The
tokens before the offending one, or all of them at the end of input, are the
start of a program, and what was expected could come after them. -/
theorem parse_error_viable {maxDepth : Nat} {tokens : List Token} {e : ParseError}
    (h : parse maxDepth tokens = .error e) :
    (∀ what found, e = .unexpectedToken what found →
      ∃ before after, tokens = before ++ found :: after ∧ found.kind ≠ .comment ∧
        (∀ others, parse maxDepth (before ++ found :: others) = .error e) ∧
        Viable before ∧ CanContinue before what) ∧
    (∀ what p, e = .missingTerminal what p → Viable tokens ∧ CanContinue tokens what) := by
  obtain ⟨reason, rest, hfail, rfl⟩ := parse_eq_error_iff.mp h
  cases rest with
  | nil =>
    refine ⟨?_, ?_⟩
    · intro what found he
      cases reason <;> cases he
    · intro what p he
      cases reason <;> cases he
      rw [← List.append_nil (Token.significant tokens)] at hfail
      exact canContinue_of_fails hfail
  | cons t rest =>
    refine ⟨?_, ?_⟩
    · intro what found he
      cases reason <;> cases he
      obtain ⟨-, before, after, hsplit, ht, hsignificant, hothers⟩ := exists_offending hfail
      rw [hsignificant] at hfail
      exact ⟨before, after, hsplit, ht, hothers, canContinue_of_fails hfail⟩
    · intro what p he
      cases reason <;> cases he

/-- Where an `else` cannot be, the tokens before it go on with a statement. -/
theorem orphanElse_viable :
    ∃ e, e = .unexpectedToken .statement ⟨.reservedWord, "else", .start⟩ ∧
      parse 16 orphanElse = .error e ∧
      (∀ what found, e = .unexpectedToken what found →
        ∃ before after, orphanElse = before ++ found :: after ∧ found.kind ≠ .comment ∧
          (∀ others, parse 16 (before ++ found :: others) = .error e) ∧
          Viable before ∧ CanContinue before what) ∧
      (∀ what p, e = .missingTerminal what p →
        Viable orphanElse ∧ CanContinue orphanElse what) :=
  ⟨_, rfl, parse_orphanElse, parse_error_viable parse_orphanElse⟩

end Program
end PascalSyntax
