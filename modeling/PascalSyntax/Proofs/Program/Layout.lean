import PascalSyntax.Program.FrontEnd
import PascalSyntax.Proofs.Program.Agreement
import PascalSyntax.Proofs.Token.Layout

/-!
# Comments and layout

Comments are nothing to a program.  The tokens without them are read as the same
program, with all its origins, and an error differs in nothing but the position
that is reported at the end of input, which is that of the last token written
(`Program.parse_significant`).  The two readings go over different places, and each
step of either mirrors one over the significant tokens (`Program.trace_eq`).

Nor is the layout.  Sources whose tokens have the same kinds and texts, comments
left out, give the same program or the same error once positions are left out
(`Program.ofSource_layout`): this is the agreement of two readings for positions
none of which are kept apart.
-/

namespace PascalSyntax

/-! ## Comments -/

/-- The errors of two readings that stop at the same token, or both at the end of
their tokens, which are `finish` and `finish'`.  They are about the same, and each
that is at the end is at its own end. -/
inductive ParseError.SameBut (atEnd : Prop) (finish finish' : Position) :
    ParseError → ParseError → Prop where
  | unexpectedToken (inside : ¬ atEnd) (what : Expectation) (found : Token) :
    SameBut atEnd finish finish' (.unexpectedToken what found) (.unexpectedToken what found)
  | integerOutOfRange (literal : Token) :
    SameBut atEnd finish finish' (.integerOutOfRange literal) (.integerOutOfRange literal)
  | missingTerminal (last : atEnd) (what : Expectation) :
    SameBut atEnd finish finish' (.missingTerminal what finish) (.missingTerminal what finish')
  | tooDeepInside (inside : ¬ atEnd) (limit : Nat) (position : Position) :
    SameBut atEnd finish finish' (.nestingTooDeep limit position) (.nestingTooDeep limit position)
  | tooDeepAtEnd (last : atEnd) (limit : Nat) :
    SameBut atEnd finish finish' (.nestingTooDeep limit finish) (.nestingTooDeep limit finish')

/-- Only at the end of its tokens does an error depend on where they end. -/
theorem FailureAt.report_sameBut (reason : Reason) (rest : List Token) (finish finish' : Position)
    (maxDepth : Nat) :
    (report ⟨reason, Cursor.before rest⟩ finish maxDepth).SameBut (rest = []) finish finish'
      (report ⟨reason, Cursor.before rest⟩ finish' maxDepth) := by
  cases rest with
  | nil =>
    cases reason with
    | expected what => exact .missingTerminal rfl what
    | integerOutOfRange literal => exact .integerOutOfRange literal
    | nestingTooDeep => exact .tooDeepAtEnd rfl maxDepth
  | cons t rest =>
    have inside : t :: rest ≠ [] := List.cons_ne_nil t rest
    cases reason with
    | expected what => exact .unexpectedToken inside what t
    | integerOutOfRange literal => exact .integerOutOfRange literal
    | nestingTooDeep => exact .tooDeepInside inside maxDepth t.position

namespace Program

/-- The reading of some tokens, comments included, ends in an error at the place after all of
them. -/
def FailsAtEnd (maxDepth : Nat) (tokens : List Token) : Prop :=
  ∃ failure, Parser.wholeProgram (maxDepth + 1) (Place.start maxDepth tokens) = .error failure ∧
    failure.stop.atEnd = true

/-- A reading stops at one place. -/
theorem failsAtEnd_iff {maxDepth : Nat} {tokens rest : List Token} {reason : Reason}
    (h : (Parser.wholeProgram maxDepth).Fails (Token.significant tokens) reason rest) :
    FailsAtEnd maxDepth tokens ↔ rest = [] := by
  have hcursor : Parser.wholeProgram maxDepth (Cursor.ofTokens tokens) =
      .error ⟨reason, .before rest⟩ := h
  have hagree := Parser.wholeProgram_start (Nat.le_succ maxDepth) tokens
  rw [hcursor] at hagree
  obtain ⟨stop, hread, off, hstop⟩ := hagree.of_error
  have hend : stop.atEnd = rest.isEmpty := by
    have hsame := Place.atEnd_cursor off
    rw [hstop] at hsame
    exact hsame.symm
  rw [← List.isEmpty_iff, ← hend]
  constructor
  · rintro ⟨failure, hfails, hatEnd⟩
    cases hread.symm.trans hfails
    exact hatEnd
  · exact fun hatEnd => ⟨_, hread, hatEnd⟩

/-- Comments change nothing.  The reader that skips them on its way reads the tokens
without their comments as the same program, and where they are none, the error is the
same, at the same place: at the end of input, which both readings or none end at, that is
just past the last token of either list, and the start if there is none (`Token.endOf`). -/
theorem parse_significant (maxDepth : Nat) (tokens : List Token) :
    (∀ p, parse maxDepth tokens = .ok p ↔ parse maxDepth (Token.significant tokens) = .ok p) ∧
    (∀ e e', parse maxDepth tokens = .error e →
      parse maxDepth (Token.significant tokens) = .error e' →
      e.SameBut (FailsAtEnd maxDepth tokens) (Token.endOf tokens)
        (Token.endOf (Token.significant tokens)) e' ∧
      (FailsAtEnd maxDepth tokens ↔ FailsAtEnd maxDepth (Token.significant tokens))) := by
  -- both readings mirror the one at the cursors of the same significant tokens
  refine ⟨?_, ?_⟩
  · intro p
    rw [parse_eq_ok_iff, parse_eq_ok_iff, Token.significant_significant]
  · intro e e' h h'
    obtain ⟨reason, rest, hfails, rfl⟩ := parse_eq_error_iff.mp h
    obtain ⟨reason', rest', hfails', rfl⟩ := parse_eq_error_iff.mp h'
    rw [failsAtEnd_iff hfails']
    rw [Token.significant_significant] at hfails'
    obtain ⟨rfl, rfl⟩ := hfails.unique hfails'
    rw [propext (failsAtEnd_iff hfails)]
    exact ⟨FailureAt.report_sameBut reason rest _ _ maxDepth, Iff.rfl⟩

/-- Where there are no tokens, the end of input is the start of the text. -/
example : parse 0 [] =
    .error (.missingTerminal (.oneOf [.word "program"] (some "at start of source")) ⟨1, 1⟩) := by
  rw [parse_places]
  cbv

/-- The tokens of `program p; begin {note}`, each in its place. -/
def cutOff : List Token :=
  [⟨.reservedWord, "program", ⟨1, 1⟩⟩, ⟨.identifier, "p", ⟨1, 9⟩⟩, ⟨.symbol, ";", ⟨1, 10⟩⟩,
    ⟨.reservedWord, "begin", ⟨1, 12⟩⟩, ⟨.comment, "\x7bnote\x7d", ⟨1, 18⟩⟩]

/-- At the end of input the comment counts, whatever the error is. -/
theorem cutOff_significant :
    (parse 1 cutOff = .error (.missingTerminal .statement ⟨1, 24⟩) ∧
      parse 1 (Token.significant cutOff) = .error (.missingTerminal .statement ⟨1, 17⟩) ∧
      FailsAtEnd 1 cutOff ∧ FailsAtEnd 1 (Token.significant cutOff)) ∧
    (parse 0 cutOff = .error (.nestingTooDeep 0 ⟨1, 24⟩) ∧
      parse 0 (Token.significant cutOff) = .error (.nestingTooDeep 0 ⟨1, 17⟩) ∧
      FailsAtEnd 0 cutOff ∧ FailsAtEnd 0 (Token.significant cutOff)) := by
  have hmissing : parse 1 cutOff = .error (.missingTerminal .statement ⟨1, 24⟩) := by
    rw [parse_places]
    cbv
  have hmissing' : parse 1 (Token.significant cutOff) =
      .error (.missingTerminal .statement ⟨1, 17⟩) := by
    rw [parse_places]
    cbv
  have hdeep : parse 0 cutOff = .error (.nestingTooDeep 0 ⟨1, 24⟩) := by
    rw [parse_places]
    cbv
  have hdeep' : parse 0 (Token.significant cutOff) = .error (.nestingTooDeep 0 ⟨1, 17⟩) := by
    rw [parse_places]
    cbv
  refine ⟨⟨hmissing, hmissing', ?_⟩, hdeep, hdeep', ?_⟩
  · obtain ⟨hsame, hboth⟩ := (parse_significant 1 cutOff).2 _ _ hmissing hmissing'
    cases hsame with
    | missingTerminal last what => exact ⟨last, hboth.mp last⟩
  · obtain ⟨hsame, hboth⟩ := (parse_significant 0 cutOff).2 _ _ hdeep hdeep'
    cases hsame with
    | tooDeepAtEnd last limit => exact ⟨last, hboth.mp last⟩

end Program

/-! ## Layout -/

/-- The kind and the text are all of a token but its position. -/
theorem Token.alike_of_lexeme {us vs : List Token} (h : us.map lexeme = vs.map lexeme) :
    Alike (fun _ => .start) us vs := by
  have hmoved := congrArg (List.map fun (kind, text) => Token.mk kind text .start) h
  rw [List.map_map, List.map_map] at hmoved
  exact hmoved

/-- A syntax error without its positions.  A lexical error is left as it is. -/
def FrontEndError.withoutPositions : FrontEndError → FrontEndError
  | lexical e => lexical e
  | syntactic e => syntactic (e.mapPosition fun _ => .start)

namespace Program

/-- A program without its positions; the texts of its origins stay. -/
def withoutPositions (p : Program) : Program :=
  p.mapOrigin (.mapPosition fun _ => .start)

/-- Where no position is kept apart, the bound may lack a level for either
reading, and then it does for both. -/
theorem parse_alike (maxDepth : Nat) {tokens tokens' : List Token}
    (h : Token.Alike (fun _ => .start) (Token.significant tokens) (Token.significant tokens')) :
    outcome (fun _ => .start) (parse maxDepth tokens) =
      outcome (fun _ => .start) (parse maxDepth tokens') := by
  rcases parse_agrees (Nat.le_refl maxDepth) h rfl with ⟨position, hdeep⟩ | heq
  · rcases parse_agrees (Nat.le_refl maxDepth) h.symm rfl with ⟨position', hdeep'⟩ | heq
    · rw [hdeep, hdeep']
      rfl
    · exact heq.symm
  · exact heq

theorem ofSource_withoutPositions {limits : Limits} {source : String} {tokens : List Token}
    (h : tokenize limits.maxTokens source = .ok tokens) :
    ((ofSource limits source).map withoutPositions).mapError FrontEndError.withoutPositions =
      (outcome (fun _ => .start) (parse limits.maxDepth tokens)).mapError .syntactic := by
  rw [ofSource, h]
  simp only
  cases parse limits.maxDepth tokens <;> rfl

/-- The layout does not matter.  Two sources whose tokens, comments left out, have
the same kinds and texts one after the other, give the same program or the same
error, if positions are left out. -/
theorem ofSource_layout {limits limits' : Limits} {source source' : String}
    {tokens tokens' : List Token} (hdepth : limits.maxDepth = limits'.maxDepth)
    (h : tokenize limits.maxTokens source = .ok tokens)
    (h' : tokenize limits'.maxTokens source' = .ok tokens')
    (hlexemes : (Token.significant tokens).map Token.lexeme =
      (Token.significant tokens').map Token.lexeme) :
    ((ofSource limits source).map withoutPositions).mapError FrontEndError.withoutPositions =
      ((ofSource limits' source').map withoutPositions).mapError
        FrontEndError.withoutPositions := by
  rw [ofSource_withoutPositions h, ofSource_withoutPositions h', ← hdepth,
    parse_alike limits.maxDepth (Token.alike_of_lexeme hlexemes)]

/-- A source on one line. -/
def compactSource : String :=
  "program p;begin if a then x:=f(1)else if b then g end."

/-- The same tokens on many lines, with comments between them. -/
def spaciousSource : String :=
  "\x7bfirst\x7d program p ;\nbegin\n  if a then\n    x := f \x7bof\x7d (1)\n" ++
    "  else \x7bor\x7d\n  if b then g\nend .\n"

/-- Both are read, and as the same program. -/
theorem spaciousSource_layout :
    (ofSource .standard spaciousSource).isOk = true ∧
      (∃ tokens tokens', tokenize Limits.standard.maxTokens compactSource = .ok tokens ∧
        tokenize Limits.standard.maxTokens spaciousSource = .ok tokens' ∧
        (Token.significant tokens).map Token.lexeme =
          (Token.significant tokens').map Token.lexeme) ∧
      ((ofSource .standard compactSource).map withoutPositions).mapError
          FrontEndError.withoutPositions =
        ((ofSource .standard spaciousSource).map withoutPositions).mapError
          FrontEndError.withoutPositions := by
  have hread : (ofSource .standard spaciousSource).isOk = true := by decide +kernel
  have hlexemes : (tokenize Limits.standard.maxTokens compactSource).toOption.map
        (fun tokens => (Token.significant tokens).map Token.lexeme) =
      (tokenize Limits.standard.maxTokens spaciousSource).toOption.map
        (fun tokens => (Token.significant tokens).map Token.lexeme) := by
    decide +kernel
  cases h' : tokenize Limits.standard.maxTokens spaciousSource with
  | error e =>
    rw [ofSource, h'] at hread
    cases hread
  | ok tokens' =>
    cases h : tokenize Limits.standard.maxTokens compactSource with
    | error e =>
      rw [h, h'] at hlexemes
      cases hlexemes
    | ok tokens =>
      rw [h, h'] at hlexemes
      have hsame := Option.some.inj hlexemes
      exact ⟨hread, ⟨tokens, tokens', rfl, rfl, hsame⟩, ofSource_layout rfl h h' hsame⟩

end Program
end PascalSyntax
