import PascalSyntax.Proofs.Grammar.Viable
import PascalSyntax.Proofs.Statement.Failing

/-!
# Readers of expressions and statements track the grammar

Each reader tracks the phrase or the nonterminal that it is for, given that the
readers for what stands inside do.  A completion of an expression or of a
statement that is broken off is thus found level by level, and it does not
depend on the levels of nesting that are left.
-/

namespace PascalSyntax

open Nonterminal (rule)

namespace Parser

open Phrase (Embeds viable_nonterminal concat)

theorem identifier_tracks : Tracks identifier .identifier :=
  (Tracks.take .identifier none).map Token.toIdentifier

/-- A place for an expression is stuck before any of its tokens: a name would go
there. -/
theorem stuck_expression {n : Nonterminal}
    (h : ∀ ts, Nonterminal.primary.Derives ts → n.Derives ts) :
    (Phrase.nonterminal n).Stuck [] .expression := by
  obtain ⟨t, ht⟩ := Terminal.identifier.exists_admits
  have hname : Nonterminal.primary.Derives [t] := .nonterminal (.first (.token ht))
  exact ⟨viable_nonterminal n, [t], Nonterminal.Derives.ofPrimary hname 0, [], h _ hname⟩

section Over

variable {expression operand : Parser Cursor Expr}
  (he : Tracks expression (.nonterminal .expression))

/-! ## Calls -/

/-- The phrase for the arguments of a call, with their parentheses. -/
def argumentsPhrase : Phrase Nonterminal :=
  concat [.symbol "(", ((Phrase.nonterminal .expression).list ",").optional, .symbol ")"]

include he in
theorem arguments_tracks :
    Tracks (arguments expression)
      (concat [((Phrase.nonterminal .expression).list ",").optional, .symbol ")"]) := by
  have h : Tracks (arguments expression)
      (.choice (.sequence (.symbol ")") .empty)
        (.sequence ((Phrase.nonterminal .expression).list ",") (.symbol ")"))) :=
    .take?_bind (fun _ => .pure [])
      ((he.separated ",").seq rfl fun _ => (Tracks.take _ _).map fun _ => _)
  refine h.weaken fun ts hts => ?_
  cases hts with
  | first hts =>
    cases hts with
    | sequence hc hnil =>
      cases hnil
      rw [List.append_nil]
      exact .skip hc
  | second hts =>
    cases hts with
    | sequence hs hc => exact .sequence (.present hs) hc

include he in
theorem callOf_tracks (routine : Identifier) :
    Tracks (callOf expression routine) argumentsPhrase.optional :=
  .take?_bind (fun _ => (arguments_tracks he).map fun _ => _) (.pure _)

include he in
theorem nameOrCall_tracks : Tracks (nameOrCall expression) (.nonterminal .call) := by
  have h : Tracks (nameOrCall expression)
      (.sequence .identifier (.choice argumentsPhrase.optional .empty)) :=
    identifier_tracks.seq rfl fun name =>
      .sees_bind ((callOf_tracks he name).map Expr.call) (.pure (Expr.identifier name))
  refine h.weaken fun ts hts => .nonterminal ?_
  cases hts with
  | sequence hn hts =>
    cases hts with
    | first hts => exact .sequence hn hts
    | second hts =>
      cases hts
      exact .sequence hn .absent

/-! ## Operands -/

include he in
theorem parenthesized_tracks : Tracks (parenthesized expression) (.nonterminal .primary) := by
  have h : Tracks (parenthesized expression)
      (.choice (concat [.symbol "(", .nonterminal .expression, .symbol ")"])
        (.nonterminal .primary)) :=
    .take?_bind (fun _ => he.seq rfl fun inner => (Tracks.take _ _).map fun _ => inner)
      (.fail (stuck_expression fun _ h => h))
  refine h.weaken fun ts hts => ?_
  cases hts with
  | first hts => exact .nonterminal (.second (.second (.second (.second hts))))
  | second hts => exact hts

include he in
theorem primaryOver_tracks : Tracks (primaryOver expression) (.nonterminal .primary) := by
  have hcall : Tracks (nameOrCall expression) (.nonterminal .primary) :=
    (nameOrCall_tracks he).weaken fun _ h =>
      .nonterminal (.second (.second (.second (.first h))))
  refine ⟨?_, ?_⟩
  · intro us e rest h
    cases us with
    | nil => exact absurd h not_reads_primaryOver_nil
    | cons t us =>
      rw [reads_primaryOver_cons_iff] at h
      cases hk : t.kind <;> simp only [hk] at h
      case number =>
        obtain ⟨value, hv, -, rfl⟩ := h
        have ht : Terminal.number.admits t = true := by simp [Terminal.admits, hk]
        exact ⟨[t], rfl, .nonterminal (.second (.first (.integerLiteral ht
          (Numeral.signed?_eq_some_iff.mp ⟨value, hv⟩))))⟩
      case string =>
        obtain ⟨-, rfl⟩ := h
        have ht : Terminal.string.admits t = true := by simp [Terminal.admits, hk]
        exact ⟨[t], rfl, .nonterminal (.second (.second (.first (.token ht))))⟩
      case identifier => exact hcall.derives _ _ _ h
      all_goals exact (parenthesized_tracks he).derives _ _ _ h
  · intro us what rest h
    cases us with
    | nil =>
      obtain ⟨hreason, rfl⟩ := fails_primaryOver_nil_iff.mp h
      cases hreason
      exact ⟨[], rfl, stuck_expression fun _ h => h⟩
    | cons t us =>
      rw [fails_primaryOver_cons_iff] at h
      cases hk : t.kind <;> simp only [hk] at h
      case number =>
        obtain ⟨-, hreason, -⟩ := h
        cases hreason
      case identifier => exact hcall.stuck _ _ _ h
      all_goals exact (parenthesized_tracks he).stuck _ _ _ h

include he in
theorem unaryOver_tracks (ho : Tracks operand (.nonterminal .unary)) :
    Tracks (unaryOver operand expression) (.nonterminal .unary) :=
  .nonterminal (.takeFirst?_bind (fun _ _ => UnaryOperator.terminal_inj)
    (fun op t => ho.map fun e => Expr.unary op e t.origin) (primaryOver_tracks he))

/-! ## The binary levels -/

theorem binaryLevel_tracks {j : Nat} (hj : j ≤ 2)
    (ho : Tracks operand (.nonterminal (.operand (j + 1)))) :
    Tracks (binaryLevel (BinaryOperator.atLevel j) operand) (.nonterminal (.operand j)) := by
  have hround : Tracks (operation (BinaryOperator.atLevel j) operand)
      (concat [.oneOf ((BinaryOperator.atLevel j).map (·.terminal)),
        .nonterminal (.operand (j + 1))]).optional :=
    .takeFirst?_bind (fun _ _ => BinaryOperator.terminal_inj)
      (fun op t => ho.map fun right => some (op, t.origin, right)) (.pure none)
  refine .nonterminal ?_
  rw [Nonterminal.rule_operand hj, binaryLevel]
  exact ho.seq rfl fun first => hround.many.map fun others => others.foldl apply first

theorem relational_tracks (ho : Tracks operand (.nonterminal .unary)) :
    Tracks (relational operand) (.nonterminal .expression) := by
  have hterm : Tracks _ (.nonterminal (.operand 2)) := binaryLevel_tracks (by decide) ho
  have hadditive : Tracks _ (.nonterminal (.operand 1)) := binaryLevel_tracks (by decide) hterm
  exact binaryLevel_tracks (j := 0) (by decide) hadditive

end Over

theorem unary_tracks (levels : Nat) : Tracks (unary levels) (.nonterminal .unary) := by
  induction levels with
  | zero => exact unaryOver_tracks .tooDeep .tooDeep
  | succ levels ih => exact unaryOver_tracks (relational_tracks ih) ih

theorem expression_tracks (levels : Nat) :
    Tracks (expression levels) (.nonterminal .expression) := by
  cases levels with
  | zero => exact .tooDeep
  | succ levels => exact relational_tracks (unary_tracks levels)

/-! ## Statements -/

section Over

variable {expression : Parser Cursor Expr} {statement : Parser Cursor Statement}
  (he : Tracks expression (.nonterminal .expression))
  (hs : Tracks statement (.nonterminal .statement))

include hs in
theorem body_tracks : Tracks (body statement) (.nonterminal .statement) :=
  hs.map Block.ofStatement

/-- The phrase for a branch after its keyword. -/
def branchPhrase (ending : String) : Phrase Nonterminal :=
  concat [.nonterminal .expression, .word ending, .nonterminal .statement]

include he hs in
theorem branch_tracks (ending : String) (keyword : Token) :
    Tracks (branch expression statement ending keyword) (branchPhrase ending) :=
  he.seq rfl fun _ => (Tracks.take _ _).seq rfl fun _ => (body_tracks hs).map fun _ => _

/-- The phrase for one more branch. -/
def elseIfPhrase : Phrase Nonterminal :=
  concat [.word "else", .word "if", .nonterminal .expression, .word "then",
    .nonterminal .statement]

include he hs in
theorem elseIf_tracks : Tracks (elseIf expression statement) elseIfPhrase.optional := by
  have hb := branch_tracks he hs "then"
  refine ⟨?_, ?_⟩
  · intro us o rest h
    cases o with
    | none =>
      obtain ⟨-, rfl⟩ := reads_elseIf_none_iff.mp h
      exact ⟨[], rfl, .absent⟩
    | some b =>
      obtain ⟨elses, keyword, mid, rfl, helse, hif, hbranch⟩ := reads_elseIf_some_iff.mp h
      obtain ⟨ts, rfl, hts⟩ := (hb keyword).derives _ _ _ hbranch
      exact ⟨elses :: keyword :: ts, rfl, .present (.cons helse (.cons hif hts))⟩
  · intro us what rest h
    obtain ⟨elses, keyword, mid, rfl, helse, hif, hbranch⟩ := fails_elseIf_iff.mp h
    obtain ⟨front, rfl, hstuck⟩ := (hb keyword).stuck _ _ _ hbranch
    have hembeds : Embeds (branchPhrase "then") elseIfPhrase.optional [elses, keyword] :=
      .of_forall fun ts hts => .present (.cons helse (.cons hif hts))
    exact ⟨elses :: keyword :: front, rfl, hstuck.embed hembeds⟩

include he hs in
theorem conditional_tracks (keyword : Token) :
    Tracks (conditional expression statement keyword)
      (concat [.nonterminal .expression, .word "then", .nonterminal .statement, elseIfPhrase.many,
        (concat [.word "else", .nonterminal .statement]).optional]) := by
  rw [conditional]
  simp only [branch, bind_assoc, pure_bind]
  exact he.seq rfl fun _ => (Tracks.take _ _).seq rfl fun _ => (body_tracks hs).seq rfl fun _ =>
    (elseIf_tracks he hs).many.seq rfl fun _ =>
      ((body_tracks hs).another (.word "else")).map fun _ => _

theorem direction_tracks : Tracks direction (.oneOf [.word "to", .word "downto"]) := by
  have h : Tracks direction
      (.choice (.sequence (.oneOf [.word "to", .word "downto"]) .empty)
        (.oneOf [.word "to", .word "downto"])) :=
    .takeFirst?_bind (fun _ _ => direction_word_inj) (fun d _ => .pure d)
      (.fail (Tracks.stuck_oneOf (List.cons_ne_nil _ _) none))
  refine h.weaken fun ts hts => ?_
  cases hts with
  | first hts =>
    cases hts with
    | sequence hd hnil =>
      cases hnil
      rwa [List.append_nil]
  | second hts => exact hts

/-- The phrase for a counting loop after its keyword. -/
def forPhrase : Phrase Nonterminal :=
  concat [.identifier, .symbol ":=", .nonterminal .expression, .oneOf [.word "to", .word "downto"],
    .nonterminal .expression, .word "do", .nonterminal .statement]

include he hs in
theorem forLoop_tracks (keyword : Token) :
    Tracks (forLoop expression statement keyword) forPhrase :=
  identifier_tracks.seq rfl fun _ => (Tracks.take _ _).seq rfl fun _ => he.seq rfl fun _ =>
    direction_tracks.seq rfl fun _ => he.seq rfl fun _ => (Tracks.take _ _).seq rfl fun _ =>
      (body_tracks hs).map fun _ => _

include he in
theorem nameStatement_tracks :
    Tracks (nameStatement expression) (.nonterminal .statement) := by
  have h : Tracks (nameStatement expression)
      (.sequence .identifier (.choice (.sequence (.symbol ":=") (.nonterminal .expression))
        argumentsPhrase.optional)) :=
    identifier_tracks.seq rfl fun name => .take?_bind (fun _ => he.map fun _ => _)
      ((callOf_tracks he name).map Statement.call)
  refine h.weaken fun ts hts => ?_
  cases hts with
  | sequence hn hts =>
    cases hts with
    | first hts =>
      exact .nonterminal (.second (.second (.second (.second (.first
        (.nonterminal (.sequence hn hts)))))))
    | second hts =>
      exact .nonterminal (.second (.second (.second (.first
        (.nonterminal (.sequence hn hts))))))

/-! ## Blocks -/

/-- The phrase for a block after its `begin`. -/
def itemsPhrase : Phrase Nonterminal :=
  concat [(Phrase.nonterminal .statement).optional.list ";", .word "end"]

/-- One more item before the others. -/
theorem items_cons {ts us : List Token} {t : Token}
    (h : Derives rule (Phrase.nonterminal .statement).optional ts)
    (ht : (Terminal.symbol ";").admits t) (hus : Derives rule itemsPhrase us) :
    Derives rule itemsPhrase (ts ++ t :: us) := by
  cases hus with
  | @sequence _ _ vs ws hitems hend =>
    cases hitems with
    | sequence hfirst hmany =>
      have hlist := Derives.sequence h (.more (.cons ht hfirst) hmany)
      have hitems := Derives.sequence hlist hend
      simp only [List.append_assoc, List.cons_append] at hitems ⊢
      exact hitems

/-- The items that were read, before the tokens `rest`: there may be more of
them, or the end of the block is next. -/
def ItemsBefore (ts rest : List Token) : Prop :=
  (∀ us, Derives rule itemsPhrase us → Derives rule itemsPhrase (ts ++ us)) ∨
    (Token.front? rest = some (.word "end") ∧
      ∀ t, (Terminal.word "end").admits t → Derives rule itemsPhrase (ts ++ [t]))

theorem ItemsBefore.closed {ts rest : List Token} (h : ItemsBefore ts rest) {t : Token}
    (ht : (Terminal.word "end").admits t) : Derives rule itemsPhrase (ts ++ [t]) := by
  obtain hmore | ⟨-, hend⟩ := h
  · exact hmore [t] (.sequence (.single .absent) (.token ht))
  · exact hend t ht

theorem ItemsBefore.cons {ts us rest : List Token} {t : Token}
    (h : Derives rule (Phrase.nonterminal .statement).optional ts)
    (ht : (Terminal.symbol ";").admits t) (hus : ItemsBefore us rest) :
    ItemsBefore (ts ++ t :: us) rest := by
  obtain hmore | ⟨hnext, hend⟩ := hus
  · refine .inl fun vs hvs => ?_
    rw [List.append_assoc, List.cons_append]
    exact items_cons h ht (hmore vs hvs)
  · refine .inr ⟨hnext, fun last hlast => ?_⟩
    rw [List.append_assoc, List.cons_append]
    exact items_cons h ht (hend last hlast)

include hs in
theorem items_rounds {us mid : List Token} {items : List (Option Statement)}
    (rounds : Rounds (item? statement) us items mid) :
    ∃ ts, us = ts ++ mid ∧ ItemsBefore ts mid := by
  induction rounds with
  | nil us => exact ⟨[], rfl, .inl fun _ h => h⟩
  | @cons us front mid o items hr _ others ih =>
    obtain ⟨t, -, -, ho⟩ | ⟨t, rfl, ht, -⟩ | ⟨-, -, s, stop, hread, hsep, -⟩ :=
      reads_item?_iff.mp hr
    · cases ho
    · obtain ⟨ts, rfl, hts⟩ := ih
      exact ⟨[] ++ t :: ts, rfl, .cons .absent ht hts⟩
    · obtain ⟨vs, rfl, hvs⟩ := hs.derives _ _ _ hread
      obtain ⟨t, rfl, ht⟩ | ⟨hend, rfl⟩ := reads_separator_iff.mp hsep
      · obtain ⟨ts, rfl, hts⟩ := ih
        exact ⟨vs ++ t :: ts, by simp, .cons (.present hvs) ht hts⟩
      · -- no semicolon: nothing but the `end` is left
        cases others with
        | nil =>
          exact ⟨vs, rfl, .inr ⟨hend, fun t ht =>
            .sequence (.single (.present hvs)) (.token ht)⟩⟩
        | @cons _ _ _ o _ hr =>
          obtain ⟨t, -, -, ho⟩ | ⟨t, rfl, ht, -⟩ | ⟨hne, -⟩ := reads_item?_iff.mp hr
          · cases ho
          · rw [Terminal.front?_of_admits ht] at hend
            cases hend
          · exact absurd hend hne

theorem fails_separator_iff {us rest : List Token} {reason : Reason} :
    separator.Fails us reason rest ↔
      Token.front? us ≠ some (.symbol ";") ∧ Token.front? us ≠ some (.word "end") ∧
        reason = .expected (.oneOf [.symbol ";", .word "end"] (some "after statement")) ∧
        rest = us := by
  rw [separator, fails_take?_bind_iff]
  simp [fails_sees_bind_iff]

theorem fails_item?_iff {us rest : List Token} {reason : Reason} :
    (item? statement).Fails us reason rest ↔
      Token.front? us ≠ some (.word "end") ∧ Token.front? us ≠ some (.symbol ";") ∧
        (statement.Fails us reason rest ∨
          ∃ s mid, statement.Reads us s mid ∧ separator.Fails mid reason rest) := by
  rw [item?]
  simp only [fails_take?_bind_iff]
  simp [fails_bind_iff]

include hs in
/-- Where an item cannot be read, the block could go on with what is missing. -/
theorem item?_stuck {us rest : List Token} {what : Expectation}
    (h : (item? statement).Fails us (.expected what) rest) :
    Token.front? us ≠ some (.word "end") ∧
      ∃ front, us = front ++ rest ∧ itemsPhrase.Stuck front what := by
  obtain ⟨hend, -, h⟩ := fails_item?_iff.mp h
  refine ⟨hend, ?_⟩
  obtain ⟨last, hlast⟩ := (Terminal.word "end").exists_admits
  rcases h with h | ⟨s, mid, hread, h⟩
  · obtain ⟨front, rfl, hstuck⟩ := hs.stuck _ _ _ h
    have hembeds : Embeds (.nonterminal .statement) itemsPhrase [] := by
      intro ts hts
      refine ⟨[last], ?_⟩
      rw [List.nil_append]
      exact .sequence (.single (.present hts)) (.token hlast)
    exact ⟨front, rfl, hstuck.embed hembeds⟩
  · obtain ⟨-, -, he, rfl⟩ := fails_separator_iff.mp h
    cases he
    obtain ⟨ts, rfl, hts⟩ := hs.derives _ _ _ hread
    have hclosed {t : Token} (ht : (Terminal.word "end").admits t) :
        Derives rule itemsPhrase (ts ++ [t]) :=
      .sequence (.single (.present hts)) (.token ht)
    refine ⟨ts, rfl, ⟨[last], hclosed hlast⟩, ?_⟩
    intro a ha t ht
    obtain rfl | rfl : a = .symbol ";" ∨ a = .word "end" := by simpa using ha
    · refine ⟨[last], ?_⟩
      rw [List.append_assoc]
      exact items_cons (.present hts) ht (.sequence (.single .absent) (.token hlast))
    · refine ⟨[], ?_⟩
      rw [List.append_nil]
      exact hclosed ht

variable {levels : Nat} (only : StatementsOnly statement levels)

include hs only in
theorem items_tracks : Tracks (many (item? statement)) itemsPhrase where
  derives := by
    intro us items rest h
    obtain ⟨mid, rounds, last⟩ := (reads_many_iff (advances_item? only)).mp h
    obtain ⟨ts, rfl, hts⟩ := items_rounds hs rounds
    obtain ⟨t, rfl, ht⟩ := reads_item?_none_iff.mp last
    exact ⟨ts ++ [t], by simp, hts.closed ht⟩
  stuck := by
    intro us what rest h
    obtain ⟨items, mid, rounds, last⟩ := fails_many_iff.mp h
    obtain ⟨ts, rfl, hts⟩ := items_rounds hs rounds
    obtain ⟨hne, front, rfl, hstuck⟩ := item?_stuck hs last
    obtain hmore | ⟨hend, -⟩ := hts
    · exact ⟨ts ++ front, (List.append_assoc _ _ _).symm, hstuck.embed (.of_forall hmore)⟩
    · exact absurd hend hne

include hs only in
theorem blockOver_tracks : Tracks (blockOver statement) (.nonterminal .block) :=
  .nonterminal ((Tracks.take _ _).seq rfl fun _ => (items_tracks hs only).map fun _ => _)

/-! ## All statements -/

/-- A place for a statement is stuck before any of its tokens. -/
theorem stuck_statement : (Phrase.nonterminal .statement).Stuck [] .statement := by
  obtain ⟨ts, hts⟩ := Nonterminal.statement.exists_derives
  refine ⟨viable_nonterminal _, ts, hts, [], ?_⟩
  rw [List.append_nil]
  exact hts

include he hs only in
theorem statementOver_tracks :
    Tracks (statementOver expression statement) (.nonterminal .statement) := by
  have h : Tracks (statementOver expression statement)
      (.choice (.sequence (.word "if") (concat [.nonterminal .expression, .word "then",
          .nonterminal .statement, elseIfPhrase.many,
          (concat [.word "else", .nonterminal .statement]).optional]))
        (.choice (.sequence (.word "while") (branchPhrase "do"))
          (.choice (.sequence (.word "for") forPhrase)
            (.choice (.nonterminal .block)
              (.choice (.nonterminal .statement) (.nonterminal .statement)))))) :=
    .take?_bind (conditional_tracks he hs)
      (.take?_bind (fun keyword => (branch_tracks he hs "do" keyword).map fun _ => _)
        (.take?_bind (forLoop_tracks he hs)
          (.sees_bind ((blockOver_tracks hs only).map Statement.block)
            (.sees_bind (nameStatement_tracks he) (.fail stuck_statement)))))
  refine h.weaken fun ts hts => ?_
  simp only [Derives.choice_iff] at hts
  rcases hts with hif | hwhile | hfor | hblock | hstatement | hstatement
  · exact .nonterminal (.first (.nonterminal hif))
  · exact .nonterminal (.second (.first (.nonterminal hwhile)))
  · exact .nonterminal (.second (.second (.first (.nonterminal hfor))))
  · exact .nonterminal (.second (.second (.second (.second (.second hblock)))))
  · exact hstatement
  · exact hstatement

end Over

theorem statement_tracks (levels : Nat) :
    Tracks (statement levels) (.nonterminal .statement) := by
  induction levels with
  | zero => exact .tooDeep
  | succ levels ih =>
    exact statementOver_tracks (expression_tracks levels) ih (statement_readsOnly levels)

theorem block_tracks (levels : Nat) : Tracks (block levels) (.nonterminal .block) :=
  blockOver_tracks (statement_tracks levels) (statement_readsOnly levels)

end Parser
end PascalSyntax
