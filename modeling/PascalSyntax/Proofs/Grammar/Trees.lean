import PascalSyntax.Proofs.Expr.Rendering
import PascalSyntax.Proofs.Grammar.Derivation
import PascalSyntax.Proofs.Program.Spelling
import PascalSyntax.Proofs.Statement.Dangling

/-!
# What derives has a tree

Each nonterminal is interpreted by the trees of its kind, and the rules are
closed under this (`Nonterminal.closed`), so that whatever derives spells a tree
(`Nonterminal.Derives.spelled`).  The rules of the operators list operands in a
row where the trees group them to the left, and the rule of conditionals lists
branches where the trees may have to move an `else` further in.
-/

namespace PascalSyntax

namespace Expr

theorem Rendering.weaken {j k : Nat} {e : Expr} {ts : List Token} (h : Rendering k e ts)
    (hj : j ≤ k) : Rendering j e ts := by
  cases h with
  | identifier ht hx => exact .identifier ht hx
  | integer ht hv => exact .integer ht hv
  | string ht hv => exact .string ht hv
  | emptyCall hn hx ho hc => exact .emptyCall hn hx ho hc
  | call hn hx ho hu hp hs hc => exact .call hn hx ho hu hp hs hc
  | parenthesized ho h hc => exact .parenthesized ho h hc
  | unary ht h => exact .unary ht h
  | binary hk hl ht hr => exact .binary (Nat.le_trans hj hk) hl ht hr

/-- A rendering spells some expression, if one level is left for each token. -/
theorem Rendering.within {e : Expr} {ts : List Token} (h : Rendering 0 e ts) {levels : Nat}
    (hl : ts.length ≤ levels) : ∃ e', Within levels e' ts := by
  have := List.length_pos_iff.mpr h.ne_nil
  obtain ⟨inner, rfl⟩ : ∃ inner, levels = inner + 1 := ⟨levels - 1, by omega⟩
  obtain ⟨e', -, hs⟩ := h.spelling inner hl
  exact ⟨e', hs⟩

/-- A name with rendered arguments renders a call. -/
theorem Rendering.ofArguments {k : Nat} {name : Token} {args : List Argument} {ts : List Token}
    (hn : Terminal.identifier.admits name) (h : Call.Arguments (Rendering 0) args ts) :
    Rendering k (.call ⟨name.toIdentifier, args, name.origin⟩) (name :: ts) := by
  cases h with
  | empty ho hc => exact .emptyCall hn rfl ho hc
  | given ho hs hc =>
    obtain ⟨pieces, rfl, hp, hs⟩ := separated_iff_pieces.mp hs
    have hargs : (pieces.map (·.1)).map Argument.ofValue =
        (pieces.map fun piece => (Argument.ofValue piece.1, piece.2)).map (·.1) := by
      rw [List.map_map, List.map_map]
      rfl
    rw [hargs]
    refine .call hn rfl ho ?_ ?_ ?_ hc
    · intro piece hpiece
      obtain ⟨q, -, rfl⟩ := List.mem_map.mp hpiece
      exact ⟨rfl, rfl, rfl⟩
    · intro piece hpiece
      obtain ⟨q, hq, rfl⟩ := List.mem_map.mp hpiece
      exact hp q hq
    · rw [List.map_map]
      exact hs

end Expr

theorem Call.Arguments.within {args : List Argument} {ts : List Token}
    (h : Call.Arguments (Expr.Rendering 0) args ts) {levels : Nat} (hl : ts.length ≤ levels) :
    ∃ args', Call.Arguments (Expr.Within levels) args' ts := by
  cases h with
  | empty ho hc => exact ⟨_, .empty ho hc⟩
  | @given _ _ _ us ho hs hc =>
    obtain ⟨pieces, rfl, hp, hs⟩ := separated_iff_pieces.mp hs
    simp only [List.length_cons, List.length_append] at hl
    have hspelled : Separated (.symbol ",") (fun _ vs => ∃ e, Expr.Within levels e vs)
        (pieces.map (·.1)) us := by
      refine separated_iff_pieces.mpr ⟨pieces, rfl, fun piece hpiece => ?_, hs⟩
      have := hs.length_le piece hpiece
      exact (hp piece hpiece).within (by omega)
    obtain ⟨values, hs⟩ := hspelled.choose
    exact ⟨_, .given ho hs hc⟩

namespace Nonterminal

open Phrase (concat nonterminal)

/-- The tokens stand for a tree of the kind that the nonterminal names. -/
def Spelled : Nonterminal → List Token → Prop
  | program, ts => ∀ levels, ts.length ≤ levels → ∃ p, Program.Spelling levels p ts
  | varSection, ts =>
    ∀ levels, ts.length ≤ levels → ∃ vars, VarSection.Spelling levels (some vars) ts
  | varGroup, ts => ∀ levels, ts.length ≤ levels → ∃ decls, VarDecl.Group levels decls ts
  | constSection, ts =>
    ∀ levels, ts.length ≤ levels → ∃ consts, ConstSection.Spelling levels (some consts) ts
  | block, ts => ∀ levels, ts.length ≤ levels + 1 → ∃ b, Block.Spelling levels b ts
  | statement, ts => Statement.Spelled ts
  | assignment, ts => Statement.Spelled ts
  | call, ts => ∃ name us, ts = name :: us ∧ Terminal.identifier.admits name = true ∧
      (us = [] ∨ ∃ args, Call.Arguments (Expr.Rendering 0) args us)
  | conditional, ts => Statement.Spelled ts
  | whileLoop, ts => Statement.Spelled ts
  | forLoop, ts => Statement.Spelled ts
  | routine, ts => ∀ levels, ts.length ≤ levels → ∃ r, Routine.Spelling levels r ts
  | formals, ts => ∃ parameters, Routine.Formals parameters ts
  | parameterGroup, ts => ∃ parameters, Parameter.Group parameters ts
  | expression, ts => ∃ e, Expr.Rendering 0 e ts
  | additive, ts => ∃ e, Expr.Rendering 1 e ts
  | term, ts => ∃ e, Expr.Rendering 2 e ts
  | unary, ts => ∃ e, Expr.Rendering 3 e ts
  | primary, ts => ∃ e, Expr.Rendering 3 e ts

/-! ## Expressions -/

theorem spelled_operand {k : Nat} (hk : k ≤ 3) {ts : List Token} :
    (operand k).Spelled ts ↔ ∃ e, Expr.Rendering k e ts := by
  obtain rfl | rfl | rfl | rfl : k = 0 ∨ k = 1 ∨ k = 2 ∨ k = 3 := by omega
  all_goals rfl

/-- Operands with operators of one level between them are grouped to the left. -/
theorem rendering_of_operands {j : Nat} (hj : j ≤ 2) {left : Expr} {us : List Token}
    (hl : Expr.Rendering j left us) {pieces : List (List Token)}
    (hpieces : ∀ piece ∈ pieces, ∃ op t right vs, piece = t :: vs ∧ BinaryOperator.level op = j ∧
      op.terminal.admits t = true ∧ Expr.Rendering (j + 1) right vs) :
    ∃ e, Expr.Rendering j e (us ++ pieces.flatten) := by
  induction pieces generalizing left us with
  | nil =>
    rw [List.flatten_nil, List.append_nil]
    exact ⟨left, hl⟩
  | cons piece pieces ih =>
    obtain ⟨op, t, right, vs, rfl, rfl, ht, hr⟩ := hpieces piece List.mem_cons_self
    have hboth : Expr.Rendering op.level (.binary op left right t.origin) (us ++ t :: vs) :=
      .binary (Nat.le_refl _) hl ht hr
    rw [List.flatten_cons, ← List.append_assoc]
    exact ih hboth fun q hq => hpieces q (List.mem_cons_of_mem _ hq)

theorem closed_operand {j : Nat} (hj : j ≤ 2) {ts : List Token}
    (h : (rule (operand j)).Means Spelled ts) : (operand j).Spelled ts := by
  rw [rule_operand hj] at h
  obtain ⟨us, vs, rfl, hfirst, pieces, rfl, hpieces⟩ := h
  obtain ⟨left, hl⟩ := (spelled_operand (by omega)).mp hfirst
  refine (spelled_operand (by omega)).mpr (rendering_of_operands hj (hl.weaken (by omega)) ?_)
  intro piece hpiece
  obtain ⟨_, vs, rfl, ⟨t, rfl, a, ha, ht⟩, hright⟩ := hpieces piece hpiece
  obtain ⟨op, hop, rfl⟩ := List.mem_map.mp ha
  obtain ⟨right, hr⟩ := (spelled_operand (by omega)).mp hright
  exact ⟨op, t, right, vs, rfl, (BinaryOperator.mem_atLevel_iff hj).mp hop, ht, hr⟩

theorem closed_unary {ts : List Token} (h : (rule unary).Means Spelled ts) :
    unary.Spelled ts := by
  obtain ⟨_, vs, rfl, ⟨t, rfl, a, ha, ht⟩, e, he⟩ | h := h
  · obtain ⟨op, -, rfl⟩ : ∃ op ∈ UnaryOperator.all, op.terminal = a := List.mem_map.mp ha
    exact ⟨.unary op e t.origin, .unary ht he⟩
  · exact h

theorem closed_primary {ts : List Token} (h : (rule primary).Means Spelled ts) :
    primary.Spelled ts := by
  obtain h | h | h | h | h := h
  · obtain ⟨t, rfl, ht⟩ := Phrase.means_token.mp h
    exact ⟨.identifier t.toIdentifier, .identifier ht rfl⟩
  · obtain ⟨t, rfl, ht, hv⟩ := h
    obtain ⟨value, hv⟩ := Numeral.signed?_eq_some_iff.mpr hv
    exact ⟨.integer ⟨value, t.origin⟩, .integer ht hv⟩
  · obtain ⟨t, rfl, ht⟩ := Phrase.means_token.mp h
    exact ⟨.string ⟨t.unquoted, t.origin⟩, .string ht rfl⟩
  · obtain ⟨name, us, rfl, hn, rfl | ⟨args, ha⟩⟩ := h
    · exact ⟨.identifier name.toIdentifier, .identifier hn rfl⟩
    · exact ⟨_, .ofArguments hn ha⟩
  · obtain ⟨opening, mid, rfl, ho, us, vs, rfl, ⟨e, he⟩, h⟩ := Phrase.means_cons.mp h
    obtain ⟨closing, rfl, hc⟩ := Phrase.means_token.mp h
    exact ⟨e, .parenthesized ho he hc⟩

theorem closed_call {ts : List Token} (h : (rule call).Means Spelled ts) : call.Spelled ts := by
  obtain ⟨name, us, rfl, hn, h⟩ := Phrase.means_cons.mp h
  refine ⟨name, us, rfl, hn, ?_⟩
  obtain h | rfl := Phrase.means_optional.mp h
  · obtain ⟨opening, mid, rfl, ho, ts, vs, rfl, hargs, h⟩ := Phrase.means_cons.mp h
    obtain ⟨closing, rfl, hc⟩ := Phrase.means_token.mp h
    obtain hargs | rfl := Phrase.means_optional.mp hargs
    · obtain ⟨values, hs⟩ := hargs.separated fun us _ h => h
      exact .inr ⟨_, .given ho hs hc⟩
    · exact .inr ⟨_, .empty ho hc⟩
  · exact .inl rfl

/-! ## Statements -/

theorem closed_assignment {ts : List Token} (h : (rule assignment).Means Spelled ts) :
    assignment.Spelled ts := by
  obtain ⟨name, _, rfl, hn, h⟩ := Phrase.means_cons.mp h
  obtain ⟨becomes, us, rfl, hb, e, he⟩ := Phrase.means_cons.mp h
  intro levels hl
  simp only [List.length_cons] at hl
  obtain ⟨inner, rfl⟩ : ∃ inner, levels = inner + 1 := ⟨levels - 1, by omega⟩
  obtain ⟨value, hvalue⟩ := he.within (show us.length ≤ inner by omega)
  exact ⟨_, .assignment hn hb hvalue⟩

theorem closed_whileLoop {ts : List Token} (h : (rule whileLoop).Means Spelled ts) :
    whileLoop.Spelled ts := by
  obtain ⟨keyword, _, rfl, hk, us, _, rfl, ⟨e, he⟩, h⟩ := Phrase.means_cons.mp h
  obtain ⟨does, vs, rfl, hd, hs⟩ := Phrase.means_cons.mp h
  intro levels hl
  simp only [List.length_cons, List.length_append] at hl
  obtain ⟨inner, rfl⟩ : ∃ inner, levels = inner + 1 := ⟨levels - 1, by omega⟩
  obtain ⟨condition, hcondition⟩ := he.within (show us.length ≤ inner by omega)
  obtain ⟨s, hspelled⟩ := hs inner (by omega)
  exact ⟨_, .whileLoop hk hcondition hd hspelled⟩

theorem closed_forLoop {ts : List Token} (h : (rule forLoop).Means Spelled ts) :
    forLoop.Spelled ts := by
  obtain ⟨keyword, _, rfl, hk, h⟩ := Phrase.means_cons.mp h
  obtain ⟨name, _, rfl, hn, h⟩ := Phrase.means_cons.mp h
  obtain ⟨becomes, _, rfl, hb, us, _, rfl, ⟨e, he⟩, h⟩ := Phrase.means_cons.mp h
  obtain ⟨_, _, rfl, ⟨way, rfl, a, ha, hw⟩, vs, _, rfl, ⟨e', he'⟩, h⟩ := h
  obtain ⟨does, ws, rfl, hd, hs⟩ := Phrase.means_cons.mp h
  obtain ⟨d, -, rfl⟩ : ∃ d ∈ [Direction.upward, .downward], .word d.word = a := List.mem_map.mp ha
  intro levels hl
  simp only [List.length_cons, List.length_append] at hl
  obtain ⟨inner, rfl⟩ : ∃ inner, levels = inner + 1 := ⟨levels - 1, by omega⟩
  obtain ⟨first, hfirst⟩ := he.within (show us.length ≤ inner by omega)
  obtain ⟨last, hlast⟩ := he'.within (show vs.length ≤ inner by omega)
  obtain ⟨s, hspelled⟩ := hs inner (by omega)
  exact ⟨_, .forLoop hk hn hb hfirst hw hlast hd hspelled⟩

section Conditional

variable {keyword thens : Token} {condition : Expr} {ts us : List Token}

theorem spelled_ifThen (hk : (Terminal.word "if").admits keyword)
    (he : condition.Rendering 0 ts) (ht : (Terminal.word "then").admits thens)
    (hs : Statement.Spelled us) : Statement.Spelled (keyword :: (ts ++ thens :: us)) := by
  intro levels hl
  simp only [List.length_cons, List.length_append] at hl
  obtain ⟨inner, rfl⟩ : ∃ inner, levels = inner + 1 := ⟨levels - 1, by omega⟩
  obtain ⟨condition', hcondition⟩ := he.within (show ts.length ≤ inner by omega)
  obtain ⟨s, hspelled⟩ := hs inner (by omega)
  exact ⟨_, .ifThen hk hcondition ht hspelled⟩

theorem spelled_ifElse (hk : (Terminal.word "if").admits keyword)
    (he : condition.Rendering 0 ts) (ht : (Terminal.word "then").admits thens)
    (hs : Statement.Spelled us) {elses : Token} (hel : (Terminal.word "else").admits elses)
    {vs : List Token} (hv : Statement.Spelled vs) :
    Statement.Spelled (keyword :: (ts ++ thens :: (us ++ elses :: vs))) := by
  intro levels hl
  simp only [List.length_cons, List.length_append] at hl
  obtain ⟨inner, rfl⟩ : ∃ inner, levels = inner + 1 := ⟨levels - 1, by omega⟩
  obtain ⟨condition', hcondition⟩ := he.within (show ts.length ≤ inner by omega)
  obtain ⟨s, hspelled⟩ := hs inner (by omega)
  obtain ⟨s', hclosed⟩ | ⟨s', hopen⟩ := hspelled.attach hel hv (by omega)
  · exact hclosed.withElse hk hcondition ht hel hv (by omega)
  · exact ⟨_, .ifThen hk hcondition ht hopen⟩

/-- A chain of branches is spelled from its end: each is the `else` of the one
before it. -/
theorem spelled_chain {pieces : List (List Token)} {ws : List Token}
    (hpieces : ∀ piece ∈ pieces,
      (concat [Phrase.word "else", Phrase.word "if", nonterminal expression, Phrase.word "then",
        nonterminal statement]).Means Spelled piece)
    (hw : (concat [Phrase.word "else", nonterminal statement]).optional.Means Spelled ws) :
    ∀ {keyword thens : Token} {condition : Expr} {ts us : List Token},
      (Terminal.word "if").admits keyword → condition.Rendering 0 ts →
      (Terminal.word "then").admits thens → Statement.Spelled us →
      Statement.Spelled (keyword :: (ts ++ thens :: (us ++ (pieces.flatten ++ ws)))) := by
  induction pieces with
  | nil =>
    intro keyword thens condition ts us hk he ht hs
    rw [List.flatten_nil, List.nil_append]
    obtain hw | rfl := Phrase.means_optional.mp hw
    · obtain ⟨elses, vs, rfl, hel, hv⟩ := Phrase.means_cons.mp hw
      exact spelled_ifElse hk he ht hs hel hv
    · rw [List.append_nil]
      exact spelled_ifThen hk he ht hs
  | cons piece pieces ih =>
    intro keyword thens condition ts us hk he ht hs
    obtain ⟨elses, _, rfl, hel, h⟩ := Phrase.means_cons.mp (hpieces piece List.mem_cons_self)
    obtain ⟨keyword', _, rfl, hk', ts', _, rfl, ⟨condition', he'⟩, h⟩ := Phrase.means_cons.mp h
    obtain ⟨thens', us', rfl, ht', hs'⟩ := Phrase.means_cons.mp h
    have hrest := ih (fun q hq => hpieces q (List.mem_cons_of_mem _ hq)) hk' he' ht' hs'
    have := spelled_ifElse hk he ht hs hel hrest
    simpa using this

end Conditional

theorem closed_conditional {ts : List Token} (h : (rule conditional).Means Spelled ts) :
    conditional.Spelled ts := by
  obtain ⟨keyword, _, rfl, hk, ts, _, rfl, ⟨e, he⟩, h⟩ := Phrase.means_cons.mp h
  obtain ⟨thens, _, rfl, ht, us, _, rfl, hs, _, ws, rfl, ⟨pieces, rfl, hpieces⟩, hw⟩ :=
    Phrase.means_cons.mp h
  exact spelled_chain hpieces hw hk he ht hs

theorem closed_block {ts : List Token} (h : (rule block).Means Spelled ts) : block.Spelled ts := by
  obtain ⟨opening, _, rfl, ho, us, _, rfl, hlist, h⟩ := Phrase.means_cons.mp h
  obtain ⟨closing, rfl, hc⟩ := Phrase.means_token.mp h
  intro levels hl
  simp only [List.length_cons, List.length_append] at hl
  have hpiece : ∀ vs, vs.length ≤ us.length → (nonterminal statement).optional.Means Spelled vs →
      ∃ o, Statement.Piece (Statement.Spelling levels true) o vs := by
    intro vs hvs h
    obtain h | rfl := Phrase.means_optional.mp h
    · obtain ⟨s, hs⟩ := h levels (by omega)
      exact ⟨some s, hs⟩
    · exact ⟨none, rfl⟩
  obtain ⟨items, hitems⟩ := hlist.separated hpiece
  exact ⟨_, .mk ho hitems hc⟩

theorem closed_statement {ts : List Token} (h : (rule statement).Means Spelled ts) :
    statement.Spelled ts := by
  obtain h | h | h | h | h | h := h
  · exact h
  · exact h
  · exact h
  · obtain ⟨name, us, rfl, hn, h⟩ := h
    intro levels hl
    rw [List.length_cons] at hl
    obtain ⟨inner, rfl⟩ : ∃ inner, levels = inner + 1 := ⟨levels - 1, by omega⟩
    obtain rfl | ⟨args, ha⟩ := h
    · exact ⟨_, .bareCall hn⟩
    · obtain ⟨args', ha'⟩ := ha.within (show us.length ≤ inner by omega)
      exact ⟨_, .call hn ha'⟩
  · exact h
  · intro levels hl
    have hpos : 0 < ts.length := by
      obtain ⟨b, hb⟩ := h ts.length (by omega)
      refine List.length_pos_iff.mpr ?_
      intro h
      subst h
      cases hb.front
    obtain ⟨inner, rfl⟩ : ∃ inner, levels = inner + 1 := ⟨levels - 1, by omega⟩
    obtain ⟨b, hb⟩ := h inner hl
    exact ⟨_, Statement.spelling_block_iff.mpr hb⟩

/-! ## Declarations -/

theorem spelled_names {ts : List Token}
    (h : (Phrase.identifier.list ",").Means Spelled ts) :
    ∃ names, Separated (.symbol ",") Identifier.Spelling names ts := by
  refine h.separated fun us _ h => ?_
  obtain ⟨t, rfl, ht⟩ := Phrase.means_token.mp h
  exact ⟨t.toIdentifier, .mk ht⟩

theorem closed_varGroup {ts : List Token} (h : (rule varGroup).Means Spelled ts) :
    varGroup.Spelled ts := by
  intro levels hl
  obtain h | h := h
  · obtain ⟨name, _, rfl, hn, h⟩ := Phrase.means_cons.mp h
    obtain ⟨colon, _, rfl, hc, h⟩ := Phrase.means_cons.mp h
    obtain ⟨typeName, _, rfl, ht, us, _, rfl, hinit, h⟩ := Phrase.means_cons.mp h
    obtain ⟨semicolon, rfl, hs⟩ := Phrase.means_token.mp h
    obtain hinit | rfl := Phrase.means_optional.mp hinit
    · obtain ⟨equals, vs, rfl, heq, e, he⟩ := Phrase.means_cons.mp hinit
      simp only [List.length_cons, List.length_append] at hl
      obtain ⟨value, hvalue⟩ := he.within (show vs.length ≤ levels by omega)
      exact ⟨_, .initialized hn hc ht heq hvalue hs⟩
    · exact ⟨_, .plain (.single (.mk hn)) hc ht hs⟩
  · obtain ⟨us, _, rfl, hnames, h⟩ := h
    obtain ⟨names, hnames⟩ := spelled_names hnames
    obtain ⟨colon, _, rfl, hc, h⟩ := Phrase.means_cons.mp h
    obtain ⟨typeName, _, rfl, ht, h⟩ := Phrase.means_cons.mp h
    obtain ⟨semicolon, rfl, hs⟩ := Phrase.means_token.mp h
    exact ⟨_, .plain hnames hc ht hs⟩

theorem closed_varSection {ts : List Token} (h : (rule varSection).Means Spelled ts) :
    varSection.Spelled ts := by
  obtain ⟨keyword, us, rfl, hk, hgroups⟩ := Phrase.means_cons.mp h
  intro levels hl
  rw [List.length_cons] at hl
  obtain ⟨groups, hne, hs⟩ := hgroups.someSequence fun vs hvs h => h levels (by omega)
  exact ⟨_, .present hk hne hs⟩

theorem closed_constSection {ts : List Token} (h : (rule constSection).Means Spelled ts) :
    constSection.Spelled ts := by
  obtain ⟨keyword, us, rfl, hk, hdecls⟩ := Phrase.means_cons.mp h
  intro levels hl
  rw [List.length_cons] at hl
  have hdecl : ∀ vs, vs.length ≤ us.length →
      (concat [Phrase.identifier, Phrase.symbol "=", nonterminal expression,
        Phrase.symbol ";"]).Means Spelled vs → ∃ c, ConstDecl.Spelling levels c vs := by
    intro vs hvs h
    obtain ⟨name, _, rfl, hn, h⟩ := Phrase.means_cons.mp h
    obtain ⟨equals, _, rfl, heq, ws, _, rfl, ⟨e, he⟩, h⟩ := Phrase.means_cons.mp h
    obtain ⟨semicolon, rfl, hs⟩ := Phrase.means_token.mp h
    simp only [List.length_cons, List.length_append] at hvs
    obtain ⟨value, hvalue⟩ := he.within (show ws.length ≤ levels by omega)
    exact ⟨_, .mk hn heq hvalue hs⟩
  obtain ⟨decls, hne, hs⟩ := hdecls.someSequence hdecl
  exact ⟨_, .present hk hne hs⟩

theorem closed_parameterGroup {ts : List Token} (h : (rule parameterGroup).Means Spelled ts) :
    parameterGroup.Spelled ts := by
  obtain ⟨_, _, rfl, hvar, us, _, rfl, hnames, h⟩ := h
  obtain ⟨names, hnames⟩ := spelled_names hnames
  obtain ⟨colon, _, rfl, hc, h⟩ := Phrase.means_cons.mp h
  obtain ⟨typeName, rfl, ht⟩ := Phrase.means_token.mp h
  obtain hvar | rfl := Phrase.means_optional.mp hvar
  · obtain ⟨keyword, rfl, hk⟩ := Phrase.means_token.mp hvar
    exact ⟨_, .byReference hk hnames hc ht⟩
  · exact ⟨_, .byValue hnames hc ht⟩

theorem closed_formals {ts : List Token} (h : (rule formals).Means Spelled ts) :
    formals.Spelled ts := by
  obtain h | rfl := Phrase.means_optional.mp h
  · obtain ⟨opening, _, rfl, ho, us, _, rfl, hgroups, h⟩ := Phrase.means_cons.mp h
    obtain ⟨closing, rfl, hc⟩ := Phrase.means_token.mp h
    obtain hgroups | rfl := Phrase.means_optional.mp hgroups
    · obtain ⟨groups, hs⟩ := hgroups.separated fun us _ h => h
      exact ⟨_, .given ho hs hc⟩
    · exact ⟨_, .empty ho hc⟩
  · exact ⟨_, .absent⟩

theorem spelled_varSection {ts : List Token}
    (h : (nonterminal varSection).optional.Means Spelled ts) {levels : Nat}
    (hl : ts.length ≤ levels) : ∃ vars, VarSection.Spelling levels vars ts := by
  obtain h | rfl := Phrase.means_optional.mp h
  · obtain ⟨vars, hv⟩ := h levels hl
    exact ⟨some vars, hv⟩
  · exact ⟨none, .absent⟩

theorem closed_routine {ts : List Token} (h : (rule routine).Means Spelled ts) :
    routine.Spelled ts := by
  obtain ⟨heading, _, rfl, hheading, h⟩ := h
  obtain ⟨semicolon, _, rfl, hs, vs, _, rfl, hv, ws, _, rfl, hb, h⟩ := Phrase.means_cons.mp h
  obtain ⟨last, rfl, hlast⟩ := Phrase.means_token.mp h
  intro levels hl
  simp only [List.length_cons, List.length_append] at hl
  obtain ⟨locals, hlocals⟩ := spelled_varSection hv (show vs.length ≤ levels by omega)
  obtain ⟨body, hbody⟩ := hb levels (by omega)
  obtain h | h := hheading
  · obtain ⟨keyword, _, rfl, hk, h⟩ := Phrase.means_cons.mp h
    obtain ⟨name, _, rfl, hn, us, _, rfl, ⟨parameters, hp⟩, h⟩ := Phrase.means_cons.mp h
    obtain ⟨colon, _, rfl, hc, h⟩ := Phrase.means_cons.mp h
    obtain ⟨typeName, rfl, ht⟩ := Phrase.means_token.mp h
    have hk : (Routine.keyword true).admits keyword = true := hk
    have hr := Routine.Spelling.mk hk hn hp (.function hc ht) hs hlocals hbody hlast
    exact ⟨_, by simpa using hr⟩
  · obtain ⟨keyword, _, rfl, hk, h⟩ := Phrase.means_cons.mp h
    obtain ⟨name, us, rfl, hn, parameters, hp⟩ := Phrase.means_cons.mp h
    have hk : (Routine.keyword false).admits keyword = true := hk
    have hr := Routine.Spelling.mk hk hn hp .procedure hs hlocals hbody hlast
    exact ⟨_, by simpa using hr⟩

theorem closed_program {ts : List Token} (h : (rule program).Means Spelled ts) :
    program.Spelled ts := by
  obtain ⟨keyword, _, rfl, hk, h⟩ := Phrase.means_cons.mp h
  obtain ⟨name, _, rfl, hn, h⟩ := Phrase.means_cons.mp h
  obtain ⟨semicolon, _, rfl, hs, ts, _, rfl, hv, us, _, rfl, hc, vs, _, rfl, hr, ws, _, rfl, hb,
    h⟩ := Phrase.means_cons.mp h
  obtain ⟨point, rfl, hp⟩ := Phrase.means_token.mp h
  intro levels hl
  simp only [List.length_cons, List.length_append] at hl
  obtain ⟨vars, hvars⟩ := spelled_varSection hv (show ts.length ≤ levels by omega)
  obtain ⟨consts, hconsts⟩ : ∃ consts, ConstSection.Spelling levels consts us := by
    obtain h | rfl := Phrase.means_optional.mp hc
    · obtain ⟨consts, hconsts⟩ := h levels (by omega)
      exact ⟨some consts, hconsts⟩
    · exact ⟨none, .absent⟩
  obtain ⟨routines, hroutines⟩ := hr.sequence fun rs hrs h => h levels (by omega)
  obtain ⟨body, hbody⟩ := hb levels (by omega)
  exact ⟨_, .mk hk hn hs hvars hconsts hroutines hbody hp⟩

/-- The rules are closed under the interpretation by trees. -/
theorem closed (n : Nonterminal) (ts : List Token) (h : (rule n).Means Spelled ts) :
    n.Spelled ts := by
  cases n with
  | program => exact closed_program h
  | varSection => exact closed_varSection h
  | varGroup => exact closed_varGroup h
  | constSection => exact closed_constSection h
  | block => exact closed_block h
  | statement => exact closed_statement h
  | assignment => exact closed_assignment h
  | call => exact closed_call h
  | conditional => exact closed_conditional h
  | whileLoop => exact closed_whileLoop h
  | forLoop => exact closed_forLoop h
  | routine => exact closed_routine h
  | formals => exact closed_formals h
  | parameterGroup => exact closed_parameterGroup h
  | expression => exact closed_operand (show 0 ≤ 2 by omega) h
  | additive => exact closed_operand (show 1 ≤ 2 by omega) h
  | term => exact closed_operand (show 2 ≤ 2 by omega) h
  | unary => exact closed_unary h
  | primary => exact closed_primary h

theorem Derives.spelled {n : Nonterminal} {ts : List Token} (h : n.Derives ts) : n.Spelled ts :=
  h.means closed

end Nonterminal
end PascalSyntax
