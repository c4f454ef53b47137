import PascalSyntax.Proofs.Expr.Spelling

/-!
# What is read as an expression

The readers of expressions read just the spellings: whatever is read is spelled
by the tokens that were consumed (`expression_readsOnly`), and each spelling is
read in full unless the next token would go on with it (`expression_readsAll`).
Both hold for every number of levels of nesting.
-/

namespace PascalSyntax

namespace Expr

/-- The spellings of an expression that takes one of the levels allowed. -/
def Within : Nat → Expr → List Token → Prop
  | 0, _, _ => False
  | levels + 1, e, ts => Spelling levels 0 e ts

/-- The spellings of an operand that takes one of the levels allowed. -/
def OperandWithin : Nat → Expr → List Token → Prop
  | 0, _, _ => False
  | levels + 1, e, ts => Spelling levels 3 e ts

/-- An expression at a place of strength `k` ends before this terminal: neither
the arguments of a call nor an operator of level `k` or more follows. -/
def Stops (k : Nat) (next : Option Terminal) : Prop :=
  next ≠ some (.symbol "(") ∧ ∀ op : BinaryOperator, k ≤ op.level → next ≠ some op.terminal

theorem Stops.mono {j k : Nat} {next : Option Terminal} (h : Stops j next) (hk : j ≤ k) :
    Stops k next :=
  ⟨h.1, fun op hop => h.2 op (Nat.le_trans hk hop)⟩

/-- The terminals that an expression may start with. -/
def starters : List Terminal :=
  [.identifier, .number, .string, .symbol "(", .symbol "-", .word "not"]

theorem Spelling.front {levels k : Nat} {e : Expr} {ts : List Token}
    (h : Spelling levels k e ts) : ∃ a ∈ starters, Token.front? ts = some a := by
  induction h with
  | identifier ht => exact ⟨_, by decide, Terminal.admits_iff.mp ht⟩
  | integer ht _ => exact ⟨_, by decide, Terminal.admits_iff.mp ht⟩
  | string ht => exact ⟨_, by decide, Terminal.admits_iff.mp ht⟩
  | emptyCall hn _ _ => exact ⟨_, by decide, Terminal.admits_iff.mp hn⟩
  | call hn _ _ _ _ _ => exact ⟨_, by decide, Terminal.admits_iff.mp hn⟩
  | parenthesized ho _ _ _ => exact ⟨_, by decide, Terminal.admits_iff.mp ho⟩
  | @unary _ _ op _ _ _ ht _ _ =>
    refine ⟨op.terminal, ?_, Terminal.admits_iff.mp ht⟩
    cases op <;> decide
  | binary _ _ _ _ ihl _ =>
    obtain ⟨a, ha, hfront⟩ := ihl
    exact ⟨a, ha, Token.front?_append hfront⟩

theorem Spelling.ne_nil {levels k : Nat} {e : Expr} {ts : List Token}
    (h : Spelling levels k e ts) : ts ≠ [] := by
  obtain ⟨a, -, hfront⟩ := h.front
  exact Token.ne_nil_of_front hfront

theorem Within.front {levels : Nat} {e : Expr} {ts : List Token} (h : Within levels e ts) :
    ∃ a ∈ starters, Token.front? ts = some a := by
  cases levels with
  | zero => exact h.elim
  | succ levels => exact Spelling.front h

/-- The terminals that stand after an expression in the grammar. -/
def closers : List Terminal :=
  [.symbol ";", .symbol ",", .symbol ")", .word "then", .word "do", .word "to", .word "downto",
    .word "else", .word "end"]

theorem stops_of_mem_closers {k : Nat} : ∀ a ∈ closers, Stops k (some a) := by
  intro a ha
  refine ⟨?_, fun op _ => ?_⟩
  · revert a
    decide
  · revert a
    cases op <;> decide

/-- An operator of a level ends an operand of any higher level. -/
theorem stops_terminal (op : BinaryOperator) : Stops (op.level + 1) (some op.terminal) := by
  refine ⟨?_, fun op' hop he => ?_⟩
  · cases op <;> decide
  · obtain rfl := BinaryOperator.terminal_inj (Option.some.inj he)
    omega

end Expr

/-- The spellings of the arguments of a call, from the opening parenthesis to
the closing one. -/
inductive Call.Arguments (spells : Expr → List Token → Prop) : List Argument → List Token → Prop
  | empty {opening closing : Token} : (Terminal.symbol "(").admits opening →
      (Terminal.symbol ")").admits closing → Arguments spells [] [opening, closing]
  | given {opening closing : Token} {values : List Expr} {ts : List Token} :
      (Terminal.symbol "(").admits opening → Separated (.symbol ",") spells values ts →
      (Terminal.symbol ")").admits closing →
      Arguments spells (values.map .ofValue) (opening :: (ts ++ [closing]))

theorem Call.Arguments.spelling {levels k : Nat} {name : Token} {args : List Argument}
    {ts : List Token} (h : Call.Arguments (Expr.Within levels) args ts)
    (hn : Terminal.identifier.admits name) :
    Expr.Spelling levels k (.call ⟨name.toIdentifier, args, name.origin⟩) (name :: ts) := by
  cases h with
  | empty ho hc => exact .emptyCall hn ho hc
  | given ho hs hc =>
    cases levels with
    | zero =>
      obtain ⟨x, -, hx⟩ : ∃ x ∈ [], Token.front? _ = some x := hs.front fun _ _ h => h.elim
      contradiction
    | succ levels => exact .ofArguments hn ho hs hc

namespace Parser

open PascalSyntax.Expr (Spelling Within OperandWithin Stops)

/-- An expression is read in full before a terminal that closes it. -/
theorem reads_expression_before {expression : Parser Cursor Expr} {levels : Nat}
    (hall : expression.ReadsAll (Within levels) (Stops 0)) {e : Expr} {ts : List Token}
    (he : Within levels e ts) {a : Terminal} {t : Token} (ht : a.admits t = true)
    (ha : a ∈ Expr.closers) (rest : List Token) :
    expression.Reads (ts ++ t :: rest) e (t :: rest) := by
  refine hall _ _ _ he ?_
  rw [Terminal.front?_of_admits ht]
  exact Expr.stops_of_mem_closers _ ha

theorem reads_identifier_iff {us rest : List Token} {x : Identifier} :
    identifier.Reads us x rest ↔
      ∃ t, x = t.toIdentifier ∧ us = t :: rest ∧ Terminal.identifier.admits t = true := by
  simp [identifier]

theorem reads_integer_iff {t : Token} {us rest : List Token} {literal : IntegerLiteral} :
    (integer t).Reads us literal rest ↔
      ∃ value, Numeral.signed? t.text.toList = some value ∧ literal = ⟨value, t.origin⟩ ∧
        rest = us.tail := by
  rw [Reads, integer]
  cases h : Numeral.signed? t.text.toList with
  | none => simp
  | some value =>
    rw [Cursor.advance_before]
    simp [eq_comm]

section Over

variable {expression operand : Parser Cursor Expr} {spells : Expr → List Token → Prop}
  {levels : Nat}

/-- Arguments are read just where an opening parenthesis follows the name. -/
theorem reads_callOf_iff {routine : Identifier} {us rest : List Token} {c : Call} :
    (callOf expression routine).Reads us c rest ↔
      (Token.front? us ≠ some (.symbol "(") ∧ c = ⟨routine, [], routine.origin⟩ ∧ rest = us) ∨
        ∃ opening mid args, us = opening :: mid ∧ (Terminal.symbol "(").admits opening = true ∧
          c = ⟨routine, args, routine.origin⟩ ∧ (arguments expression).Reads mid args rest := by
  rw [callOf, reads_bind_iff]
  constructor
  · intro h
    rcases h with ⟨o, mid, ho, h⟩
    cases o with
    | none =>
      obtain ⟨hfront, rfl⟩ := reads_take?_none_iff.mp ho
      exact .inl ⟨hfront, reads_pure_iff.mp h⟩
    | some opening =>
      obtain ⟨rfl, hopen⟩ := reads_take?_some_iff.mp ho
      simp only [bind_pure_comp, reads_map_iff] at h
      obtain ⟨args, rfl, h⟩ := h
      exact .inr ⟨opening, mid, args, rfl, hopen, rfl, h⟩
  · intro h
    rcases h with ⟨hfront, rfl, rfl⟩ | ⟨opening, mid, args, rfl, hopen, rfl, h⟩
    · exact ⟨none, rest, reads_take?_none_iff.mpr ⟨hfront, rfl⟩, reads_pure_iff.mpr ⟨rfl, rfl⟩⟩
    · refine ⟨some opening, mid, reads_take?_some_iff.mpr ⟨rfl, hopen⟩, ?_⟩
      simp only [bind_pure_comp, reads_map_iff]
      exact ⟨args, rfl, h⟩

theorem arguments_readsOnly (he : expression.ReadsOnly spells) {opening : Token}
    (hopen : (Terminal.symbol "(").admits opening) {us rest : List Token} {args : List Argument}
    (h : (arguments expression).Reads us args rest) :
    ∃ ts, opening :: us = ts ++ rest ∧ Call.Arguments spells args ts := by
  rw [arguments, reads_bind_iff] at h
  obtain ⟨o, mid, hc, h⟩ := h
  cases o with
  | some closing =>
    obtain ⟨rfl, hclose⟩ := reads_take?_some_iff.mp hc
    obtain ⟨rfl, rfl⟩ := reads_pure_iff.mp h
    exact ⟨[opening, closing], rfl, .empty hopen hclose⟩
  | none =>
    obtain ⟨-, rfl⟩ := reads_take?_none_iff.mp hc
    rw [reads_bind_iff] at h
    obtain ⟨values, last, hvalues, h⟩ := h
    obtain ⟨ts, rfl, hs⟩ := he.separated _ _ _ _ hvalues
    simp only [bind_pure_comp, reads_map_iff, reads_symbol_iff] at h
    obtain ⟨closing, rfl, rfl, hclose⟩ := h
    exact ⟨opening :: (ts ++ [closing]), by simp, .given hopen hs hclose⟩

theorem arguments_readsAll (only : expression.ReadsOnly spells)
    (all : expression.ReadsAll spells (Stops 0))
    (front : ∀ e ts, spells e ts → ∃ a ∈ Expr.starters, Token.front? ts = some a)
    {args : List Argument} {ts : List Token} (h : Call.Arguments spells args ts)
    (rest : List Token) :
    ∃ opening mid, ts ++ rest = opening :: mid ∧ (Terminal.symbol "(").admits opening = true ∧
      (arguments expression).Reads mid args rest := by
  cases h with
  | @empty opening closing ho hc =>
    refine ⟨opening, closing :: rest, rfl, ho, ?_⟩
    rw [arguments, reads_bind_iff]
    exact ⟨some closing, rest, reads_take?_some_iff.mpr ⟨rfl, hc⟩, reads_pure_iff.mpr ⟨rfl, rfl⟩⟩
  | @given opening closing values ts ho hs hc =>
    have hclosing : Token.front? (closing :: rest) = some (.symbol ")") :=
      Terminal.front?_of_admits hc rest
    have hnone : Token.front? (ts ++ closing :: rest) ≠ some (.symbol ")") := by
      obtain ⟨a, ha, hfront⟩ := hs.front front
      rw [Token.front?_append hfront]
      intro h
      cases h
      revert ha
      decide
    have hvalues : (separated (.symbol ",") expression).Reads (ts ++ closing :: rest) values
        (closing :: rest) := by
      refine all.separated only (Expr.stops_of_mem_closers _ (by decide)) _ _ _ hs ?_
      rw [hclosing]
      exact ⟨Expr.stops_of_mem_closers _ (by decide), by decide⟩
    refine ⟨opening, ts ++ closing :: rest, by simp, ho, ?_⟩
    rw [arguments, reads_bind_iff]
    refine ⟨none, ts ++ closing :: rest, reads_take?_none_iff.mpr ⟨hnone, rfl⟩, ?_⟩
    refine reads_bind_iff.mpr ⟨values, closing :: rest, hvalues, ?_⟩
    simp only [bind_pure_comp, reads_map_iff, reads_symbol_iff]
    exact ⟨closing, trivial, rfl, hc⟩

def parenthesized (expression : Parser Cursor Expr) : Parser Cursor Expr := do
  match ← take? (.symbol "(") with
  | some _ =>
    let inner ← expression
    let _ ← symbol ")" "to close parenthesized expression"
    return inner
  | none => fail .expression

theorem reads_parenthesized_iff {us rest : List Token} {e : Expr} :
    (parenthesized expression).Reads us e rest ↔
      ∃ opening closing mid, us = opening :: mid ∧ (Terminal.symbol "(").admits opening = true ∧
        expression.Reads mid e (closing :: rest) ∧ (Terminal.symbol ")").admits closing = true := by
  rw [parenthesized, reads_bind_iff]
  constructor
  · intro h
    rcases h with ⟨o, mid, ho, h⟩
    cases o with
    | none => simp at h
    | some opening =>
      obtain ⟨rfl, hopen⟩ := reads_take?_some_iff.mp ho
      rw [reads_bind_iff] at h
      obtain ⟨inner, last, he, h⟩ := h
      simp only [bind_pure_comp, reads_map_iff, reads_symbol_iff] at h
      obtain ⟨closing, rfl, rfl, hclose⟩ := h
      exact ⟨opening, closing, mid, rfl, hopen, he, hclose⟩
  · intro h
    rcases h with ⟨opening, closing, mid, rfl, hopen, he, hclose⟩
    refine ⟨some opening, mid, reads_take?_some_iff.mpr ⟨rfl, hopen⟩, ?_⟩
    refine reads_bind_iff.mpr ⟨e, closing :: rest, he, ?_⟩
    simp only [bind_pure_comp, reads_map_iff, reads_symbol_iff]
    exact ⟨closing, trivial, rfl, hclose⟩

def nameOrCall (expression : Parser Cursor Expr) : Parser Cursor Expr := do
  let name ← identifier
  if ← sees (.symbol "(") then
    return .call (← callOf expression name)
  else
    return .identifier name

theorem reads_nameOrCall_iff {us rest : List Token} {e : Expr} :
    (nameOrCall expression).Reads us e rest ↔
      ∃ t mid, us = t :: mid ∧ Terminal.identifier.admits t = true ∧
        if Token.front? mid = some (.symbol "(") then
          ∃ c, e = .call c ∧ (callOf expression t.toIdentifier).Reads mid c rest
        else
          e = .identifier t.toIdentifier ∧ rest = mid := by
  have hrest : ∀ (x : Identifier) (mid : List Token),
      (do if ← sees (.symbol "(") then return .call (← callOf expression x)
          else return .identifier x : Parser Cursor Expr).Reads mid e rest ↔
        if Token.front? mid = some (.symbol "(") then
          ∃ c, e = .call c ∧ (callOf expression x).Reads mid c rest
        else
          e = .identifier x ∧ rest = mid := by
    intro x mid
    rw [reads_bind_iff]
    by_cases hfront : Token.front? mid = some (.symbol "(") <;> simp [hfront]
  rw [nameOrCall, reads_bind_iff]
  constructor
  · intro h
    rcases h with ⟨x, mid, hx, h⟩
    obtain ⟨t, rfl, rfl, ht⟩ := reads_identifier_iff.mp hx
    exact ⟨t, mid, rfl, ht, (hrest _ _).mp h⟩
  · intro h
    rcases h with ⟨t, mid, rfl, ht, h⟩
    exact ⟨t.toIdentifier, mid, reads_identifier_iff.mpr ⟨t, rfl, rfl, ht⟩, (hrest _ _).mpr h⟩

/-- The kind of its first token decides what an operand is. -/
theorem reads_primaryOver_cons_iff {t : Token} {us rest : List Token} {e : Expr} :
    (primaryOver expression).Reads (t :: us) e rest ↔
      match t.kind with
      | .number => ∃ value, Numeral.signed? t.text.toList = some value ∧
          e = .integer ⟨value, t.origin⟩ ∧ rest = us
      | .string => e = .string ⟨t.unquoted, t.origin⟩ ∧ rest = us
      | .identifier => (nameOrCall expression).Reads (t :: us) e rest
      | _ => (parenthesized expression).Reads (t :: us) e rest := by
  have hstring : t.kind = .string → Terminal.string.admits t = true := by
    intro h
    simp [Terminal.admits, h]
  rw [primaryOver, reads_bind_iff]
  simp only [reads_peek?_iff, List.head?_cons]
  constructor
  · intro h
    rcases h with ⟨o, mid, ⟨rfl, rfl⟩, h⟩
    cases hk : t.kind <;> simp only [hk] at h ⊢
    case number =>
      simp only [bind_pure_comp, reads_map_iff, reads_integer_iff] at h
      obtain ⟨literal, rfl, value, hv, rfl, rfl⟩ := h
      exact ⟨value, hv, rfl, rfl⟩
    case string =>
      simp only [bind_pure_comp, reads_map_iff, reads_take_iff] at h
      obtain ⟨t', rfl, he, -⟩ := h
      cases he
      exact ⟨rfl, rfl⟩
    all_goals exact h
  · intro h
    refine ⟨some t, t :: us, ⟨rfl, rfl⟩, ?_⟩
    cases hk : t.kind <;> simp only [hk] at h ⊢
    case number =>
      obtain ⟨value, hv, rfl, rfl⟩ := h
      simp only [bind_pure_comp, reads_map_iff, reads_integer_iff]
      exact ⟨_, rfl, value, hv, rfl, rfl⟩
    case string =>
      obtain ⟨rfl, rfl⟩ := h
      simp only [bind_pure_comp, reads_map_iff, reads_take_iff]
      exact ⟨t, rfl, rfl, hstring hk⟩
    all_goals exact h

theorem not_reads_primaryOver_nil {e : Expr} {rest : List Token} :
    ¬ (primaryOver expression).Reads [] e rest := by
  rw [primaryOver, reads_bind_iff]
  intro h
  rcases h with ⟨o, mid, ho, h⟩
  obtain ⟨rfl, rfl⟩ := reads_peek?_iff.mp ho
  simp at h

theorem parenthesized_readsOnly (he : expression.ReadsOnly (Within levels)) :
    (parenthesized expression).ReadsOnly (Spelling levels 3) := by
  intro us e rest h
  obtain ⟨opening, closing, mid, rfl, hopen, hread, hclose⟩ := reads_parenthesized_iff.mp h
  obtain ⟨ts, rfl, hts⟩ := he _ _ _ hread
  cases levels with
  | zero => exact hts.elim
  | succ levels =>
    exact ⟨opening :: (ts ++ [closing]), by simp, .parenthesized hopen hts hclose⟩

theorem nameOrCall_readsOnly (he : expression.ReadsOnly (Within levels)) :
    (nameOrCall expression).ReadsOnly (Spelling levels 3) := by
  intro us e rest h
  obtain ⟨t, mid, rfl, ht, h⟩ := reads_nameOrCall_iff.mp h
  by_cases hfront : Token.front? mid = some (.symbol "(")
  · rw [if_pos hfront] at h
    obtain ⟨c, rfl, hc⟩ := h
    obtain ⟨hn, -⟩ | ⟨opening, mid, args, rfl, hopen, rfl, hargs⟩ := reads_callOf_iff.mp hc
    · exact absurd hfront hn
    · obtain ⟨ts, hts, hs⟩ := arguments_readsOnly he hopen hargs
      rw [hts]
      exact ⟨t :: ts, rfl, hs.spelling ht⟩
  · rw [if_neg hfront] at h
    obtain ⟨rfl, rfl⟩ := h
    exact ⟨[t], rfl, .identifier ht⟩

theorem primaryOver_readsOnly (he : expression.ReadsOnly (Within levels)) :
    (primaryOver expression).ReadsOnly (Spelling levels 3) := by
  intro us e rest h
  cases us with
  | nil => exact (not_reads_primaryOver_nil h).elim
  | cons t us =>
    rw [reads_primaryOver_cons_iff] at h
    cases hk : t.kind <;> simp only [hk] at h
    case number =>
      obtain ⟨value, hv, rfl, rfl⟩ := h
      exact ⟨[t], rfl, .integer (by simp [Terminal.admits, hk]) hv⟩
    case string =>
      obtain ⟨rfl, rfl⟩ := h
      exact ⟨[t], rfl, .string (by simp [Terminal.admits, hk])⟩
    case identifier => exact nameOrCall_readsOnly he _ _ _ h
    all_goals exact parenthesized_readsOnly he _ _ _ h

theorem unaryOver_readsOnly (ho : operand.ReadsOnly (OperandWithin levels))
    (he : expression.ReadsOnly (Within levels)) :
    (unaryOver operand expression).ReadsOnly (Spelling levels 3) := by
  intro us e rest h
  rw [unaryOver, reads_bind_iff] at h
  obtain ⟨o, mid, hop, h⟩ := h
  cases o with
  | some read =>
    obtain ⟨op, t⟩ := read
    obtain ⟨rfl, -, ht⟩ := (reads_takeFirst?_some_iff fun _ _ => UnaryOperator.terminal_inj).mp hop
    simp only [bind_pure_comp, reads_map_iff] at h
    obtain ⟨e, rfl, h⟩ := h
    obtain ⟨ts, rfl, he⟩ := ho _ _ _ h
    cases levels with
    | zero => exact he.elim
    | succ levels => exact ⟨t :: ts, rfl, .unary ht he⟩
  | none =>
    obtain ⟨-, rfl⟩ := reads_takeFirst?_none_iff.mp hop
    exact primaryOver_readsOnly he _ _ _ h

theorem reads_unaryOver_of_primaryOver {us rest : List Token} {e : Expr}
    (hfront : ∀ op : UnaryOperator, Token.front? us ≠ some op.terminal)
    (h : (primaryOver expression).Reads us e rest) :
    (unaryOver operand expression).Reads us e rest := by
  rw [unaryOver, reads_bind_iff]
  exact ⟨none, us, reads_takeFirst?_none_iff.mpr ⟨fun op _ => hfront op, rfl⟩, h⟩

theorem reads_unaryOver_of_operator {us rest : List Token} {e : Expr} {op : UnaryOperator}
    {t : Token} (ht : op.terminal.admits t) (h : operand.Reads us e rest) :
    (unaryOver operand expression).Reads (t :: us) (.unary op e t.origin) rest := by
  have hop : op ∈ UnaryOperator.all := by
    cases op <;> decide
  rw [unaryOver, reads_bind_iff]
  refine ⟨some (op, t), us, ?_, ?_⟩
  · exact (reads_takeFirst?_some_iff fun _ _ => UnaryOperator.terminal_inj).mpr ⟨rfl, hop, ht⟩
  · simp only [bind_pure_comp, reads_map_iff]
    exact ⟨e, rfl, h⟩

theorem nameOrCall_readsAll (only : expression.ReadsOnly (Within levels))
    (all : expression.ReadsAll (Within levels) (Stops 0)) {name : Token}
    (hn : Terminal.identifier.admits name) {args : List Argument} {ts : List Token}
    (h : Call.Arguments (Within levels) args ts) (rest : List Token) :
    (nameOrCall expression).Reads (name :: (ts ++ rest))
      (.call ⟨name.toIdentifier, args, name.origin⟩) rest := by
  obtain ⟨opening, mid, hts, ho, hargs⟩ :=
    arguments_readsAll only all (fun _ _ h => Within.front h) h rest
  have hfront : Token.front? (opening :: mid) = some (.symbol "(") := Terminal.admits_iff.mp ho
  rw [hts]
  refine reads_nameOrCall_iff.mpr ⟨name, opening :: mid, rfl, hn, ?_⟩
  rw [if_pos hfront]
  exact ⟨_, rfl, reads_callOf_iff.mpr (.inr ⟨opening, mid, args, rfl, ho, rfl, hargs⟩)⟩

theorem unaryOver_readsAll (oall : operand.ReadsAll (OperandWithin levels) (Stops 3))
    (only : expression.ReadsOnly (Within levels))
    (all : expression.ReadsAll (Within levels) (Stops 0)) :
    (unaryOver operand expression).ReadsAll (Spelling levels 3) (Stops 3) := by
  intro e ts rest h hrest
  -- Every form but the unary begins with a terminal that is no unary operator.
  have hprimary : ∀ {a : Terminal} {us : List Token}, a ∈ [.identifier, .number, .string,
      .symbol "("] → Token.front? us = some a → (primaryOver expression).Reads us e rest →
      (unaryOver operand expression).Reads us e rest := by
    intro a us ha hfront
    refine reads_unaryOver_of_primaryOver fun op he => ?_
    rw [hfront] at he
    cases he
    revert ha
    cases op <;> decide
  cases h with
  | @identifier _ _ t ht =>
    refine hprimary (by decide) (Terminal.admits_iff.mp ht) (reads_primaryOver_cons_iff.mpr ?_)
    rw [Terminal.identifier_admits_iff.mp ht]
    refine reads_nameOrCall_iff.mpr ⟨t, rest, rfl, ht, ?_⟩
    rw [if_neg hrest.1]
    exact ⟨rfl, rfl⟩
  | @integer _ _ t value ht hv =>
    have hk : t.kind = .number := by simpa [Terminal.admits] using ht
    refine hprimary (by decide) (Terminal.admits_iff.mp ht) (reads_primaryOver_cons_iff.mpr ?_)
    rw [hk]
    exact ⟨value, hv, rfl, rfl⟩
  | @string _ _ t ht =>
    have hk : t.kind = .string := by simpa [Terminal.admits] using ht
    refine hprimary (by decide) (Terminal.admits_iff.mp ht) (reads_primaryOver_cons_iff.mpr ?_)
    rw [hk]
    exact ⟨rfl, rfl⟩
  | @emptyCall _ _ name opening closing hn ho hc =>
    refine hprimary (by decide) (Terminal.admits_iff.mp hn) (reads_primaryOver_cons_iff.mpr ?_)
    rw [Terminal.identifier_admits_iff.mp hn]
    exact nameOrCall_readsAll only all hn (.empty ho hc) rest
  | @call levels _ name opening closing pieces ts hn ho hp hs hc =>
    have hargs : Call.Arguments (Within (levels + 1)) (pieces.map (.ofValue ·.1))
        (opening :: (ts ++ [closing])) := by
      have hvalues : Separated (.symbol ",") (Within (levels + 1)) (pieces.map (·.1)) ts :=
        separated_iff_pieces.mpr ⟨pieces, rfl, hp, hs⟩
      have := Call.Arguments.given ho hvalues hc
      rwa [List.map_map] at this
    refine hprimary (by decide) (Terminal.admits_iff.mp hn) (reads_primaryOver_cons_iff.mpr ?_)
    rw [Terminal.identifier_admits_iff.mp hn]
    exact nameOrCall_readsAll only all hn hargs rest
  | @parenthesized levels _ opening closing e ts ho he hc =>
    have hread : expression.Reads (ts ++ closing :: rest) e (closing :: rest) :=
      reads_expression_before all he hc (by decide) rest
    have hk : opening.kind = .symbol := by
      simp only [Terminal.admits, Bool.and_eq_true, decide_eq_true_eq] at ho
      exact ho.1
    refine hprimary (by decide) (Terminal.admits_iff.mp ho) ?_
    rw [List.cons_append, List.append_assoc, reads_primaryOver_cons_iff, hk]
    exact reads_parenthesized_iff.mpr ⟨opening, closing, _, rfl, ho, hread, hc⟩
  | @unary levels _ op t e ts ht he =>
    exact reads_unaryOver_of_operator ht (oall _ _ _ he hrest)
  | @binary _ _ op _ _ _ _ _ hk _ _ _ =>
    have := op.level_le_two
    omega

/-! ## The binary levels -/

/-- The spellings of an operation of level `j`. -/
def Operation (levels j : Nat) (o : BinaryOperator × Origin × Expr) (ts : List Token) : Prop :=
  ∃ t us, ts = t :: us ∧ o.1.level = j ∧ o.1.terminal.admits t = true ∧ o.2.1 = t.origin ∧
    Spelling levels (j + 1) o.2.2 us

variable {j : Nat}

theorem reads_operation_some_iff {operators : List BinaryOperator} {us rest : List Token}
    {o : BinaryOperator × Origin × Expr} :
    (operation operators operand).Reads us (some o) rest ↔
      ∃ t mid, us = t :: mid ∧ o.1 ∈ operators ∧ o.1.terminal.admits t = true ∧
        o.2.1 = t.origin ∧ operand.Reads mid o.2.2 rest := by
  obtain ⟨op, origin, right⟩ := o
  rw [operation, reads_bind_iff]
  constructor
  · intro h
    rcases h with ⟨x, mid, hx, h⟩
    cases x with
    | none => simp at h
    | some read =>
      obtain ⟨op', t⟩ := read
      obtain ⟨rfl, hop, ht⟩ :=
        (reads_takeFirst?_some_iff fun _ _ => BinaryOperator.terminal_inj).mp hx
      simp only [bind_pure_comp, reads_map_iff] at h
      obtain ⟨e, heq, h⟩ := h
      cases heq
      exact ⟨t, mid, rfl, hop, ht, rfl, h⟩
  · intro h
    rcases h with ⟨t, mid, rfl, hop, ht, rfl, h⟩
    refine ⟨some (op, t), mid, ?_, ?_⟩
    · exact (reads_takeFirst?_some_iff fun _ _ => BinaryOperator.terminal_inj).mpr ⟨rfl, hop, ht⟩
    · simp only [bind_pure_comp, reads_map_iff]
      exact ⟨right, rfl, h⟩

theorem reads_operation_none_iff {operators : List BinaryOperator} {us rest : List Token} :
    (operation operators operand).Reads us none rest ↔
      (∀ op ∈ operators, Token.front? us ≠ some op.terminal) ∧ rest = us := by
  rw [operation, reads_bind_iff]
  constructor
  · intro h
    rcases h with ⟨x, mid, hx, h⟩
    cases x with
    | none =>
      obtain ⟨hfront, rfl⟩ := reads_takeFirst?_none_iff.mp hx
      exact ⟨hfront, (reads_pure_iff.mp h).2⟩
    | some read => simp at h
  · intro h
    rcases h with ⟨hfront, rfl⟩
    exact ⟨none, rest, reads_takeFirst?_none_iff.mpr ⟨hfront, rfl⟩, reads_pure_iff.mpr ⟨rfl, rfl⟩⟩

theorem foldl_spelling {os : List (BinaryOperator × Origin × Expr)} {vs : List Token}
    (h : Sequence (Operation levels j) os vs) :
    ∀ {e : Expr} {us : List Token}, Spelling levels j e us →
      Spelling levels j (os.foldl apply e) (us ++ vs) := by
  induction h with
  | nil =>
    intro e us he
    rwa [List.append_nil]
  | @cons o os ts vs ho _ ih =>
    intro e us he
    obtain ⟨op, origin, right⟩ := o
    obtain ⟨t, ws, rfl, rfl, ht, rfl, hr⟩ := ho
    rw [← List.append_assoc]
    exact ih (.binary (Nat.le_refl _) he ht hr)

theorem binaryLevel_readsOnly (hj : j ≤ 2) (only : operand.ReadsOnly (Spelling levels (j + 1))) :
    (binaryLevel (BinaryOperator.atLevel j) operand).ReadsOnly (Spelling levels j) := by
  have hround : ∀ us o rest,
      (operation (BinaryOperator.atLevel j) operand).Reads us (some o) rest →
        ∃ ts, us = ts ++ rest ∧ Operation levels j o ts := by
    intro us o rest h
    obtain ⟨t, mid, rfl, hop, ht, ho, h⟩ := reads_operation_some_iff.mp h
    obtain ⟨ts, rfl, hts⟩ := only _ _ _ h
    exact ⟨t :: ts, rfl, t, ts, rfl, (BinaryOperator.mem_atLevel_iff hj).mp hop, ht, ho, hts⟩
  have advances : Advances (operation (BinaryOperator.atLevel j) operand) := by
    intro us o rest h
    obtain ⟨ts, rfl, t, ws, rfl, -⟩ := hround _ _ _ h
    simp only [List.length_append, List.length_cons]
    omega
  intro us e rest h
  rw [binaryLevel, reads_bind_iff] at h
  obtain ⟨first, mid, hfirst, h⟩ := h
  rw [reads_bind_iff] at h
  obtain ⟨os, last, hm, h⟩ := h
  obtain ⟨rfl, rfl⟩ := reads_pure_iff.mp h
  obtain ⟨stop, rounds, hstop⟩ := (reads_many_iff advances).mp hm
  obtain ⟨-, rfl⟩ := reads_operation_none_iff.mp hstop
  obtain ⟨ts, rfl, hts⟩ := only _ _ _ hfirst
  obtain ⟨vs, rfl, hs⟩ := rounds.sequence hround
  exact ⟨ts ++ vs, (List.append_assoc _ _ _).symm,
    foldl_spelling hs (hts.weaken (Nat.le_succ j))⟩

/-- An expression of level `j` is a first operand with operations of this level
applied to it, one after another. -/
theorem exists_operations {e : Expr} {ts : List Token} (h : Spelling levels j e ts) :
    ∃ first us os vs, ts = us ++ vs ∧ e = os.foldl apply first ∧
      Spelling levels (j + 1) first us ∧ Sequence (Operation levels j) os vs := by
  induction hn : ts.length using Nat.strongRecOn generalizing e ts with
  | ind n ih =>
    obtain h | ⟨op, t, left, right, us, vs, hk, rfl, rfl, hl, ht, hr⟩ := h.any_or_binary
    · exact ⟨e, ts, [], [], (List.append_nil _).symm, rfl, h _, .nil⟩
    · by_cases hop : op.level = j
      · have hlt : us.length < n := by
          rw [← hn, List.length_append, List.length_cons]
          omega
        rw [hop] at hl hr
        obtain ⟨first, us, os, ws, rfl, rfl, hf, hs⟩ := ih _ hlt hl rfl
        have hlast : Sequence (Operation levels j) [(op, t.origin, right)] (t :: vs) :=
          .singleton ⟨t, vs, rfl, hop, ht, rfl, hr⟩
        refine ⟨first, us, os ++ [(op, t.origin, right)], ws ++ t :: vs, ?_, ?_, hf,
          hs.append hlast⟩
        · rw [List.append_assoc]
        · rw [List.foldl_append]
          rfl
      · have hlt : j + 1 ≤ op.level := by omega
        exact ⟨_, _, [], [], (List.append_nil _).symm, rfl, .binary hlt hl ht hr, .nil⟩

theorem binaryLevel_readsAll (hj : j ≤ 2)
    (all : operand.ReadsAll (Spelling levels (j + 1)) (Stops (j + 1))) :
    (binaryLevel (BinaryOperator.atLevel j) operand).ReadsAll (Spelling levels j) (Stops j) := by
  intro e ts rest h hrest
  obtain ⟨first, us, os, vs, rfl, rfl, hf, hs⟩ := exists_operations h
  have hfront : ∀ (o : BinaryOperator × Origin × Expr) (ws ws' : List Token),
      Operation levels j o ws → Stops (j + 1) (Token.front? (ws ++ ws')) := by
    intro h ws ws' h'
    rcases h with ⟨op, origin, right⟩
    rcases h' with ⟨t, xs, rfl, rfl, ht, -⟩
    rw [List.cons_append, Terminal.front?_of_admits ht]
    exact Expr.stops_terminal op
  have hround : ∀ (o : BinaryOperator × Origin × Expr) (ws ws' : List Token),
      Operation levels j o ws → Stops (j + 1) (Token.front? ws') →
        (operation (BinaryOperator.atLevel j) operand).Reads (ws ++ ws') (some o) ws' := by
    intro h ws ws' h' hstop
    rcases h with ⟨op, origin, right⟩
    rcases h' with ⟨t, xs, rfl, hop, ht, ho, hr⟩
    exact reads_operation_some_iff.mpr ⟨t, xs ++ ws', rfl,
      (BinaryOperator.mem_atLevel_iff hj).mpr hop, ht, ho, all _ _ _ hr hstop⟩
  have hlast : (operation (BinaryOperator.atLevel j) operand).Reads rest none rest := by
    refine reads_operation_none_iff.mpr ⟨fun op hop => hrest.2 op ?_, rfl⟩
    exact Nat.le_of_eq ((BinaryOperator.mem_atLevel_iff hj).mp hop).symm
  have hstop : Stops (j + 1) (Token.front? rest) := hrest.mono (Nat.le_succ j)
  have hnext : Stops (j + 1) (Token.front? (vs ++ rest)) := by
    cases hs with
    | nil => exact hstop
    | cons ho _ =>
      rw [List.append_assoc]
      exact hfront _ _ _ ho
  have hmany : (many (operation (BinaryOperator.atLevel j) operand)).Reads (vs ++ rest) os rest :=
    reads_many_of_sequence hround hfront
      (by rintro o ws ⟨t, xs, rfl, -⟩; exact List.cons_ne_nil _ _) hs hstop hlast
  rw [binaryLevel, reads_bind_iff, List.append_assoc]
  exact ⟨first, vs ++ rest, all _ _ _ hf hnext,
    reads_bind_iff.mpr ⟨os, rest, hmany, reads_pure_iff.mpr ⟨rfl, rfl⟩⟩⟩

theorem relational_readsOnly (only : operand.ReadsOnly (Spelling levels 3)) :
    (relational operand).ReadsOnly (Spelling levels 0) :=
  binaryLevel_readsOnly (by decide) <| binaryLevel_readsOnly (by decide) <|
    binaryLevel_readsOnly (by decide) only

theorem relational_readsAll (all : operand.ReadsAll (Spelling levels 3) (Stops 3)) :
    (relational operand).ReadsAll (Spelling levels 0) (Stops 0) :=
  binaryLevel_readsAll (by decide) <| binaryLevel_readsAll (by decide) <|
    binaryLevel_readsAll (by decide) all

end Over

/-! ## The readers -/

theorem unary_readsOnly (levels : Nat) : (unary levels).ReadsOnly (Spelling levels 3) := by
  induction levels with
  | zero =>
    exact unaryOver_readsOnly (fun _ _ _ h => (not_reads_tooDeep h).elim)
      (fun _ _ _ h => (not_reads_tooDeep h).elim)
  | succ levels ih => exact unaryOver_readsOnly ih (relational_readsOnly ih)

theorem expression_readsOnly (levels : Nat) : (expression levels).ReadsOnly (Within levels) := by
  cases levels with
  | zero => exact fun _ _ _ h => (not_reads_tooDeep h).elim
  | succ levels => exact relational_readsOnly (unary_readsOnly levels)

theorem unary_readsAll (levels : Nat) : (unary levels).ReadsAll (Spelling levels 3) (Stops 3) := by
  induction levels with
  | zero =>
    exact unaryOver_readsAll (fun _ _ _ h _ => h.elim)
      (fun _ _ _ h => (not_reads_tooDeep h).elim) (fun _ _ _ h _ => h.elim)
  | succ levels ih =>
    exact unaryOver_readsAll ih (relational_readsOnly (unary_readsOnly levels))
      (relational_readsAll ih)

theorem expression_readsAll (levels : Nat) :
    (expression levels).ReadsAll (Within levels) (Stops 0) := by
  cases levels with
  | zero => exact fun _ _ _ h _ => h.elim
  | succ levels => exact relational_readsAll (unary_readsAll levels)

end Parser
end PascalSyntax
