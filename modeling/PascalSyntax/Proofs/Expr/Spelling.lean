import PascalSyntax.Expr.Parser
import PascalSyntax.Proofs.Parser.Loops

/-!
# Spellings of expressions

A spelling of an expression is a list of tokens that the expression stands for,
with the origins that its nodes keep.  Parentheses may be added around any
operand, and have to stand around an operand that binds less than its place
requires.

The binding strength of a place is a number: at a place of strength `k` an
operator of a level below `k` needs parentheses.  The number of levels is the
nesting that is allowed inside the expression.
-/

namespace PascalSyntax

namespace BinaryOperator

/-- The level of an operator: 0 is the relational, 2 the multiplicative. -/
def level (op : BinaryOperator) : Nat :=
  if op ∈ relational then 0 else if op ∈ additive then 1 else 2

theorem level_le_two (op : BinaryOperator) : op.level ≤ 2 := by
  cases op <;> decide

/-- The operators of a level. -/
def atLevel : Nat → List BinaryOperator
  | 0 => relational
  | 1 => additive
  | _ => multiplicative

theorem mem_atLevel_iff {op : BinaryOperator} {j : Nat} (hj : j ≤ 2) :
    op ∈ atLevel j ↔ op.level = j := by
  obtain rfl | rfl | rfl : j = 0 ∨ j = 1 ∨ j = 2 := by omega
  all_goals cases op <;> decide

theorem terminal_inj {op op' : BinaryOperator} (h : op.terminal = op'.terminal) : op = op' := by
  cases op <;> cases op' <;> simp [terminal, isWord, text] at h ⊢

end BinaryOperator

theorem UnaryOperator.terminal_inj {op op' : UnaryOperator} (h : op.terminal = op'.terminal) :
    op = op' := by
  cases op <;> cases op' <;> simp [terminal, isWord, text] at h ⊢

/-- The tokens spell the expression at a place of the given strength, with at
most the given number of levels of nesting inside. -/
inductive Expr.Spelling : Nat → Nat → Expr → List Token → Prop
  | identifier {levels k : Nat} {t : Token} : Terminal.identifier.admits t →
      Spelling levels k (.identifier t.toIdentifier) [t]
  | integer {levels k : Nat} {t : Token} {value : Int} : Terminal.number.admits t →
      Numeral.signed? t.text.toList = some value →
      Spelling levels k (.integer ⟨value, t.origin⟩) [t]
  | string {levels k : Nat} {t : Token} : Terminal.string.admits t →
      Spelling levels k (.string ⟨t.unquoted, t.origin⟩) [t]
  | emptyCall {levels k : Nat} {name opening closing : Token} :
      Terminal.identifier.admits name → (Terminal.symbol "(").admits opening →
      (Terminal.symbol ")").admits closing →
      Spelling levels k (.call ⟨name.toIdentifier, [], name.origin⟩) [name, opening, closing]
  | call {levels k : Nat} {name opening closing : Token} {pieces : List (Expr × List Token)}
      {ts : List Token} :
      Terminal.identifier.admits name → (Terminal.symbol "(").admits opening →
      (∀ piece ∈ pieces, Spelling levels 0 piece.1 piece.2) →
      Separated (.symbol ",") Eq (pieces.map (·.2)) ts →
      (Terminal.symbol ")").admits closing →
      Spelling (levels + 1) k
        (.call ⟨name.toIdentifier, pieces.map (.ofValue ·.1), name.origin⟩)
        (name :: opening :: (ts ++ [closing]))
  | parenthesized {levels k : Nat} {opening closing : Token} {e : Expr} {ts : List Token} :
      (Terminal.symbol "(").admits opening → Spelling levels 0 e ts →
      (Terminal.symbol ")").admits closing →
      Spelling (levels + 1) k e (opening :: (ts ++ [closing]))
  | unary {levels k : Nat} {op : UnaryOperator} {t : Token} {e : Expr} {ts : List Token} :
      op.terminal.admits t → Spelling levels 3 e ts →
      Spelling (levels + 1) k (.unary op e t.origin) (t :: ts)
  | binary {levels k : Nat} {op : BinaryOperator} {t : Token} {left right : Expr}
      {us vs : List Token} :
      k ≤ op.level → Spelling levels op.level left us → op.terminal.admits t →
      Spelling levels (op.level + 1) right vs →
      Spelling levels k (.binary op left right t.origin) (us ++ t :: vs)

namespace Expr.Spelling

/-- A spelling fits any place, unless it is an operation without parentheses. -/
theorem any_or_binary {levels k : Nat} {e : Expr} {ts : List Token}
    (h : Spelling levels k e ts) :
    (∀ j, Spelling levels j e ts) ∨
      ∃ op t left right us vs, k ≤ op.level ∧ e = .binary op left right t.origin ∧
        ts = us ++ t :: vs ∧ Spelling levels op.level left us ∧ op.terminal.admits t = true ∧
        Spelling levels (op.level + 1) right vs := by
  cases h with
  | identifier ht => exact .inl fun _ => .identifier ht
  | integer ht hv => exact .inl fun _ => .integer ht hv
  | string ht => exact .inl fun _ => .string ht
  | emptyCall hn ho hc => exact .inl fun _ => .emptyCall hn ho hc
  | call hn ho hp hs hc => exact .inl fun _ => .call hn ho hp hs hc
  | parenthesized ho he hc => exact .inl fun _ => .parenthesized ho he hc
  | unary ht he => exact .inl fun _ => .unary ht he
  | binary hk hl ht hr => exact .inr ⟨_, _, _, _, _, _, hk, rfl, rfl, hl, ht, hr⟩

/-- A place that requires less accepts more. -/
theorem weaken {levels j k : Nat} {e : Expr} {ts : List Token} (h : Spelling levels k e ts)
    (hj : j ≤ k) : Spelling levels j e ts := by
  obtain h | ⟨op, t, left, right, us, vs, hk, rfl, rfl, hl, ht, hr⟩ := h.any_or_binary
  · exact h j
  · exact .binary (Nat.le_trans hj hk) hl ht hr

/-- More levels of nesting allow more. -/
theorem mono {levels k : Nat} {e : Expr} {ts : List Token} (h : Spelling levels k e ts) :
    ∀ {levels' : Nat}, levels ≤ levels' → Spelling levels' k e ts := by
  induction h with
  | identifier ht => exact fun _ => .identifier ht
  | integer ht hv => exact fun _ => .integer ht hv
  | string ht => exact fun _ => .string ht
  | emptyCall hn ho hc => exact fun _ => .emptyCall hn ho hc
  | call hn ho _ hs hc ih =>
    intro levels' hl
    obtain ⟨n, rfl⟩ : ∃ n, levels' = n + 1 := ⟨levels' - 1, by omega⟩
    exact .call hn ho (fun piece hp => ih piece hp (by omega)) hs hc
  | parenthesized ho _ hc ih =>
    intro levels' hl
    obtain ⟨n, rfl⟩ : ∃ n, levels' = n + 1 := ⟨levels' - 1, by omega⟩
    exact .parenthesized ho (ih (by omega)) hc
  | unary ht _ ih =>
    intro levels' hl
    obtain ⟨n, rfl⟩ : ∃ n, levels' = n + 1 := ⟨levels' - 1, by omega⟩
    exact .unary ht (ih (by omega))
  | binary hk _ ht _ ihl ihr => exact fun hl => .binary hk (ihl hl) ht (ihr hl)

/-- A call with some arguments, each spelled on its own. -/
theorem ofArguments {levels k : Nat} {name opening closing : Token} {values : List Expr}
    {ts : List Token} (hn : Terminal.identifier.admits name)
    (ho : (Terminal.symbol "(").admits opening)
    (hs : Separated (.symbol ",") (Spelling levels 0) values ts)
    (hc : (Terminal.symbol ")").admits closing) :
    Spelling (levels + 1) k (.call ⟨name.toIdentifier, values.map .ofValue, name.origin⟩)
      (name :: opening :: (ts ++ [closing])) := by
  obtain ⟨pieces, rfl, hp, hs⟩ := separated_iff_pieces.mp hs
  rw [List.map_map]
  exact .call hn ho hp hs hc

end Expr.Spelling
end PascalSyntax
