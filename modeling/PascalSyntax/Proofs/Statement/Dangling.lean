import PascalSyntax.Proofs.Statement.Spelling

/-!
# Where an `else` goes

If a statement may be followed by an `else` and another statement in some way,
then the tokens spell a statement in which that `else` goes to the last `if`
that can take it.  For either the first statement cannot take the `else`, or it
takes it, and then the whole is one statement again (`Spelling.attach`).
-/

namespace PascalSyntax
namespace Statement

/-- The tokens spell some statement wherever enough levels are left. -/
def Spelled (ts : List Token) : Prop :=
  ∀ levels, ts.length ≤ levels → ∃ s, Spelling levels true s ts

namespace Spelling

/-- Only conditionals start with `if`. -/
theorem eq_conditional {levels : Nat} {isOpen : Bool} {s : Statement} {ts : List Token}
    (h : Spelling levels isOpen s ts) (hif : Token.front? ts = some (.word "if")) :
    ∃ branches otherwise origin, s = .conditional branches otherwise origin := by
  cases h with
  | assignment hn _ _ => exact absurd hif (Terminal.front?_ne hn (by decide) _)
  | bareCall hn => exact absurd hif (Terminal.front?_ne hn (by decide) _)
  | call hn _ => exact absurd hif (Terminal.front?_ne hn (by decide) _)
  | block ho _ _ _ _ => exact absurd hif (Terminal.front?_ne ho (by decide) _)
  | whileLoop hk _ _ _ => exact absurd hif (Terminal.front?_ne hk (by decide) _)
  | forLoop hk _ _ _ _ _ _ _ => exact absurd hif (Terminal.front?_ne hk (by decide) _)
  | ifThen => exact ⟨_, _, _, rfl⟩
  | ifElse => exact ⟨_, _, _, rfl⟩
  | elseIf => exact ⟨_, _, _, rfl⟩

/-- An `else` is taken by an `if` whose first branch cannot take it. -/
theorem withElse {levels : Nat} {keyword thens elses : Token} {condition : Expr} {s : Statement}
    {ts us vs : List Token} (hk : (Terminal.word "if").admits keyword)
    (he : Expr.Within levels condition ts) (ht : (Terminal.word "then").admits thens)
    (hs : Spelling levels false s us) (hel : (Terminal.word "else").admits elses)
    (hv : Spelled vs) (hl : vs.length ≤ levels) :
    ∃ s', Spelling (levels + 1) true s' (keyword :: (ts ++ thens :: (us ++ elses :: vs))) := by
  by_cases hif : Token.front? vs = some (.word "if")
  · obtain ⟨o, ho⟩ := hv (levels + 1) (by omega)
    obtain ⟨branches, otherwise, origin, rfl⟩ := ho.eq_conditional hif
    exact ⟨_, .elseIf hk he ht hs hel ho⟩
  · obtain ⟨o, ho⟩ := hv levels hl
    exact ⟨_, .ifElse hk he ht hs hel ho hif⟩

/-- A statement cannot take an `else`, or it takes it and stays a statement. -/
theorem attach {levels : Nat} {isOpen : Bool} {s : Statement} {ts vs : List Token} {elses : Token}
    (hel : (Terminal.word "else").admits elses) (hv : Spelled vs)
    (h : Spelling levels isOpen s ts) (hl : ts.length + vs.length < levels) :
    (∃ s', Spelling levels false s' ts) ∨ ∃ s', Spelling levels true s' (ts ++ elses :: vs) := by
  -- the last statement inside decides: it takes the `else`, or no one but an open `if` can
  induction h with
  | assignment hn hb he => exact .inl ⟨_, .assignment hn hb he⟩
  | bareCall hn => exact .inl ⟨_, .bareCall hn⟩
  | call hn ha => exact .inl ⟨_, .call hn ha⟩
  | block ho hp hnone hs hc _ => exact .inl ⟨_, .block ho hp hnone hs hc⟩
  | whileLoop hk he hd _ ih =>
    simp only [List.length_cons, List.length_append] at hl
    obtain ⟨s', hs⟩ | ⟨s', hs⟩ := ih (by omega)
    · exact .inl ⟨_, .whileLoop hk he hd hs⟩
    · refine .inr ?_
      rw [List.cons_append, List.append_assoc, List.cons_append]
      exact ⟨_, .whileLoop hk he hd hs⟩
  | forLoop hk hn hb hf hw hlast hd _ ih =>
    simp only [List.length_cons, List.length_append] at hl
    obtain ⟨s', hs⟩ | ⟨s', hs⟩ := ih (by omega)
    · exact .inl ⟨_, .forLoop hk hn hb hf hw hlast hd hs⟩
    · refine .inr ?_
      simp only [List.cons_append, List.append_assoc]
      exact ⟨_, .forLoop hk hn hb hf hw hlast hd hs⟩
  | ifThen hk he ht _ ih =>
    simp only [List.length_cons, List.length_append] at hl
    refine .inr ?_
    rw [List.cons_append, List.append_assoc, List.cons_append]
    obtain ⟨s', hs⟩ | ⟨s', hs⟩ := ih (by omega)
    · exact withElse hk he ht hs hel hv (by omega)
    · exact ⟨_, .ifThen hk he ht hs⟩
  | ifElse hk he ht hs hel' ho hne _ iho =>
    simp only [List.length_cons, List.length_append] at hl
    obtain ⟨o, hclosed⟩ | ⟨o, hopen⟩ := iho (by omega)
    · exact .inl ⟨_, .ifElse hk he ht hs hel' hclosed hne⟩
    · obtain ⟨a, -, hfront⟩ := ho.front
      rw [hfront] at hne
      refine .inr ?_
      simp only [List.cons_append, List.append_assoc]
      exact ⟨_, .ifElse hk he ht hs hel' hopen (Token.front?_append hfront ▸ hne)⟩
  | elseIf hk he ht hs hel' ho _ iho =>
    simp only [List.length_cons, List.length_append] at hl
    obtain ⟨keyword, ws, rfl, hif⟩ := ho.conditional_front
    have hfront := Terminal.admits_iff.mp hif
    obtain ⟨o, hclosed⟩ | ⟨o, hopen⟩ := iho (by omega)
    · obtain ⟨branches, otherwise, origin, rfl⟩ := hclosed.eq_conditional hfront
      exact .inl ⟨_, .elseIf hk he ht hs hel' hclosed⟩
    · obtain ⟨branches, otherwise, origin, rfl⟩ := hopen.eq_conditional hfront
      refine .inr ?_
      simp only [List.cons_append, List.append_assoc] at hopen ⊢
      exact ⟨_, .elseIf hk he ht hs hel' hopen⟩

end Spelling
end Statement
end PascalSyntax
