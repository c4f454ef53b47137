import PascalSyntax.Proofs.Parser.Loops

/-!
# Where a reader fails

`p.Fails us reason rest` says that the reader `p`, on the tokens `us`, fails for
the reason, with the tokens `rest` still to be read.  It is the other half of
`Parser.Reads`, and each reader that others are made of has a lemma on when it
fails: the readers that only look never do, two readers in a row fail where one
of them does, and a loop fails where one of its rounds does.
-/

namespace PascalSyntax
namespace Parser

/-- The reader fails on the tokens `us` before it has read the tokens `rest`. -/
def Fails (p : Parser Cursor α) (us : List Token) (reason : Reason) (rest : List Token) : Prop :=
  p (.before us) = .error ⟨reason, .before rest⟩

theorem fails_iff_error {p : Parser Cursor α} {c d : Cursor} {reason : Reason} :
    p c = .error ⟨reason, d⟩ ↔ p.Fails c.rest reason d.rest := by
  rw [Fails, ← Cursor.eq_before, ← Cursor.eq_before]

/-- A reader fails in one way at most. -/
theorem Fails.unique {p : Parser Cursor α} {us rest rest' : List Token} {reason reason' : Reason}
    (h : p.Fails us reason rest) (h' : p.Fails us reason' rest') :
    reason = reason' ∧ rest = rest' := by
  rw [Fails, h] at h'
  obtain ⟨hreason, hstop⟩ := FailureAt.mk.inj (Except.error.inj h')
  exact ⟨hreason, congrArg Cursor.rest hstop⟩

/-! ## The smallest readers -/

@[simp] theorem not_fails_pure {a : α} {us rest : List Token} {reason : Reason} :
    ¬ (pure a : Parser Cursor α).Fails us reason rest := by
  intro h
  cases h

@[simp] theorem fails_fail_iff {what : Expectation} {us rest : List Token} {reason : Reason} :
    (fail what : Parser Cursor α).Fails us reason rest ↔ reason = .expected what ∧ rest = us := by
  rw [Fails, fail, Spot.missing]
  simp [eq_comm]

@[simp] theorem fails_tooDeep_iff {us rest : List Token} {reason : Reason} :
    (tooDeep : Parser Cursor α).Fails us reason rest ↔ reason = .nestingTooDeep ∧ rest = us := by
  rw [Fails, tooDeep]
  simp [eq_comm]

@[simp] theorem not_fails_sees {a : Terminal} {us rest : List Token} {reason : Reason} :
    ¬ (sees a).Fails us reason rest := by
  intro h
  cases h

@[simp] theorem not_fails_take? {a : Terminal} {us rest : List Token} {reason : Reason} :
    ¬ (take? a).Fails us reason rest := by
  intro h
  rw [Fails, take?] at h
  split at h <;> cases h

@[simp] theorem not_fails_takeBoth? {first second : Terminal} {us rest : List Token}
    {reason : Reason} : ¬ (takeBoth? first second).Fails us reason rest := by
  intro h
  rw [Fails, takeBoth?] at h
  split at h
  · cases h
  · split at h <;> cases h

@[simp] theorem not_fails_takeFirst? {choices : List γ} {terminal : γ → Terminal}
    {us rest : List Token} {reason : Reason} :
    ¬ (takeFirst? choices terminal).Fails us reason rest := by
  intro h
  rw [Fails, takeFirst?] at h
  split at h <;> cases h

@[simp] theorem fails_take_iff {a : Terminal} {place : Option String} {us rest : List Token}
    {reason : Reason} :
    (take a place).Fails us reason rest ↔
      Token.front? us ≠ some a ∧ reason = .expected (.oneOf [a] place) ∧ rest = us := by
  rw [Fails, take, Spot.take, ← Cursor.take?_eq_none_iff]
  cases h : Spot.take? (Cursor.before us) a with
  | none => simp [Spot.missing, eq_comm]
  | some read => simp

/-! ## One reader after another -/

theorem fails_bind_iff {p : Parser Cursor α} {f : α → Parser Cursor β} {us rest : List Token}
    {reason : Reason} :
    (p >>= f).Fails us reason rest ↔
      p.Fails us reason rest ∨ ∃ a mid, p.Reads us a mid ∧ (f a).Fails mid reason rest := by
  rw [Fails, bind_apply, andThen]
  cases h : p (.before us) with
  | error failure =>
    constructor
    · intro he
      cases he
      exact .inl h
    · intro he
      rcases he with he | ⟨a, mid, ha, -⟩
      · cases h.symm.trans he
        rfl
      · cases h.symm.trans ha
  | ok read =>
    obtain ⟨a, next⟩ := read
    constructor
    · intro he
      exact .inr ⟨a, next.rest, reads_iff_ok.mp h, fails_iff_error.mp he⟩
    · intro he
      rcases he with he | ⟨b, mid, hb, hf⟩
      · cases h.symm.trans he
      · cases h.symm.trans hb
        exact hf

@[simp] theorem fails_map_iff {p : Parser Cursor α} {f : α → β} {us rest : List Token}
    {reason : Reason} : (f <$> p).Fails us reason rest ↔ p.Fails us reason rest := by
  rw [← bind_pure_comp, fails_bind_iff]
  simp

theorem fails_peek?_bind_iff {f : Option Token → Parser Cursor β} {us rest : List Token}
    {reason : Reason} :
    (peek? >>= f).Fails us reason rest ↔ (f us.head?).Fails us reason rest :=
  Iff.rfl

theorem fails_sees_bind_iff {a : Terminal} {f : Bool → Parser Cursor β} {us rest : List Token}
    {reason : Reason} :
    (sees a >>= f).Fails us reason rest ↔
      (Token.front? us = some a ∧ (f true).Fails us reason rest) ∨
        (Token.front? us ≠ some a ∧ (f false).Fails us reason rest) := by
  rw [fails_bind_iff]
  by_cases h : Token.front? us = some a <;> simp [h]

theorem fails_take?_bind_iff {a : Terminal} {f : Option Token → Parser Cursor β}
    {us rest : List Token} {reason : Reason} :
    (take? a >>= f).Fails us reason rest ↔
      (∃ t mid, us = t :: mid ∧ a.admits t = true ∧ (f (some t)).Fails mid reason rest) ∨
        (Token.front? us ≠ some a ∧ (f none).Fails us reason rest) := by
  rw [fails_bind_iff]
  constructor
  · intro h
    rcases h with h | ⟨o, mid, ho, h⟩
    · exact absurd h not_fails_take?
    · cases o with
      | none =>
        obtain ⟨hne, rfl⟩ := reads_take?_none_iff.mp ho
        exact .inr ⟨hne, h⟩
      | some t =>
        obtain ⟨rfl, ht⟩ := reads_take?_some_iff.mp ho
        exact .inl ⟨t, mid, rfl, ht, h⟩
  · intro h
    rcases h with ⟨t, mid, rfl, ht, h⟩ | ⟨hne, h⟩
    · exact .inr ⟨some t, mid, reads_take?_some_iff.mpr ⟨rfl, ht⟩, h⟩
    · exact .inr ⟨none, us, reads_take?_none_iff.mpr ⟨hne, rfl⟩, h⟩

/-! ## Loops -/

theorem fails_many_first {round : Parser Cursor (Option α)} {us rest : List Token} {reason : Reason}
    (h : round.Fails us reason rest) : (many round).Fails us reason rest := by
  rw [Fails, Parser.many, show round (.before us) = .error ⟨reason, .before rest⟩ from h]

theorem fails_many_cons {round : Parser Cursor (Option α)} {us mid rest : List Token} {a : α}
    {reason : Reason} (first : round.Reads us (some a) mid) (shorter : mid.length < us.length)
    (others : (many round).Fails mid reason rest) : (many round).Fails us reason rest := by
  have hl : Spot.left (Cursor.before mid) < Spot.left (Cursor.before us) := shorter
  rw [Fails, Parser.many, show round (.before us) = .ok (some a, .before mid) from first]
  simp only [if_pos hl]
  rw [show Parser.many round (.before mid) = .error ⟨reason, .before rest⟩ from others]

theorem Rounds.fails {round : Parser Cursor (Option α)} {us mid rest : List Token} {as : List α}
    {reason : Reason} (h : Rounds round us as mid) (last : round.Fails mid reason rest) :
    (Parser.many round).Fails us reason rest := by
  induction h with
  | nil us => exact fails_many_first last
  | cons hr hl _ ih => exact fails_many_cons hr hl (ih last)

theorem rounds_of_many_error {round : Parser Cursor (Option α)} {c d : Cursor} {reason : Reason}
    (h : many round c = .error ⟨reason, d⟩) :
    ∃ as mid, Rounds round c.rest as mid ∧ round.Fails mid reason d.rest := by
  fun_induction many round c with
  | case1 c failure hr =>
    cases h
    exact ⟨[], c.rest, .nil _, fails_iff_error.mp hr⟩
  | case2 c next hr => cases h
  | case3 c a next hr hl failure hm ih =>
    cases h
    obtain ⟨as, mid, rounds, hlast⟩ := ih hm
    have hl' : next.rest.length < c.rest.length := by
      rw [← next.left_eq_length, ← c.left_eq_length]
      exact hl
    exact ⟨a :: as, mid, .cons (reads_iff_ok.mp hr) hl' rounds, hlast⟩
  | case4 c a next hr hl as' last hm ih => cases h
  | case5 c a next hr hl => cases h

/-- A loop fails where one of its rounds does. -/
theorem fails_many_iff {round : Parser Cursor (Option α)} {us rest : List Token} {reason : Reason} :
    (many round).Fails us reason rest ↔
      ∃ as mid, Rounds round us as mid ∧ round.Fails mid reason rest := by
  constructor
  · intro h
    exact rounds_of_many_error h
  · intro h
    rcases h with ⟨as, mid, rounds, last⟩
    exact rounds.fails last

/-- A loop ends with a round after all others, whether that round gives a value
or not. -/
theorem exists_rounds_of_many {round : Parser Cursor (Option α)} {c d : Cursor} {as : List α}
    (h : many round c = .ok (as, d)) :
    ∃ bs mid o, Rounds round c.rest bs mid ∧ round.Reads mid o d.rest := by
  fun_induction many round c generalizing as d with
  | case1 c failure hr => cases h
  | case2 c next hr =>
    cases h
    exact ⟨[], c.rest, none, .nil _, reads_iff_ok.mp hr⟩
  | case3 c a next hr hl failure hm ih => cases h
  | case4 c a next hr hl as' last hm ih =>
    cases h
    obtain ⟨bs, mid, o, rounds, hlast⟩ := ih hm
    have hl' : next.rest.length < c.rest.length := by
      rw [← next.left_eq_length, ← c.left_eq_length]
      exact hl
    exact ⟨a :: bs, mid, o, .cons (reads_iff_ok.mp hr) hl' rounds, hlast⟩
  | case5 c a next hr hl =>
    cases h
    exact ⟨[], c.rest, some a, .nil _, reads_iff_ok.mp hr⟩

theorem exists_rounds {round : Parser Cursor (Option α)} {us rest : List Token} {as : List α}
    (h : (many round).Reads us as rest) :
    ∃ bs mid o, Rounds round us bs mid ∧ round.Reads mid o rest :=
  exists_rounds_of_many h

theorem fails_another_iff {separator : Terminal} {item : Parser Cursor α} {us rest : List Token}
    {reason : Reason} :
    (another separator item).Fails us reason rest ↔
      ∃ t mid, us = t :: mid ∧ separator.admits t = true ∧ item.Fails mid reason rest := by
  simp [another, fails_take?_bind_iff]

end Parser
end PascalSyntax
