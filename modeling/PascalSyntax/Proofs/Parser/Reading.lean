import PascalSyntax.Parser.Basic
import PascalSyntax.Parser.Cursor

/-!
# What a reader reads

`p.Reads us a rest` says that the reader `p`, on the tokens `us`, gives `a` and
leaves `rest`.  Each reader that others are made of has one lemma that says when
it reads something, as an equivalence, so that a reader is taken apart by
rewriting in either direction.

A token is an instance of at most one terminal (`Terminal.admits_iff`).  All
that a reader decides, it decides on the terminal of the first token: `front?`.
-/

namespace PascalSyntax

/-- The terminal that a token is an instance of; a comment is of none. -/
def Token.terminal? (t : Token) : Option Terminal :=
  match t.kind with
  | .symbol => some (.symbol t.text)
  | .reservedWord => some (.word t.text)
  | .identifier => some .identifier
  | .number => some .number
  | .string => some .string
  | .comment => none

/-- The terminal that some tokens start with. -/
def Token.front? (tokens : List Token) : Option Terminal :=
  tokens.head?.bind terminal?

@[simp] theorem Token.front?_nil : Token.front? [] = none := rfl

@[simp] theorem Token.front?_cons (t : Token) (ts : List Token) :
    Token.front? (t :: ts) = t.terminal? := rfl

theorem Token.front?_append {us vs : List Token} {a : Terminal} (h : Token.front? us = some a) :
    Token.front? (us ++ vs) = some a := by
  cases us with
  | nil => cases h
  | cons t ts => exact h

theorem Token.ne_nil_of_front {ts : List Token} {a : Terminal} (h : front? ts = some a) :
    ts ≠ [] := by
  intro hnil
  subst hnil
  cases h

/-- A token is an instance of one terminal only. -/
theorem Terminal.admits_iff {a : Terminal} {t : Token} :
    a.admits t = true ↔ t.terminal? = some a := by
  obtain ⟨kind, text, position⟩ := t
  cases a <;> cases kind <;> simp [Terminal.admits, Token.terminal?]

theorem Terminal.front?_of_admits {a : Terminal} {t : Token} (h : a.admits t = true)
    (ts : List Token) : Token.front? (t :: ts) = some a :=
  admits_iff.mp h

/-- An instance of one terminal is not one of another. -/
theorem Terminal.not_admits {a b : Terminal} {t : Token} (ht : a.admits t) (hne : a ≠ b) :
    b.admits t = false := by
  refine Bool.eq_false_iff.mpr fun hb => ?_
  rw [admits_iff] at ht hb
  exact hne (Option.some.inj (ht.symm.trans hb))

/-- An instance of one terminal is not next as another. -/
theorem Terminal.front?_ne {a b : Terminal} {t : Token} (h : a.admits t = true) (hne : a ≠ b)
    (ts : List Token) : Token.front? (t :: ts) ≠ some b := by
  rw [front?_of_admits h]
  exact fun he => hne (Option.some.inj he)

theorem Terminal.ne_comment_of_admits {a : Terminal} {t : Token} (h : a.admits t = true) :
    t.kind ≠ .comment := by
  intro hk
  cases a <;> simp [admits, hk] at h

theorem Terminal.identifier_admits_iff {t : Token} :
    Terminal.identifier.admits t = true ↔ t.kind = .identifier := by
  simp [Terminal.admits]

namespace Cursor

/-- The cursor at the first of some tokens. -/
def before (tokens : List Token) : Cursor :=
  { rest := tokens }

theorem eq_before (c : Cursor) : c = before c.rest := ext rfl

theorem left_eq_length (c : Cursor) : Spot.left c = c.rest.length := c.left_eq

@[simp] theorem before_inj {us vs : List Token} : before us = before vs ↔ us = vs := by
  constructor
  · intro h
    exact congrArg Cursor.rest h
  · intro h
    subst h
    rfl

@[simp] theorem peek?_before (tokens : List Token) :
    Spot.peek? (before tokens) = tokens.head? := rfl

theorem advance_before (tokens : List Token) :
    Spot.advance (before tokens) = before tokens.tail := ext rfl

@[simp] theorem advance_before_cons (t : Token) (ts : List Token) :
    Spot.advance (before (t :: ts)) = before ts := ext rfl

theorem check_before (tokens : List Token) (a : Terminal) :
    Spot.check (before tokens) a = decide (Token.front? tokens = some a) := by
  cases tokens with
  | nil => rfl
  | cons t ts =>
    show a.admits t = decide (t.terminal? = some a)
    rw [Bool.eq_iff_iff, decide_eq_true_iff]
    exact Terminal.admits_iff

theorem take?_before_cons (t : Token) (ts : List Token) (a : Terminal) :
    Spot.take? (before (t :: ts)) a = if a.admits t then some (t, before ts) else none := by
  rw [Spot.take?, peek?_before, advance_before_cons]
  rfl

theorem take?_eq_some_iff {us : List Token} {a : Terminal} {t : Token} {rest : List Token} :
    Spot.take? (before us) a = some (t, before rest) ↔ us = t :: rest ∧ a.admits t = true := by
  cases us with
  | nil => simp [Spot.take?]
  | cons u us =>
    rw [take?_before_cons]
    by_cases h : a.admits u = true
    · rw [if_pos h]
      constructor
      · intro e
        cases e
        exact ⟨rfl, h⟩
      · intro h
        rcases h with ⟨e, -⟩
        cases e
        rfl
    · rw [if_neg h]
      constructor
      · intro e
        cases e
      · intro h
        rcases h with ⟨e, ht⟩
        cases e
        exact absurd ht h

theorem take?_eq_none_iff {us : List Token} {a : Terminal} :
    Spot.take? (before us) a = none ↔ Token.front? us ≠ some a := by
  cases us with
  | nil => simp [Spot.take?]
  | cons u us =>
    rw [take?_before_cons, Token.front?_cons, ne_eq, ← Terminal.admits_iff]
    by_cases h : a.admits u = true <;> simp [h]

end Cursor

namespace Parser

/-- The reader gives `a` on the tokens `us` and leaves the tokens `rest`. -/
def Reads (p : Parser Cursor α) (us : List Token) (a : α) (rest : List Token) : Prop :=
  p (.before us) = .ok (a, .before rest)

theorem reads_iff_ok {p : Parser Cursor α} {c d : Cursor} {a : α} :
    p c = .ok (a, d) ↔ p.Reads c.rest a d.rest := by
  rw [Reads, ← Cursor.eq_before, ← Cursor.eq_before]

/-! ## The smallest readers -/

@[simp] theorem reads_pure_iff {a b : α} {us rest : List Token} :
    (pure a : Parser Cursor α).Reads us b rest ↔ b = a ∧ rest = us := by
  rw [Reads, pure_apply]
  simp [eq_comm]

theorem reads_bind_iff {p : Parser Cursor α} {f : α → Parser Cursor β} {us rest : List Token}
    {b : β} :
    (p >>= f).Reads us b rest ↔ ∃ a mid, p.Reads us a mid ∧ (f a).Reads mid b rest := by
  rw [Reads, bind_eq_ok_iff]
  constructor
  · intro h
    rcases h with ⟨a, next, hp, hf⟩
    exact ⟨a, next.rest, reads_iff_ok.mp hp, reads_iff_ok.mp hf⟩
  · intro h
    rcases h with ⟨a, mid, hp, hf⟩
    exact ⟨a, .before mid, hp, hf⟩

@[simp] theorem reads_map_iff {p : Parser Cursor α} {f : α → β} {us rest : List Token} {b : β} :
    (f <$> p).Reads us b rest ↔ ∃ a, b = f a ∧ p.Reads us a rest := by
  rw [← bind_pure_comp, reads_bind_iff]
  constructor
  · intro h
    rcases h with ⟨a, mid, hp, h⟩
    obtain ⟨hb, rfl⟩ := reads_pure_iff.mp h
    exact ⟨a, hb, hp⟩
  · intro h
    rcases h with ⟨a, h, hp⟩
    exact ⟨a, rest, hp, reads_pure_iff.mpr ⟨h, rfl⟩⟩

@[simp] theorem not_reads_fail {what : Expectation} {us rest : List Token} {a : α} :
    ¬ (fail what : Parser Cursor α).Reads us a rest := by
  intro h
  cases h

@[simp] theorem not_reads_tooDeep {us rest : List Token} {a : α} :
    ¬ (tooDeep : Parser Cursor α).Reads us a rest := by
  intro h
  cases h

@[simp] theorem reads_peek?_iff {us rest : List Token} {o : Option Token} :
    peek?.Reads us o rest ↔ o = us.head? ∧ rest = us := by
  rw [Reads, peek?, Cursor.peek?_before]
  simp [eq_comm]

@[simp] theorem reads_sees_iff {a : Terminal} {us rest : List Token} {b : Bool} :
    (sees a).Reads us b rest ↔ b = decide (Token.front? us = some a) ∧ rest = us := by
  rw [Reads, sees, Cursor.check_before]
  simp [eq_comm]

@[simp] theorem reads_take?_some_iff {a : Terminal} {us rest : List Token} {t : Token} :
    (take? a).Reads us (some t) rest ↔ us = t :: rest ∧ a.admits t = true := by
  rw [Reads, take?, ← Cursor.take?_eq_some_iff]
  cases h : Spot.take? (Cursor.before us) a with
  | none => simp
  | some read =>
    obtain ⟨t', next⟩ := read
    simp

@[simp] theorem reads_take?_none_iff {a : Terminal} {us rest : List Token} :
    (take? a).Reads us none rest ↔ Token.front? us ≠ some a ∧ rest = us := by
  rw [Reads, take?, ← Cursor.take?_eq_none_iff]
  cases h : Spot.take? (Cursor.before us) a with
  | none => simp [eq_comm]
  | some read =>
    obtain ⟨t, next⟩ := read
    simp

/-- What comes after a look at the next token depends on what was seen. -/
theorem reads_sees_bind_iff {a : Terminal} {f : Bool → Parser Cursor β} {us rest : List Token}
    {b : β} :
    (sees a >>= f).Reads us b rest ↔
      (Token.front? us = some a ∧ (f true).Reads us b rest) ∨
        (Token.front? us ≠ some a ∧ (f false).Reads us b rest) := by
  rw [reads_bind_iff]
  by_cases h : Token.front? us = some a <;> simp [h]

/-- What comes after an optional token depends on whether it was there. -/
theorem reads_take?_bind_iff {a : Terminal} {f : Option Token → Parser Cursor β}
    {us rest : List Token} {b : β} :
    (take? a >>= f).Reads us b rest ↔
      (∃ t mid, us = t :: mid ∧ a.admits t = true ∧ (f (some t)).Reads mid b rest) ∨
        (Token.front? us ≠ some a ∧ (f none).Reads us b rest) := by
  rw [reads_bind_iff]
  constructor
  · intro h
    rcases h with ⟨o, mid, ho, h⟩
    cases o with
    | none =>
      obtain ⟨hne, rfl⟩ := reads_take?_none_iff.mp ho
      exact .inr ⟨hne, h⟩
    | some t =>
      obtain ⟨rfl, ht⟩ := reads_take?_some_iff.mp ho
      exact .inl ⟨t, mid, rfl, ht, h⟩
  · intro h
    rcases h with ⟨t, mid, rfl, ht, h⟩ | ⟨hne, h⟩
    · exact ⟨some t, mid, reads_take?_some_iff.mpr ⟨rfl, ht⟩, h⟩
    · exact ⟨none, us, reads_take?_none_iff.mpr ⟨hne, rfl⟩, h⟩

theorem takeBoth?_before_short {first second : Terminal} {us : List Token} (h : us.length < 2) :
    takeBoth? first second (Cursor.before us) = .ok (none, Cursor.before us) := by
  match us with
  | [] => rfl
  | [u] =>
    rw [takeBoth?, Cursor.take?_before_cons]
    by_cases hu : first.admits u = true <;> simp [hu, Spot.take?]

theorem takeBoth?_before_cons_cons (first second : Terminal) (u v : Token) (us : List Token) :
    takeBoth? first second (Cursor.before (u :: v :: us)) =
      if first.admits u = true ∧ second.admits v = true then .ok (some v, .before us)
      else .ok (none, .before (u :: v :: us)) := by
  rw [takeBoth?, Cursor.take?_before_cons]
  by_cases hu : first.admits u = true
  · by_cases hv : second.admits v = true <;> simp [hu, hv, Cursor.take?_before_cons]
  · simp [hu]

theorem reads_takeBoth?_some_iff {first second : Terminal} {us rest : List Token} {t : Token} :
    (takeBoth? first second).Reads us (some t) rest ↔
      ∃ t', us = t' :: t :: rest ∧ first.admits t' = true ∧ second.admits t = true := by
  rw [Reads]
  match us with
  | [] => simp [takeBoth?_before_short]
  | [u] => simp [takeBoth?_before_short]
  | u :: v :: us =>
    rw [takeBoth?_before_cons_cons]
    constructor
    · intro h
      split at h
      · rename_i hadmits
        cases h
        exact ⟨u, rfl, hadmits⟩
      · cases h
    · intro h
      rcases h with ⟨t', h, hadmits⟩
      cases h
      exact if_pos hadmits

theorem reads_takeBoth?_none_iff {first second : Terminal} {us rest : List Token} :
    (takeBoth? first second).Reads us none rest ↔
      (∀ t mid, us = t :: mid → first.admits t = true → Token.front? mid ≠ some second) ∧
        rest = us := by
  rw [Reads]
  match us with
  | [] =>
    rw [takeBoth?_before_short (by simp)]
    simp only [Except.ok.injEq, Prod.mk.injEq, true_and, Cursor.before_inj]
    constructor
    · intro h
      subst h
      exact ⟨by simp, rfl⟩
    · intro h
      rcases h with ⟨-, rfl⟩
      rfl
  | [u] =>
    rw [takeBoth?_before_short (by simp)]
    simp only [Except.ok.injEq, Prod.mk.injEq, true_and, Cursor.before_inj]
    constructor
    · intro h
      subst h
      refine ⟨fun t mid h _ => ?_, rfl⟩
      cases h
      simp
    · intro h
      rcases h with ⟨-, rfl⟩
      rfl
  | u :: v :: us =>
    rw [takeBoth?_before_cons_cons]
    constructor
    · intro h
      split at h
      · cases h
      · rename_i hadmits
        cases h
        refine ⟨fun t mid h ht hfront => hadmits ?_, rfl⟩
        cases h
        exact ⟨ht, Terminal.admits_iff.mpr hfront⟩
    · intro h
      rcases h with ⟨h, rfl⟩
      refine if_neg ?_
      intro h
      rcases h with ⟨hu, hv⟩
      exact h u (v :: us) rfl hu (Terminal.admits_iff.mp hv)

@[simp] theorem reads_take_iff {a : Terminal} {place : Option String} {us rest : List Token}
    {t : Token} :
    (take a place).Reads us t rest ↔ us = t :: rest ∧ a.admits t = true := by
  rw [Reads, take, Spot.take, ← Cursor.take?_eq_some_iff]
  cases h : Spot.take? (Cursor.before us) a with
  | none => simp
  | some read =>
    obtain ⟨t', next⟩ := read
    simp

@[simp] theorem reads_symbol_iff {text place : String} {us rest : List Token} {t : Token} :
    (symbol text place).Reads us t rest ↔
      us = t :: rest ∧ (Terminal.symbol text).admits t = true :=
  reads_take_iff

@[simp] theorem reads_word_iff {text place : String} {us rest : List Token} {t : Token} :
    (word text place).Reads us t rest ↔ us = t :: rest ∧ (Terminal.word text).admits t = true :=
  reads_take_iff

theorem reads_takeFirst?_none_iff {choices : List γ} {terminal : γ → Terminal}
    {us rest : List Token} :
    (takeFirst? choices terminal).Reads us none rest ↔
      (∀ x ∈ choices, Token.front? us ≠ some (terminal x)) ∧ rest = us := by
  rw [Reads, takeFirst?]
  have hfind : (choices.find? (Spot.check (Cursor.before us) <| terminal ·)) = none ↔
      ∀ x ∈ choices, Token.front? us ≠ some (terminal x) := by
    simp [Cursor.check_before]
  rw [← hfind]
  cases h : choices.find? (Spot.check (Cursor.before us) <| terminal ·) with
  | none => simp [eq_comm]
  | some x =>
    cases us with
    | nil =>
      have := List.find?_some h
      rw [Cursor.check_before] at this
      simp at this
    | cons t ts => simp

theorem reads_takeFirst?_some_iff {choices : List γ} {terminal : γ → Terminal}
    (inj : ∀ x y, terminal x = terminal y → x = y) {us rest : List Token} {x : γ} {t : Token} :
    (takeFirst? choices terminal).Reads us (some (x, t)) rest ↔
      us = t :: rest ∧ x ∈ choices ∧ (terminal x).admits t = true := by
  rw [Reads, takeFirst?]
  constructor
  · intro h
    cases hf : choices.find? (Spot.check (Cursor.before us) <| terminal ·) with
    | none => simp [hf] at h
    | some y =>
      cases us with
      | nil => simp [hf] at h
      | cons u us =>
        simp only [hf, Cursor.peek?_before, List.head?_cons, Cursor.advance_before_cons,
          Except.ok.injEq, Prod.mk.injEq, Option.some.injEq, Cursor.before_inj] at h
        obtain ⟨⟨rfl, rfl⟩, rfl⟩ := h
        have hcheck := List.find?_some hf
        rw [Cursor.check_before, decide_eq_true_iff, Token.front?_cons] at hcheck
        exact ⟨rfl, List.mem_of_find?_eq_some hf, Terminal.admits_iff.mpr hcheck⟩
  · intro h
    rcases h with ⟨rfl, hx, ht⟩
    have hcheck : ∀ y, Spot.check (Cursor.before (t :: rest)) (terminal y) = true ↔ y = x := by
      intro y
      rw [Cursor.check_before, decide_eq_true_iff, Terminal.front?_of_admits ht]
      constructor
      · intro h
        exact inj _ _ (Option.some.inj h).symm
      · intro h
        subst h
        rfl
    cases hf : choices.find? (Spot.check (Cursor.before (t :: rest)) <| terminal ·) with
    | none =>
      have := List.find?_eq_none.mp hf x hx
      exact absurd ((hcheck x).mpr rfl) this
    | some y =>
      have hy := List.find?_some hf
      obtain rfl := (hcheck y).mp hy
      rfl

end Parser
end PascalSyntax
