import PascalSyntax.Proofs.Parser.Local

/-!
# Readers with room for their tokens

A reader has room for the lists of fewer than `n` tokens if it never lacks a level
of nesting on one of them (`Parser.HasRoom`).  A level is only taken for tokens
that come later, so each level that is left is worth one token: where a reader
goes one level further in, it has read a token of its own before
(`HasRoom.bindOption`, `HasRoom.take_bind`).
-/

namespace PascalSyntax
namespace Parser

/-- The reader puts no token back, and on fewer than `n` tokens it does not fail
for want of a level. -/
structure HasRoom (p : Parser Cursor α) (n : Nat) : Prop where
  shrinks : ∀ {us a rest}, p.Reads us a rest → rest.length ≤ us.length
  fits : ∀ {us reason rest}, p.Fails us reason rest → us.length < n → reason ≠ .nestingTooDeep

theorem Local.shrinks {p : Parser Cursor α} (h : Local p) {us rest : List Token} {a : α}
    (hreads : p.Reads us a rest) : rest.length ≤ us.length :=
  h.readsOnly.shorter hreads

namespace HasRoom

variable {n : Nat}

theorem mono {m : Nat} {p : Parser Cursor α} (h : HasRoom p n) (hm : m ≤ n) : HasRoom p m :=
  ⟨h.shrinks, fun hfails hlt => h.fits hfails (by omega)⟩

/-! ## The smallest readers -/

theorem pure (a : α) : HasRoom (pure a : Parser Cursor α) n :=
  ⟨(Local.pure a).shrinks, fun hfails => absurd hfails not_fails_pure⟩

theorem fail (what : Expectation) : HasRoom (fail what : Parser Cursor α) n := by
  refine ⟨(Local.fail what).shrinks, ?_⟩
  intro us reason rest hfails _
  obtain ⟨rfl, -⟩ := fails_fail_iff.mp hfails
  exact Reason.noConfusion

/-- Without a level there is room for no list at all. -/
theorem tooDeep : HasRoom (tooDeep : Parser Cursor α) 0 :=
  ⟨Local.tooDeep.shrinks, fun _ hlt => absurd hlt (Nat.not_lt_zero _)⟩

theorem take (a : Terminal) (place : Option String) : HasRoom (take a place) n := by
  refine ⟨(Local.take a place).shrinks, ?_⟩
  intro us reason rest hfails _
  obtain ⟨-, rfl, -⟩ := fails_take_iff.mp hfails
  exact Reason.noConfusion

theorem sees (a : Terminal) : HasRoom (sees a) n :=
  ⟨(Local.sees a).shrinks, fun hfails => absurd hfails not_fails_sees⟩

theorem peek? : HasRoom peek? n := by
  refine ⟨?_, ?_⟩
  · intro us o rest hreads
    obtain ⟨-, rfl⟩ := reads_peek?_iff.mp hreads
    exact Nat.le_refl _
  · intro us reason rest hfails
    cases hfails

theorem take? (a : Terminal) : HasRoom (take? a) n :=
  ⟨(Local.take? a).shrinks, fun hfails => absurd hfails not_fails_take?⟩

theorem takeFirst? (choices : List γ) (terminal : γ → Terminal) :
    HasRoom (takeFirst? choices terminal) n :=
  ⟨(Local.takeFirst? choices terminal).shrinks, fun hfails => absurd hfails not_fails_takeFirst?⟩

theorem takeBoth? (first second : Terminal) : HasRoom (takeBoth? first second) n := by
  refine ⟨?_, fun hfails => absurd hfails not_fails_takeBoth?⟩
  intro us o rest hreads
  cases o with
  | none =>
    obtain ⟨-, rfl⟩ := reads_takeBoth?_none_iff.mp hreads
    exact Nat.le_refl _
  | some t =>
    obtain ⟨t', rfl, -⟩ := reads_takeBoth?_some_iff.mp hreads
    simp only [List.length_cons]
    omega

/-! ## One reader after another -/

theorem bind {p : Parser Cursor α} {f : α → Parser Cursor β} (hp : HasRoom p n)
    (hf : ∀ a, HasRoom (f a) n) : HasRoom (p >>= f) n := by
  refine ⟨?_, ?_⟩
  · intro us b rest hreads
    obtain ⟨a, mid, ha, hb⟩ := reads_bind_iff.mp hreads
    have hfirst := hp.shrinks ha
    have hnext := (hf a).shrinks hb
    omega
  · intro us reason rest hfails hlt
    rcases fails_bind_iff.mp hfails with hfirst | ⟨a, mid, ha, hnext⟩
    · exact hp.fits hfirst hlt
    · have hmid := hp.shrinks ha
      exact (hf a).fits hnext (by omega)

theorem map {p : Parser Cursor α} (hp : HasRoom p n) (f : α → β) :
    HasRoom (p >>= fun a => Pure.pure (f a)) n :=
  hp.bind fun a => pure (f a)

/-- After a token that has to be there, there need be room for one token less. -/
theorem take_bind {a : Terminal} {place : Option String} {f : Token → Parser Cursor β}
    (hf : ∀ t, HasRoom (f t) n) : HasRoom (Parser.take a place >>= f) (n + 1) := by
  refine ⟨((take a place).bind hf).shrinks, ?_⟩
  intro us reason rest hfails hlt
  rcases fails_bind_iff.mp hfails with hfirst | ⟨t, mid, ht, hnext⟩
  · exact (take a place).fits hfirst hlt
  · obtain ⟨rfl, -⟩ := reads_take_iff.mp ht
    rw [List.length_cons] at hlt
    exact (hf t).fits hnext (by omega)

/-- The same after an optional part that is there. -/
theorem bindOption {p : Parser Cursor (Option α)} {f : Option α → Parser Cursor β}
    (hp : HasRoom p (n + 1)) (advances : Advances p) (hsome : ∀ a, HasRoom (f (some a)) n)
    (hnone : HasRoom (f none) (n + 1)) : HasRoom (p >>= f) (n + 1) := by
  refine ⟨?_, ?_⟩
  · have hf : ∀ o, HasRoom (f o) n := by
      intro o
      cases o with
      | none => exact hnone.mono (Nat.le_succ n)
      | some a => exact hsome a
    intro us b rest hreads
    exact ((hp.mono (Nat.le_succ n)).bind hf).shrinks hreads
  · intro us reason rest hfails hlt
    rcases fails_bind_iff.mp hfails with hfirst | ⟨o, mid, ho, hnext⟩
    · exact hp.fits hfirst hlt
    · cases o with
      | none =>
        have hmid := hp.shrinks ho
        exact hnone.fits hnext (by omega)
      | some a =>
        have hmid := advances us a mid ho
        exact (hsome a).fits hnext (by omega)

theorem take?_bind {a : Terminal} {f : Option Token → Parser Cursor β}
    (hsome : ∀ t, HasRoom (f (some t)) n) (hnone : HasRoom (f none) (n + 1)) :
    HasRoom (Parser.take? a >>= f) (n + 1) := by
  refine (take? a).bindOption ?_ hsome hnone
  intro us t rest hreads
  obtain ⟨rfl, -⟩ := reads_take?_some_iff.mp hreads
  exact Nat.lt_succ_self _

theorem takeFirst?_bind {choices : List γ} {terminal : γ → Terminal}
    (inj : ∀ x y, terminal x = terminal y → x = y) {f : Option (γ × Token) → Parser Cursor β}
    (hsome : ∀ choice, HasRoom (f (some choice)) n) (hnone : HasRoom (f none) (n + 1)) :
    HasRoom (Parser.takeFirst? choices terminal >>= f) (n + 1) := by
  refine (takeFirst? choices terminal).bindOption ?_ hsome hnone
  intro us choice rest hreads
  obtain ⟨c, t⟩ := choice
  obtain ⟨rfl, -⟩ := (reads_takeFirst?_some_iff inj).mp hreads
  exact Nat.lt_succ_self _

theorem sees_bind {a : Terminal} {f : Bool → Parser Cursor β} (htrue : HasRoom (f true) n)
    (hfalse : HasRoom (f false) n) : HasRoom (Parser.sees a >>= f) n := by
  apply (sees a).bind
  intro b
  cases b with
  | true => exact htrue
  | false => exact hfalse

/-- Where no level is taken, it does not matter whether an optional part is there. -/
theorem option_bind {p : Parser Cursor (Option α)} {f : Option α → Parser Cursor β}
    (hp : HasRoom p n) (hsome : ∀ a, HasRoom (f (some a)) n) (hnone : HasRoom (f none) n) :
    HasRoom (p >>= f) n := by
  apply hp.bind
  intro o
  cases o with
  | none => exact hnone
  | some a => exact hsome a

/-! ## Loops -/

theorem rounds {round : Parser Cursor (Option α)} {us mid : List Token} {as : List α}
    (h : Rounds round us as mid) : mid.length ≤ us.length := by
  induction h with
  | nil us => exact Nat.le_refl _
  | cons _ hl _ ih => omega

theorem many {round : Parser Cursor (Option α)} (h : HasRoom round n) : HasRoom (many round) n := by
  refine ⟨?_, ?_⟩
  · intro us as rest hreads
    obtain ⟨bs, mid, o, hrounds, hlast⟩ := exists_rounds hreads
    exact Nat.le_trans (h.shrinks hlast) (rounds hrounds)
  · intro us reason rest hfails hlt
    obtain ⟨as, mid, hrounds, hlast⟩ := fails_many_iff.mp hfails
    have hmid := rounds hrounds
    exact h.fits hlast (by omega)

theorem another (separator : Terminal) {item : Parser Cursor α} (h : HasRoom item n) :
    HasRoom (another separator item) n :=
  (take? separator).option_bind (fun _ => h.map Option.some) (pure none)

theorem oneMore (start : Terminal) {item : Parser Cursor α} (h : HasRoom item n) :
    HasRoom (oneMore start item) n :=
  sees_bind (h.map Option.some) (pure none)

theorem separated (separator : Terminal) {item : Parser Cursor α} (h : HasRoom item n) :
    HasRoom (separated separator item) n := by
  rw [Parser.separated]
  exact h.bind fun first => (h.another separator).many.map _

theorem repeated (start : Terminal) {item : Parser Cursor α} (h : HasRoom item n) :
    HasRoom (repeated start item) n := by
  rw [Parser.repeated]
  exact h.bind fun first => (h.oneMore start).many.map _

end HasRoom
end Parser
end PascalSyntax
