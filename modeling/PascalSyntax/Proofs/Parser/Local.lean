import PascalSyntax.Proofs.Parser.Failing

/-!
# Readers that look at one token at a time

A reader is local if nothing depends on what comes after the token at which it
stops: with any other tokens after that one it reads the same, or fails at the
same place for the same reason (`Parser.LocalAt`).  Where a literal is out of
range, that token is the literal.

Readers made of local readers are local.  The one primitive that looks at two
tokens is `takeBoth?`, which has no lemma here; the reader that uses it is local
all the same, for what it does next.
-/

namespace PascalSyntax

theorem Token.front?_congr {us vs : List Token} (h : us.head? = vs.head?) :
    Token.front? us = Token.front? vs := by
  rw [front?, front?, h]

theorem Token.head?_append_congr {rest rest' : List Token} (h : rest'.head? = rest.head?)
    (ts : List Token) : (ts ++ rest').head? = (ts ++ rest).head? := by
  cases ts with
  | nil => exact h
  | cons t ts => rfl

namespace Parser

/-- What the reader does on the tokens `us` depends on those that it reads there
and the one after them. -/
structure LocalAt (p : Parser Cursor α) (us : List Token) : Prop where
  reads : ∀ a rest, p.Reads us a rest → ∃ ts, us = ts ++ rest ∧
    ∀ rest', rest'.head? = rest.head? → p.Reads (ts ++ rest') a rest'
  fails : ∀ reason rest, p.Fails us reason rest →
    (∀ literal, reason = .integerOutOfRange literal → rest.head? = some literal) ∧
    ∃ ts, us = ts ++ rest ∧
      ∀ rest', rest'.head? = rest.head? → p.Fails (ts ++ rest') reason rest'

/-- The reader looks at one token at a time. -/
def Local (p : Parser Cursor α) : Prop :=
  ∀ us, LocalAt p us

theorem Local.readsOnly {p : Parser Cursor α} (h : Local p) : p.ReadsOnly fun _ _ => True := by
  intro us a rest hread
  obtain ⟨ts, rfl, -⟩ := (h us).reads _ _ hread
  exact ⟨ts, rfl, trivial⟩

theorem LocalAt.bind {p : Parser Cursor α} {f : α → Parser Cursor β} {us : List Token}
    (hp : LocalAt p us) (hf : ∀ a, Local (f a)) : LocalAt (p >>= f) us := by
  refine ⟨?_, ?_⟩
  · intro b rest h
    obtain ⟨a, mid, ha, hb⟩ := reads_bind_iff.mp h
    obtain ⟨ts, rfl, hfirst⟩ := hp.reads _ _ ha
    obtain ⟨vs, rfl, hnext⟩ := (hf a mid).reads _ _ hb
    refine ⟨ts ++ vs, (List.append_assoc _ _ _).symm, fun rest' hhead => ?_⟩
    rw [List.append_assoc]
    exact reads_bind_iff.mpr ⟨a, _, hfirst _ (Token.head?_append_congr hhead vs), hnext rest' hhead⟩
  · intro reason rest h
    rcases fails_bind_iff.mp h with h | ⟨a, mid, ha, hb⟩
    · obtain ⟨hliteral, ts, rfl, hfirst⟩ := hp.fails _ _ h
      exact ⟨hliteral, ts, rfl, fun rest' hhead => fails_bind_iff.mpr (.inl (hfirst rest' hhead))⟩
    · obtain ⟨ts, rfl, hfirst⟩ := hp.reads _ _ ha
      obtain ⟨hliteral, vs, rfl, hnext⟩ := (hf a mid).fails _ _ hb
      refine ⟨hliteral, ts ++ vs, (List.append_assoc _ _ _).symm, fun rest' hhead => ?_⟩
      rw [List.append_assoc]
      exact fails_bind_iff.mpr
        (.inr ⟨a, _, hfirst _ (Token.head?_append_congr hhead vs), hnext rest' hhead⟩)

/-- Rounds of a loop are read again with any other tokens after the next one, if
each round that gives a value is. -/
theorem Rounds.local {round : Parser Cursor (Option α)}
    (h : ∀ us a rest, round.Reads us (some a) rest → ∃ ts, us = ts ++ rest ∧
      ∀ rest', rest'.head? = rest.head? → round.Reads (ts ++ rest') (some a) rest')
    {us mid : List Token} {as : List α} (rounds : Rounds round us as mid) :
    ∃ ts, us = ts ++ mid ∧
      ∀ mid', mid'.head? = mid.head? → Rounds round (ts ++ mid') as mid' := by
  induction rounds with
  | nil us => exact ⟨[], rfl, fun mid' _ => .nil mid'⟩
  | cons hr hl _ ih =>
    obtain ⟨vs, rfl, hothers⟩ := ih
    obtain ⟨ts, rfl, hfirst⟩ := h _ _ _ hr
    rw [@List.length_append _ ts] at hl
    refine ⟨ts ++ vs, (List.append_assoc _ _ _).symm, fun mid' hhead => ?_⟩
    have hshorter : (vs ++ mid').length < (ts ++ (vs ++ mid')).length := by
      rw [@List.length_append _ ts]
      omega
    rw [List.append_assoc]
    exact .cons (hfirst _ (Token.head?_append_congr hhead vs)) hshorter (hothers mid' hhead)

namespace Local

/-! ## The smallest readers -/

theorem pure (a : α) : Local (pure a : Parser Cursor α) := by
  intro us
  refine ⟨?_, fun _ _ h => absurd h not_fails_pure⟩
  intro b rest h
  obtain ⟨rfl, rfl⟩ := reads_pure_iff.mp h
  exact ⟨[], rfl, fun rest' _ => reads_pure_iff.mpr ⟨rfl, rfl⟩⟩

theorem fail (what : Expectation) : Local (fail what : Parser Cursor α) := by
  intro us
  refine ⟨fun _ _ h => absurd h not_reads_fail, ?_⟩
  intro reason rest h
  obtain ⟨rfl, rfl⟩ := fails_fail_iff.mp h
  exact ⟨nofun, [], rfl, fun rest' _ => fails_fail_iff.mpr ⟨rfl, rfl⟩⟩

theorem tooDeep : Local (tooDeep : Parser Cursor α) := by
  intro us
  refine ⟨fun _ _ h => absurd h not_reads_tooDeep, ?_⟩
  intro reason rest h
  obtain ⟨rfl, rfl⟩ := fails_tooDeep_iff.mp h
  exact ⟨nofun, [], rfl, fun rest' _ => fails_tooDeep_iff.mpr ⟨rfl, rfl⟩⟩

theorem take (a : Terminal) (place : Option String) : Local (take a place) := by
  intro us
  refine ⟨?_, ?_⟩
  · intro t rest h
    obtain ⟨rfl, ht⟩ := reads_take_iff.mp h
    exact ⟨[t], rfl, fun rest' _ => reads_take_iff.mpr ⟨rfl, ht⟩⟩
  · intro reason rest h
    obtain ⟨hne, rfl, rfl⟩ := fails_take_iff.mp h
    refine ⟨nofun, [], rfl, fun rest' hhead => ?_⟩
    exact fails_take_iff.mpr ⟨Token.front?_congr hhead ▸ hne, rfl, rfl⟩

theorem sees (a : Terminal) : Local (sees a) := by
  intro us
  refine ⟨?_, fun _ _ h => absurd h not_fails_sees⟩
  intro b rest h
  obtain ⟨rfl, rfl⟩ := reads_sees_iff.mp h
  refine ⟨[], rfl, fun rest' hhead => ?_⟩
  exact reads_sees_iff.mpr ⟨by rw [List.nil_append, Token.front?_congr hhead], rfl⟩

theorem take? (a : Terminal) : Local (take? a) := by
  intro us
  refine ⟨?_, fun _ _ h => absurd h not_fails_take?⟩
  intro o rest h
  cases o with
  | some t =>
    obtain ⟨rfl, ht⟩ := reads_take?_some_iff.mp h
    exact ⟨[t], rfl, fun rest' _ => reads_take?_some_iff.mpr ⟨rfl, ht⟩⟩
  | none =>
    obtain ⟨hne, rfl⟩ := reads_take?_none_iff.mp h
    refine ⟨[], rfl, fun rest' hhead => ?_⟩
    exact reads_take?_none_iff.mpr ⟨Token.front?_congr hhead ▸ hne, rfl⟩

theorem takeFirst? (choices : List γ) (terminal : γ → Terminal) :
    Local (takeFirst? choices terminal) := by
  intro us
  refine ⟨?_, fun _ _ h => absurd h not_fails_takeFirst?⟩
  intro o rest h
  cases o with
  | none =>
    obtain ⟨hne, rfl⟩ := reads_takeFirst?_none_iff.mp h
    refine ⟨[], rfl, fun rest' hhead => reads_takeFirst?_none_iff.mpr ⟨?_, rfl⟩⟩
    intro x hx
    rw [List.nil_append, Token.front?_congr hhead]
    exact hne x hx
  | some choice =>
    cases us with
    | nil =>
      have hnone : (Parser.takeFirst? choices terminal).Reads [] none [] :=
        reads_takeFirst?_none_iff.mpr ⟨by simp, rfl⟩
      cases hnone.symm.trans h
    | cons t us =>
      rw [Reads, Parser.takeFirst?] at h
      split at h
      · rename_i x u hfind hpeek
        cases hpeek
        cases h
        refine ⟨[t], rfl, fun rest' _ => ?_⟩
        have hfind' : choices.find? (Spot.check (Cursor.before (t :: rest')) <| terminal ·) =
            some x := hfind
        show Parser.takeFirst? choices terminal (Cursor.before (t :: rest')) = _
        rw [Parser.takeFirst?, hfind']
        rfl
      · cases h

/-! ## One reader after another -/

theorem bind {p : Parser Cursor α} {f : α → Parser Cursor β} (hp : Local p)
    (hf : ∀ a, Local (f a)) : Local (p >>= f) :=
  fun us => (hp us).bind hf

theorem take?_bind {a : Terminal} {f : Option Token → Parser Cursor β}
    (hsome : ∀ t, Local (f (some t))) (hnone : Local (f none)) : Local (Parser.take? a >>= f) := by
  refine (take? a).bind fun o => ?_
  cases o with
  | some t => exact hsome t
  | none => exact hnone

theorem sees_bind {a : Terminal} {f : Bool → Parser Cursor β} (htrue : Local (f true))
    (hfalse : Local (f false)) : Local (Parser.sees a >>= f) := by
  refine (sees a).bind fun b => ?_
  cases b with
  | true => exact htrue
  | false => exact hfalse

theorem takeFirst?_bind {choices : List γ} {terminal : γ → Terminal}
    {f : Option (γ × Token) → Parser Cursor β} (hsome : ∀ choice, Local (f (some choice)))
    (hnone : Local (f none)) : Local (Parser.takeFirst? choices terminal >>= f) := by
  refine (takeFirst? choices terminal).bind fun o => ?_
  cases o with
  | some choice => exact hsome choice
  | none => exact hnone

/-- The reader that the next token selects may rely on it. -/
theorem peek?_bind {f : Option Token → Parser Cursor β} (hf : ∀ us, LocalAt (f us.head?) us) :
    Local (peek? >>= f) := by
  intro us
  refine ⟨?_, ?_⟩
  · intro b rest h
    obtain ⟨ts, hts, hread⟩ := (hf us).reads b rest h
    refine ⟨ts, hts, fun rest' hhead => ?_⟩
    have hread := hread rest' hhead
    rw [hts, ← Token.head?_append_congr hhead ts] at hread
    exact hread
  · intro reason rest h
    obtain ⟨hliteral, ts, hts, hfail⟩ := (hf us).fails reason rest h
    refine ⟨hliteral, ts, hts, fun rest' hhead => ?_⟩
    have hfail := hfail rest' hhead
    rw [hts, ← Token.head?_append_congr hhead ts] at hfail
    exact hfail

/-! ## Loops -/

theorem many_reads {round : Parser Cursor (Option α)} (h : Local round) {c d : Cursor} {as : List α}
    (hm : Parser.many round c = .ok (as, d)) :
    ∃ ts, c.rest = ts ++ d.rest ∧
      ∀ rest', rest'.head? = d.rest.head? → (Parser.many round).Reads (ts ++ rest') as rest' := by
  fun_induction Parser.many round c generalizing as d with
  | case1 c failure hr => cases hm
  | case2 c next hr =>
    cases hm
    obtain ⟨ts, hts, hr⟩ := (h _).reads _ _ (reads_iff_ok.mp hr)
    exact ⟨ts, hts, fun rest' hhead => reads_many_nil (hr rest' hhead)⟩
  | case3 c a next hr hl failure hm' ih => cases hm
  | case4 c a next hr hl as' last hm' ih =>
    cases hm
    obtain ⟨vs, hvs, hothers⟩ := ih hm'
    obtain ⟨ts, hts, hr⟩ := (h _).reads _ _ (reads_iff_ok.mp hr)
    rw [next.left_eq_length, c.left_eq_length, hts, List.length_append] at hl
    refine ⟨ts ++ vs, by rw [hts, hvs, List.append_assoc], fun rest' hhead => ?_⟩
    have hshorter : (vs ++ rest').length < (ts ++ (vs ++ rest')).length := by
      rw [@List.length_append _ ts]
      omega
    have hnext : (vs ++ rest').head? = next.rest.head? := by
      rw [hvs]
      exact Token.head?_append_congr hhead vs
    rw [List.append_assoc]
    exact reads_many_cons (hr _ hnext) hshorter (hothers rest' hhead)
  | case5 c a next hr hl =>
    cases hm
    obtain ⟨ts, hts, hr⟩ := (h _).reads _ _ (reads_iff_ok.mp hr)
    rw [next.left_eq_length, c.left_eq_length, hts, List.length_append] at hl
    obtain rfl : ts = [] := List.eq_nil_of_length_eq_zero (by omega)
    refine ⟨[], hts, fun rest' hhead => ?_⟩
    show Parser.many round (.before rest') = _
    have hstill : round (.before rest') = .ok (some a, .before rest') := hr rest' hhead
    rw [Parser.many, hstill]
    exact if_neg (Nat.lt_irrefl _)

theorem many {round : Parser Cursor (Option α)} (h : Local round) : Local (many round) := by
  intro us
  refine ⟨fun _ _ hm => many_reads h hm, ?_⟩
  intro reason rest hm
  obtain ⟨as, mid, rounds, last⟩ := fails_many_iff.mp hm
  obtain ⟨hliteral, vs, rfl, hlast⟩ := (h mid).fails _ _ last
  obtain ⟨ts, rfl, hrounds⟩ := rounds.local fun us a rest hr => (h us).reads (some a) rest hr
  refine ⟨hliteral, ts ++ vs, (List.append_assoc _ _ _).symm, fun rest' hhead => ?_⟩
  rw [List.append_assoc]
  exact (hrounds _ (Token.head?_append_congr hhead vs)).fails (hlast rest' hhead)

theorem another (separator : Terminal) {item : Parser Cursor α} (h : Local item) :
    Local (another separator item) :=
  take?_bind (fun _ => h.bind fun a => pure (some a)) (pure none)

theorem oneMore (start : Terminal) {item : Parser Cursor α} (h : Local item) :
    Local (oneMore start item) :=
  sees_bind (h.bind fun a => pure (some a)) (pure none)

theorem separated (separator : Terminal) {item : Parser Cursor α} (h : Local item) :
    Local (separated separator item) := by
  rw [Parser.separated]
  exact h.bind fun first => (h.another separator).many.bind fun others => pure (first :: others)

theorem repeated (start : Terminal) {item : Parser Cursor α} (h : Local item) :
    Local (repeated start item) := by
  rw [Parser.repeated]
  exact h.bind fun first => (h.oneMore start).many.bind fun others => pure (first :: others)

end Local
end Parser
end PascalSyntax
