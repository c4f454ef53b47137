import PascalSyntax.Proofs.Parser.Failing

/-!
# Readers that avoid some terminals

A reader avoids some terminals if it goes past no instance of them, whether it reads
something in the end or fails (`Parser.Avoids`).  It may look at one, and stop there.

Readers made of readers that avoid a terminal avoid it too.
-/

namespace PascalSyntax

/-- No token is an instance of one of the terminals. -/
def Token.Without (excluded : List Terminal) (ts : List Token) : Prop :=
  ∀ t ∈ ts, ∀ a ∈ excluded, a.admits t = false

namespace Token.Without

variable {excluded : List Terminal} {ts us : List Token}

theorem nil : Without excluded [] :=
  List.forall_mem_nil _

theorem single {a : Terminal} {t : Token} (ht : a.admits t) (ha : a ∉ excluded) :
    Without excluded [t] :=
  List.forall_mem_singleton.mpr fun _ hb => Terminal.not_admits ht fun he => ha (he ▸ hb)

theorem append (h : Without excluded ts) (h' : Without excluded us) :
    Without excluded (ts ++ us) :=
  List.forall_mem_append.mpr ⟨h, h'⟩

end Token.Without

namespace Parser

open Token (Without)

/-- The reader stops on the tokens `us` before it has read the tokens `rest`: with a
value, or because it fails. -/
def Halts (p : Parser Cursor α) (us rest : List Token) : Prop :=
  (∃ a, p.Reads us a rest) ∨ ∃ reason, p.Fails us reason rest

theorem halts_bind_iff {p : Parser Cursor α} {f : α → Parser Cursor β} {us rest : List Token} :
    (p >>= f).Halts us rest ↔
      (∃ reason, p.Fails us reason rest) ∨ ∃ a mid, p.Reads us a mid ∧ (f a).Halts mid rest := by
  constructor
  · intro h
    rcases h with ⟨b, h⟩ | ⟨reason, h⟩
    · obtain ⟨a, mid, ha, hb⟩ := reads_bind_iff.mp h
      exact .inr ⟨a, mid, ha, .inl ⟨b, hb⟩⟩
    · rcases fails_bind_iff.mp h with h | ⟨a, mid, ha, hb⟩
      · exact .inl ⟨reason, h⟩
      · exact .inr ⟨a, mid, ha, .inr ⟨reason, hb⟩⟩
  · intro h
    rcases h with ⟨reason, h⟩ | ⟨a, mid, ha, ⟨b, hb⟩ | ⟨reason, hb⟩⟩
    · exact .inr ⟨reason, fails_bind_iff.mpr (.inl h)⟩
    · exact .inl ⟨b, reads_bind_iff.mpr ⟨a, mid, ha, hb⟩⟩
    · exact .inr ⟨reason, fails_bind_iff.mpr (.inr ⟨a, mid, ha, hb⟩)⟩

theorem halts_many {round : Parser Cursor (Option α)} {us rest : List Token}
    (h : (many round).Halts us rest) :
    ∃ as mid, Rounds round us as mid ∧ round.Halts mid rest := by
  rcases h with ⟨as, h⟩ | ⟨reason, h⟩
  · obtain ⟨bs, mid, o, rounds, hlast⟩ := exists_rounds h
    exact ⟨bs, mid, rounds, .inl ⟨o, hlast⟩⟩
  · obtain ⟨as, mid, rounds, hlast⟩ := fails_many_iff.mp h
    exact ⟨as, mid, rounds, .inr ⟨reason, hlast⟩⟩

/-- The reader goes past no instance of the terminals. -/
def Avoids (excluded : List Terminal) (p : Parser Cursor α) : Prop :=
  ∀ us rest, p.Halts us rest → ∃ ts, us = ts ++ rest ∧ Without excluded ts

namespace Avoids

variable {excluded : List Terminal}

/-! ## The smallest readers -/

/-- A reader that stays where it is avoids everything. -/
theorem of_stays {p : Parser Cursor α} (h : ∀ us rest, p.Halts us rest → rest = us) :
    Avoids excluded p := by
  intro us rest hhalts
  obtain rfl := h us rest hhalts
  exact ⟨[], rfl, .nil⟩

/-- So does a reader that goes past at most one instance of another terminal. -/
theorem of_next {p : Parser Cursor α}
    (h : ∀ us rest, p.Halts us rest →
      rest = us ∨ ∃ a ∉ excluded, ∃ t, us = t :: rest ∧ a.admits t) :
    Avoids excluded p := by
  intro us rest hhalts
  rcases h us rest hhalts with rfl | ⟨a, ha, t, rfl, ht⟩
  · exact ⟨[], rfl, .nil⟩
  · exact ⟨[t], rfl, .single ht ha⟩

theorem pure (a : α) : Avoids excluded (pure a : Parser Cursor α) := by
  refine of_stays ?_
  rintro us rest (⟨b, h⟩ | ⟨reason, h⟩)
  · exact (reads_pure_iff.mp h).2
  · exact absurd h not_fails_pure

theorem fail (what : Expectation) : Avoids excluded (fail what : Parser Cursor α) := by
  refine of_stays ?_
  rintro us rest (⟨a, h⟩ | ⟨reason, h⟩)
  · exact absurd h not_reads_fail
  · exact (fails_fail_iff.mp h).2

theorem tooDeep : Avoids excluded (tooDeep : Parser Cursor α) := by
  refine of_stays ?_
  rintro us rest (⟨a, h⟩ | ⟨reason, h⟩)
  · exact absurd h not_reads_tooDeep
  · exact (fails_tooDeep_iff.mp h).2

theorem sees (a : Terminal) : Avoids excluded (sees a) := by
  refine of_stays ?_
  rintro us rest (⟨b, h⟩ | ⟨reason, h⟩)
  · exact (reads_sees_iff.mp h).2
  · exact absurd h not_fails_sees

theorem take {a : Terminal} (ha : a ∉ excluded) (place : Option String) :
    Avoids excluded (take a place) := by
  refine of_next ?_
  rintro us rest (⟨t, h⟩ | ⟨reason, h⟩)
  · obtain ⟨rfl, ht⟩ := reads_take_iff.mp h
    exact .inr ⟨a, ha, t, rfl, ht⟩
  · exact .inl (fails_take_iff.mp h).2.2

theorem take? {a : Terminal} (ha : a ∉ excluded) : Avoids excluded (take? a) := by
  refine of_next ?_
  rintro us rest (⟨o, h⟩ | ⟨reason, h⟩)
  · cases o with
    | some t =>
      obtain ⟨rfl, ht⟩ := reads_take?_some_iff.mp h
      exact .inr ⟨a, ha, t, rfl, ht⟩
    | none => exact .inl (reads_take?_none_iff.mp h).2
  · exact absurd h not_fails_take?

theorem takeBoth? {first second : Terminal} (hfirst : first ∉ excluded)
    (hsecond : second ∉ excluded) : Avoids excluded (takeBoth? first second) := by
  rintro us rest (⟨o, h⟩ | ⟨reason, h⟩)
  · cases o with
    | some t =>
      obtain ⟨t', rfl, ht', ht⟩ := reads_takeBoth?_some_iff.mp h
      exact ⟨[t', t], rfl, (Without.single ht' hfirst).append (.single ht hsecond)⟩
    | none =>
      obtain ⟨-, rfl⟩ := reads_takeBoth?_none_iff.mp h
      exact ⟨[], rfl, .nil⟩
  · exact absurd h not_fails_takeBoth?

theorem takeFirst? {choices : List γ} {terminal : γ → Terminal}
    (inj : ∀ x y, terminal x = terminal y → x = y) (h : ∀ x ∈ choices, terminal x ∉ excluded) :
    Avoids excluded (takeFirst? choices terminal) := by
  refine of_next ?_
  rintro us rest (⟨o, ho⟩ | ⟨reason, ho⟩)
  · cases o with
    | some choice =>
      obtain ⟨x, t⟩ := choice
      obtain ⟨rfl, hx, ht⟩ := (reads_takeFirst?_some_iff inj).mp ho
      exact .inr ⟨terminal x, h x hx, t, rfl, ht⟩
    | none => exact .inl (reads_takeFirst?_none_iff.mp ho).2
  · exact absurd ho not_fails_takeFirst?

/-! ## One reader after another -/

theorem bind {p : Parser Cursor α} {f : α → Parser Cursor β} (hp : Avoids excluded p)
    (hf : ∀ a, Avoids excluded (f a)) : Avoids excluded (p >>= f) := by
  intro us rest h
  rcases halts_bind_iff.mp h with ⟨reason, hfail⟩ | ⟨a, mid, ha, hnext⟩
  · exact hp us rest (.inr ⟨reason, hfail⟩)
  · obtain ⟨ts, rfl, hts⟩ := hp us mid (.inl ⟨a, ha⟩)
    obtain ⟨vs, rfl, hvs⟩ := hf a mid rest hnext
    exact ⟨ts ++ vs, (List.append_assoc _ _ _).symm, hts.append hvs⟩

theorem option_bind {p : Parser Cursor (Option γ)} {f : Option γ → Parser Cursor β}
    (hp : Avoids excluded p)
    (hsome : ∀ t, Avoids excluded (f (some t))) (hnone : Avoids excluded (f none)) :
    Avoids excluded (p >>= f) := by
  refine hp.bind fun o => ?_
  cases o with
  | some t => exact hsome t
  | none => exact hnone

theorem take?_bind {a : Terminal} (ha : a ∉ excluded) {f : Option Token → Parser Cursor β}
    (hsome : ∀ t, Avoids excluded (f (some t))) (hnone : Avoids excluded (f none)) :
    Avoids excluded (Parser.take? a >>= f) :=
  (take? ha).option_bind hsome hnone

theorem sees_bind {a : Terminal} {f : Bool → Parser Cursor β} (htrue : Avoids excluded (f true))
    (hfalse : Avoids excluded (f false)) : Avoids excluded (Parser.sees a >>= f) := by
  refine (sees a).bind fun b => ?_
  cases b with
  | true => exact htrue
  | false => exact hfalse

/-! ## Loops -/

theorem rounds {round : Parser Cursor (Option α)} (h : Avoids excluded round) {us mid : List Token}
    {as : List α} (rounds : Rounds round us as mid) :
    ∃ ts, us = ts ++ mid ∧ Without excluded ts := by
  induction rounds with
  | nil us => exact ⟨[], rfl, .nil⟩
  | cons hr _ _ ih =>
    obtain ⟨ts, rfl, hts⟩ := h _ _ (.inl ⟨_, hr⟩)
    obtain ⟨vs, rfl, hvs⟩ := ih
    exact ⟨ts ++ vs, (List.append_assoc _ _ _).symm, hts.append hvs⟩

theorem many {round : Parser Cursor (Option α)} (h : Avoids excluded round) :
    Avoids excluded (many round) := by
  intro us rest hhalts
  obtain ⟨as, mid, rounds, hlast⟩ := halts_many hhalts
  obtain ⟨ts, rfl, hts⟩ := h.rounds rounds
  obtain ⟨vs, rfl, hvs⟩ := h mid rest hlast
  exact ⟨ts ++ vs, (List.append_assoc _ _ _).symm, hts.append hvs⟩

theorem another {separator : Terminal} (hs : separator ∉ excluded) {item : Parser Cursor α}
    (h : Avoids excluded item) : Avoids excluded (another separator item) :=
  .take?_bind hs (fun _ => h.bind fun a => .pure (some a)) (.pure none)

theorem separated {separator : Terminal} (hs : separator ∉ excluded) {item : Parser Cursor α}
    (h : Avoids excluded item) : Avoids excluded (separated separator item) :=
  h.bind fun first => (another hs h).many.bind fun others => .pure (first :: others)

theorem repeated (start : Terminal) {item : Parser Cursor α} (h : Avoids excluded item) :
    Avoids excluded (repeated start item) := by
  have hround : Avoids excluded (oneMore start item) :=
    .sees_bind (h.bind fun a => .pure (some a)) (.pure none)
  exact h.bind fun first => hround.many.bind fun others => .pure (first :: others)

end Avoids
end Parser
end PascalSyntax
