import PascalSyntax.Proofs.Parser.Failing

/-!
# Readers that agree

Two runs of the parser are compared: on two lists of tokens that differ in
nothing but positions, and with two bounds on the nesting, of which the second is
no smaller.  The positions that still count are those that a map `g` keeps apart.
With the identity the tokens are the same and only the bounds differ; with a
constant map the positions count for nothing.

`Agrees g view p q` says that `q` does all that `p` does, up to `g`, unless `p`
has no level of nesting left.  Then nothing is said: `Parser.tooDeep` agrees with
every reader, and this is what lets a bound be compared with a larger one.  What
is made of readers that agree agrees again, so that one lemma for each reader
carries both comparisons.
-/

namespace PascalSyntax

/-- The origin at another position. -/
def Origin.mapPosition (g : Position → Position) (o : Origin) : Origin :=
  { o with position := g o.position }

namespace Token

/-- The token at another position. -/
def mapPosition (g : Position → Position) (t : Token) : Token :=
  { t with position := g t.position }

/-- The tokens are the same but for positions that `g` does not keep apart. -/
def Alike (g : Position → Position) (us vs : List Token) : Prop :=
  us.map (mapPosition g) = vs.map (mapPosition g)

section Alike

variable {g : Position → Position} {t u : Token}

theorem kind_eq_of_mapPosition (h : t.mapPosition g = u.mapPosition g) : t.kind = u.kind := by
  have hkind : (t.mapPosition g).kind = (u.mapPosition g).kind := by rw [h]
  exact hkind

theorem text_eq_of_mapPosition (h : t.mapPosition g = u.mapPosition g) : t.text = u.text := by
  have htext : (t.mapPosition g).text = (u.mapPosition g).text := by rw [h]
  exact htext

theorem origin_of_mapPosition (h : t.mapPosition g = u.mapPosition g) :
    t.origin.mapPosition g = u.origin.mapPosition g := by
  have horigin : (t.mapPosition g).origin = (u.mapPosition g).origin := by rw [h]
  exact horigin

theorem terminal?_of_mapPosition (h : t.mapPosition g = u.mapPosition g) :
    t.terminal? = u.terminal? := by
  rw [terminal?, terminal?, kind_eq_of_mapPosition h, text_eq_of_mapPosition h]

/-- Where a token is makes no difference to what it is an instance of. -/
theorem admits_of_mapPosition (h : t.mapPosition g = u.mapPosition g) {a : Terminal}
    (ht : a.admits t = true) : a.admits u = true := by
  rw [Terminal.admits_iff] at ht ⊢
  rw [← terminal?_of_mapPosition h]
  exact ht

namespace Alike

variable {us vs : List Token}

theorem length_eq (h : Alike g us vs) : us.length = vs.length := by
  have hlength := congrArg List.length h
  rwa [List.length_map, List.length_map] at hlength

theorem eq_nil (h : Alike g [] vs) : vs = [] := by
  have hlength := h.length_eq
  exact List.eq_nil_of_length_eq_zero hlength.symm

theorem exists_cons (h : Alike g (t :: us) vs) :
    ∃ u vs', vs = u :: vs' ∧ t.mapPosition g = u.mapPosition g ∧ Alike g us vs' := by
  cases vs with
  | nil =>
    have hlength := h.length_eq
    exact absurd hlength (Nat.succ_ne_zero _)
  | cons u vs' =>
    have hcons : t.mapPosition g :: us.map (mapPosition g) =
        u.mapPosition g :: vs'.map (mapPosition g) := h
    exact ⟨u, vs', rfl, (List.cons.inj hcons).1, (List.cons.inj hcons).2⟩

theorem tail (h : Alike g us vs) : Alike g us.tail vs.tail := by
  have htail := congrArg List.tail h
  rwa [← List.map_tail, ← List.map_tail] at htail

theorem front?_eq (h : Alike g us vs) : front? us = front? vs := by
  cases us with
  | nil => rw [h.eq_nil]
  | cons t us =>
    obtain ⟨u, vs', rfl, hu, -⟩ := h.exists_cons
    exact terminal?_of_mapPosition hu

end Alike
end Alike
end Token

/-- The reason with its literal at another position. -/
def Reason.mapPosition (g : Position → Position) : Reason → Reason
  | .expected what => .expected what
  | .integerOutOfRange literal => .integerOutOfRange (literal.mapPosition g)
  | .nestingTooDeep => .nestingTooDeep

namespace Parser

open Token (Alike)

/-- Unless it has no level of nesting left, the reader `p` does on some tokens
what `q` does on tokens that are alike: it reads a value that looks the same, or
fails for the same reason, and what is left is alike again. -/
structure Agrees (g : Position → Position) (view : α → γ) (p q : Parser Cursor α) : Prop where
  reads : ∀ {us vs : List Token}, Alike g us vs → ∀ {a rest}, p.Reads us a rest →
    ∃ b rest', q.Reads vs b rest' ∧ view a = view b ∧ Alike g rest rest'
  fails : ∀ {us vs : List Token}, Alike g us vs → ∀ {reason rest}, p.Fails us reason rest →
    reason ≠ .nestingTooDeep → ∃ reason' rest', q.Fails vs reason' rest' ∧
      reason.mapPosition g = reason'.mapPosition g ∧ Alike g rest rest'

namespace Agrees

variable {g : Position → Position} {view : α → γ} {view' : β → δ}

/-! ## The smallest readers -/

theorem pure {a b : α} (h : view a = view b) :
    Agrees g view (pure a : Parser Cursor α) (pure b) := by
  refine ⟨?_, fun _ _ _ hfails => absurd hfails not_fails_pure⟩
  intro us vs halike a' rest hreads
  obtain ⟨rfl, rfl⟩ := reads_pure_iff.mp hreads
  exact ⟨b, vs, reads_pure_iff.mpr ⟨rfl, rfl⟩, h, halike⟩

theorem fail (what : Expectation) : Agrees g view (fail what : Parser Cursor α) (fail what) := by
  refine ⟨fun _ _ _ hreads => absurd hreads not_reads_fail, ?_⟩
  intro us vs halike reason rest hfails _
  obtain ⟨rfl, rfl⟩ := fails_fail_iff.mp hfails
  exact ⟨_, vs, fails_fail_iff.mpr ⟨rfl, rfl⟩, rfl, halike⟩

/-- A reader that has no level left is no constraint on the other. -/
theorem tooDeep (q : Parser Cursor α) : Agrees g view tooDeep q := by
  refine ⟨fun _ _ _ hreads => absurd hreads not_reads_tooDeep, ?_⟩
  intro us vs _ reason rest hfails hreason
  exact absurd (fails_tooDeep_iff.mp hfails).1 hreason

theorem take (a : Terminal) (place : Option String) :
    Agrees g (Token.mapPosition g) (take a place) (take a place) := by
  refine ⟨?_, ?_⟩
  · intro us vs halike t rest hreads
    obtain ⟨rfl, ht⟩ := reads_take_iff.mp hreads
    obtain ⟨u, rest', rfl, hu, halike⟩ := halike.exists_cons
    have hadmits := Token.admits_of_mapPosition hu ht
    exact ⟨u, rest', reads_take_iff.mpr ⟨rfl, hadmits⟩, hu, halike⟩
  · intro us vs halike reason rest hfails _
    obtain ⟨hne, rfl, rfl⟩ := fails_take_iff.mp hfails
    rw [halike.front?_eq] at hne
    exact ⟨_, vs, fails_take_iff.mpr ⟨hne, rfl, rfl⟩, rfl, halike⟩

theorem peek? : Agrees g (Option.map (Token.mapPosition g)) peek? peek? := by
  refine ⟨?_, fun _ _ _ hfails => by cases hfails⟩
  intro us vs halike o rest hreads
  obtain ⟨rfl, rfl⟩ := reads_peek?_iff.mp hreads
  have hhead := congrArg List.head? halike
  rw [List.head?_map, List.head?_map] at hhead
  exact ⟨_, vs, reads_peek?_iff.mpr ⟨rfl, rfl⟩, hhead, halike⟩

theorem sees (a : Terminal) : Agrees g id (sees a) (sees a) := by
  refine ⟨?_, fun _ _ _ hfails => absurd hfails not_fails_sees⟩
  intro us vs halike b rest hreads
  obtain ⟨rfl, rfl⟩ := reads_sees_iff.mp hreads
  rw [halike.front?_eq]
  exact ⟨_, vs, reads_sees_iff.mpr ⟨rfl, rfl⟩, rfl, halike⟩

theorem take? (a : Terminal) :
    Agrees g (Option.map (Token.mapPosition g)) (take? a) (take? a) := by
  refine ⟨?_, fun _ _ _ hfails => absurd hfails not_fails_take?⟩
  intro us vs halike o rest hreads
  cases o with
  | none =>
    obtain ⟨hne, rfl⟩ := reads_take?_none_iff.mp hreads
    rw [halike.front?_eq] at hne
    exact ⟨none, vs, reads_take?_none_iff.mpr ⟨hne, rfl⟩, rfl, halike⟩
  | some t =>
    obtain ⟨rfl, ht⟩ := reads_take?_some_iff.mp hreads
    obtain ⟨u, rest', rfl, hu, halike⟩ := halike.exists_cons
    have hadmits := Token.admits_of_mapPosition hu ht
    exact ⟨some u, rest', reads_take?_some_iff.mpr ⟨rfl, hadmits⟩, congrArg some hu, halike⟩

theorem takeBoth? (first second : Terminal) :
    Agrees g (Option.map (Token.mapPosition g)) (takeBoth? first second)
      (takeBoth? first second) := by
  refine ⟨?_, fun _ _ _ hfails => absurd hfails not_fails_takeBoth?⟩
  intro us vs halike o rest hreads
  cases o with
  | none =>
    obtain ⟨hnone, rfl⟩ := reads_takeBoth?_none_iff.mp hreads
    refine ⟨none, vs, reads_takeBoth?_none_iff.mpr ⟨?_, rfl⟩, rfl, halike⟩
    intro u mid' hvs hu
    subst hvs
    obtain ⟨t, mid, rfl, ht, hmid⟩ := Alike.exists_cons halike.symm
    rw [hmid.front?_eq]
    exact hnone t mid rfl (Token.admits_of_mapPosition ht hu)
  | some t =>
    obtain ⟨t', rfl, ht', ht⟩ := reads_takeBoth?_some_iff.mp hreads
    obtain ⟨u', mid', rfl, hu', halike⟩ := halike.exists_cons
    obtain ⟨u, rest', rfl, hu, halike⟩ := halike.exists_cons
    have hfirst := Token.admits_of_mapPosition hu' ht'
    have hsecond := Token.admits_of_mapPosition hu ht
    exact ⟨some u, rest', reads_takeBoth?_some_iff.mpr ⟨u', rfl, hfirst, hsecond⟩,
      congrArg some hu, halike⟩

theorem takeFirst? (choices : List ε) {terminal : ε → Terminal}
    (inj : ∀ x y, terminal x = terminal y → x = y) :
    Agrees g (Option.map (Prod.map id (Token.mapPosition g))) (takeFirst? choices terminal)
      (takeFirst? choices terminal) := by
  refine ⟨?_, fun _ _ _ hfails => absurd hfails not_fails_takeFirst?⟩
  intro us vs halike o rest hreads
  cases o with
  | none =>
    obtain ⟨hne, rfl⟩ := reads_takeFirst?_none_iff.mp hreads
    refine ⟨none, vs, reads_takeFirst?_none_iff.mpr ⟨?_, rfl⟩, rfl, halike⟩
    intro x hx
    rw [← halike.front?_eq]
    exact hne x hx
  | some choice =>
    obtain ⟨x, t⟩ := choice
    obtain ⟨rfl, hx, ht⟩ := (reads_takeFirst?_some_iff inj).mp hreads
    obtain ⟨u, rest', rfl, hu, halike⟩ := halike.exists_cons
    have hadmits := Token.admits_of_mapPosition hu ht
    refine ⟨some (x, u), rest', (reads_takeFirst?_some_iff inj).mpr ⟨rfl, hx, hadmits⟩, ?_, halike⟩
    rw [Option.map_some, Option.map_some, Prod.map_apply, Prod.map_apply, hu]

/-! ## One reader after another -/

theorem bind {p q : Parser Cursor α} {f f' : α → Parser Cursor β} (hp : Agrees g view p q)
    (hf : ∀ a b, view a = view b → Agrees g view' (f a) (f' b)) :
    Agrees g view' (p >>= f) (q >>= f') := by
  refine ⟨?_, ?_⟩
  · intro us vs halike c rest hreads
    obtain ⟨a, mid, ha, hc⟩ := reads_bind_iff.mp hreads
    obtain ⟨b, mid', hb, hview, halike⟩ := hp.reads halike ha
    obtain ⟨d, rest', hd, hview', halike⟩ := (hf a b hview).reads halike hc
    exact ⟨d, rest', reads_bind_iff.mpr ⟨b, mid', hb, hd⟩, hview', halike⟩
  · intro us vs halike reason rest hfails hreason
    rcases fails_bind_iff.mp hfails with hfirst | ⟨a, mid, ha, hnext⟩
    · obtain ⟨reason', rest', hfirst, hsame, halike⟩ := hp.fails halike hfirst hreason
      exact ⟨reason', rest', fails_bind_iff.mpr (.inl hfirst), hsame, halike⟩
    · obtain ⟨b, mid', hb, hview, halike⟩ := hp.reads halike ha
      obtain ⟨reason', rest', hnext, hsame, halike⟩ := (hf a b hview).fails halike hnext hreason
      exact ⟨reason', rest', fails_bind_iff.mpr (.inr ⟨b, mid', hb, hnext⟩), hsame, halike⟩

/-- The value of a reader may be turned into another one. -/
theorem map {p q : Parser Cursor α} {f f' : α → β} (hp : Agrees g view p q)
    (hf : ∀ a b, view a = view b → view' (f a) = view' (f' b)) :
    Agrees g view' (p >>= fun a => Pure.pure (f a)) (q >>= fun b => Pure.pure (f' b)) :=
  hp.bind fun a b h => .pure (hf a b h)

/-- After a reader that may give no value, there is one reader for each case. -/
theorem bindOption {p q : Parser Cursor (Option α)} {f f' : Option α → Parser Cursor β}
    (hp : Agrees g (Option.map view) p q)
    (hsome : ∀ a b, view a = view b → Agrees g view' (f (some a)) (f' (some b)))
    (hnone : Agrees g view' (f none) (f' none)) : Agrees g view' (p >>= f) (q >>= f') := by
  apply hp.bind
  intro o o' h
  cases o with
  | none =>
    cases o' with
    | none => exact hnone
    | some b => exact absurd h.symm (Option.some_ne_none _)
  | some a =>
    cases o' with
    | none => exact absurd h (Option.some_ne_none _)
    | some b => exact hsome a b (Option.some.inj h)

theorem sees_bind {a : Terminal} {f f' : Bool → Parser Cursor β}
    (htrue : Agrees g view' (f true) (f' true)) (hfalse : Agrees g view' (f false) (f' false)) :
    Agrees g view' (Parser.sees a >>= f) (Parser.sees a >>= f') := by
  apply (sees a).bind
  intro b b' h
  have hb : b = b' := h
  subst hb
  cases b with
  | true => exact htrue
  | false => exact hfalse

/-! ## Loops -/

section Loops

variable {round round' : Parser Cursor (Option α)}

/-- Rounds of a loop are matched by rounds of the other loop. -/
theorem rounds (h : Agrees g (Option.map view) round round') {us mid : List Token} {as : List α}
    (hrounds : Rounds round us as mid) {vs : List Token} (halike : Alike g us vs) :
    ∃ bs mid', Rounds round' vs bs mid' ∧ Alike g mid mid' := by
  induction hrounds generalizing vs with
  | nil us => exact ⟨[], vs, .nil vs, halike⟩
  | cons hr hl _ ih =>
    obtain ⟨o, next', hr', hview, hnext⟩ := h.reads halike hr
    obtain ⟨b, rfl, -⟩ := Option.map_eq_some_iff.mp hview.symm
    obtain ⟨bs, mid', hrounds', hmid⟩ := ih hnext
    have hl' : next'.length < vs.length := by
      rw [← hnext.length_eq, ← halike.length_eq]
      exact hl
    exact ⟨b :: bs, mid', .cons hr' hl' hrounds', hmid⟩

theorem many_reads (h : Agrees g (Option.map view) round round') {c d : Cursor} {as : List α}
    (hm : Parser.many round c = .ok (as, d)) {vs : List Token} (halike : Alike g c.rest vs) :
    ∃ bs rest', (Parser.many round').Reads vs bs rest' ∧ as.map view = bs.map view ∧
      Alike g d.rest rest' := by
  fun_induction Parser.many round c generalizing as d vs with
  | case1 c failure hr => cases hm
  | case2 c next hr =>
    cases hm
    obtain ⟨o, rest', hr', hview, hrest⟩ := h.reads halike (reads_iff_ok.mp hr)
    obtain rfl := Option.map_eq_none_iff.mp hview.symm
    exact ⟨[], rest', reads_many_nil hr', rfl, hrest⟩
  | case3 c a next hr hl failure hm' ih => cases hm
  | case4 c a next hr hl as' last hm' ih =>
    cases hm
    obtain ⟨o, mid', hr', hview, hmid⟩ := h.reads halike (reads_iff_ok.mp hr)
    obtain ⟨b, rfl, hb⟩ := Option.map_eq_some_iff.mp hview.symm
    obtain ⟨bs, rest', hothers, hviews, hrest⟩ := ih hm' hmid
    rw [next.left_eq_length, c.left_eq_length, hmid.length_eq, halike.length_eq] at hl
    refine ⟨b :: bs, rest', reads_many_cons hr' hl hothers, ?_, hrest⟩
    rw [List.map_cons, List.map_cons, hb, hviews]
  | case5 c a next hr hl =>
    cases hm
    obtain ⟨o, rest', hr', hview, hrest⟩ := h.reads halike (reads_iff_ok.mp hr)
    obtain ⟨b, rfl, hb⟩ := Option.map_eq_some_iff.mp hview.symm
    rw [next.left_eq_length, c.left_eq_length, hrest.length_eq, halike.length_eq] at hl
    refine ⟨[b], rest', reads_many_idle hr' hl, ?_, hrest⟩
    rw [List.map_singleton, List.map_singleton, hb]

theorem many (h : Agrees g (Option.map view) round round') :
    Agrees g (List.map view) (many round) (many round') := by
  refine ⟨fun halike _ _ hm => h.many_reads hm halike, ?_⟩
  intro us vs halike reason rest hm hreason
  obtain ⟨as, mid, hrounds, hlast⟩ := fails_many_iff.mp hm
  obtain ⟨bs, mid', hrounds', hmid⟩ := h.rounds hrounds halike
  obtain ⟨reason', rest', hlast', hsame, hrest⟩ := h.fails hmid hlast hreason
  exact ⟨reason', rest', hrounds'.fails hlast', hsame, hrest⟩

variable {item item' : Parser Cursor α}

theorem some (h : Agrees g view item item') :
    Agrees g (Option.map view) (item >>= fun a => Pure.pure (Option.some a))
      (item' >>= fun a => Pure.pure (Option.some a)) :=
  h.map fun _ _ hview => congrArg Option.some hview

theorem another (separator : Terminal) (h : Agrees g view item item') :
    Agrees g (Option.map view) (another separator item) (another separator item') :=
  (take? separator).bindOption (fun _ _ _ => h.some) (.pure rfl)

theorem oneMore (start : Terminal) (h : Agrees g view item item') :
    Agrees g (Option.map view) (oneMore start item) (oneMore start item') :=
  .sees_bind h.some (.pure rfl)

theorem separated (separator : Terminal) (h : Agrees g view item item') :
    Agrees g (List.map view) (separated separator item) (separated separator item') := by
  rw [Parser.separated, Parser.separated]
  apply h.bind
  intro first first' hfirst
  apply (h.another separator).many.map
  intro others others' hothers
  rw [List.map_cons, List.map_cons, hfirst, hothers]

theorem repeated (start : Terminal) (h : Agrees g view item item') :
    Agrees g (List.map view) (repeated start item) (repeated start item') := by
  rw [Parser.repeated, Parser.repeated]
  apply h.bind
  intro first first' hfirst
  apply (h.oneMore start).many.map
  intro others others' hothers
  rw [List.map_cons, List.map_cons, hfirst, hothers]

end Loops
end Agrees
end Parser
end PascalSyntax
