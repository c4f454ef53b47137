import PascalSyntax.Proofs.Grammar.Derivation
import PascalSyntax.Proofs.Parser.Failing

/-!
# Viable prefixes

Some tokens are a viable prefix for a phrase if something can be written after
them so that the whole derives from it.  A reader tracks a phrase if all that
it reads derives from the phrase, and if it is stuck, for want of something, only
after a viable prefix that what it wants would continue (`Parser.Tracks`).

Every phrase of the grammar derives something, so a prefix that is viable for a
part of a phrase is viable for the phrase.
-/

namespace PascalSyntax

open Nonterminal (rule)

/-! ## Phrases that derive something -/

theorem Terminal.exists_admits (a : Terminal) : ∃ t : Token, a.admits t = true := by
  cases a with
  | symbol text => exact ⟨⟨.symbol, text, .start⟩, by simp [admits]⟩
  | word text => exact ⟨⟨.reservedWord, text, .start⟩, by simp [admits]⟩
  | identifier => exact ⟨⟨.identifier, "", .start⟩, rfl⟩
  | number => exact ⟨⟨.number, "", .start⟩, rfl⟩
  | string => exact ⟨⟨.string, "", .start⟩, rfl⟩

/-- The phrase derives something if each of the nonterminals `known` does. -/
def Phrase.derivable (known : Nonterminal → Bool) : Phrase Nonterminal → Bool
  | .empty => true
  | .oneOf choices => !choices.isEmpty
  | .integerLiteral => false
  | .nonterminal n => known n
  | .sequence p q => p.derivable known && q.derivable known
  | .choice p q => p.derivable known || q.derivable known
  | .many _ => true

theorem Phrase.exists_derives {known : Nonterminal → Bool}
    (hknown : ∀ n, known n = true → ∃ ts, n.Derives ts) {p : Phrase Nonterminal}
    (h : p.derivable known = true) : ∃ ts, Derives rule p ts := by
  induction p with
  | empty => exact ⟨[], .empty⟩
  | oneOf choices =>
    cases choices with
    | nil => cases h
    | cons a choices =>
      obtain ⟨t, ht⟩ := a.exists_admits
      exact ⟨[t], .oneOf List.mem_cons_self ht⟩
  | integerLiteral => cases h
  | nonterminal n => exact hknown n h
  | sequence p q ihp ihq =>
    obtain ⟨hp, hq⟩ := Bool.and_eq_true_iff.mp h
    obtain ⟨ts, hts⟩ := ihp hp
    obtain ⟨us, hus⟩ := ihq hq
    exact ⟨ts ++ us, .sequence hts hus⟩
  | choice p q ihp ihq =>
    obtain hp | hq := (Bool.or_eq_true _ _).mp h
    · obtain ⟨ts, hts⟩ := ihp hp
      exact ⟨ts, .first hts⟩
    · obtain ⟨ts, hts⟩ := ihq hq
      exact ⟨ts, .second hts⟩
  | many p => exact ⟨[], .done⟩

namespace Nonterminal

/-- An order in which each nonterminal can be derived after those before it. -/
def height : Nonterminal → Nat
  | primary | call | formals | parameterGroup | block | varGroup => 0
  | unary | statement | varSection | routine | program => 1
  | term => 2
  | additive => 3
  | expression => 4
  | assignment | conditional | whileLoop | forLoop | constSection => 5

theorem exists_derives (n : Nonterminal) : ∃ ts, n.Derives ts := by
  induction hn : n.height using Nat.strongRecOn generalizing n with
  | ind h ih =>
    have hrule : (rule n).derivable (fun m => decide (m.height < n.height)) = true := by
      cases n <;> decide
    obtain ⟨ts, hts⟩ := Phrase.exists_derives
      (fun m hm => ih m.height (hn ▸ of_decide_eq_true hm) m rfl) hrule
    exact ⟨ts, .nonterminal hts⟩

end Nonterminal

/-! ## Viable prefixes -/

namespace Phrase

/-- Something that derives from the phrase starts with these tokens. -/
def Viable (p : Phrase Nonterminal) (front : List Token) : Prop :=
  ∃ back, Derives rule p (front ++ back)

/-- What is expected may come next: any instance of the terminals that are
named, some statement, some expression. -/
def Continues (p : Phrase Nonterminal) (front : List Token) : Expectation → Prop
  | .oneOf choices _ => ∀ a ∈ choices, ∀ t, a.admits t = true → p.Viable (front ++ [t])
  | .statement => ∃ ts, Nonterminal.statement.Derives ts ∧ p.Viable (front ++ ts)
  | .expression => ∃ ts, Nonterminal.expression.Derives ts ∧ p.Viable (front ++ ts)
  | .endOfInput => False
  | .described _ => False

/-- The prefix is viable and can be continued with what is expected. -/
structure Stuck (p : Phrase Nonterminal) (front : List Token) (what : Expectation) : Prop where
  viable : p.Viable front
  continues : p.Continues front what

/-- Any phrase with no empty choice derives something. -/
theorem viable_nil {p : Phrase Nonterminal} (h : p.derivable (fun _ => true) = true) :
    p.Viable [] :=
  exists_derives (fun n _ => n.exists_derives) h

theorem viable_nonterminal (n : Nonterminal) : (nonterminal n).Viable [] :=
  n.exists_derives

/-- What derives from `p` is part of what derives from `q`, after the tokens
`front`. -/
def Embeds (p q : Phrase Nonterminal) (front : List Token) : Prop :=
  ∀ ts, Derives rule p ts → ∃ back, Derives rule q (front ++ (ts ++ back))

section Embeds

variable {p q : Phrase Nonterminal} {front middle : List Token}

theorem Embeds.of_forall (h : ∀ ts, Derives rule p ts → Derives rule q (front ++ ts)) :
    Embeds p q front := by
  intro ts hts
  refine ⟨[], ?_⟩
  rw [List.append_nil]
  exact h ts hts

theorem Viable.embed (h : p.Viable middle) (hq : Embeds p q front) :
    q.Viable (front ++ middle) := by
  obtain ⟨back, hback⟩ := h
  obtain ⟨last, hlast⟩ := hq _ hback
  refine ⟨back ++ last, ?_⟩
  simpa only [List.append_assoc] using hlast

/-- A prefix that is stuck in a part is stuck in the whole. -/
theorem Stuck.embed {what : Expectation} (h : p.Stuck middle what) (hq : Embeds p q front) :
    q.Stuck (front ++ middle) what := by
  refine ⟨h.viable.embed hq, ?_⟩
  have hcontinues := h.continues
  cases what with
  | oneOf choices place =>
    intro a ha t ht
    rw [List.append_assoc]
    exact (hcontinues a ha t ht).embed hq
  | statement =>
    obtain ⟨ts, hts, hviable⟩ := hcontinues
    refine ⟨ts, hts, ?_⟩
    rw [List.append_assoc]
    exact hviable.embed hq
  | expression =>
    obtain ⟨ts, hts, hviable⟩ := hcontinues
    refine ⟨ts, hts, ?_⟩
    rw [List.append_assoc]
    exact hviable.embed hq
  | endOfInput => exact hcontinues
  | described text => exact hcontinues

theorem Stuck.weaken {what : Expectation} (h : p.Stuck front what)
    (hq : ∀ ts, Derives rule p ts → Derives rule q ts) : q.Stuck front what := by
  have hembeds : Embeds p q [] := .of_forall hq
  exact h.embed hembeds

end Embeds
end Phrase

namespace Parser

open Phrase (Embeds)

/-- Whatever is read derives from the phrase, and what is missing would go on
with a viable prefix of it. -/
structure Tracks (p : Parser Cursor α) (φ : Phrase Nonterminal) : Prop where
  derives : ∀ us a rest, p.Reads us a rest → ∃ ts, us = ts ++ rest ∧ Derives rule φ ts
  stuck : ∀ us what rest, p.Fails us (.expected what) rest →
    ∃ front, us = front ++ rest ∧ φ.Stuck front what

namespace Tracks

variable {φ ψ : Phrase Nonterminal}

theorem weaken {p : Parser Cursor α} (h : Tracks p φ)
    (hψ : ∀ ts, Derives rule φ ts → Derives rule ψ ts) : Tracks p ψ where
  derives := by
    intro us a rest hr
    obtain ⟨ts, hts, hd⟩ := h.derives us a rest hr
    exact ⟨ts, hts, hψ ts hd⟩
  stuck := by
    intro us what rest hf
    obtain ⟨front, hfront, hstuck⟩ := h.stuck us what rest hf
    exact ⟨front, hfront, hstuck.weaken hψ⟩

/-- A reader tracks a nonterminal if it tracks the rule for it. -/
theorem nonterminal {p : Parser Cursor α} {n : Nonterminal} (h : Tracks p (rule n)) :
    Tracks p (.nonterminal n) :=
  h.weaken fun _ => .nonterminal

/-! ## The smallest readers -/

theorem pure (a : α) : Tracks (pure a : Parser Cursor α) .empty where
  derives := by
    intro us b rest h
    obtain ⟨-, rfl⟩ := reads_pure_iff.mp h
    exact ⟨[], rfl, .empty⟩
  stuck := fun _ _ _ h => absurd h not_fails_pure

theorem tooDeep : Tracks (tooDeep : Parser Cursor α) φ where
  derives := fun _ _ _ h => absurd h not_reads_tooDeep
  stuck := by
    intro us what rest h
    obtain ⟨he, -⟩ := fails_tooDeep_iff.mp h
    cases he

theorem fail {what : Expectation} (h : φ.Stuck [] what) :
    Tracks (fail what : Parser Cursor α) φ where
  derives := fun _ _ _ h => absurd h not_reads_fail
  stuck := by
    intro us what' rest hf
    obtain ⟨he, rfl⟩ := fails_fail_iff.mp hf
    cases he
    exact ⟨[], rfl, h⟩

/-- Nothing was read where one of some terminals is expected. -/
theorem stuck_oneOf {choices : List Terminal} (hne : choices ≠ []) (place : Option String) :
    (Phrase.oneOf choices : Phrase Nonterminal).Stuck [] (.oneOf choices place) := by
  refine ⟨?_, fun a ha t ht => ⟨[], .oneOf ha ht⟩⟩
  obtain ⟨a, as, rfl⟩ := List.exists_cons_of_ne_nil hne
  obtain ⟨t, ht⟩ := a.exists_admits
  exact ⟨[t], .oneOf List.mem_cons_self ht⟩

theorem take (a : Terminal) (place : Option String) : Tracks (take a place) (.oneOf [a]) where
  derives := by
    intro us t rest h
    obtain ⟨rfl, ht⟩ := reads_take_iff.mp h
    exact ⟨[t], rfl, .token ht⟩
  stuck := by
    intro us what rest h
    obtain ⟨-, he, rfl⟩ := fails_take_iff.mp h
    cases he
    exact ⟨[], rfl, stuck_oneOf (List.cons_ne_nil a []) place⟩

/-! ## One reader after another -/

theorem map {p : Parser Cursor α} (h : Tracks p φ) (f : α → β) :
    Tracks (p >>= fun a => Pure.pure (f a)) φ where
  derives := by
    intro us b rest hr
    obtain ⟨a, mid, ha, hb⟩ := reads_bind_iff.mp hr
    obtain ⟨-, rfl⟩ := reads_pure_iff.mp hb
    exact h.derives us a rest ha
  stuck := by
    intro us what rest hf
    rcases fails_bind_iff.mp hf with hf | ⟨a, mid, -, hf⟩
    · exact h.stuck us what rest hf
    · exact absurd hf not_fails_pure

/-- What the first reader has read may settle which phrase the second tracks. -/
theorem bind {p : Parser Cursor α} {f : α → Parser Cursor β} (hp : Tracks p φ)
    (hfirst : ∀ ts, Derives rule φ ts → ψ.Viable ts)
    (hf : ∀ ts a rest, p.Reads (ts ++ rest) a rest → Derives rule φ ts →
      ∃ χ, Tracks (f a) χ ∧ ∀ us, Derives rule χ us → Derives rule ψ (ts ++ us)) :
    Tracks (p >>= f) ψ where
  derives := by
    intro us b rest h
    obtain ⟨a, mid, ha, hb⟩ := reads_bind_iff.mp h
    obtain ⟨ts, rfl, hts⟩ := hp.derives _ _ _ ha
    obtain ⟨χ, hχ, hwhole⟩ := hf ts a mid ha hts
    obtain ⟨vs, rfl, hvs⟩ := hχ.derives _ _ _ hb
    exact ⟨ts ++ vs, (List.append_assoc _ _ _).symm, hwhole vs hvs⟩
  stuck := by
    intro us what rest h
    rcases fails_bind_iff.mp h with h | ⟨a, mid, ha, hb⟩
    · obtain ⟨front, rfl, hstuck⟩ := hp.stuck _ _ _ h
      have hembeds : Embeds φ ψ [] := hfirst
      exact ⟨front, rfl, hstuck.embed hembeds⟩
    · obtain ⟨ts, rfl, hts⟩ := hp.derives _ _ _ ha
      obtain ⟨χ, hχ, hwhole⟩ := hf ts a mid ha hts
      obtain ⟨front, rfl, hstuck⟩ := hχ.stuck _ _ _ hb
      exact ⟨ts ++ front, (List.append_assoc _ _ _).symm, hstuck.embed (.of_forall hwhole)⟩

theorem seq {p : Parser Cursor α} {f : α → Parser Cursor β} (hp : Tracks p φ)
    (hψ : ψ.derivable (fun _ => true) = true) (hf : ∀ a, Tracks (f a) ψ) :
    Tracks (p >>= f) (.sequence φ ψ) := by
  refine hp.bind ?_ fun ts a _ _ hts => ⟨ψ, hf a, fun us hus => .sequence hts hus⟩
  obtain ⟨back, hback⟩ := Phrase.viable_nil hψ
  intro ts hts
  exact ⟨back, .sequence hts hback⟩

/-! ## Choices -/

theorem take?_bind {a : Terminal} {f : Option Token → Parser Cursor β}
    (hsome : ∀ t, Tracks (f (some t)) φ) (hnone : Tracks (f none) ψ) :
    Tracks (take? a >>= f) (.choice (.sequence (.oneOf [a]) φ) ψ) where
  derives := by
    intro us b rest h
    rcases reads_take?_bind_iff.mp h with ⟨t, mid, rfl, ht, h⟩ | ⟨-, h⟩
    · obtain ⟨ts, rfl, hts⟩ := (hsome t).derives _ _ _ h
      exact ⟨t :: ts, rfl, .first (.cons ht hts)⟩
    · obtain ⟨ts, rfl, hts⟩ := hnone.derives _ _ _ h
      exact ⟨ts, rfl, .second hts⟩
  stuck := by
    intro us what rest h
    rcases fails_take?_bind_iff.mp h with ⟨t, mid, rfl, ht, h⟩ | ⟨-, h⟩
    · obtain ⟨front, rfl, hstuck⟩ := (hsome t).stuck _ _ _ h
      have hembeds : Embeds φ (.choice (.sequence (.oneOf [a]) φ) ψ) [t] :=
        .of_forall fun us hus => .first (.cons ht hus)
      exact ⟨t :: front, rfl, hstuck.embed hembeds⟩
    · obtain ⟨front, rfl, hstuck⟩ := hnone.stuck _ _ _ h
      exact ⟨front, rfl, hstuck.weaken fun _ => .second⟩

theorem sees_bind {a : Terminal} {f : Bool → Parser Cursor β} (htrue : Tracks (f true) φ)
    (hfalse : Tracks (f false) ψ) : Tracks (sees a >>= f) (.choice φ ψ) where
  derives := by
    intro us b rest h
    rcases reads_sees_bind_iff.mp h with ⟨-, h⟩ | ⟨-, h⟩
    · exact (htrue.weaken fun _ => .first).derives _ _ _ h
    · exact (hfalse.weaken fun _ => .second).derives _ _ _ h
  stuck := by
    intro us what rest h
    rcases fails_sees_bind_iff.mp h with ⟨-, h⟩ | ⟨-, h⟩
    · exact (htrue.weaken fun _ => .first).stuck _ _ _ h
    · exact (hfalse.weaken fun _ => .second).stuck _ _ _ h

theorem takeFirst?_bind {choices : List γ} {terminal : γ → Terminal}
    {f : Option (γ × Token) → Parser Cursor β} (inj : ∀ x y, terminal x = terminal y → x = y)
    (hsome : ∀ x t, Tracks (f (some (x, t))) φ) (hnone : Tracks (f none) ψ) :
    Tracks (takeFirst? choices terminal >>= f)
      (.choice (.sequence (.oneOf (choices.map terminal)) φ) ψ) where
  derives := by
    intro us b rest h
    obtain ⟨o, mid, ho, hread⟩ := reads_bind_iff.mp h
    cases o with
    | some choice =>
      obtain ⟨x, t⟩ := choice
      obtain ⟨rfl, hx, ht⟩ := (reads_takeFirst?_some_iff inj).mp ho
      obtain ⟨ts, rfl, hts⟩ := (hsome x t).derives _ _ _ hread
      exact ⟨t :: ts, rfl, .first (.sequence (.oneOf (List.mem_map_of_mem hx) ht) hts)⟩
    | none =>
      obtain ⟨-, rfl⟩ := reads_takeFirst?_none_iff.mp ho
      exact (hnone.weaken fun _ => .second).derives _ _ _ hread
  stuck := by
    intro us what rest h
    rcases fails_bind_iff.mp h with hfail | ⟨o, mid, ho, hfail⟩
    · exact absurd hfail not_fails_takeFirst?
    · cases o with
      | some choice =>
        obtain ⟨x, t⟩ := choice
        obtain ⟨rfl, hx, ht⟩ := (reads_takeFirst?_some_iff inj).mp ho
        obtain ⟨front, rfl, hstuck⟩ := (hsome x t).stuck _ _ _ hfail
        have hembeds : Embeds φ (.choice (.sequence (.oneOf (choices.map terminal)) φ) ψ) [t] :=
          .of_forall fun us hus => .first (.sequence (.oneOf (List.mem_map_of_mem hx) ht) hus)
        exact ⟨t :: front, rfl, hstuck.embed hembeds⟩
      | none =>
        obtain ⟨-, rfl⟩ := reads_takeFirst?_none_iff.mp ho
        exact (hnone.weaken fun _ => .second).stuck _ _ _ hfail

/-! ## Loops -/

/-- One more of many, if it is there. -/
theorem optional_snoc {us ts : List Token} (h : Derives rule φ.many us)
    (h' : Derives rule φ.optional ts) : Derives rule φ.many (us ++ ts) := by
  cases h' with
  | first h' => exact h.snoc h'
  | second h' =>
    cases h'
    rwa [List.append_nil]

theorem rounds {round : Parser Cursor (Option α)} (h : Tracks round φ.optional)
    {us mid : List Token} {as : List α} (rounds : Rounds round us as mid) :
    ∃ ts, us = ts ++ mid ∧ Derives rule φ.many ts := by
  induction rounds with
  | nil us => exact ⟨[], rfl, .done⟩
  | cons hr _ _ ih =>
    obtain ⟨vs, rfl, hvs⟩ := ih
    obtain ⟨ts, rfl, hts⟩ := h.derives _ _ _ hr
    refine ⟨ts ++ vs, (List.append_assoc _ _ _).symm, ?_⟩
    cases hts with
    | first hts => exact .more hts hvs
    | second hts =>
      cases hts
      exact hvs

theorem many {round : Parser Cursor (Option α)} (h : Tracks round φ.optional) :
    Tracks (many round) φ.many where
  derives := by
    intro us as rest hm
    obtain ⟨_, mid, _, hrounds, last⟩ := exists_rounds hm
    obtain ⟨ts, rfl, hts⟩ := h.rounds hrounds
    obtain ⟨vs, rfl, hvs⟩ := h.derives _ _ _ last
    exact ⟨ts ++ vs, (List.append_assoc _ _ _).symm, optional_snoc hts hvs⟩
  stuck := by
    intro us what rest hm
    obtain ⟨as, mid, hrounds, last⟩ := fails_many_iff.mp hm
    obtain ⟨ts, rfl, hts⟩ := h.rounds hrounds
    obtain ⟨front, rfl, hstuck⟩ := h.stuck _ _ _ last
    exact ⟨ts ++ front, (List.append_assoc _ _ _).symm,
      hstuck.embed (.of_forall fun _ => optional_snoc hts)⟩

theorem another (separator : Terminal) {item : Parser Cursor α} (h : Tracks item φ) :
    Tracks (another separator item) (Phrase.concat [.oneOf [separator], φ]).optional :=
  take?_bind (fun _ => h.map some) (pure none)

theorem oneMore (start : Terminal) {item : Parser Cursor α} (h : Tracks item φ) :
    Tracks (oneMore start item) φ.optional :=
  sees_bind (h.map some) (pure none)

theorem separated (separator : String) {item : Parser Cursor α} (h : Tracks item φ) :
    Tracks (separated (.symbol separator) item) (φ.list separator) := by
  rw [Parser.separated]
  exact h.seq rfl fun first => (h.another (.symbol separator)).many.map (first :: ·)

theorem repeated (start : Terminal) {item : Parser Cursor α} (h : Tracks item φ) :
    Tracks (repeated start item) φ.some := by
  rw [Parser.repeated]
  exact h.seq rfl fun first => (h.oneMore start).many.map (first :: ·)

end Tracks
end Parser
end PascalSyntax
