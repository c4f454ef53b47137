import PascalSyntax.Proofs.Parser.Loops
import PascalSyntax.Proofs.Text.Numeral

/-!
# Phrases and derivations

A phrase is the right side of a rule of a grammar, as data.  A list of tokens
derives from a phrase if the rules allow it in some way (`Derives`); nothing is
said on which of several ways is meant.

The meaning of a phrase under an interpretation of the nonterminals is defined
by recursion on the phrase.  Derivability is the least interpretation that the
rules are closed under (`Derives.means`), which is what an induction over
derivations needs.
-/

namespace PascalSyntax

/-- The right side of a rule, over the nonterminals `N`. -/
inductive Phrase (N : Type) where
  | empty
  /-- An instance of one of the terminals. -/
  | oneOf (choices : List Terminal)
  /-- A number that fits 64 bits. -/
  | integerLiteral
  | nonterminal (n : N)
  | sequence (p q : Phrase N)
  | choice (p q : Phrase N)
  /-- Any number of times, one after another. -/
  | many (p : Phrase N)

namespace Phrase

variable {N : Type}

def concat : List (Phrase N) → Phrase N
  | [] => empty
  | [p] => p
  | p :: ps => sequence p (concat ps)

def alternatives : List (Phrase N) → Phrase N
  | [] => oneOf []
  | [p] => p
  | p :: ps => choice p (alternatives ps)

def symbol (text : String) : Phrase N := oneOf [.symbol text]

def word (text : String) : Phrase N := oneOf [.word text]

def identifier : Phrase N := oneOf [.identifier]

def stringLiteral : Phrase N := oneOf [.string]

def optional (p : Phrase N) : Phrase N := choice p empty

def some (p : Phrase N) : Phrase N := sequence p (many p)

/-- One or more times, with a separator between each two. -/
def list (separator : String) (p : Phrase N) : Phrase N :=
  sequence p (many (concat [symbol separator, p]))

/-- The tokens that a phrase stands for if each nonterminal stands for what the
interpretation says. -/
def Means (interpretation : N → List Token → Prop) : Phrase N → List Token → Prop
  | empty, ts => ts = []
  | oneOf choices, ts => ∃ t, ts = [t] ∧ ∃ a ∈ choices, a.admits t = true
  | integerLiteral, ts => ∃ t, ts = [t] ∧ Terminal.number.admits t = true ∧
      Numeral.IsSigned t.text.toList
  | nonterminal n, ts => interpretation n ts
  | sequence p q, ts => ∃ us vs, ts = us ++ vs ∧ Means interpretation p us ∧
      Means interpretation q vs
  | choice p q, ts => Means interpretation p ts ∨ Means interpretation q ts
  | many p, ts => ∃ pieces : List (List Token), ts = pieces.flatten ∧
      ∀ us ∈ pieces, Means interpretation p us

section Means

variable {interpretation : N → List Token → Prop} {p q : Phrase N} {ts : List Token}

theorem means_token {a : Terminal} :
    (oneOf [a]).Means interpretation ts ↔ ∃ t, ts = [t] ∧ a.admits t = true := by
  simp [Means]

theorem means_cons {a : Terminal} :
    (sequence (oneOf [a]) p).Means interpretation ts ↔
      ∃ t us, ts = t :: us ∧ a.admits t = true ∧ p.Means interpretation us := by
  constructor
  · intro h
    rcases h with ⟨us, vs, rfl, h, hp⟩
    obtain ⟨t, rfl, ht⟩ := means_token.mp h
    exact ⟨t, vs, rfl, ht, hp⟩
  · intro h
    rcases h with ⟨t, us, rfl, ht, hp⟩
    exact ⟨[t], us, rfl, means_token.mpr ⟨t, rfl, ht⟩, hp⟩

theorem means_optional :
    p.optional.Means interpretation ts ↔ p.Means interpretation ts ∨ ts = [] := Iff.rfl

/-- If each item stands for something, so do all in a row.  The items are no
longer than the whole. -/
theorem Means.sequence {spells : α → List Token → Prop} (h : p.many.Means interpretation ts)
    (each : ∀ us, us.length ≤ ts.length → p.Means interpretation us → ∃ a, spells a us) :
    ∃ as, Sequence spells as ts := by
  obtain ⟨pieces, rfl, hpieces⟩ := h
  induction pieces with
  | nil => exact ⟨[], .nil⟩
  | cons us pieces ih =>
    have hl : (us :: pieces).flatten.length = us.length + pieces.flatten.length := by
      rw [List.flatten_cons, List.length_append]
    obtain ⟨a, ha⟩ := each us (by omega) (hpieces us List.mem_cons_self)
    obtain ⟨as, has⟩ := ih (fun vs hvs => hpieces vs (List.mem_cons_of_mem _ hvs))
      fun vs hvs => each vs (by omega)
    exact ⟨a :: as, .cons ha has⟩

theorem Means.someSequence {spells : α → List Token → Prop} (h : p.some.Means interpretation ts)
    (each : ∀ us, us.length ≤ ts.length → p.Means interpretation us → ∃ a, spells a us) :
    ∃ as, as ≠ [] ∧ Sequence spells as ts := by
  obtain ⟨us, vs, rfl, hp, hmany⟩ := h
  rw [List.length_append] at each
  obtain ⟨a, ha⟩ := each us (by omega) hp
  obtain ⟨as, has⟩ := hmany.sequence fun ws hws => each ws (by omega)
  exact ⟨a :: as, List.cons_ne_nil _ _, .cons ha has⟩

/-- If each item of a list stands for something, so does the list. -/
theorem Means.separated {separator : String} {spells : α → List Token → Prop}
    (h : (p.list separator).Means interpretation ts)
    (each : ∀ us, us.length ≤ ts.length → p.Means interpretation us → ∃ a, spells a us) :
    ∃ as, Separated (.symbol separator) spells as ts := by
  obtain ⟨us, vs, rfl, hp, pieces, rfl, hpieces⟩ := h
  induction pieces generalizing us with
  | nil =>
    obtain ⟨a, ha⟩ := each us (by simp) hp
    rw [List.flatten_nil, List.append_nil]
    exact ⟨[a], .single ha⟩
  | cons vs pieces ih =>
    rw [List.flatten_cons] at each ⊢
    obtain ⟨t, ws, rfl, ht, hws⟩ := means_cons.mp (hpieces vs List.mem_cons_self)
    simp only [List.length_append, List.length_cons] at each
    obtain ⟨a, ha⟩ := each us (by omega) hp
    have hshorter : ∀ xs, xs.length ≤ (ws ++ pieces.flatten).length →
        p.Means interpretation xs → ∃ a, spells a xs := by
      intro xs hxs
      rw [List.length_append] at hxs
      exact each xs (by omega)
    obtain ⟨as, has⟩ := ih ws hws (fun xs hxs => hpieces xs (List.mem_cons_of_mem _ hxs)) hshorter
    exact ⟨a :: as, .cons ha ht has⟩

end Means
end Phrase

/-- The tokens derive from the phrase under the rules. -/
inductive Derives {N : Type} (rule : N → Phrase N) : Phrase N → List Token → Prop
  | empty : Derives rule .empty []
  | oneOf {choices : List Terminal} {a : Terminal} {t : Token} :
      a ∈ choices → a.admits t → Derives rule (.oneOf choices) [t]
  | integerLiteral {t : Token} : Terminal.number.admits t → Numeral.IsSigned t.text.toList →
      Derives rule .integerLiteral [t]
  | nonterminal {n : N} {ts : List Token} :
      Derives rule (rule n) ts → Derives rule (.nonterminal n) ts
  | sequence {p q : Phrase N} {ts us : List Token} :
      Derives rule p ts → Derives rule q us → Derives rule (.sequence p q) (ts ++ us)
  | first {p q : Phrase N} {ts : List Token} : Derives rule p ts → Derives rule (.choice p q) ts
  | second {p q : Phrase N} {ts : List Token} : Derives rule q ts → Derives rule (.choice p q) ts
  | done {p : Phrase N} : Derives rule (.many p) []
  | more {p : Phrase N} {ts us : List Token} :
      Derives rule p ts → Derives rule (.many p) us → Derives rule (.many p) (ts ++ us)

namespace Derives

variable {N : Type} {rule : N → Phrase N} {p q : Phrase N} {ts us : List Token}

/-- What derives means the same under each interpretation that the rules are
closed under. -/
theorem means {interpretation : N → List Token → Prop}
    (closed : ∀ n ts, (rule n).Means interpretation ts → interpretation n ts)
    (h : Derives rule p ts) : p.Means interpretation ts := by
  induction h with
  | empty => rfl
  | oneOf ha ht => exact ⟨_, rfl, _, ha, ht⟩
  | integerLiteral ht hv => exact ⟨_, rfl, ht, hv⟩
  | nonterminal _ ih => exact closed _ _ ih
  | sequence _ _ ihp ihq => exact ⟨_, _, rfl, ihp, ihq⟩
  | first _ ih => exact .inl ih
  | second _ ih => exact .inr ih
  | done => exact ⟨[], rfl, by simp⟩
  | more _ _ ih ihs =>
    obtain ⟨pieces, rfl, hpieces⟩ := ihs
    refine ⟨_ :: pieces, rfl, ?_⟩
    intro us hus
    rcases List.mem_cons.mp hus with rfl | hus
    · exact ih
    · exact hpieces us hus

/-- What a phrase means, with the nonterminals left as they are, derives. -/
theorem of_means (h : p.Means (fun n us => Derives rule (.nonterminal n) us) ts) :
    Derives rule p ts := by
  induction p generalizing ts with
  | empty =>
    obtain rfl := h
    exact .empty
  | oneOf choices =>
    obtain ⟨t, rfl, a, ha, ht⟩ := h
    exact .oneOf ha ht
  | integerLiteral =>
    obtain ⟨t, rfl, ht, hv⟩ := h
    exact .integerLiteral ht hv
  | nonterminal n => exact h
  | sequence p q ihp ihq =>
    obtain ⟨us, vs, rfl, hp, hq⟩ := h
    exact .sequence (ihp hp) (ihq hq)
  | choice p q ihp ihq =>
    rcases h with hp | hq
    · exact .first (ihp hp)
    · exact .second (ihq hq)
  | many p ih =>
    obtain ⟨pieces, rfl, hpieces⟩ := h
    induction pieces with
    | nil => exact .done
    | cons us pieces ihs =>
      exact .more (ih (hpieces us List.mem_cons_self))
        (ihs fun vs hvs => hpieces vs (List.mem_cons_of_mem _ hvs))

theorem iff_means :
    Derives rule p ts ↔ p.Means (fun n us => Derives rule (.nonterminal n) us) ts :=
  ⟨means fun _ _ h => .nonterminal (of_means h), of_means⟩

theorem choice_iff : Derives rule (.choice p q) ts ↔ Derives rule p ts ∨ Derives rule q ts := by
  constructor
  · intro h
    cases h with
    | first h => exact .inl h
    | second h => exact .inr h
  · intro h
    rcases h with h | h
    · exact .first h
    · exact .second h

/-- One more at the end. -/
theorem snoc (h : Derives rule p.many ts) (h' : Derives rule p us) :
    Derives rule p.many (ts ++ us) := by
  obtain ⟨pieces, rfl, hpieces⟩ := iff_means.mp h
  refine of_means ⟨pieces ++ [us], by simp, ?_⟩
  intro vs hvs
  rcases List.mem_append.mp hvs with hvs | hvs
  · exact hpieces vs hvs
  · obtain rfl := List.mem_singleton.mp hvs
    exact iff_means.mp h'

/-! ## Derivations of the longer phrases -/

theorem token {a : Terminal} {t : Token} (ht : a.admits t) : Derives rule (.oneOf [a]) [t] :=
  .oneOf (List.mem_singleton_self a) ht

theorem cons {a : Terminal} {t : Token} (ht : a.admits t) (h : Derives rule p ts) :
    Derives rule (.sequence (.oneOf [a]) p) (t :: ts) :=
  .sequence (token ht) h

theorem present (h : Derives rule p ts) : Derives rule p.optional ts := .first h

theorem absent : Derives rule p.optional [] := .second .empty

theorem skip (h : Derives rule q ts) : Derives rule (.sequence p.optional q) ts :=
  .sequence absent h

theorem noMore (h : Derives rule q ts) : Derives rule (.sequence p.many q) ts :=
  .sequence .done h

theorem single {separator : String} (h : Derives rule p ts) :
    Derives rule (p.list separator) ts := by
  rw [← List.append_nil ts]
  exact .sequence h .done

theorem pieces {spells : α → List Token → Prop} (each : ∀ a ts, spells a ts → Derives rule p ts)
    {as : List α} (h : Sequence spells as ts) : Derives rule p.many ts := by
  induction h with
  | nil => exact .done
  | cons ha _ ih => exact .more (each _ _ ha) ih

theorem somePieces {spells : α → List Token → Prop}
    (each : ∀ a ts, spells a ts → Derives rule p ts) {as : List α} (hne : as ≠ [])
    (h : Sequence spells as ts) : Derives rule p.some ts := by
  cases h with
  | nil => exact absurd rfl hne
  | cons ha h => exact .sequence (each _ _ ha) (pieces each h)

theorem list {separator : String} {spells : α → List Token → Prop}
    (each : ∀ a ts, spells a ts → Derives rule p ts) {as : List α}
    (h : Separated (.symbol separator) spells as ts) : Derives rule (p.list separator) ts := by
  induction h with
  | single ha => exact single (each _ _ ha)
  | cons ha ht _ ih =>
    cases ih with
    | sequence hp hmany => exact .sequence (each _ _ ha) (.more (cons ht hp) hmany)

end Derives
end PascalSyntax
