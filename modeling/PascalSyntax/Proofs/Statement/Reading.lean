import PascalSyntax.Proofs.Statement.Spelling

/-!
# What is read as a statement

The readers of statements read just the spellings (`statement_readsOnly`,
`statement_readsAll`).  A statement that was read stands before an `else` only if
it cannot take one: the reader has tried to take it.
-/

namespace PascalSyntax

namespace Statement

/-- A statement that stands before this terminal may be open: no `else` follows.
-/
def openBefore (next : Option Terminal) : Bool :=
  decide (next ≠ some (.word "else"))

/-- What may follow a statement: a semicolon, the end of a block, or an `else`
if the statement cannot take it. -/
def Follows (isOpen : Bool) (next : Option Terminal) : Prop :=
  next = some (.symbol ";") ∨ next = some (.word "end") ∨
    (isOpen = false ∧ next = some (.word "else"))

theorem Follows.stops {isOpen : Bool} {next : Option Terminal} (h : Follows isOpen next) :
    Expr.Stops 0 next := by
  obtain rfl | rfl | ⟨-, rfl⟩ := h
  all_goals exact Expr.stops_of_mem_closers _ (by decide)

/-- No terminal but these may follow. -/
theorem Follows.ne {isOpen : Bool} {next : Option Terminal} (h : Follows isOpen next) {a : Terminal}
    (ha : a ∉ [Terminal.symbol ";", .word "end", .word "else"]) : next ≠ some a := by
  obtain rfl | rfl | ⟨-, rfl⟩ := h
  all_goals
    rintro ⟨⟩
    exact ha (by decide)

theorem Follows.ne_else {next : Option Terminal} (h : Follows true next) :
    next ≠ some (.word "else") := by
  obtain rfl | rfl | ⟨h, -⟩ := h
  · decide
  · decide
  · cases h

end Statement

namespace Parser

open PascalSyntax.Expr (Within Stops)
open PascalSyntax.Statement (Spelling openBefore Follows)

/-- Whatever is read as a statement is spelled by the tokens that were consumed,
with regard to what follows. -/
def StatementsOnly (p : Parser Cursor Statement) (levels : Nat) : Prop :=
  ∀ us s rest, p.Reads us s rest →
    ∃ ts, us = ts ++ rest ∧ Spelling levels (openBefore (Token.front? rest)) s ts

/-- Every spelling of a statement is read in full. -/
def StatementsAll (p : Parser Cursor Statement) (levels : Nat) : Prop :=
  ∀ isOpen, p.ReadsAll (Spelling levels isOpen) (Follows isOpen)

theorem StatementsOnly.readsOnly {p : Parser Cursor Statement} {levels : Nat}
    (only : StatementsOnly p levels) : p.ReadsOnly (Spelling levels true) := by
  intro us s rest h
  obtain ⟨ts, rfl, hs⟩ := only _ _ _ h
  exact ⟨ts, rfl, hs.isOpen⟩

section Over

variable {expression : Parser Cursor Expr} {statement : Parser Cursor Statement} {levels : Nat}

/-! ## Bodies and branches -/

@[simp] theorem reads_body_iff {us rest : List Token} {b : Block} :
    (body statement).Reads us b rest ↔ ∃ s, b = .ofStatement s ∧ statement.Reads us s rest := by
  simp only [body, bind_pure_comp, reads_map_iff]

theorem reads_branch_iff {ending : String} {keyword : Token} {us rest : List Token}
    {b : Branch} :
    (branch expression statement ending keyword).Reads us b rest ↔
      ∃ condition t mid s, expression.Reads us condition (t :: mid) ∧
        (Terminal.word ending).admits t = true ∧ statement.Reads mid s rest ∧
        b = ⟨condition, .ofStatement s, keyword.origin⟩ := by
  simp only [branch, reads_bind_iff, bind_pure_comp, reads_map_iff, reads_word_iff, reads_body_iff]
  constructor
  · intro h
    rcases h with ⟨condition, mid, hc, t, mid', ⟨rfl, ht⟩, b', rfl, s, rfl, hs⟩
    exact ⟨condition, t, mid', s, hc, ht, hs, rfl⟩
  · intro h
    rcases h with ⟨condition, t, mid, s, hc, ht, hs, rfl⟩
    exact ⟨condition, t :: mid, hc, t, mid, ⟨rfl, ht⟩, .ofStatement s, rfl, s, rfl, hs⟩

/-! ## Conditionals -/

theorem reads_elseIf_some_iff {us rest : List Token} {b : Branch} :
    (elseIf expression statement).Reads us (some b) rest ↔
      ∃ elses keyword mid, us = elses :: keyword :: mid ∧
        (Terminal.word "else").admits elses = true ∧ (Terminal.word "if").admits keyword = true ∧
        (branch expression statement "then" keyword).Reads mid b rest := by
  rw [elseIf, reads_bind_iff]
  constructor
  · intro h
    rcases h with ⟨o, mid, ho, h⟩
    cases o with
    | none => simp at h
    | some t =>
      obtain ⟨t', rfl, ht', ht⟩ := reads_takeBoth?_some_iff.mp ho
      simp only [bind_pure_comp, reads_map_iff, Option.some.injEq] at h
      obtain ⟨b, rfl, h⟩ := h
      exact ⟨t', t, mid, rfl, ht', ht, h⟩
  · intro h
    rcases h with ⟨elses, keyword, mid, rfl, helse, hif, h⟩
    refine ⟨some keyword, mid, reads_takeBoth?_some_iff.mpr ⟨elses, rfl, helse, hif⟩, ?_⟩
    simp only [bind_pure_comp, reads_map_iff]
    exact ⟨b, rfl, h⟩

theorem reads_elseIf_none_iff {us rest : List Token} :
    (elseIf expression statement).Reads us none rest ↔
      (∀ t mid, us = t :: mid → (Terminal.word "else").admits t = true →
        Token.front? mid ≠ some (.word "if")) ∧ rest = us := by
  rw [elseIf, reads_bind_iff]
  constructor
  · intro h
    rcases h with ⟨o, mid, ho, h⟩
    cases o with
    | none =>
      obtain ⟨hfront, rfl⟩ := reads_takeBoth?_none_iff.mp ho
      exact ⟨hfront, (reads_pure_iff.mp h).2⟩
    | some t => simp at h
  · intro h
    rcases h with ⟨hfront, rfl⟩
    exact ⟨none, rest, reads_takeBoth?_none_iff.mpr ⟨hfront, rfl⟩, reads_pure_iff.mpr ⟨rfl, rfl⟩⟩

theorem reads_conditional_iff {keyword : Token} {us rest : List Token} {s : Statement} :
    (conditional expression statement keyword).Reads us s rest ↔
      ∃ first others otherwise mid mid',
        (branch expression statement "then" keyword).Reads us first mid ∧
        (many (elseIf expression statement)).Reads mid others mid' ∧
        (another (.word "else") (body statement)).Reads mid' otherwise rest ∧
        s = .conditional (first :: others) otherwise keyword.origin := by
  rw [conditional]
  simp only [reads_bind_iff, bind_pure_comp, reads_map_iff]
  constructor
  · intro h
    rcases h with ⟨first, mid, hf, others, mid', ho, otherwise, rfl, h⟩
    exact ⟨first, others, otherwise, mid, mid', hf, ho, h, rfl⟩
  · intro h
    rcases h with ⟨first, others, otherwise, mid, mid', hf, ho, h, rfl⟩
    exact ⟨first, mid, hf, others, mid', ho, otherwise, rfl, h⟩

theorem branch_readsOnly (honly : expression.ReadsOnly (Within levels))
    (only : StatementsOnly statement levels) {ending : String} {keyword : Token}
    {us rest : List Token} {b : Branch}
    (h : (branch expression statement ending keyword).Reads us b rest) :
    ∃ condition t s ts vs, us = ts ++ t :: (vs ++ rest) ∧ Within levels condition ts ∧
      (Terminal.word ending).admits t = true ∧
      Spelling levels (openBefore (Token.front? rest)) s vs ∧
      b = ⟨condition, .ofStatement s, keyword.origin⟩ := by
  obtain ⟨condition, t, mid, s, hc, ht, hs, rfl⟩ := reads_branch_iff.mp h
  obtain ⟨ts, rfl, hcondition⟩ := honly _ _ _ hc
  obtain ⟨vs, rfl, hspelled⟩ := only _ _ _ hs
  exact ⟨condition, t, s, ts, vs, rfl, hcondition, ht, hspelled, rfl⟩

theorem branch_readsAll (hall : expression.ReadsAll (Within levels) (Stops 0))
    (all : StatementsAll statement levels) {ending : String}
    (hending : Terminal.word ending ∈ Expr.closers) (keyword : Token) {t : Token}
    {condition : Expr} {s : Statement} {isOpen : Bool} {ts vs rest : List Token}
    (hc : Within levels condition ts)
    (ht : (Terminal.word ending).admits t = true) (hs : Spelling levels isOpen s vs)
    (hrest : Follows isOpen (Token.front? rest)) :
    (branch expression statement ending keyword).Reads (ts ++ t :: (vs ++ rest))
      ⟨condition, .ofStatement s, keyword.origin⟩ rest :=
  reads_branch_iff.mpr ⟨condition, t, vs ++ rest, s,
    reads_expression_before hall hc ht hending _, ht, all _ _ _ _ hs hrest, rfl⟩

theorem advances_elseIf (honly : expression.ReadsOnly (Within levels))
    (only : StatementsOnly statement levels) : Advances (elseIf expression statement) := by
  intro us b rest h
  obtain ⟨elses, keyword, mid, rfl, -, -, h⟩ := reads_elseIf_some_iff.mp h
  obtain ⟨condition, t, s, ts, vs, rfl, -⟩ := branch_readsOnly honly only h
  simp only [List.length_cons, List.length_append]
  omega

/-- The branches that follow one in a conditional, with the one before them. -/
theorem Rounds.conditional (honly : expression.ReadsOnly (Within levels))
    (only : StatementsOnly statement levels) {us mid rest : List Token} {others : List Branch}
    {otherwise : Option Block} (rounds : Rounds (elseIf expression statement) us others mid)
    (last : (elseIf expression statement).Reads mid none mid)
    (hend : (another (.word "else") (body statement)).Reads mid otherwise rest) :
    ∀ {keyword t : Token} {condition : Expr} {s : Statement} {ts vs : List Token},
      (Terminal.word "if").admits keyword → Within levels condition ts →
      (Terminal.word "then").admits t → Spelling levels (openBefore (Token.front? us)) s vs →
      ∃ ws, us = ws ++ rest ∧
        Spelling (levels + 1) (openBefore (Token.front? rest))
          (.conditional (⟨condition, .ofStatement s, keyword.origin⟩ :: others) otherwise
            keyword.origin)
          (keyword :: (ts ++ t :: (vs ++ ws))) := by
  induction rounds with
  | nil us =>
    intro keyword t condition s ts vs hk hc ht hs
    cases otherwise with
    | none =>
      obtain ⟨hne, rfl⟩ := reads_another_none_iff.mp hend
      have hopen : openBefore (Token.front? rest) = true := decide_eq_true hne
      rw [hopen] at hs ⊢
      refine ⟨[], rfl, ?_⟩
      rw [List.append_nil]
      exact .ifThen hk hc ht hs
    | some b =>
      obtain ⟨elses, mid, rfl, helse, hb⟩ := reads_another_some_iff.mp hend
      obtain ⟨o, rfl, ho⟩ := reads_body_iff.mp hb
      obtain ⟨ws, rfl, hspelled⟩ := only _ _ _ ho
      have hclosed : openBefore (Token.front? (elses :: (ws ++ rest))) = false := by
        rw [Terminal.front?_of_admits helse]
        rfl
      rw [hclosed] at hs
      refine ⟨elses :: ws, rfl, .ifElse hk hc ht hs helse hspelled ?_⟩
      intro hif
      exact (reads_elseIf_none_iff.mp last).1 _ _ rfl helse (Token.front?_append hif)
  | @cons us mid' mid b others hr _ _ ih =>
    intro keyword t condition s ts vs hk hc ht hs
    obtain ⟨elses, keyword', front, rfl, helse, hif, hb⟩ := reads_elseIf_some_iff.mp hr
    obtain ⟨condition', t', s', ts', vs', rfl, hc', ht', hs', rfl⟩ := branch_readsOnly honly only hb
    obtain ⟨ws, rfl, hspelled⟩ := ih last hend hif hc' ht' hs'
    have hclosed : openBefore (Token.front?
        (elses :: keyword' :: (ts' ++ t' :: (vs' ++ (ws ++ rest))))) = false := by
      rw [Terminal.front?_of_admits helse]
      rfl
    rw [hclosed] at hs
    refine ⟨elses :: keyword' :: (ts' ++ t' :: (vs' ++ ws)), ?_, .elseIf hk hc ht hs helse hspelled⟩
    simp only [List.cons_append, List.append_assoc]

theorem conditional_readsOnly (honly : expression.ReadsOnly (Within levels))
    (only : StatementsOnly statement levels) {keyword : Token} {us rest : List Token}
    {s : Statement} (hk : (Terminal.word "if").admits keyword)
    (h : (conditional expression statement keyword).Reads us s rest) :
    ∃ ts, us = ts ++ rest ∧
      Spelling (levels + 1) (openBefore (Token.front? rest)) s (keyword :: ts) := by
  obtain ⟨first, others, otherwise, mid, mid', hf, ho, hend, rfl⟩ := reads_conditional_iff.mp h
  obtain ⟨stop, rounds, last⟩ := (reads_many_iff (advances_elseIf honly only)).mp ho
  obtain ⟨-, rfl⟩ := reads_elseIf_none_iff.mp last
  obtain ⟨condition, t, s, ts, vs, rfl, hc, ht, hs, rfl⟩ := branch_readsOnly honly only hf
  obtain ⟨ws, rfl, hspelled⟩ := rounds.conditional honly only last hend hk hc ht hs
  refine ⟨ts ++ t :: (vs ++ ws), ?_, hspelled⟩
  simp only [List.append_assoc, List.cons_append]

theorem reads_conditional_cons (honly : expression.ReadsOnly (Within levels))
    (only : StatementsOnly statement levels) {keyword elses keyword' : Token}
    {us vs rest : List Token} {b : Branch} {branches : List Branch} {otherwise : Option Block}
    {origin : Origin}
    (first : (branch expression statement "then" keyword).Reads us b (elses :: keyword' :: vs))
    (helse : (Terminal.word "else").admits elses) (hif : (Terminal.word "if").admits keyword')
    (others : (conditional expression statement keyword').Reads vs
      (.conditional branches otherwise origin) rest) :
    (conditional expression statement keyword).Reads us
      (.conditional (b :: branches) otherwise keyword.origin) rest := by
  obtain ⟨b', others', otherwise', mid, mid', hf, ho, hend, he⟩ := reads_conditional_iff.mp others
  cases he
  have hround : (elseIf expression statement).Reads (elses :: keyword' :: vs) (some b') mid :=
    reads_elseIf_some_iff.mpr ⟨elses, keyword', vs, rfl, helse, hif, hf⟩
  have hl : mid.length < (elses :: keyword' :: vs).length :=
    advances_elseIf honly only _ _ _ hround
  exact reads_conditional_iff.mpr ⟨b, b' :: others', otherwise, _, mid', first,
    reads_many_cons hround hl ho, hend, rfl⟩

/-- What may not follow a statement cannot start one more branch either. -/
theorem reads_elseIf_of_ne {us : List Token} (h : Token.front? us ≠ some (.word "else")) :
    (elseIf expression statement).Reads us none us := by
  refine reads_elseIf_none_iff.mpr ⟨?_, rfl⟩
  intro t mid h ht
  subst h
  rw [Terminal.front?_of_admits ht] at h
  exact absurd rfl h

theorem conditional_readsAll (honly : expression.ReadsOnly (Within levels))
    (hall : expression.ReadsAll (Within levels) (Stops 0)) (only : StatementsOnly statement levels)
    (all : StatementsAll statement levels) {branches : List Branch} :
    ∀ {isOpen : Bool} {otherwise : Option Block} {origin : Origin} {keyword : Token}
      {ts rest : List Token},
      Spelling (levels + 1) isOpen (.conditional branches otherwise origin) (keyword :: ts) →
      Follows isOpen (Token.front? rest) →
      (conditional expression statement keyword).Reads (ts ++ rest)
        (.conditional branches otherwise origin) rest := by
  -- a chain of branches: all but the last stand before `else if`
  induction branches with
  | nil =>
    intro isOpen otherwise origin keyword ts rest h
    cases h
  | cons b branches ih =>
    intro isOpen otherwise origin keyword ts rest h hrest
    cases h with
    | @ifThen _ _ t condition s us vs hk hc ht hs =>
      have hmany : (many (elseIf expression statement)).Reads rest [] rest :=
        reads_many_nil (reads_elseIf_of_ne hrest.ne_else)
      have hend : (another (.word "else") (body statement)).Reads rest none rest :=
        reads_another_none_iff.mpr ⟨hrest.ne_else, rfl⟩
      rw [List.append_assoc, List.cons_append]
      exact reads_conditional_iff.mpr ⟨_, [], none, rest, rest,
        branch_readsAll hall all (by decide) keyword hc ht hs hrest, hmany, hend, rfl⟩
    | @ifElse _ _ _ t elses condition s o us vs ws hk hc ht hs helse ho hne =>
      have hnext : Follows false (Token.front? (elses :: (ws ++ rest))) := by
        rw [Terminal.front?_of_admits helse]
        exact .inr (.inr ⟨rfl, rfl⟩)
      have hmany : (many (elseIf expression statement)).Reads (elses :: (ws ++ rest)) []
          (elses :: (ws ++ rest)) := by
        refine reads_many_nil (reads_elseIf_none_iff.mpr ⟨?_, rfl⟩)
        intro t mid he _
        cases he
        obtain ⟨a, -, ha⟩ := ho.front
        rw [Token.front?_append ha, ← ha]
        exact hne
      have hend : (another (.word "else") (body statement)).Reads (elses :: (ws ++ rest))
          (some (.ofStatement o)) rest :=
        reads_another_some_iff.mpr ⟨elses, _, rfl, helse,
          reads_body_iff.mpr ⟨o, rfl, all _ _ _ _ ho hrest⟩⟩
      simp only [List.append_assoc, List.cons_append]
      exact reads_conditional_iff.mpr ⟨_, [], _, _, _,
        branch_readsAll hall all (by decide) keyword hc ht hs hnext, hmany, hend, rfl⟩
    | @elseIf _ _ _ t elses condition s _ _ origin us vs ws hk hc ht hs helse ho =>
      have hnext : Follows false (Token.front? (elses :: (ws ++ rest))) := by
        rw [Terminal.front?_of_admits helse]
        exact .inr (.inr ⟨rfl, rfl⟩)
      have hbranch := branch_readsAll hall all (by decide) keyword hc ht hs hnext
      obtain ⟨keyword', ws, rfl, hif⟩ := ho.conditional_front
      simp only [List.append_assoc, List.cons_append] at hbranch ⊢
      exact reads_conditional_cons honly only hbranch helse hif (ih ho hrest)

/-! ## Blocks -/

theorem reads_separator_iff {us rest : List Token} :
    separator.Reads us () rest ↔
      (∃ t, us = t :: rest ∧ (Terminal.symbol ";").admits t = true) ∨
        (Token.front? us = some (.word "end") ∧ rest = us) := by
  rw [separator, reads_take?_bind_iff]
  simp only [reads_sees_bind_iff, reads_pure_iff, if_true, Bool.false_eq_true, if_false,
    not_reads_fail, and_false, or_false, true_and]
  constructor
  · intro h
    rcases h with ⟨t, mid, rfl, ht, rfl⟩ | ⟨-, h⟩
    · exact .inl ⟨t, rfl, ht⟩
    · exact .inr h
  · intro h
    rcases h with ⟨t, rfl, ht⟩ | ⟨hend, rfl⟩
    · exact .inl ⟨t, rest, rfl, ht, rfl⟩
    · refine .inr ⟨?_, hend, rfl⟩
      rw [hend]
      decide

theorem reads_item?_iff {us rest : List Token} {o : Option (Option Statement)} :
    (item? statement).Reads us o rest ↔
      (∃ t, us = t :: rest ∧ (Terminal.word "end").admits t = true ∧ o = none) ∨
      (∃ t, us = t :: rest ∧ (Terminal.symbol ";").admits t = true ∧ o = some none) ∨
      (Token.front? us ≠ some (.word "end") ∧ Token.front? us ≠ some (.symbol ";") ∧
        ∃ s mid, statement.Reads us s mid ∧ separator.Reads mid () rest ∧ o = some (some s)) := by
  rw [item?]
  simp only [reads_take?_bind_iff]
  simp only [reads_bind_iff, reads_pure_iff]
  constructor
  · intro h
    rcases h with ⟨t, mid, rfl, ht, rfl, rfl⟩ | ⟨hend, ⟨t, mid, rfl, ht, rfl, rfl⟩ | ⟨hsemi, h⟩⟩
    · exact .inl ⟨t, rfl, ht, rfl⟩
    · exact .inr (.inl ⟨t, rfl, ht, rfl⟩)
    · obtain ⟨s, mid, hs, ⟨⟩, stop, hsep, rfl, rfl⟩ := h
      exact .inr (.inr ⟨hend, hsemi, s, mid, hs, hsep, rfl⟩)
  · intro h
    rcases h with ⟨t, rfl, ht, rfl⟩ | ⟨t, rfl, ht, rfl⟩ | ⟨hend, hsemi, s, mid, hs, hsep, rfl⟩
    · exact .inl ⟨t, rest, rfl, ht, rfl, rfl⟩
    · refine .inr ⟨?_, .inl ⟨t, rest, rfl, ht, rfl, rfl⟩⟩
      rw [Terminal.front?_of_admits ht]
      decide
    · exact .inr ⟨hend, .inr ⟨hsemi, s, mid, hs, (), rest, hsep, rfl, rfl⟩⟩

theorem reads_item?_none_iff {us rest : List Token} :
    (item? statement).Reads us none rest ↔
      ∃ t, us = t :: rest ∧ (Terminal.word "end").admits t = true := by
  simp [reads_item?_iff]

theorem advances_item? (only : StatementsOnly statement levels) :
    Advances (item? statement) := by
  intro us o rest h
  obtain ⟨t, rfl, ht, -⟩ | ⟨t, rfl, ht, -⟩ | ⟨-, -, s, mid, hs, hsep, -⟩ := reads_item?_iff.mp h
  · exact Nat.lt_succ_self _
  · exact Nat.lt_succ_self _
  · obtain ⟨ts, rfl, hts⟩ := only _ _ _ hs
    have hpos := List.length_pos_iff.mpr hts.ne_nil
    obtain ⟨t, rfl, -⟩ | ⟨-, rfl⟩ := reads_separator_iff.mp hsep
    · simp only [List.length_append, List.length_cons]
      omega
    · rw [List.length_append]
      omega

theorem Rounds.items (only : StatementsOnly statement levels) {us mid rest : List Token}
    {items : List (Option Statement)} (rounds : Rounds (item? statement) us items mid)
    (last : (item? statement).Reads mid none rest) :
    ∃ pieces ts, us = ts ++ mid ∧ pieces.filterMap id = items.filterMap id ∧
      Separated (.symbol ";") (Statement.Piece (Spelling levels true)) pieces ts := by
  induction rounds with
  | nil us => exact ⟨[none], [], rfl, rfl, .single rfl⟩
  | @cons us front mid o items hr _ others ih =>
    obtain ⟨t, -, -, ho⟩ | ⟨t, rfl, ht, ho⟩ | ⟨-, -, s, stop, hs, hsep, ho⟩ := reads_item?_iff.mp hr
    · cases ho
    · obtain rfl := Option.some.inj ho
      obtain ⟨pieces, ts, rfl, hitems, h⟩ := ih last
      exact ⟨none :: pieces, [] ++ t :: ts, rfl, hitems, .cons rfl ht h⟩
    · obtain rfl := Option.some.inj ho
      obtain ⟨vs, rfl, hspelled⟩ := only.readsOnly _ _ _ hs
      obtain ⟨t, rfl, ht⟩ | ⟨hend, rfl⟩ := reads_separator_iff.mp hsep
      · obtain ⟨pieces, ts, rfl, hitems, h⟩ := ih last
        refine ⟨some s :: pieces, vs ++ t :: ts, ?_, ?_, .cons hspelled ht h⟩
        · rw [List.append_assoc, List.cons_append]
        · exact congrArg (s :: ·) hitems
      · -- no semicolon: nothing but the `end` is left
        cases others with
        | nil => exact ⟨[some s], vs, rfl, rfl, .single hspelled⟩
        | @cons _ _ _ o _ hr =>
          obtain ⟨t, -, -, ho⟩ | ⟨t, rfl, ht, -⟩ | ⟨hne, -⟩ := reads_item?_iff.mp hr
          · cases ho
          · rw [Terminal.front?_of_admits ht] at hend
            cases hend
          · exact absurd hend hne

theorem blockOver_readsOnly (only : StatementsOnly statement levels) :
    (blockOver statement).ReadsOnly (Block.Spelling levels) := by
  intro us b rest h
  rw [blockOver, reads_bind_iff] at h
  obtain ⟨opening, mid, hopen, h⟩ := h
  obtain ⟨rfl, ho⟩ := reads_take_iff.mp hopen
  simp only [bind_pure_comp, reads_map_iff] at h
  obtain ⟨items, rfl, h⟩ := h
  obtain ⟨stop, rounds, last⟩ := (reads_many_iff (advances_item? only)).mp h
  obtain ⟨pieces, ts, rfl, hitems, hs⟩ := rounds.items only last
  obtain ⟨closing, rfl, hc⟩ := reads_item?_none_iff.mp last
  rw [← hitems]
  exact ⟨opening :: (ts ++ [closing]), by simp, .mk ho hs hc⟩

theorem reads_item?_of_spelling (all : StatementsAll statement levels) {s : Statement}
    {ts mid rest : List Token} (h : Spelling levels true s ts)
    (hmid : Follows true (Token.front? mid)) (hsep : separator.Reads mid () rest) :
    (item? statement).Reads (ts ++ mid) (some (some s)) rest := by
  obtain ⟨a, ha, hfront⟩ := h.front
  refine reads_item?_iff.mpr (.inr (.inr ⟨?_, ?_, s, mid, all _ _ _ _ h hmid, hsep, rfl⟩))
  · rw [Token.front?_append hfront]
    intro h
    cases h
    revert ha
    decide
  · rw [Token.front?_append hfront]
    intro h
    cases h
    revert ha
    decide

/-- The pieces of a block are read up to and with its `end`. -/
theorem reads_pieces (only : StatementsOnly statement levels) (all : StatementsAll statement levels)
    {pieces : List (Option Statement)} {ts : List Token} {closing : Token}
    (hs : Separated (.symbol ";") (Statement.Piece (Spelling levels true)) pieces ts)
    (hc : (Terminal.word "end").admits closing) (rest : List Token) :
    ∃ items, items.filterMap id = pieces.filterMap id ∧
      (many (item? statement)).Reads (ts ++ closing :: rest) items rest := by
  have hend : Token.front? (closing :: rest) = some (.word "end") := Terminal.admits_iff.mp hc
  have hlast : (item? statement).Reads (closing :: rest) none rest :=
    reads_item?_none_iff.mpr ⟨closing, rfl, hc⟩
  induction hs with
  | @single o ts h =>
    cases o with
    | none =>
      cases h
      exact ⟨[], rfl, reads_many_nil hlast⟩
    | some s =>
      have hread : (item? statement).Reads (ts ++ closing :: rest) (some (some s))
          (closing :: rest) :=
        reads_item?_of_spelling all h (hend ▸ .inr (.inl rfl))
          (reads_separator_iff.mpr (.inr ⟨hend, rfl⟩))
      exact ⟨[some s], rfl, reads_many_cons hread (advances_item? only _ _ _ hread)
        (reads_many_nil hlast)⟩
  | @cons o pieces t ts us h ht _ ih =>
    obtain ⟨items, hitems, hmany⟩ := ih
    cases o with
    | none =>
      cases h
      have hread : (item? statement).Reads (t :: (us ++ closing :: rest)) (some none)
          (us ++ closing :: rest) :=
        reads_item?_iff.mpr (.inr (.inl ⟨t, rfl, ht, rfl⟩))
      exact ⟨none :: items, hitems, reads_many_cons hread (advances_item? only _ _ _ hread) hmany⟩
    | some s =>
      have hread : (item? statement).Reads (ts ++ t :: (us ++ closing :: rest)) (some (some s))
          (us ++ closing :: rest) :=
        reads_item?_of_spelling all h (.inl (Terminal.admits_iff.mp ht))
          (reads_separator_iff.mpr (.inl ⟨t, rfl, ht⟩))
      refine ⟨some s :: items, congrArg (s :: ·) hitems, ?_⟩
      rw [List.append_assoc, List.cons_append]
      exact reads_many_cons hread (advances_item? only _ _ _ hread) hmany

theorem blockOver_reads (only : StatementsOnly statement levels)
    (all : StatementsAll statement levels) {b : Block} {ts : List Token}
    (h : Block.Spelling levels b ts) (rest : List Token) :
    (blockOver statement).Reads (ts ++ rest) b rest := by
  cases h with
  | @mk opening closing pieces ts ho hs hc =>
    obtain ⟨items, hitems, hmany⟩ := reads_pieces only all hs hc rest
    rw [← hitems, blockOver, reads_bind_iff]
    refine ⟨opening, ts ++ closing :: rest, reads_take_iff.mpr ⟨by simp, ho⟩, ?_⟩
    simp only [bind_pure_comp, reads_map_iff]
    exact ⟨items, rfl, hmany⟩

/-! ## Loops -/

theorem direction_word_inj {d d' : Direction}
    (h : Terminal.word d.word = Terminal.word d'.word) : d = d' := by
  cases d <;> cases d' <;> first | rfl | exact absurd h (by decide)

theorem reads_direction_iff {us rest : List Token} {d : Direction} :
    direction.Reads us d rest ↔ ∃ t, us = t :: rest ∧ (Terminal.word d.word).admits t = true := by
  rw [direction, reads_bind_iff]
  constructor
  · intro h
    rcases h with ⟨o, mid, ho, h⟩
    cases o with
    | none => simp at h
    | some choice =>
      obtain ⟨d', t⟩ := choice
      obtain ⟨rfl, -, ht⟩ := (reads_takeFirst?_some_iff fun _ _ => direction_word_inj).mp ho
      obtain ⟨rfl, rfl⟩ := reads_pure_iff.mp h
      exact ⟨t, rfl, ht⟩
  · intro h
    rcases h with ⟨t, rfl, ht⟩
    have hmem : d ∈ [Direction.upward, Direction.downward] := by
      cases d <;> decide
    exact ⟨some (d, t), rest,
      (reads_takeFirst?_some_iff fun _ _ => direction_word_inj).mpr ⟨rfl, hmem, ht⟩,
      reads_pure_iff.mpr ⟨rfl, rfl⟩⟩

theorem reads_forLoop_iff {keyword : Token} {us rest : List Token} {s : Statement} :
    (forLoop expression statement keyword).Reads us s rest ↔
      ∃ name becomes mid first way mid' d last does stop s',
        us = name :: becomes :: mid ∧ Terminal.identifier.admits name = true ∧
        (Terminal.symbol ":=").admits becomes = true ∧
        expression.Reads mid first (way :: mid') ∧
        (Terminal.word (Direction.word d)).admits way = true ∧
        expression.Reads mid' last (does :: stop) ∧ (Terminal.word "do").admits does = true ∧
        statement.Reads stop s' rest ∧
        s = .forLoop name.toIdentifier first last d (.ofStatement s') keyword.origin := by
  simp only [forLoop, reads_bind_iff, bind_pure_comp, reads_map_iff, reads_identifier_iff,
    reads_symbol_iff, reads_word_iff, reads_direction_iff, reads_body_iff]
  constructor
  · intro h
    rcases h with ⟨x, -, ⟨name, rfl, rfl, hn⟩, becomes, mid, ⟨rfl, hb⟩, first, -, hf, d, mid', ⟨way,
        rfl, hw⟩, last, -, hl, does, stop, ⟨rfl, hd⟩, b, rfl, s', rfl, hs⟩
    exact ⟨name, becomes, mid, first, way, mid', d, last, does, stop, s', rfl, hn, hb, hf, hw, hl,
      hd, hs, rfl⟩
  · intro h
    rcases h with ⟨name, becomes, mid, first, way, mid', d, last, does, stop, s', rfl, hn, hb, hf,
        hw, hl, hd, hs, rfl⟩
    exact ⟨_, _, ⟨name, rfl, rfl, hn⟩, becomes, mid, ⟨rfl, hb⟩, first, _, hf, d, mid',
      ⟨way, rfl, hw⟩, last, _, hl, does, stop, ⟨rfl, hd⟩, _, rfl, s', rfl, hs⟩

/-! ## Statements that start with a name -/

theorem reads_nameStatement_iff {us rest : List Token} {s : Statement} :
    (nameStatement expression).Reads us s rest ↔
      ∃ name mid, us = name :: mid ∧ Terminal.identifier.admits name = true ∧
        ((∃ becomes mid' value, mid = becomes :: mid' ∧
            (Terminal.symbol ":=").admits becomes = true ∧ expression.Reads mid' value rest ∧
            s = .assignment name.toIdentifier value name.origin) ∨
          (Token.front? mid ≠ some (.symbol ":=") ∧
            ∃ c, (callOf expression name.toIdentifier).Reads mid c rest ∧ s = .call c)) := by
  rw [nameStatement, reads_bind_iff]
  simp only [reads_take?_bind_iff, bind_pure_comp, reads_map_iff, reads_identifier_iff]
  constructor
  · intro h
    rcases h with ⟨x, mid, ⟨name, rfl, rfl, hn⟩, ⟨becomes, mid', rfl, hb, value, rfl, he⟩ | ⟨hne, c,
        rfl, hc⟩⟩
    · exact ⟨name, _, rfl, hn, .inl ⟨becomes, mid', value, rfl, hb, he, rfl⟩⟩
    · exact ⟨name, mid, rfl, hn, .inr ⟨hne, c, hc, rfl⟩⟩
  · intro h
    rcases h with ⟨name, mid, rfl, hn, ⟨becomes, mid', value, rfl, hb, he, rfl⟩ | ⟨hne, c, hc, rfl⟩⟩
    · exact ⟨_, _, ⟨name, rfl, rfl, hn⟩, .inl ⟨becomes, mid', rfl, hb, value, rfl, he⟩⟩
    · exact ⟨_, mid, ⟨name, rfl, rfl, hn⟩, .inr ⟨hne, c, rfl, hc⟩⟩

theorem nameStatement_readsOnly (honly : expression.ReadsOnly (Within levels))
    {us rest : List Token} {s : Statement} (h : (nameStatement expression).Reads us s rest)
    (isOpen : Bool) :
    ∃ ts, us = ts ++ rest ∧ Spelling (levels + 1) isOpen s ts := by
  obtain ⟨name, mid, rfl, hn, hrest⟩ := reads_nameStatement_iff.mp h
  obtain ⟨becomes, mid', value, rfl, hb, he, rfl⟩ | ⟨-, c, hc, rfl⟩ := hrest
  · obtain ⟨ts, rfl, hvalue⟩ := honly _ _ _ he
    exact ⟨name :: becomes :: ts, rfl, .assignment hn hb hvalue⟩
  · obtain ⟨-, rfl, rfl⟩ | ⟨opening, mid', args, rfl, ho, rfl, ha⟩ := reads_callOf_iff.mp hc
    · exact ⟨[name], rfl, .bareCall hn⟩
    · obtain ⟨ts, he, hargs⟩ := arguments_readsOnly honly ho ha
      refine ⟨name :: ts, ?_, .call hn hargs⟩
      rw [he, List.cons_append]

theorem reads_nameStatement_assignment (hall : expression.ReadsAll (Within levels) (Stops 0))
    {name becomes : Token} {value : Expr} {ts rest : List Token}
    (hn : Terminal.identifier.admits name) (hb : (Terminal.symbol ":=").admits becomes)
    (he : Within levels value ts) (hrest : Stops 0 (Token.front? rest)) :
    (nameStatement expression).Reads (name :: becomes :: (ts ++ rest))
      (.assignment name.toIdentifier value name.origin) rest :=
  reads_nameStatement_iff.mpr ⟨name, _, rfl, hn,
    .inl ⟨becomes, ts ++ rest, value, rfl, hb, hall _ _ _ he hrest, rfl⟩⟩

theorem reads_nameStatement_bareCall {name : Token} {rest : List Token}
    (hn : Terminal.identifier.admits name) (hopen : Token.front? rest ≠ some (.symbol "("))
    (hbecomes : Token.front? rest ≠ some (.symbol ":=")) :
    (nameStatement expression).Reads (name :: rest)
      (.call ⟨name.toIdentifier, [], name.origin⟩) rest :=
  reads_nameStatement_iff.mpr ⟨name, rest, rfl, hn,
    .inr ⟨hbecomes, _, reads_callOf_iff.mpr (.inl ⟨hopen, rfl, rfl⟩), rfl⟩⟩

theorem reads_nameStatement_call (honly : expression.ReadsOnly (Within levels))
    (hall : expression.ReadsAll (Within levels) (Stops 0)) {name : Token} {args : List Argument}
    {ts : List Token} (hn : Terminal.identifier.admits name)
    (ha : Call.Arguments (Within levels) args ts) (rest : List Token) :
    (nameStatement expression).Reads (name :: (ts ++ rest))
      (.call ⟨name.toIdentifier, args, name.origin⟩) rest := by
  obtain ⟨opening, mid, he, ho, hargs⟩ :=
    arguments_readsAll honly hall (fun _ _ h => h.front) ha rest
  have hne : Token.front? (ts ++ rest) ≠ some (.symbol ":=") := by
    rw [he, Terminal.front?_of_admits ho]
    decide
  exact reads_nameStatement_iff.mpr ⟨name, ts ++ rest, rfl, hn, .inr ⟨hne, _,
    reads_callOf_iff.mpr (.inr ⟨opening, mid, args, he, ho, rfl, hargs⟩), rfl⟩⟩

/-! ## Statements -/

theorem reads_statementOver_iff {us rest : List Token} {s : Statement} :
    (statementOver expression statement).Reads us s rest ↔
      (∃ keyword mid, us = keyword :: mid ∧ (Terminal.word "if").admits keyword = true ∧
        (conditional expression statement keyword).Reads mid s rest) ∨
      (∃ keyword mid b, us = keyword :: mid ∧ (Terminal.word "while").admits keyword = true ∧
        (branch expression statement "do" keyword).Reads mid b rest ∧
        s = .whileLoop b keyword.origin) ∨
      (∃ keyword mid, us = keyword :: mid ∧ (Terminal.word "for").admits keyword = true ∧
        (forLoop expression statement keyword).Reads mid s rest) ∨
      (∃ b, Token.front? us = some (.word "begin") ∧ (blockOver statement).Reads us b rest ∧
        s = .block b) ∨
      (Token.front? us = some .identifier ∧ (nameStatement expression).Reads us s rest) := by
  rw [statementOver]
  simp only [reads_take?_bind_iff, reads_sees_bind_iff, bind_pure_comp, reads_map_iff,
    not_reads_fail, if_true, Bool.false_eq_true, if_false, and_false, or_false]
  constructor
  · intro h
    rcases h with ⟨t, mid, rfl, ht, h⟩ | ⟨-, ⟨t, mid, rfl, ht, b, rfl, h⟩ | ⟨-, ⟨t, mid, rfl, ht, h⟩
        | ⟨-, ⟨hfront, b, rfl, h⟩ | ⟨-, hfront, h⟩⟩⟩⟩
    · exact .inl ⟨t, mid, rfl, ht, h⟩
    · exact .inr (.inl ⟨t, mid, b, rfl, ht, h, rfl⟩)
    · exact .inr (.inr (.inl ⟨t, mid, rfl, ht, h⟩))
    · exact .inr (.inr (.inr (.inl ⟨b, hfront, h, rfl⟩)))
    · exact .inr (.inr (.inr (.inr ⟨hfront, h⟩)))
  · have differs {a : Terminal} (hfront : Token.front? us = some a) {b : Terminal} (hne : a ≠ b) :
        Token.front? us ≠ some b := by
      rw [hfront]
      exact fun he => hne (Option.some.inj he)
    intro h
    rcases h with ⟨t, mid, rfl, ht, h⟩ | ⟨t, mid, b, rfl, ht, h, rfl⟩ | ⟨t, mid, rfl, ht, h⟩ | ⟨b,
        hfront, h, rfl⟩ | ⟨hfront, h⟩
    · exact .inl ⟨t, mid, rfl, ht, h⟩
    · have hfront := Terminal.admits_iff.mp ht
      exact .inr ⟨differs hfront (by decide), .inl ⟨t, mid, rfl, ht, b, rfl, h⟩⟩
    · have hfront := Terminal.admits_iff.mp ht
      exact .inr ⟨differs hfront (by decide), .inr ⟨differs hfront (by decide),
        .inl ⟨t, mid, rfl, ht, h⟩⟩⟩
    · exact .inr ⟨differs hfront (by decide), .inr ⟨differs hfront (by decide),
        .inr ⟨differs hfront (by decide), .inl ⟨hfront, b, rfl, h⟩⟩⟩⟩
    · exact .inr ⟨differs hfront (by decide), .inr ⟨differs hfront (by decide),
        .inr ⟨differs hfront (by decide), .inr ⟨differs hfront (by decide), hfront, h⟩⟩⟩⟩

/-- A reader of statements at one level reads spellings only if the readers for
what stands inside do. -/
theorem statementOver_readsOnly (honly : expression.ReadsOnly (Within levels))
    (only : StatementsOnly statement levels) :
    StatementsOnly (statementOver expression statement) (levels + 1) := by
  intro us s rest h
  rcases reads_statementOver_iff.mp h with hif | hwhile | hfor | hblock | hname
  · obtain ⟨keyword, mid, rfl, hk, hc⟩ := hif
    obtain ⟨ts, rfl, hs⟩ := conditional_readsOnly honly only hk hc
    exact ⟨keyword :: ts, rfl, hs⟩
  · obtain ⟨keyword, mid, b, rfl, hk, hb, rfl⟩ := hwhile
    obtain ⟨condition, t, s, ts, vs, rfl, hc, ht, hs, rfl⟩ := branch_readsOnly honly only hb
    exact ⟨keyword :: (ts ++ t :: vs), by simp, .whileLoop hk hc ht hs⟩
  · obtain ⟨keyword, mid, rfl, hk, hloop⟩ := hfor
    obtain ⟨name, becomes, mid, first, way, mid', d, last, does, stop, s, rfl, hn, hb, hf, hw, hl,
      hd, hs, rfl⟩ := reads_forLoop_iff.mp hloop
    obtain ⟨ts, rfl, hfirst⟩ := honly _ _ _ hf
    obtain ⟨us, rfl, hlast⟩ := honly _ _ _ hl
    obtain ⟨vs, rfl, hspelled⟩ := only _ _ _ hs
    exact ⟨keyword :: name :: becomes :: (ts ++ way :: (us ++ does :: vs)), by simp,
      .forLoop hk hn hb hfirst hw hlast hd hspelled⟩
  · obtain ⟨b, -, hread, rfl⟩ := hblock
    obtain ⟨ts, rfl, hb⟩ := blockOver_readsOnly only _ _ _ hread
    exact ⟨ts, rfl, Statement.spelling_block_iff.mpr hb⟩
  · exact nameStatement_readsOnly honly hname.2 _

/-- It reads every spelling if the readers for what stands inside do. -/
theorem statementOver_readsAll (honly : expression.ReadsOnly (Within levels))
    (hall : expression.ReadsAll (Within levels) (Stops 0)) (only : StatementsOnly statement levels)
    (all : StatementsAll statement levels) :
    StatementsAll (statementOver expression statement) (levels + 1) := by
  intro isOpen s ts rest h hrest
  cases s with
  | conditional branches otherwise origin =>
    obtain ⟨keyword, us, rfl, hk⟩ := h.conditional_front
    exact reads_statementOver_iff.mpr (.inl ⟨keyword, us ++ rest, rfl, hk,
      conditional_readsAll honly hall only all h hrest⟩)
  | block b =>
    have hb := Statement.spelling_block_iff.mp h
    exact reads_statementOver_iff.mpr (.inr (.inr (.inr (.inl
      ⟨b, Token.front?_append hb.front, blockOver_reads only all hb rest, rfl⟩))))
  | assignment x value origin =>
    cases h with
    | assignment hn hb he =>
      exact reads_statementOver_iff.mpr (.inr (.inr (.inr (.inr ⟨Terminal.admits_iff.mp hn,
        reads_nameStatement_assignment hall hn hb he hrest.stops⟩))))
  | call c =>
    cases h with
    | bareCall hn =>
      exact reads_statementOver_iff.mpr (.inr (.inr (.inr (.inr ⟨Terminal.admits_iff.mp hn,
        reads_nameStatement_bareCall hn (hrest.ne (by decide)) (hrest.ne (by decide))⟩))))
    | call hn ha =>
      exact reads_statementOver_iff.mpr (.inr (.inr (.inr (.inr ⟨Terminal.admits_iff.mp hn,
        reads_nameStatement_call honly hall hn ha rest⟩))))
  | whileLoop b origin =>
    cases h with
    | @whileLoop _ _ keyword does condition s ts us hk he hd hs =>
      refine reads_statementOver_iff.mpr (.inr (.inl ⟨keyword, ts ++ does :: (us ++ rest), _, ?_,
        hk, branch_readsAll hall all (by decide) keyword he hd hs hrest, rfl⟩))
      simp only [List.cons_append, List.append_assoc]
  | forLoop x first last d b origin =>
    cases h with
    | @forLoop _ _ keyword name becomes way does _ _ _ s ts us vs hk hn hb hf hw hl hd hs =>
      have hway : Expr.closers.contains (.word (Direction.word d)) = true := by
        cases d <;> decide
      have hfirst := reads_expression_before hall hf hw (List.contains_iff_mem.mp hway)
        (us ++ does :: (vs ++ rest))
      have hlast := reads_expression_before hall hl hd (by decide) (vs ++ rest)
      have hloop : (forLoop expression statement keyword).Reads
          (name :: becomes :: (ts ++ way :: (us ++ does :: (vs ++ rest))))
          (.forLoop name.toIdentifier first last d (.ofStatement s) keyword.origin) rest :=
        reads_forLoop_iff.mpr ⟨name, becomes, _, first, way, _, d, last, does, _, s, rfl, hn, hb,
          hfirst, hw, hlast, hd, all _ _ _ _ hs hrest, rfl⟩
      exact reads_statementOver_iff.mpr (.inr (.inr (.inl ⟨keyword, _, by simp, hk, hloop⟩)))

end Over

theorem statement_readsOnly (levels : Nat) : StatementsOnly (statement levels) levels := by
  induction levels with
  | zero =>
    intro us s rest h
    exact absurd h not_reads_tooDeep
  | succ levels ih => exact statementOver_readsOnly (expression_readsOnly levels) ih

theorem statement_readsAll (levels : Nat) : StatementsAll (statement levels) levels := by
  induction levels with
  | zero =>
    intro isOpen s ts rest h
    cases h
  | succ levels ih =>
    exact statementOver_readsAll (expression_readsOnly levels) (expression_readsAll levels)
      (statement_readsOnly levels) ih

theorem block_readsOnly (levels : Nat) : (block levels).ReadsOnly (Block.Spelling levels) :=
  blockOver_readsOnly (statement_readsOnly levels)

theorem block_reads {levels : Nat} {b : Block} {ts : List Token} (h : Block.Spelling levels b ts)
    (rest : List Token) : (block levels).Reads (ts ++ rest) b rest :=
  blockOver_reads (statement_readsOnly levels) (statement_readsAll levels) h rest

end Parser
end PascalSyntax
