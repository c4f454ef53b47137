import PascalSyntax.Proofs.Program.Alphabet
import PascalSyntax.Proofs.Program.Reading
import PascalSyntax.Proofs.Token.Padding

/-!
# Empty statements

Semicolons right behind a `begin` and right before an `end` are empty statements, and
leave no trace in a tree: with any number of them added at any of these places a list
of tokens is read as the same program, and without them too (`Program.parse_padded_iff`).

A part of a program survives if it is spelled at the same place when the list that it
stands in is padded anew (`Token.Survives`).  Only blocks hold semicolons that may be
added.  Everywhere else a semicolon has its counterpart, since no `end` comes after the
declarations.
-/

namespace PascalSyntax

open Token (Repadded BeforeEnd Padded)

/-- Wherever the tokens stand, if the list is padded anew there are tokens in their place
of which the same can be said. -/
def Token.Survives (P : List Token → Prop) (ts : List Token) : Prop :=
  ∀ us vs, Repadded false (ts ++ us) vs →
    ∃ ts' us', vs = ts' ++ us' ∧ P ts' ∧ Repadded false us us'

/-- What statements are written with outside of the blocks in them, parentheses apart. -/
def Statement.unpadded : List Terminal :=
  Expr.alphabet ++ [.symbol ":=", .word "while", .word "do", .word "for", .word "to",
    .word "downto", .word "if", .word "then", .word "else"]

theorem Direction.word_mem_unpadded (direction : Direction) :
    .word direction.word ∈ Statement.unpadded := by
  cases direction <;> decide

theorem Expr.Within.unpadded {levels : Nat} {e : Expr} {ts : List Token}
    (h : Expr.Within levels e ts) : Token.Bracketed Statement.unpadded ts :=
  h.bracketed.mono (List.subset_append_left _ _)

namespace Token.Survives

variable {P Q : List Token → Prop} {ts us : List Token}

theorem mono (h : Survives P ts) (hpq : ∀ us, P us → Q us) : Survives Q ts := by
  intro us vs hpadded
  obtain ⟨ts', us', rfl, hts', hus'⟩ := h us vs hpadded
  exact ⟨ts', us', rfl, hpq ts' hts', hus'⟩

theorem append (h : Survives P ts) (h' : Survives Q us) :
    Survives (fun vs => ∃ ts' us', P ts' ∧ Q us' ∧ vs = ts' ++ us') (ts ++ us) := by
  intro rest vs hpadded
  rw [List.append_assoc] at hpadded
  obtain ⟨ts', _, rfl, hts', h₁⟩ := h _ _ hpadded
  obtain ⟨us', rest', rfl, hus', h₂⟩ := h' _ _ h₁
  exact ⟨ts' ++ us', rest', (List.append_assoc ..).symm, ⟨ts', us', hts', hus', rfl⟩, h₂⟩

/-- Tokens that have no place for semicolons stay as they are. -/
theorem unpadded (hts : Bracketed Statement.unpadded ts) : Survives (· = ts) ts := by
  intro us vs hpadded
  have hdisjoint : ∀ a ∈ [Terminal.symbol ";", .word "begin", .word "end"],
      a ∉ .symbol "(" :: .symbol ")" :: Statement.unpadded := by
    decide
  obtain ⟨us', rfl, hus⟩ :=
    hpadded.plain fun t ht a ha => hts.not_admits (hdisjoint a ha) t ht
  exact ⟨ts, us', rfl, rfl, hus⟩

/-- A keyword, an expression and one more keyword stay as they are before what survives. -/
theorem branch {levels : Nat} {e : Expr} {keyword separator : Token} {a b : Terminal}
    (h : Survives P us) (ha : a ∈ Statement.unpadded) (hk : a.admits keyword)
    (he : Expr.Within levels e ts) (hb : b ∈ Statement.unpadded) (hs : b.admits separator) :
    Survives (fun vs => ∃ us', P us' ∧ vs = keyword :: (ts ++ separator :: us'))
      (keyword :: (ts ++ separator :: us)) := by
  have hhead := unpadded (.cons ha hk (.append he.unpadded (.token hb hs)))
  have hsplit (vs : List Token) :
      keyword :: (ts ++ [separator]) ++ vs = keyword :: (ts ++ separator :: vs) := by
    simp
  rw [← hsplit]
  refine (hhead.append h).mono ?_
  rintro _ ⟨_, us', rfl, hus', rfl⟩
  exact ⟨us', hus', hsplit us'⟩

/-- A keyword between two parts that survive stays there. -/
theorem alternative {keyword : Token} {a : Terminal} (h : Survives P ts)
    (ha : a ∈ Statement.unpadded) (hk : a.admits keyword) (h' : Survives Q us) :
    Survives (fun vs => ∃ ts' us', P ts' ∧ Q us' ∧ vs = ts' ++ keyword :: us')
      (ts ++ keyword :: us) := by
  refine (h.append ((unpadded (.token ha hk)).append h')).mono ?_
  rintro _ ⟨ts', _, hts', ⟨_, us', rfl, hus', rfl⟩, rfl⟩
  exact ⟨ts', us', hts', hus', rfl⟩

/-- What starts with some other token than a given one starts with another one again. -/
theorem front_ne {a b : Terminal} (h : Survives P ts) (hfront : front? ts = some a) (hne : a ≠ b)
    (hb : b ∉ [Terminal.symbol ";", .word "end"]) :
    Survives (fun us => P us ∧ front? us ≠ some b) ts := by
  intro us vs hpadded
  obtain ⟨ts', us', rfl, hts', hus'⟩ := h us vs hpadded
  refine ⟨ts', us', rfl, ⟨hts', fun hfront' => hne ?_⟩, hus'⟩
  have hsame := hpadded.symm.front (front?_append hfront') hb
  rw [front?_append hfront] at hsame
  exact Option.some.inj hsame

end Token.Survives

/-! ## Blocks -/

namespace Statement

theorem starters_disjoint : ∀ a ∈ starters, a ∉ [Terminal.symbol ";", .word "end"] := by
  decide

variable {spells : Statement → List Token → Prop} {items : List (Option Statement)}
  {ts us vs : List Token}

/-- Semicolons before the items of a block are empty items. -/
theorem separated_semicolons (h : Separated (.symbol ";") (Piece spells) items ts)
    {added : List Token} (hadded : ∀ t ∈ added, (Terminal.symbol ";").admits t) :
    ∃ items', Separated (.symbol ";") (Piece spells) items' (added ++ ts) ∧
      items'.filterMap id = items.filterMap id := by
  induction added with
  | nil => exact ⟨items, h, rfl⟩
  | cons t added ih =>
    obtain ⟨ht, hadded⟩ := List.forall_mem_cons.mp hadded
    obtain ⟨items', hs, hitems⟩ := ih hadded
    exact ⟨none :: items', .cons (a := none) rfl ht hs, hitems⟩

/-- A statement may stand before the items of a block if these start with a semicolon or
with the end of the block. -/
theorem separated_statement
    (front : ∀ s ts, spells s ts → ∃ a ∈ starters, Token.front? ts = some a)
    (h : Separated (.symbol ";") (Piece spells) items ts) {s : Statement} (hs : spells s us)
    (hend : BeforeEnd (ts ++ vs)) :
    ∃ items', Separated (.symbol ";") (Piece spells) items' (us ++ ts) ∧
      items'.filterMap id = s :: items.filterMap id := by
  have hne {s' : Statement} {ts' ws : List Token} (hs' : spells s' ts') :
      ¬ BeforeEnd (ts' ++ ws) := by
    obtain ⟨a, ha, hfront⟩ := front _ _ hs'
    exact BeforeEnd.not_of_front (Token.front?_append hfront) (starters_disjoint a ha)
  cases h with
  | @single item _ hitem =>
    cases item with
    | none =>
      obtain rfl : ts = [] := hitem
      exact ⟨[some s], .single (by rwa [List.append_nil]), rfl⟩
    | some s' => exact absurd hend (hne hitem)
  | @cons item items t ts' _ hitem ht hrest =>
    cases item with
    | none =>
      obtain rfl : ts' = [] := hitem
      exact ⟨some s :: items, .cons (a := some s) hs ht hrest, rfl⟩
    | some s' =>
      rw [List.append_assoc] at hend
      exact absurd hend (hne hitem)

variable (spells) in
/-- Before the end of a block semicolons are empty items. -/
theorem ending_survives {closing : Token} (hc : (Terminal.word "end").admits closing)
    {opened : Bool} (h : Repadded opened (closing :: us) vs) :
    ∃ items ts us', vs = ts ++ closing :: us' ∧
      Separated (.symbol ";") (Piece spells) items ts ∧ items.filterMap id = [] ∧
      BeforeEnd (ts ++ closing :: us') ∧ Repadded false us us' := by
  obtain ⟨added, us', rfl, hadded, -, hrest⟩ := h.cons_inv (Terminal.not_admits hc (by decide))
  rw [Terminal.not_admits hc (by decide)] at hrest
  have hnone : Separated (.symbol ";") (Piece spells) [none] [] := .single rfl
  obtain ⟨items, hs, hitems⟩ := separated_semicolons hnone hadded
  rw [List.append_nil] at hs
  exact ⟨items, added, us', rfl, hs, hitems, .of_semicolons hadded hc, hrest⟩

/-- A statement that survives may get new semicolons before it. -/
theorem leading_survives
    (front : ∀ s ts, spells s ts → ∃ a ∈ starters, Token.front? ts = some a) {s : Statement}
    (hs : spells s ts) (hsurvives : Token.Survives (spells s) ts) {opened : Bool}
    (h : Repadded opened (ts ++ us) vs) :
    ∃ added ts' us', vs = added ++ (ts' ++ us') ∧
      (∀ t ∈ added, (Terminal.symbol ";").admits t) ∧ spells s ts' ∧ Repadded false us us' := by
  obtain ⟨a, ha, hfront⟩ := front _ _ hs
  have hne : a ≠ .symbol ";" := fun he => starters_disjoint a ha (he ▸ List.mem_cons_self)
  obtain ⟨added, ws, rfl, hadded, hrest⟩ := h.leading (Token.front?_append hfront) hne
  obtain ⟨ts', us', rfl, hts', hus'⟩ := hsurvives _ _ hrest
  exact ⟨added, ts', us', rfl, hadded, hts', hus'⟩

/-- The items of a block survive, up to empty ones, if its statements do. -/
theorem items_survive
    (front : ∀ s ts, spells s ts → ∃ a ∈ starters, Token.front? ts = some a)
    (h : Separated (.symbol ";")
      (Piece fun s us => spells s us ∧ Token.Survives (spells s) us) items ts)
    {closing : Token} (hc : (Terminal.word "end").admits closing) :
    ∀ {opened vs}, Repadded opened (ts ++ closing :: us) vs →
      ∃ items' ts' us', vs = ts' ++ closing :: us' ∧
        Separated (.symbol ";") (Piece spells) items' ts' ∧
        items'.filterMap id = items.filterMap id ∧ Repadded false us us' := by
  induction h with
  | @single item ts hitem =>
    intro opened vs h
    cases item with
    | none =>
      obtain rfl : ts = [] := hitem
      obtain ⟨items', ts', us', rfl, hs, hitems, -, hus⟩ :=
        ending_survives spells hc h
      exact ⟨items', ts', us', rfl, hs, hitems, hus⟩
    | some s =>
      obtain ⟨added, ts', rest, rfl, hadded, hts', hrest⟩ :=
        leading_survives front hitem.1 hitem.2 h
      obtain ⟨items', ws, us', rfl, hs, hitems, hend, hus⟩ :=
        ending_survives spells hc hrest
      obtain ⟨items', hs, hitems'⟩ := separated_statement front hs hts' hend
      obtain ⟨items', hs, hitems''⟩ := separated_semicolons hs hadded
      refine ⟨items', added ++ (ts' ++ ws), us', by simp, hs, ?_, hus⟩
      rw [hitems'', hitems', hitems]
      rfl
  | @cons item items t ts _ hitem ht _ ih =>
    intro opened vs h
    cases item with
    | none =>
      obtain rfl : ts = [] := hitem
      rcases h.semicolon_inv ht with ⟨hrest, -⟩ | ⟨added, ws, rfl, hadded, -, hrest⟩
      · exact ih hrest
      · obtain ⟨items', ts', us', rfl, hs, hitems, hus⟩ := ih hrest
        have hempty := @Separated.cons _ _ (Piece spells) none _ _ _ _ rfl ht hs
        obtain ⟨items', hs, hitems'⟩ := separated_semicolons hempty hadded
        exact ⟨items', _, us', by simp, hs, hitems'.trans hitems, hus⟩
    | some s =>
      rw [List.append_assoc] at h
      obtain ⟨added, ts', rest, rfl, hadded, hts', hrest⟩ :=
        leading_survives front hitem.1 hitem.2 h
      have hitems : ∃ items' ws us', rest = ws ++ closing :: us' ∧
          Separated (.symbol ";") (Piece spells) items' (ts' ++ ws) ∧
          items'.filterMap id = s :: items.filterMap id ∧ Repadded false us us' := by
        rcases hrest.semicolon_inv ht with ⟨hnext, hplace⟩ | ⟨others, ws, rfl, -, hplace, hnext⟩
        -- the semicolon behind the statement was one of those before the end
        · obtain ⟨items', ws, us', rfl, hs, hitems, hus⟩ := ih hnext
          obtain ⟨-, hend⟩ := hplace.resolve_left Bool.false_ne_true
          obtain ⟨items', hs, hitems'⟩ := separated_statement front hs hts' hend
          exact ⟨items', ws, us', rfl, hs, hitems'.trans (congrArg _ hitems), hus⟩
        -- it is found in the other list too
        · obtain rfl : others = [] := by simpa using hplace
          obtain ⟨items', ws, us', rfl, hs, hitems, hus⟩ := ih hnext
          exact ⟨some s :: items', t :: ws, us', rfl, .cons (a := some s) hts' ht hs,
            congrArg (s :: ·) hitems, hus⟩
      obtain ⟨items', ws, us', rfl, hs, hitems, hus⟩ := hitems
      obtain ⟨items', hs, hitems'⟩ := separated_semicolons hs hadded
      exact ⟨items', added ++ (ts' ++ ws), us', by simp, hs, hitems'.trans hitems, hus⟩

end Statement

/-! ## Statements -/

section Statements

variable {levels : Nat} {ts us vs : List Token}

namespace Statement.Spelling

/-- A block survives if the statements in it do. -/
theorem survives_block {isOpen : Bool} {opening closing : Token}
    {items : List (Option Statement)} (ho : (Terminal.word "begin").admits opening)
    (hs : Separated (.symbol ";") (Piece fun s us =>
      Spelling levels true s us ∧ Token.Survives (Spelling levels true s) us) items ts)
    (hc : (Terminal.word "end").admits closing) :
    Token.Survives
      (Spelling (levels + 1) isOpen (.block ⟨items.filterMap id, opening.origin⟩))
      (opening :: (ts ++ [closing])) := by
  intro us vs h
  rw [List.cons_append, List.append_assoc] at h
  obtain ⟨_, rfl, h₁⟩ := h.opening ho
  obtain ⟨items', ts', us', rfl, hs', hsame, h₂⟩ :=
    Statement.items_survive (fun _ _ h => h.front) hs hc h₁
  refine ⟨opening :: (ts' ++ [closing]), us', by simp, ?_, h₂⟩
  exact Statement.spelling_block_iff.mpr (hsame ▸ .mk ho hs' hc)

theorem survives {isOpen : Bool} {s : Statement} (h : Spelling levels isOpen s ts) :
    Token.Survives (Spelling levels isOpen s) ts := by
  induction h with
  | assignment hn hb he =>
    refine (Token.Survives.unpadded ?_).mono fun _ h => h ▸ .assignment hn hb he
    exact .cons (by decide) hn (.cons (by decide) hb he.unpadded)
  | bareCall hn =>
    exact (Token.Survives.unpadded (.token (by decide) hn)).mono fun _ h => h ▸ .bareCall hn
  | call hn ha =>
    refine (Token.Survives.unpadded ?_).mono fun _ h => h ▸ .call hn ha
    exact .cons (by decide) hn (ha.bracketed.mono (List.subset_append_left _ _))
  | @block levels isOpen opening closing pieces ts ho hp hnone hs hc ih =>
    have hpieces : ∀ piece ∈ pieces, Statement.Piece (fun s us =>
        Spelling levels true s us ∧ Token.Survives (Spelling levels true s) us)
          piece.1 piece.2 := by
      intro piece hpiece
      rcases hsome : piece.1 with _ | s
      · exact hnone piece hpiece hsome
      · exact ⟨hp piece hpiece s hsome, ih piece hpiece s hsome⟩
    have hitems : pieces.filterMap (·.1) = (pieces.map (·.1)).filterMap id := by
      rw [List.filterMap_map]
      rfl
    rw [hitems]
    exact survives_block ho (separated_iff_pieces.mpr ⟨pieces, rfl, hpieces, hs⟩) hc
  | whileLoop hk he hd _ ih =>
    refine (ih.branch (by decide) hk he (by decide) hd).mono ?_
    rintro _ ⟨body, hbody, rfl⟩
    exact .whileLoop hk he hd hbody
  | forLoop hk hn hb hf hw hl hd _ ih =>
    -- from the direction on the loop is written like a branch
    have hhead := Token.Survives.unpadded
      (.cons (by decide) hk (.cons (by decide) hn (.cons (by decide) hb hf.unpadded)))
    have hrange := ih.branch (Direction.word_mem_unpadded _) hw hl (by decide) hd
    refine (hhead.append hrange).mono ?_
    rintro _ ⟨_, _, rfl, ⟨body, hbody, rfl⟩, rfl⟩
    exact .forLoop hk hn hb hf hw hl hd hbody
  | ifThen hk he ht _ ih =>
    refine (ih.branch (by decide) hk he (by decide) ht).mono ?_
    rintro _ ⟨body, hbody, rfl⟩
    exact .ifThen hk he ht hbody
  | ifElse hk he ht _ hel ho hne ih iho =>
    -- what follows the `else` is still no `if`
    obtain ⟨a, -, hfront⟩ := ho.front
    have hif : a ≠ .word "if" := fun ha => hne (ha ▸ hfront)
    have hotherwise := iho.front_ne hfront hif (by decide)
    have hbodies := ih.alternative (by decide) hel hotherwise
    refine (hbodies.branch (by decide) hk he (by decide) ht).mono ?_
    rintro _ ⟨_, ⟨body, otherwise, hbody, ⟨ho', hif⟩, rfl⟩, rfl⟩
    exact .ifElse hk he ht hbody hel ho' hif
  | elseIf hk he ht _ hel _ ih iho =>
    refine ((ih.alternative (by decide) hel iho).branch (by decide) hk he (by decide) ht).mono ?_
    rintro _ ⟨_, ⟨body, others, hbody, hothers, rfl⟩, rfl⟩
    exact .elseIf hk he ht hbody hel hothers

end Statement.Spelling

theorem Block.Spelling.survives {b : Block} (h : Block.Spelling levels b ts) :
    Token.Survives (Block.Spelling levels b) ts := by
  have hstatement : Statement.Spelling (levels + 1) true (.block b) ts :=
    Statement.spelling_block_iff.mpr h
  exact hstatement.survives.mono fun _ => Statement.spelling_block_iff.mp

end Statements

/-! ## Declarations and programs -/

/-- What is written outside of the blocks of a program, parentheses and the last point
apart. -/
def Program.declaring : List Terminal :=
  VarDecl.alphabet ++ (ConstDecl.alphabet ++ [.word "program", .word "function",
    .word "procedure"])

section Programs

variable {levels : Nat} {ts us vs : List Token}

/-- Declarations stand outside of blocks: semicolons there are their own. -/
theorem Token.Repadded.declarations (h : Repadded false (ts ++ us) vs)
    (hts : Token.Bracketed Program.declaring ts) (hus : ¬ BeforeEnd us) :
    ∃ ws, vs = ts ++ ws ∧ Repadded false us ws := by
  refine h.apart (fun t ht a ha => hts.not_admits ?_ t ht) hus
  have hdisjoint : ∀ a ∈ [Terminal.word "begin", .word "end"],
      a ∉ .symbol "(" :: .symbol ")" :: Program.declaring := by
    decide
  exact hdisjoint a ha

theorem Block.Spelling.not_beforeEnd {b : Block} (h : Block.Spelling levels b ts) :
    ¬ BeforeEnd (ts ++ us) :=
  BeforeEnd.not_of_front (Token.front?_append h.front) (by decide)

theorem Routine.Spelling.survives {r : Routine} (h : Routine.Spelling levels r ts)
    (hpadded : Repadded false (ts ++ us) vs) (hus : ¬ BeforeEnd us) :
    ∃ ts' us', vs = ts' ++ us' ∧ Routine.Spelling levels r ts' ∧ Repadded false us us' := by
  have hvars : VarDecl.alphabet ⊆ Program.declaring := List.subset_append_left _ _
  cases h with
  | @mk isFunction keyword name semicolon last _ _ _ _ formals kind locals body hk hn hformals
      hkind hsemi hlocals hbody hlast =>
    have hkeyword : Routine.keyword isFunction ∈ Program.declaring := by
      cases isFunction <;> decide
    have hdeclaring := Token.Bracketed.cons hkeyword hk (.cons (by decide) hn
      (.append (hformals.bracketed.mono hvars) (.append (hkind.bracketed.mono hvars)
        (.cons (by decide) hsemi (hlocals.bracketed.mono hvars)))))
    have hsplit : keyword :: name :: (formals ++ (kind ++ semicolon :: (locals ++
        (body ++ [last])))) ++ us =
        (keyword :: name :: (formals ++ (kind ++ semicolon :: locals))) ++
          (body ++ ([last] ++ us)) := by
      simp
    rw [hsplit] at hpadded
    obtain ⟨_, rfl, h₁⟩ := hpadded.declarations hdeclaring hbody.not_beforeEnd
    obtain ⟨body', _, rfl, hbody', h₂⟩ := hbody.survives _ _ h₁
    obtain ⟨us', rfl, h₃⟩ := h₂.declarations (.token (by decide) hlast) hus
    exact ⟨_, us', by simp, .mk hk hn hformals hkind hsemi hlocals hbody' hlast, h₃⟩

theorem Routine.sequence_not_beforeEnd {rs : List Routine}
    (h : Sequence (Routine.Spelling levels) rs ts) (hus : Token.front? us = some (.word "begin")) :
    ¬ BeforeEnd (ts ++ us) := by
  obtain ⟨a, ha, hfront⟩ := Parser.routines_front h hus
  have hdisjoint : ∀ a ∈ [Terminal.word "function", .word "procedure", .word "begin"],
      a ∉ [Terminal.symbol ";", .word "end"] := by
    decide
  exact BeforeEnd.not_of_front hfront (hdisjoint a ha)

theorem Routine.sequence_survives {rs : List Routine}
    (h : Sequence (Routine.Spelling levels) rs ts) (hus : Token.front? us = some (.word "begin")) :
    ∀ {vs}, Repadded false (ts ++ us) vs → ∃ ts' us', vs = ts' ++ us' ∧
      Sequence (Routine.Spelling levels) rs ts' ∧ Repadded false us us' := by
  induction h with
  | nil => exact fun {vs} hpadded => ⟨[], vs, rfl, .nil, hpadded⟩
  | cons hr hrs ih =>
    intro vs hpadded
    rw [List.append_assoc] at hpadded
    obtain ⟨_, _, rfl, hr', h₁⟩ := hr.survives hpadded (Routine.sequence_not_beforeEnd hrs hus)
    obtain ⟨_, us', rfl, hrs', h₂⟩ := ih h₁
    exact ⟨_, us', by simp, .cons hr' hrs', h₂⟩

theorem Program.Spelling.survives {p : Program} (h : Program.Spelling levels p ts)
    (hpadded : Repadded false ts us) : Program.Spelling levels p us := by
  have hvariables : VarDecl.alphabet ⊆ Program.declaring := List.subset_append_left _ _
  have hconstants : ConstDecl.alphabet ⊆ Program.declaring :=
    List.subset_append_of_subset_right _ (List.subset_append_left _ _)
  cases h with
  | @mk keyword name semicolon point _ _ _ _ vars consts routines body hk hn hsemi hvars hconsts
      hroutines hbody hpoint =>
    have hdeclaring := Token.Bracketed.cons (by decide) hk (.cons (by decide) hn
      (.cons (by decide) hsemi (.append (hvars.bracketed.mono hvariables)
        (hconsts.bracketed.mono hconstants))))
    have hbegin : Token.front? (body ++ [point]) = some (.word "begin") :=
      Token.front?_append hbody.front
    have hsplit : keyword :: name :: semicolon :: (vars ++ (consts ++ (routines ++
        (body ++ [point])))) =
        (keyword :: name :: semicolon :: (vars ++ consts)) ++ (routines ++ (body ++ [point])) := by
      simp
    rw [hsplit] at hpadded
    obtain ⟨_, rfl, h₁⟩ :=
      hpadded.declarations hdeclaring (Routine.sequence_not_beforeEnd hroutines hbegin)
    obtain ⟨routines', _, rfl, hroutines', h₂⟩ := Routine.sequence_survives hroutines hbegin h₁
    obtain ⟨body', _, rfl, hbody', h₃⟩ := hbody.survives _ _ h₂
    obtain ⟨_, rfl, h₄⟩ := h₃.token hpoint (by decide)
    obtain rfl := h₄.nil_inv
    have hspelling := Program.Spelling.mk hk hn hsemi hvars hconsts hroutines' hbody' hpoint
    simpa using hspelling

end Programs

namespace Program

/-- Empty statements leave no trace.  Where semicolons are added right behind any `begin`
and right before any `end`, any number of them at any of these places, tokens are read as
a program just if they are read as it without them, and it is the same tree with the same
origins. -/
theorem parse_padded_iff {tokens tokens' : List Token} (h : Padded false tokens tokens')
    (maxDepth : Nat) (p : Program) :
    parse maxDepth tokens = .ok p ↔ parse maxDepth tokens' = .ok p := by
  have hpadded : Repadded false (Token.significant tokens) (Token.significant tokens') :=
    .ofPadded h.significant
  rw [parse_iff, parse_iff]
  exact ⟨fun hp => hp.survives hpadded, fun hp => hp.survives hpadded.symm⟩

/-- The tokens of `program p; begin begin x := 1 end {} end.` on a line, with some more behind
the first `begin` and before the first `end`. -/
def nestedBlocks (added : List Token) : List Token :=
  [⟨.reservedWord, "program", ⟨1, 1⟩⟩, ⟨.identifier, "p", ⟨1, 9⟩⟩, ⟨.symbol, ";", ⟨1, 10⟩⟩,
    ⟨.reservedWord, "begin", ⟨1, 12⟩⟩] ++ added ++
  [⟨.reservedWord, "begin", ⟨1, 18⟩⟩, ⟨.identifier, "x", ⟨1, 24⟩⟩, ⟨.symbol, ":=", ⟨1, 26⟩⟩,
    ⟨.number, "1", ⟨1, 29⟩⟩] ++ added ++
  [⟨.reservedWord, "end", ⟨1, 31⟩⟩, ⟨.comment, "{}", ⟨1, 35⟩⟩, ⟨.reservedWord, "end", ⟨1, 38⟩⟩,
    ⟨.symbol, ".", ⟨1, 41⟩⟩]

/-- Two semicolons at each place change nothing, and none has to be there. -/
theorem nestedBlocks_padded :
    let semicolon : Token := ⟨.symbol, ";", .start⟩
    ∃ p, parse 64 (nestedBlocks []) = .ok p ∧
      parse 64 (nestedBlocks [semicolon, semicolon]) = .ok p := by
  intro semicolon
  have hread : (parse 64 (nestedBlocks [])).isOk = true := by
    decide +kernel
  have hpadded : Padded false (nestedBlocks []) (nestedBlocks [semicolon, semicolon]) :=
    .token (.token (.token (.token (.semicolon rfl (.inl rfl) (.semicolon rfl (.inl rfl)
      (.token (.token (.token (.token (.semicolon rfl (.inr rfl) (.semicolon rfl (.inr rfl)
        (.refl _ _))))))))))))
  cases h : parse 64 (nestedBlocks []) with
  | error e =>
    rw [h] at hread
    cases hread
  | ok p => exact ⟨p, rfl, (parse_padded_iff hpadded 64 p).mp h⟩

end Program
end PascalSyntax
