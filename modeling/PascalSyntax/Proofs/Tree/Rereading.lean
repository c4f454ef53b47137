import PascalSyntax.Proofs.Program.Spelling
import PascalSyntax.Proofs.Tree.WellFormed

/-!
# Written trees are spelled

Tokens that write the words of a well-formed tree spell that tree, apart from the
origins, wherever enough levels of nesting are left: as many as there are tokens
will do.
-/

namespace PascalSyntax

/-- Tokens that write words between two given words. -/
theorem Token.map_lexeme_enclosed {w v : Word} {ws : List Word} {ts : List Token}
    (h : ts.map Token.lexeme = w :: (ws ++ [v])) :
    ∃ opening us closing, ts = opening :: (us ++ [closing]) ∧ opening.lexeme = w ∧
      us.map Token.lexeme = ws ∧ closing.lexeme = v := by
  obtain ⟨opening, rest, rfl, ho, hrest⟩ := List.map_eq_cons_iff.mp h
  obtain ⟨us, last, rfl, hus, hlast⟩ := List.map_eq_append_iff.mp hrest
  obtain ⟨closing, rfl, hc⟩ := List.map_eq_singleton_iff.mp hlast
  exact ⟨opening, us, closing, rfl, ho, hus, hc⟩

namespace Identifier

theorem admits_of_word {x : Identifier} {t : Token} (h : t.lexeme = x.word) :
    Terminal.identifier.admits t = true :=
  Terminal.identifier_admits_of_lexeme h

theorem text_of_word {x : Identifier} {t : Token} (h : t.lexeme = x.word) : t.text = x.name :=
  congrArg Prod.snd h

theorem erase_of_word {x : Identifier} {t : Token} (h : t.lexeme = x.word) :
    t.toIdentifier.mapOrigin (fun _ => .erased) = x.mapOrigin (fun _ => .erased) :=
  Expr.toIdentifier_mapOrigin (text_of_word h) rfl

end Identifier

/-! ## Expressions -/

theorem Terminal.admits_of_word {isWord : Bool} {text : String} {t : Token}
    (h : t.lexeme = if isWord then Word.keyword text else Word.symbol text) :
    (if isWord then Terminal.word text else Terminal.symbol text).admits t = true := by
  cases isWord with
  | true => exact Terminal.word_admits_iff.mpr h
  | false => exact Terminal.symbol_admits_iff.mpr h

theorem BinaryOperator.admits_of_word {op : BinaryOperator} {t : Token} (h : t.lexeme = op.word) :
    op.terminal.admits t = true :=
  Terminal.admits_of_word h

theorem UnaryOperator.admits_of_word {op : UnaryOperator} {t : Token} (h : t.lexeme = op.word) :
    op.terminal.admits t = true :=
  Terminal.admits_of_word h

/-- A call is written with its parentheses, and its arguments between them. -/
theorem Call.of_words {c : Call} {ts : List Token} (hts : ts.map Token.lexeme = c.words)
    (spells : Argument → List Token → Prop)
    (h : ∀ a ∈ c.arguments, ∀ us, us.map Token.lexeme = a.value.words → us.length < ts.length →
      spells a us) :
    ∃ name opening us closing, ts = name :: opening :: (us ++ [closing]) ∧
      name.lexeme = c.routine.word ∧ (Terminal.symbol "(").admits opening ∧
      (Terminal.symbol ")").admits closing ∧
      (c.arguments = [] ∧ us = [] ∨ Separated (.symbol ",") spells c.arguments us) := by
  rw [words_eq] at hts
  obtain ⟨name, rest, rfl, hname, hrest⟩ := List.map_eq_cons_iff.mp hts
  obtain ⟨opening, us, closing, rfl, ho, hus, hc⟩ := Token.map_lexeme_enclosed hrest
  refine ⟨name, opening, us, closing, rfl, hname, Terminal.symbol_admits_iff.mpr ho,
    Terminal.symbol_admits_iff.mpr hc, ?_⟩
  by_cases hne : c.arguments = []
  · rw [hne, List.map_nil, List.intercalate_nil, List.map_eq_nil_iff] at hus
    exact .inl ⟨hne, hus⟩
  · refine .inr (.of_words (fun t ht => Terminal.symbol_admits_iff.mpr ht) hne hus ?_)
    intro a ha vs hvs hl
    refine h a ha vs hvs ?_
    simp only [List.length_cons, List.length_append]
    omega

namespace Expr

/-- Tokens that write an expression render it at any place. -/
theorem WellFormed.rendering {e : Expr} (h : e.WellFormed) :
    ∀ {k : Nat} {ts : List Token}, ts.map Token.lexeme = e.words → e.Rendering k ts := by
  induction h with
  | identifier _ =>
    intro k ts hts
    rw [words] at hts
    obtain ⟨t, rfl, ht⟩ := List.map_eq_singleton_iff.mp hts
    exact .identifier (Identifier.admits_of_word ht) (Identifier.text_of_word ht)
  | @integer literal hlow hhigh =>
    intro k ts hts
    rw [words] at hts
    obtain ⟨t, rfl, ht⟩ := List.map_eq_singleton_iff.mp hts
    have hbound : literal.value.toNat ≤ Numeral.maxSigned := by
      unfold Numeral.maxSigned
      omega
    have hvalue := Token.signed?_of_lexeme ht hbound
    rw [Int.toNat_of_nonneg hlow] at hvalue
    exact .integer (Terminal.number_admits_of_lexeme ht) hvalue
  | string _ =>
    intro k ts hts
    rw [words] at hts
    obtain ⟨t, rfl, ht⟩ := List.map_eq_singleton_iff.mp hts
    exact .string (Terminal.string_admits_of_lexeme ht) (Token.unquoted_of_lexeme ht)
  | @call c _ hunbound _ ih =>
    intro k ts hts
    rw [words] at hts
    obtain ⟨name, opening, us, closing, rfl, hname, ho, hc, hargs⟩ :=
      Call.of_words hts (fun a us => a.Unbound ∧ Rendering 0 a.value us)
        fun a ha us hus _ => ⟨hunbound a ha, ih a ha hus⟩
    have hn := Identifier.admits_of_word hname
    have htext := Identifier.text_of_word hname
    obtain ⟨routine, arguments, origin⟩ := c
    rcases hargs with ⟨hnil, rfl⟩ | hargs
    · obtain rfl : arguments = [] := hnil
      exact .emptyCall hn htext ho hc
    · obtain ⟨pieces, hpieces, hp, hs⟩ := separated_iff_pieces.mp hargs
      obtain rfl : arguments = pieces.map (·.1) := hpieces
      exact .call hn htext ho (fun piece hpiece => (hp piece hpiece).1)
        (fun piece hpiece => (hp piece hpiece).2) hs hc
  | binary _ _ ihl ihr =>
    intro k ts hts
    rw [words] at hts
    obtain ⟨opening, us, closing, rfl, ho, hus, hc⟩ := Token.map_lexeme_enclosed hts
    obtain ⟨ls, rest, rfl, hls, hrest⟩ := List.map_eq_append_iff.mp hus
    obtain ⟨t, rs, rfl, ht, hrs⟩ := List.map_eq_cons_iff.mp hrest
    exact .parenthesized (Terminal.symbol_admits_iff.mpr ho)
      (.binary (Nat.zero_le _) (ihl hls) (BinaryOperator.admits_of_word ht) (ihr hrs))
      (Terminal.symbol_admits_iff.mpr hc)
  | unary _ ih =>
    intro k ts hts
    rw [words] at hts
    obtain ⟨opening, us, closing, rfl, ho, hus, hc⟩ := Token.map_lexeme_enclosed hts
    obtain ⟨t, rest, rfl, ht, hrest⟩ := List.map_eq_cons_iff.mp hus
    exact .parenthesized (Terminal.symbol_admits_iff.mpr ho)
      (.unary (UnaryOperator.admits_of_word ht) (ih hrest)) (Terminal.symbol_admits_iff.mpr hc)

/-- Tokens that write an expression spell it, apart from its origins. -/
theorem WellFormed.within {e : Expr} (h : e.WellFormed) {levels : Nat} {ts : List Token}
    (hts : ts.map Token.lexeme = e.words) (hl : ts.length ≤ levels) :
    ∃ e', e'.erase = e.erase ∧ Within levels e' ts := by
  have hr : e.Rendering 0 ts := h.rendering hts
  have := List.length_pos_iff.mpr hr.ne_nil
  obtain ⟨inner, rfl⟩ : ∃ inner, levels = inner + 1 := ⟨levels - 1, by omega⟩
  exact hr.spelling inner hl

end Expr

/-! ## Statements -/

/-- Tokens that write the statement spell it, apart from its origins. -/
def Statement.Legible (s : Statement) : Prop :=
  ∀ (levels : Nat) (ts : List Token), ts.map Token.lexeme = s.words → ts.length ≤ levels →
    ∃ s', s'.erase = s.erase ∧ Spelling levels true s' ts

namespace Block

theorem of_words {b : Block} (h : ∀ s ∈ b.statements, s.Legible) {levels : Nat} {ts : List Token}
    (hts : ts.map Token.lexeme = b.words) (hl : ts.length ≤ levels + 1) :
    ∃ b', b'.erase = b.erase ∧ Spelling levels b' ts := by
  rw [words_eq] at hts
  obtain ⟨opening, us, closing, rfl, ho, hus, hc⟩ := Token.map_lexeme_enclosed hts
  have ho := Terminal.word_admits_iff.mpr ho
  have hc := Terminal.word_admits_iff.mpr hc
  simp only [List.length_cons, List.length_append, List.length_nil] at hl
  obtain ⟨statements, origin⟩ := b
  by_cases hne : statements = []
  · -- an empty block has one piece, which is empty
    subst hne
    obtain rfl : us = [] := List.map_eq_nil_iff.mp hus
    exact ⟨_, erase_mk rfl, @Spelling.mk _ _ _ [none] _ ho (.single rfl) hc⟩
  · have hs : Separated (.symbol ";")
        (fun s vs => ∃ s', s'.erase = s.erase ∧ Statement.Spelling levels true s' vs)
        statements us := by
      refine .of_words (fun t ht => Terminal.symbol_admits_iff.mpr ht) hne hus ?_
      intro s hs vs hvs hshort
      exact h s hs levels vs hvs (by omega)
    obtain ⟨items, hitems, hs⟩ := @Separated.replace _ _ _ _ _
      (Statement.Piece (Statement.Spelling levels true)) (fun s => some s.erase)
      (Option.map Statement.erase) (fun s vs ⟨s', he, hspells⟩ => ⟨some s', by simp [he], hspells⟩)
      _ _ hs
    refine ⟨_, erase_mk ?_, .mk ho hs hc⟩
    have := congrArg (List.filterMap id) hitems
    simpa [List.filterMap_map, List.map_filterMap, Function.comp_def] using this

/-- A body is spelled as a block, and cannot take an `else`. -/
theorem body_of_words {b : Block} (h : ∀ s ∈ b.statements, s.Legible) {levels : Nat}
    {ts : List Token} (hts : ts.map Token.lexeme = b.words) (hl : ts.length ≤ levels) :
    ∃ b', b'.erase = b.erase ∧ ∀ isOpen, Statement.Spelling levels isOpen (.block b') ts := by
  have hpos : 0 < ts.length := by
    rw [← List.length_map Token.lexeme, hts, words_eq, List.length_cons]
    exact Nat.succ_pos _
  obtain ⟨inner, rfl⟩ : ∃ inner, levels = inner + 1 := ⟨levels - 1, by omega⟩
  obtain ⟨b', he, hs⟩ := of_words h hts hl
  exact ⟨b', he, fun _ => Statement.spelling_block_iff.mpr hs⟩

theorem front_ne_if {b : Block} {ts : List Token} (hts : ts.map Token.lexeme = b.words) :
    Token.front? ts ≠ some (.word "if") := by
  rw [words_eq] at hts
  obtain ⟨opening, us, rfl, ho, -⟩ := List.map_eq_cons_iff.mp hts
  exact Terminal.front?_ne (Terminal.word_admits_iff.mpr ho) (by decide) us

end Block

namespace Branch

/-- The tokens that write a branch are `if`, a condition, `then` and a body. -/
theorem of_words {b : Branch} (hcondition : b.condition.WellFormed)
    (hbody : ∀ s ∈ b.body.statements, s.Legible) {levels : Nat} {ts : List Token}
    (hts : ts.map Token.lexeme = b.words) (hl : ts.length ≤ levels + 1) :
    ∃ keyword us thens vs condition body, ts = keyword :: (us ++ thens :: vs) ∧
      (Terminal.word "if").admits keyword ∧ Expr.Within levels condition us ∧
      (Terminal.word "then").admits thens ∧
      (∀ isOpen, Statement.Spelling levels isOpen (.block body) vs) ∧
      ∀ origin, erase ⟨condition, body, origin⟩ = b.erase := by
  rw [words_eq] at hts
  obtain ⟨keyword, rest, rfl, hk, hrest⟩ := List.map_eq_cons_iff.mp hts
  obtain ⟨us, rest, rfl, hus, hrest⟩ := List.map_eq_append_iff.mp hrest
  obtain ⟨thens, vs, rfl, ht, hvs⟩ := List.map_eq_cons_iff.mp hrest
  simp only [List.length_cons, List.length_append] at hl
  obtain ⟨condition, hce, hc⟩ := hcondition.within hus (show us.length ≤ levels by omega)
  obtain ⟨body, hbe, hb⟩ := Block.body_of_words hbody hvs (show vs.length ≤ levels by omega)
  refine ⟨keyword, us, thens, vs, condition, body, rfl, Terminal.word_admits_iff.mpr hk, hc,
    Terminal.word_admits_iff.mpr ht, hb, fun _ => erase_mk hce hbe⟩

theorem ne_nil_of_words {branches : List Branch} (hne : branches ≠ []) {wss : List (List Word)}
    {w : Word} {ts : List Token}
    (hts : ts.map Token.lexeme = [w].intercalate (branches.map words ++ wss)) : ts ≠ [] := by
  intro h
  subst h
  obtain ⟨b, rest, rfl⟩ := List.exists_cons_of_ne_nil hne
  rw [List.map_cons, List.cons_append] at hts
  cases rest.map words ++ wss <;> simp [words_eq] at hts

/-- The tokens that write some branches, and perhaps a block for when none of
them is taken, spell a conditional.  The induction is on the branches: each but
the last has the next one after its `else`. -/
theorem conditional_of_words {otherwise : Option Block}
    (hotherwise : ∀ b ∈ otherwise, ∀ s ∈ b.statements, s.Legible) {branches : List Branch}
    (hne : branches ≠ []) (hconditions : ∀ b ∈ branches, b.condition.WellFormed)
    (hbodies : ∀ b ∈ branches, ∀ s ∈ b.body.statements, s.Legible) {levels : Nat}
    {ts : List Token}
    (hts : ts.map Token.lexeme = [Word.keyword "else"].intercalate
      (branches.map words ++ otherwise.toList.map Block.words))
    (hl : ts.length ≤ levels + 1) :
    ∃ branches' otherwise' origin,
      branches'.map erase = branches.map erase ∧
      otherwise'.map Block.erase = otherwise.map Block.erase ∧
      Statement.Spelling (levels + 1) true (.conditional branches' otherwise' origin) ts := by
  induction branches generalizing ts with
  | nil => exact absurd rfl hne
  | cons b rest ih =>
    obtain ⟨hcondition, hconditions⟩ := List.forall_mem_cons.mp hconditions
    obtain ⟨hbody, hbodies⟩ := List.forall_mem_cons.mp hbodies
    cases rest with
    | nil =>
      -- the last branch: what follows its body is the block for otherwise, or nothing
      cases otherwise with
      | none =>
        obtain ⟨keyword, us, thens, vs, condition, body, rfl, hk, hc, ht, hb, he⟩ :=
          of_words hcondition hbody (by simpa using hts) hl
        exact ⟨[⟨condition, body, keyword.origin⟩], none, _, congrArg ([·]) (he _), rfl,
          .ifThen hk hc ht (hb true)⟩
      | some o =>
        have hts : ts.map Token.lexeme = b.words ++ .keyword "else" :: o.words := by
          simpa [List.intercalate_cons_cons] using hts
        obtain ⟨first, last, rfl, hfirst, hlast⟩ := List.map_eq_append_iff.mp hts
        obtain ⟨elses, ws, rfl, hel, hws⟩ := List.map_eq_cons_iff.mp hlast
        rw [List.length_append, List.length_cons] at hl
        obtain ⟨keyword, us, thens, vs, condition, body, rfl, hk, hc, ht, hb, he⟩ :=
          of_words hcondition hbody hfirst (show _ ≤ levels + 1 by omega)
        rw [List.length_cons] at hl
        obtain ⟨o', ho, hs⟩ := Block.body_of_words (hotherwise o rfl) hws
          (show ws.length ≤ levels by omega)
        refine ⟨[⟨condition, body, keyword.origin⟩], some o', keyword.origin,
          congrArg ([·]) (he _), congrArg some ho, ?_⟩
        rw [List.cons_append, List.append_assoc, List.cons_append]
        exact .ifElse hk hc ht (hb false) (Terminal.word_admits_iff.mpr hel) (hs true)
          (Block.front_ne_if hws)
    | cons c cs =>
      rw [List.map_cons, List.map_cons, List.cons_append, List.cons_append,
        List.intercalate_cons_cons, List.append_assoc] at hts
      obtain ⟨first, last, rfl, hfirst, hlast⟩ := List.map_eq_append_iff.mp hts
      obtain ⟨elses, ws, rfl, hel, hws⟩ := List.map_eq_cons_iff.mp hlast
      rw [List.length_append, List.length_cons] at hl
      obtain ⟨keyword, us, thens, vs, condition, body, rfl, hk, hc, ht, hb, he⟩ :=
        of_words hcondition hbody hfirst (show _ ≤ levels + 1 by omega)
      obtain ⟨branches', otherwise', origin, hbranches, hother, hs⟩ :=
        ih (List.cons_ne_nil c cs) hconditions hbodies hws (by omega)
      refine ⟨⟨condition, body, keyword.origin⟩ :: branches', otherwise', keyword.origin,
        congrArg₂ List.cons (he _) hbranches, hother, ?_⟩
      rw [List.cons_append, List.append_assoc, List.cons_append]
      exact .elseIf hk hc ht (hb false) (Terminal.word_admits_iff.mpr hel) hs

end Branch

namespace Call

theorem statement_of_words {c : Call} (hunbound : ∀ a ∈ c.arguments, a.Unbound)
    (hvalues : ∀ a ∈ c.arguments, a.value.WellFormed) {levels : Nat} {ts : List Token}
    (hts : ts.map Token.lexeme = c.words) (hl : ts.length ≤ levels + 1) :
    ∃ c', c'.mapOrigin (fun _ => .erased) = c.mapOrigin (fun _ => .erased) ∧
      Statement.Spelling (levels + 1) true (.call c') ts := by
  have hspells : ∀ a ∈ c.arguments, ∀ us, us.map Token.lexeme = a.value.words →
      us.length < ts.length →
      a.Unbound ∧ ∃ e, e.erase = a.value.erase ∧ Expr.Within levels e us := by
    intro a ha us hus hshort
    exact ⟨hunbound a ha, (hvalues a ha).within hus (by omega)⟩
  obtain ⟨name, opening, us, closing, rfl, hname, ho, hc, hargs⟩ := of_words hts _ hspells
  obtain ⟨routine, arguments, origin⟩ := c
  have hn := Identifier.admits_of_word hname
  have hroutine := Identifier.erase_of_word hname
  rcases hargs with ⟨hnil, rfl⟩ | hargs
  · obtain rfl : arguments = [] := hnil
    refine ⟨_, ?_, .call hn (.empty ho hc)⟩
    simp only [mapOrigin, Argument.mapOrigins]
    rw [hroutine]
  · obtain ⟨values, hvalues, hs⟩ := hargs.replace
      (f := fun a => a.mapOrigin fun _ => .erased)
      (g := fun e => (Argument.ofValue e).mapOrigin fun _ => .erased)
      (fun a us ⟨ha, e, he, hspells⟩ => ⟨e, Expr.ofValue_mapOrigin ha he, hspells⟩)
    refine ⟨_, ?_, .call hn (.given ho hs hc)⟩
    simp only [mapOrigin, Argument.mapOrigins_eq_map, List.map_map, ← hvalues]
    rw [hroutine]
    rfl

end Call

namespace Statement

section Legible

variable {origin : Origin}

theorem legible_assignment {target : Identifier} {value : Expr} (hvalue : value.WellFormed) :
    (assignment target value origin).Legible := by
  intro levels ts hts hl
  rw [words] at hts
  obtain ⟨name, rest, rfl, hname, hrest⟩ := List.map_eq_cons_iff.mp hts
  obtain ⟨becomes, us, rfl, hb, hus⟩ := List.map_eq_cons_iff.mp hrest
  simp only [List.length_cons] at hl
  obtain ⟨inner, rfl⟩ : ∃ inner, levels = inner + 1 := ⟨levels - 1, by omega⟩
  obtain ⟨value', he, hs⟩ := hvalue.within hus (show us.length ≤ inner by omega)
  refine ⟨_, ?_, .assignment (Identifier.admits_of_word hname)
    (Terminal.symbol_admits_iff.mpr hb) hs⟩
  simp only [Expr.erase] at he
  simp only [erase, mapOrigin, Identifier.erase_of_word hname, he]

theorem legible_call {c : Call} (hcall : (Expr.call c).WellFormed) : (call c).Legible := by
  intro levels ts hts hl
  rw [words] at hts
  cases hcall with
  | call _ hunbound hvalues =>
    have hpos : 0 < ts.length := by
      rw [← List.length_map Token.lexeme, hts, Call.words_eq, List.length_cons]
      exact Nat.succ_pos _
    obtain ⟨inner, rfl⟩ : ∃ inner, levels = inner + 1 := ⟨levels - 1, by omega⟩
    obtain ⟨c', he, hs⟩ := Call.statement_of_words hunbound hvalues hts hl
    refine ⟨.call c', ?_, hs⟩
    simp only [erase, mapOrigin, he]

theorem legible_conditional {branches : List Branch} {otherwise : Option Block}
    (hne : branches ≠ []) (hconditions : ∀ b ∈ branches, b.condition.WellFormed)
    (hbodies : ∀ b ∈ branches, ∀ s ∈ b.body.statements, s.Legible)
    (hotherwise : ∀ b ∈ otherwise, ∀ s ∈ b.statements, s.Legible) :
    (conditional branches otherwise origin).Legible := by
  intro levels ts hts hl
  rw [words_conditional] at hts
  have := List.length_pos_iff.mpr (Branch.ne_nil_of_words hne hts)
  obtain ⟨inner, rfl⟩ : ∃ inner, levels = inner + 1 := ⟨levels - 1, by omega⟩
  obtain ⟨branches', otherwise', origin', hbranches, hother, hs⟩ :=
    Branch.conditional_of_words hotherwise hne hconditions hbodies hts hl
  refine ⟨_, ?_, hs⟩
  simp only [erase, mapOrigin, Branch.mapOrigins_eq_map, Block.mapOrigin?_eq_map]
  rw [show branches'.map (·.mapOrigin fun _ => .erased) = _ from hbranches,
    show otherwise'.map (·.mapOrigin fun _ => .erased) = _ from hother]
  rfl

theorem legible_whileLoop {branch : Branch} (hcondition : branch.condition.WellFormed)
    (hbody : ∀ s ∈ branch.body.statements, s.Legible) : (whileLoop branch origin).Legible := by
  intro levels ts hts hl
  rw [words_whileLoop] at hts
  obtain ⟨keyword, rest, rfl, hk, hrest⟩ := List.map_eq_cons_iff.mp hts
  obtain ⟨us, rest, rfl, hus, hrest⟩ := List.map_eq_append_iff.mp hrest
  obtain ⟨does, vs, rfl, hd, hvs⟩ := List.map_eq_cons_iff.mp hrest
  simp only [List.length_cons, List.length_append] at hl
  obtain ⟨inner, rfl⟩ : ∃ inner, levels = inner + 1 := ⟨levels - 1, by omega⟩
  obtain ⟨condition, hce, hc⟩ := hcondition.within hus (show us.length ≤ inner by omega)
  obtain ⟨body, hbe, hb⟩ := Block.body_of_words hbody hvs (show vs.length ≤ inner by omega)
  refine ⟨.whileLoop ⟨condition, body, keyword.origin⟩ keyword.origin, ?_,
    .whileLoop (Terminal.word_admits_iff.mpr hk) hc (Terminal.word_admits_iff.mpr hd) (hb true)⟩
  have he : Branch.erase ⟨condition, body, keyword.origin⟩ = branch.erase :=
    Branch.erase_mk hce hbe
  simp only [Branch.erase] at he
  simp only [erase, mapOrigin, he]

theorem legible_forLoop {counter : Identifier} {first last : Expr} {direction : Direction}
    {body : Block} (hfirst : first.WellFormed) (hlast : last.WellFormed)
    (hbody : ∀ s ∈ body.statements, s.Legible) :
    (forLoop counter first last direction body origin).Legible := by
  intro levels ts hts hl
  rw [words] at hts
  obtain ⟨keyword, rest, rfl, hk, hrest⟩ := List.map_eq_cons_iff.mp hts
  obtain ⟨name, rest, rfl, hname, hrest⟩ := List.map_eq_cons_iff.mp hrest
  obtain ⟨becomes, rest, rfl, hbecomes, hrest⟩ := List.map_eq_cons_iff.mp hrest
  obtain ⟨us, rest, rfl, hus, hrest⟩ := List.map_eq_append_iff.mp hrest
  obtain ⟨way, rest, rfl, hw, hrest⟩ := List.map_eq_cons_iff.mp hrest
  obtain ⟨vs, rest, rfl, hvs, hrest⟩ := List.map_eq_append_iff.mp hrest
  obtain ⟨does, ws, rfl, hd, hws⟩ := List.map_eq_cons_iff.mp hrest
  simp only [List.length_cons, List.length_append] at hl
  obtain ⟨inner, rfl⟩ : ∃ inner, levels = inner + 1 := ⟨levels - 1, by omega⟩
  obtain ⟨first', hfe, hf⟩ := hfirst.within hus (show us.length ≤ inner by omega)
  obtain ⟨last', hle, hl'⟩ := hlast.within hvs (show vs.length ≤ inner by omega)
  obtain ⟨body', hbe, hb⟩ := Block.body_of_words hbody hws (show ws.length ≤ inner by omega)
  refine ⟨.forLoop name.toIdentifier first' last' direction body' keyword.origin, ?_,
    .forLoop (Terminal.word_admits_iff.mpr hk) (Identifier.admits_of_word hname)
      (Terminal.symbol_admits_iff.mpr hbecomes) hf (Terminal.word_admits_iff.mpr hw) hl'
      (Terminal.word_admits_iff.mpr hd) (hb true)⟩
  simp only [Expr.erase, Block.erase] at hfe hle hbe
  simp only [erase, mapOrigin, Identifier.erase_of_word hname, hfe, hle, hbe]

theorem legible_block {b : Block} (h : ∀ s ∈ b.statements, s.Legible) : (block b).Legible := by
  intro levels ts hts hl
  rw [words] at hts
  obtain ⟨b', he, hs⟩ := Block.body_of_words h hts hl
  refine ⟨.block b', ?_, hs true⟩
  simp only [Block.erase] at he
  simp only [erase, mapOrigin, he]

end Legible

theorem WellFormed.legible {s : Statement} (h : s.WellFormed) : s.Legible := by
  induction h with
  | assignment _ hvalue => exact legible_assignment hvalue
  | call hcall => exact legible_call hcall
  | conditional hne hconditions _ _ ihbodies ihotherwise =>
    exact legible_conditional hne hconditions ihbodies ihotherwise
  | whileLoop hcondition _ ih => exact legible_whileLoop hcondition ih
  | forLoop _ hfirst hlast _ ih => exact legible_forLoop hfirst hlast ih
  | block _ ih => exact legible_block ih

end Statement
end PascalSyntax
