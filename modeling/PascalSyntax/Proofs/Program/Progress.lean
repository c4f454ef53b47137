import PascalSyntax.Proofs.Program.Failing
import PascalSyntax.Proofs.Program.Mirroring

/-!
# Readers go on

A reader keeps its place (`Parser.KeepsPlace`) if it stays among the same tokens, comes back to the
same level of nesting and does not stop on a comment.  Every reader of the grammar does, and all but
the readers of the rest of a call and of a list of parameters go on whenever they find their
construct.

So every loop of the grammar comes to an end: each of its rounds goes on where it finds something,
and there are at most as many of these rounds as tokens that they pass (`Parser.LoopEnds`).
-/

namespace PascalSyntax
namespace Parser

variable {maxDepth : Nat}

/-! ## Keeping places -/

/-- Whatever the reader gives from a place off the comments, it gives with a place onward, which is
further if the reader has found what it is `found` for. -/
def KeepsPlace (found : α → Prop) (p : Parser (Place maxDepth) α) : Prop :=
  ∀ (place next : Place maxDepth) (a : α), place.OffComments → p place = .ok (a, next) →
    place.Onward next ∧ (found a → place.index < next.index)

/-- A reader keeps its place if it mirrors one on cursors, and goes on where that one reads a token
at least. -/
theorem KeepsPlace.of_mirrors {found : α → Prop} {p : Parser (Place maxDepth) α}
    {q : Nat → Parser Cursor α} {spells : Nat → α → List Token → Prop}
    (h : ∀ levels, Mirrors levels p (q levels))
    (only : ∀ levels, (q levels).ReadsOnly (spells levels))
    (hne : ∀ levels a ts, spells levels a ts → found a → ts ≠ []) : KeepsPlace found p := by
  intro place next a off hread
  have hagree := h (maxDepth - place.depth) place off rfl
  rw [hread] at hagree
  obtain ⟨hcursor, onward⟩ := hagree.eq_ok
  refine ⟨onward, fun hfound => (onward.left_cursor_lt_iff off).mp ?_⟩
  obtain ⟨ts, hrest, hts⟩ := only _ _ _ _ (reads_iff_ok.mp hcursor)
  have hpos := List.length_pos_iff.mpr (hne _ _ _ hts hfound)
  rw [Cursor.left_eq_length, Cursor.left_eq_length, hrest, List.length_append]
  omega

/-- A reader one level further in comes back to the level it has started from. -/
theorem KeepsPlace.nested {found : α → Prop} {p : Parser (Place maxDepth) α}
    (h : KeepsPlace found p) : KeepsPlace found (Place.nested p) := by
  intro place next a off hread
  rw [Place.nested] at hread
  split at hread
  · cases hread
  · cases hinner : p { place with depth := place.depth + 1 } with
    | error failure =>
      rw [hinner] at hread
      cases hread
    | ok read =>
      obtain ⟨b, inner⟩ := read
      rw [hinner] at hread
      cases hread
      obtain ⟨onward, hlt⟩ := h { place with depth := place.depth + 1 } _ _ off hinner
      exact ⟨onward.leave, hlt⟩

/-! ## Loops -/

/-- Rounds of a loop that have all found something, with the place that the last of them gives. -/
inductive RoundsFrom (round : Parser (Place maxDepth) (Option α)) :
    Place maxDepth → List α → Place maxDepth → Prop
  | nil (place : Place maxDepth) : RoundsFrom round place [] place
  | cons {place mid next : Place maxDepth} {a : α} {as : List α} :
      round place = .ok (some a, mid) → RoundsFrom round mid as next →
        RoundsFrom round place (a :: as) next

/-- Rounds that go on pass one token each at least. -/
theorem RoundsFrom.add_length_le {round : Parser (Place maxDepth) (Option α)}
    (h : KeepsPlace (·.isSome) round) {place mid : Place maxDepth} {as : List α}
    (rounds : RoundsFrom round place as mid) (off : place.OffComments) :
    place.index + as.length ≤ mid.index := by
  induction rounds with
  | nil place => exact Nat.le_refl _
  | cons hround _ ih =>
    obtain ⟨onward, hfurther⟩ := h _ _ _ off hround
    have hindex := hfurther rfl
    have hrest := ih onward.offComments
    rw [List.length_cons]
    omega

/-- Rounds that go on are followed by a last one, which finds nothing or fails. -/
theorem exists_roundsFrom {round : Parser (Place maxDepth) (Option α)}
    (h : KeepsPlace (·.isSome) round) (place : Place maxDepth) (off : place.OffComments) :
    ∃ as mid, RoundsFrom round place as mid ∧
      ((∃ next, round mid = .ok (none, next) ∧ many round place = .ok (as, next)) ∨
        ∃ failure, round mid = .error failure ∧ many round place = .error failure) := by
  fun_induction many round place with
  | case1 place failure hround => exact ⟨[], place, .nil place, .inr ⟨failure, hround, rfl⟩⟩
  | case2 place next hround => exact ⟨[], place, .nil place, .inl ⟨next, hround, rfl⟩⟩
  | case3 place a next hround hlt failure hmany ih =>
    obtain ⟨onward, -⟩ := h _ _ _ off hround
    obtain ⟨as, mid, rounds, hlast⟩ := ih onward.offComments
    refine ⟨a :: as, mid, .cons hround rounds, .inr ?_⟩
    rcases hlast with ⟨last, -, he⟩ | ⟨failure', hfail, he⟩
    · cases hmany.symm.trans he
    · cases hmany.symm.trans he
      exact ⟨failure, hfail, rfl⟩
  | case4 place a next hround hlt as' last hmany ih =>
    obtain ⟨onward, -⟩ := h _ _ _ off hround
    obtain ⟨as, mid, rounds, hlast⟩ := ih onward.offComments
    refine ⟨a :: as, mid, .cons hround rounds, .inl ?_⟩
    rcases hlast with ⟨last', hnone, he⟩ | ⟨failure, -, he⟩
    · cases hmany.symm.trans he
      exact ⟨last, hnone, rfl⟩
    · cases hmany.symm.trans he
  | case5 place a next hround hlt =>
    -- a round that finds something goes on, so none is the last for want of progress
    obtain ⟨onward, hfurther⟩ := h _ _ _ off hround
    exact absurd (onward.left_lt_iff.mpr (hfurther rfl)) hlt

/-- Every round of a loop goes on where it finds something.  So there are at most as many of these
rounds as tokens that they pass, and after them the loop ends: with a round that finds nothing, or
with one that fails. -/
structure LoopEnds (round : Parser (Place maxDepth) (Option α)) : Prop where
  goesOn : KeepsPlace (·.isSome) round
  ends : ∀ place : Place maxDepth, place.OffComments →
    ∃ as mid, RoundsFrom round place as mid ∧ place.index + as.length ≤ mid.index ∧
      ((∃ next, round mid = .ok (none, next) ∧ many round place = .ok (as, next)) ∨
        ∃ failure, round mid = .error failure ∧ many round place = .error failure)

theorem LoopEnds.of_keepsPlace {round : Parser (Place maxDepth) (Option α)}
    (h : KeepsPlace (·.isSome) round) : LoopEnds round where
  goesOn := h
  ends place off := by
    obtain ⟨as, mid, rounds, hlast⟩ := exists_roundsFrom h place off
    exact ⟨as, mid, rounds, rounds.add_length_le h off, hlast⟩

/-! ## Rounds -/

section Rounds

variable {bound : Nat}

/-- What a round reads: one token at least where it finds something. -/
def GoesOn (o : Option α) (ts : List Token) : Prop :=
  o.isSome → ts ≠ []

theorem LoopEnds.of_mirrors {round : Parser (Place maxDepth) (Option α)}
    {round' : Nat → Parser Cursor (Option α)} (h : ∀ levels, Mirrors levels round (round' levels))
    (only : ∀ levels, (round' levels).ReadsOnly GoesOn) : LoopEnds round :=
  .of_keepsPlace (.of_mirrors h only fun _ _ _ hts => hts)

theorem goesOn_of_local {round : Parser Cursor (Option α)} (hl : Local round)
    (h : Advances round) : round.ReadsOnly GoesOn := by
  intro us o rest hread
  obtain ⟨ts, rfl, -⟩ := hl.readsOnly _ _ _ hread
  refine ⟨ts, rfl, fun ho hnil => ?_⟩
  subst hnil
  obtain ⟨a, rfl⟩ := Option.isSome_iff_exists.mp ho
  exact Nat.lt_irrefl _ (h _ _ _ hread)

theorem LoopEnds.another (separator : Terminal) {item : Parser (Place maxDepth) α}
    {item' : Nat → Parser Cursor α} (h : ∀ levels, Mirrors levels item (item' levels))
    (hl : ∀ levels, Local (item' levels)) : LoopEnds (another separator item) :=
  .of_mirrors (fun levels => (h levels).another separator) fun levels =>
    goesOn_of_local ((hl levels).another separator) (advances_another (hl levels).readsOnly)

theorem LoopEnds.oneMore (start : Terminal) {item : Parser (Place maxDepth) α}
    {item' : Nat → Parser Cursor α} {spells : Nat → α → List Token → Prop}
    (h : ∀ levels, Mirrors levels item (item' levels)) (hl : ∀ levels, Local (item' levels))
    (only : ∀ levels, (item' levels).ReadsOnly (spells levels))
    (hne : ∀ levels a ts, spells levels a ts → ts ≠ []) : LoopEnds (oneMore start item) :=
  .of_mirrors (fun levels => (h levels).oneMore start) fun levels =>
    goesOn_of_local ((hl levels).oneMore start) (advances_oneMore (only levels) (hne levels))

theorem LoopEnds.operation (operators : List BinaryOperator)
    {operand : Parser (Place maxDepth) Expr} {operand' : Nat → Parser Cursor Expr}
    (h : ∀ levels, Mirrors levels operand (operand' levels))
    (hl : ∀ levels, Local (operand' levels)) : LoopEnds (operation operators operand) := by
  refine .of_mirrors (fun levels => operation_mirrors operators (h levels)) fun levels => ?_
  refine goesOn_of_local (operation_local operators (hl levels)) ?_
  intro us o rest hread
  obtain ⟨t, mid, rfl, -, -, -, hoperand⟩ := reads_operation_some_iff.mp hread
  have hle := (hl levels).readsOnly.shorter hoperand
  rw [List.length_cons]
  omega

theorem item?_loopEnds : LoopEnds (item? (statement bound) : Parser (Place maxDepth) _) :=
  .of_mirrors (fun levels => item?_mirrors (statement_mirrors bound levels)) fun _ =>
    goesOn_of_local (item?_local (statement_local _)) (advances_item? (statement_readsOnly _))

theorem elseIf_goesOn (levels : Nat) :
    (elseIf (expression levels) (statement levels)).ReadsOnly GoesOn := by
  have hbranch (keyword : Token) :
      Local (branch (expression levels) (statement levels) "then" keyword) :=
    branch_local (expression_local levels) (statement_local levels) "then" keyword
  intro us o rest h
  cases o with
  | none =>
    obtain ⟨-, rfl⟩ := reads_elseIf_none_iff.mp h
    exact ⟨[], rfl, nofun⟩
  | some b =>
    obtain ⟨elses, keyword, mid, rfl, -, -, h⟩ := reads_elseIf_some_iff.mp h
    obtain ⟨ts, rfl, -⟩ := (hbranch keyword).readsOnly _ _ _ h
    exact ⟨elses :: keyword :: ts, rfl, fun _ => List.cons_ne_nil _ _⟩

theorem elseIf_loopEnds :
    LoopEnds (elseIf (expression bound) (statement bound) : Parser (Place maxDepth) _) :=
  .of_mirrors
    (fun levels =>
      elseIf_mirrors (expression_mirrors bound levels) (statement_mirrors bound levels))
    fun _ => elseIf_goesOn _

theorem routine?_loopEnds : LoopEnds (routine? bound : Parser (Place maxDepth) _) :=
  .of_mirrors (routine?_mirrors bound) fun _ =>
    goesOn_of_local (routine?_local _) advances_routine?

end Rounds

/-! ## Readers -/

/-- The readers of the grammar keep their places.  One that has to find its construct goes on
whenever it does not fail, one that looks for a construct goes on where it finds it, and those of
what may be spelled by no tokens do not go back. -/
structure ReadersKeepPlace (maxDepth bound : Nat) : Prop where
  program : KeepsPlace (fun _ => True) fun place : Place maxDepth => (program bound place).outcome
  block : KeepsPlace (fun _ => True) (block bound : Parser (Place maxDepth) Block)
  statement : KeepsPlace (fun _ => True) (statement bound : Parser (Place maxDepth) Statement)
  expression : KeepsPlace (fun _ => True) (expression bound : Parser (Place maxDepth) Expr)
  unary : KeepsPlace (fun _ => True) (unary bound : Parser (Place maxDepth) Expr)
  primary : KeepsPlace (fun _ => True) (primary bound : Parser (Place maxDepth) Expr)
  varGroup : KeepsPlace (fun _ => True)
    (varGroup (Parser.expression bound) : Parser (Place maxDepth) (List VarDecl))
  identifierList : KeepsPlace (fun _ => True)
    (identifierList : Parser (Place maxDepth) (List Identifier))
  parameterGroup : KeepsPlace (fun _ => True)
    (parameterGroup : Parser (Place maxDepth) (List Parameter))
  varSection? : KeepsPlace (·.isSome)
    (varSection? (Parser.expression bound) : Parser (Place maxDepth) (Option (DeclSection VarDecl)))
  constSection? : KeepsPlace (·.isSome)
    (constSection? (Parser.expression bound) :
      Parser (Place maxDepth) (Option (DeclSection ConstDecl)))
  routine? : KeepsPlace (·.isSome) (routine? bound : Parser (Place maxDepth) (Option Routine))
  callOf : ∀ name, KeepsPlace (fun _ => False)
    (callOf (Parser.expression bound) name : Parser (Place maxDepth) Call)
  parameterList : KeepsPlace (fun _ => False)
    (parameterList : Parser (Place maxDepth) (List Parameter))

/-- The loops of the grammar end. -/
structure LoopsEnd (maxDepth bound : Nat) : Prop where
  statements : LoopEnds (item? (statement bound) : Parser (Place maxDepth) _)
  factors : LoopEnds
    (operation BinaryOperator.multiplicative (unary bound) : Parser (Place maxDepth) _)
  summands : LoopEnds
    (operation BinaryOperator.additive
      (binaryLevel BinaryOperator.multiplicative (unary bound)) : Parser (Place maxDepth) _)
  comparisons : LoopEnds
    (operation BinaryOperator.relational
      (binaryLevel BinaryOperator.additive
        (binaryLevel BinaryOperator.multiplicative (unary bound))) : Parser (Place maxDepth) _)
  branches : LoopEnds (elseIf (expression bound) (statement bound) : Parser (Place maxDepth) _)
  arguments : LoopEnds (another (.symbol ",") (expression bound) : Parser (Place maxDepth) _)
  varGroups : LoopEnds
    (oneMore .identifier (varGroup (expression bound)) : Parser (Place maxDepth) _)
  constDecls : LoopEnds
    (oneMore .identifier (constDecl (expression bound)) : Parser (Place maxDepth) _)
  routines : LoopEnds (routine? bound : Parser (Place maxDepth) _)
  parameterGroups : LoopEnds (another (.symbol ";") parameterGroup : Parser (Place maxDepth) _)
  names : LoopEnds (another (.symbol ",") identifier : Parser (Place maxDepth) _)

theorem loopsEnd (maxDepth bound : Nat) : LoopsEnd maxDepth bound where
  statements := item?_loopEnds
  factors := .operation _ (unary_mirrors bound) fun _ => unary_local _
  summands := .operation _ (fun levels => binaryLevel_mirrors _ (unary_mirrors bound levels))
    fun _ => binaryLevel_local _ (unary_local _)
  comparisons := .operation _
    (fun levels => binaryLevel_mirrors _ (binaryLevel_mirrors _ (unary_mirrors bound levels)))
    fun _ => binaryLevel_local _ (binaryLevel_local _ (unary_local _))
  branches := elseIf_loopEnds
  arguments := .another _ (expression_mirrors bound) fun _ => expression_local _
  varGroups := .oneMore _ (fun levels => varGroup_mirrors (expression_mirrors bound levels))
    (fun _ => varGroup_local (expression_local _)) (fun _ => varGroup_readsOnly)
    fun _ _ _ h => Token.ne_nil_of_front h.front
  constDecls := .oneMore _ (fun levels => constDecl_mirrors (expression_mirrors bound levels))
    (fun _ => constDecl_local (expression_local _)) (fun _ => constDecl_readsOnly)
    fun _ _ _ h => Token.ne_nil_of_front h.front
  routines := routine?_loopEnds
  parameterGroups := .another _ (fun _ => parameterGroup_mirrors) fun _ => parameterGroup_local
  names := .another _ (fun _ => identifier_mirrors) fun _ => identifier_local

/-- A reader of what may be spelled by no tokens. -/
theorem KeepsPlace.of_local {p : Parser (Place maxDepth) α} {q : Nat → Parser Cursor α}
    (h : ∀ levels, Mirrors levels p (q levels)) (hl : ∀ levels, Local (q levels)) :
    KeepsPlace (fun _ => False) p :=
  .of_mirrors h (fun levels => (hl levels).readsOnly) fun _ _ _ _ => False.elim

theorem readersKeepPlace (maxDepth bound : Nat) : ReadersKeepPlace maxDepth bound where
  program := by
    have heq : (fun place : Place maxDepth => (program bound place).outcome) =
        programUntraced bound := funext (program_outcome bound)
    rw [heq]
    refine .of_mirrors (programUntraced_mirrors bound) (fun _ => program_readsOnly) ?_
    intro levels p ts h _
    cases h with
    | mk => exact List.cons_ne_nil _ _
  block := .of_mirrors (block_mirrors bound) (fun _ => block_readsOnly _) fun _ _ _ h _ =>
    Token.ne_nil_of_front h.front
  statement := .of_mirrors (statement_mirrors bound) (fun _ => (statement_readsOnly _).readsOnly)
    fun _ _ _ h _ => h.ne_nil
  expression := by
    refine .of_mirrors (expression_mirrors bound) (fun _ => expression_readsOnly _) ?_
    intro levels e ts h _
    obtain ⟨b, -, hb⟩ := h.front
    exact Token.ne_nil_of_front hb
  unary := .of_mirrors (unary_mirrors bound) (fun _ => unary_readsOnly _) fun _ _ _ h _ => h.ne_nil
  primary := .of_mirrors (primary_mirrors bound)
    (fun _ => primaryOver_readsOnly (expression_readsOnly _)) fun _ _ _ h _ => h.ne_nil
  varGroup := .of_mirrors (fun levels => varGroup_mirrors (expression_mirrors bound levels))
    (fun _ => varGroup_readsOnly) fun _ _ _ h _ => Token.ne_nil_of_front h.front
  identifierList := .of_mirrors (fun _ => identifierList_mirrors)
    (fun _ => identifierList_readsOnly) fun _ _ _ h _ =>
      Token.ne_nil_of_front (Identifier.separated_front h)
  parameterGroup := by
    refine .of_mirrors (fun _ => parameterGroup_mirrors) (fun _ => parameterGroup_readsOnly) ?_
    intro levels parameters ts h _
    obtain ⟨b, -, hb⟩ := h.front
    exact Token.ne_nil_of_front hb
  varSection? := by
    refine .of_mirrors (fun levels => varSection?_mirrors (expression_mirrors bound levels))
      (fun _ => varSection?_readsOnly) ?_
    intro levels o ts h hsome
    cases h with
    | absent => cases hsome
    | present => exact List.cons_ne_nil _ _
  constSection? := by
    refine .of_mirrors (fun levels => constSection?_mirrors (expression_mirrors bound levels))
      (fun _ => constSection?_readsOnly) ?_
    intro levels o ts h hsome
    cases h with
    | absent => cases hsome
    | present => exact List.cons_ne_nil _ _
  routine? := routine?_loopEnds.goesOn
  callOf name := .of_local (fun levels => callOf_mirrors (expression_mirrors bound levels) name)
    fun _ => callOf_local (expression_local _) name
  parameterList := .of_local (fun _ => parameterList_mirrors) fun _ => parameterList_local

/-- Going to the first place, on to the next and one level further in keeps to the same tokens, to
the level of nesting and off the comments. -/
structure StepsKeepPlace (maxDepth : Nat) : Prop where
  start : ∀ tokens, (Place.start maxDepth tokens).tokens.toList = tokens ∧
    (Place.start maxDepth tokens).depth = 0 ∧ (Place.start maxDepth tokens).OffComments
  advance : ∀ place : Place maxDepth, place.OffComments → place.Onward place.advance ∧
    (place.atEnd = false → place.index < place.advance.index)
  nested : ∀ {α : Type} {found : α → Prop} {p : Parser (Place maxDepth) α},
    KeepsPlace found p → KeepsPlace found (Place.nested p)

theorem stepsKeepPlace (maxDepth : Nat) : StepsKeepPlace maxDepth where
  start tokens := by
    have onward := Place.onward_start maxDepth tokens
    exact ⟨congrArg Array.toList onward.tokens_eq, onward.depth_eq, onward.offComments⟩
  advance place off := by
    refine ⟨Place.onward_advance off, fun hend => Place.lt_advance ?_⟩
    exact Nat.not_le.mp (of_decide_eq_false hend)
  nested := KeepsPlace.nested

/-- Readers and loops go on, all among the same tokens, at the same level of nesting and off the
comments, and every loop comes to an end. -/
theorem readers_keepPlace (maxDepth bound : Nat) :
    StepsKeepPlace maxDepth ∧ ReadersKeepPlace maxDepth bound ∧ LoopsEnd maxDepth bound :=
  ⟨stepsKeepPlace maxDepth, readersKeepPlace maxDepth bound, loopsEnd maxDepth bound⟩

/-- The expression in `- {} 5 {} ;` takes the two levels that are left, and is read up to the
semicolon. -/
example :
    (expression 5 (⟨#[⟨.symbol, "-", ⟨1, 1⟩⟩, ⟨.comment, "\x7b\x7d", ⟨1, 3⟩⟩,
        ⟨.number, "5", ⟨1, 6⟩⟩, ⟨.comment, "\x7b\x7d", ⟨1, 8⟩⟩, ⟨.symbol, ";", ⟨1, 11⟩⟩],
      0, 2, Nat.zero_le _⟩ : Place 4)).toOption.map (fun (_, next) => (next.index, next.depth)) =
      some (4, 2) := by
  cbv

end Parser
end PascalSyntax
