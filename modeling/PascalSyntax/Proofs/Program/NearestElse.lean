import PascalSyntax.Proofs.Program.Conservation
import PascalSyntax.Proofs.Token.Words
import PascalSyntax.Proofs.Tree.Nested

/-!
# Every `else` belongs to the nearest `if`

In the program of a source a branch before an `else` never ends in a conditional
that could have taken that `else`, and a chain of `else if` is one list of
branches (`Program.ofSource_nearestElse`).

Both are read off the spelling of the conditional.  A closed statement, which is
what stands before an `else` in a spelling, is never open
(`Statement.Spelling.not_open`).  A bare block is only made for a statement
without `begin`: the origin of a block that is read is its `begin`, and this is
the origin of no statement that has a body.
-/

namespace PascalSyntax

theorem Terminal.text_of_word_admits {text : String} {t : Token}
    (h : (word text).admits t = true) : t.text = text :=
  congrArg Prod.snd (word_admits_iff.mp h)

namespace Statement

/-- The statement is one that is read from some tokens. -/
def IsSpelled (s : Statement) : Prop :=
  ∃ levels isOpen ts, Spelling levels isOpen s ts

namespace Spelling

variable {levels : Nat} {isOpen : Bool} {s s' : Statement} {ts : List Token}

/-! ## All statements are spelled -/

/-- What stands inside a statement that is read has been read as well. -/
theorem isSpelled_nested (h : Spelling levels isOpen s ts) : ∀ s' ∈ s.nested, s'.IsSpelled := by
  induction h with
  | assignment hn hb he =>
    exact List.forall_mem_singleton.mpr ⟨_, true, _, .assignment hn hb he⟩
  | bareCall hn => exact List.forall_mem_singleton.mpr ⟨1, true, _, .bareCall hn⟩
  | call hn ha => exact List.forall_mem_singleton.mpr ⟨_, true, _, .call hn ha⟩
  | block ho hp hnone hs hc ih =>
    refine List.forall_mem_cons.mpr ⟨⟨_, true, _, .block ho hp hnone hs hc⟩, ?_⟩
    intro s' hs'
    rw [Block.nested_eq] at hs'
    obtain ⟨s, hmem, hnested⟩ := List.mem_flatMap.mp hs'
    obtain ⟨piece, hpiece, hsome⟩ := List.mem_filterMap.mp hmem
    exact ih piece hpiece s hsome s' hnested
  | whileLoop hk he hd hs ih =>
    refine List.forall_mem_cons.mpr ⟨⟨_, _, _, .whileLoop hk he hd hs⟩, ?_⟩
    intro s' hs'
    exact ih s' (Block.mem_nested_ofStatement hs')
  | forLoop hk hn hb hf hw hl hd hs ih =>
    refine List.forall_mem_cons.mpr ⟨⟨_, _, _, .forLoop hk hn hb hf hw hl hd hs⟩, ?_⟩
    intro s' hs'
    exact ih s' (Block.mem_nested_ofStatement hs')
  | ifThen hk he ht hs ih =>
    rw [nested_conditional]
    refine List.forall_mem_cons.mpr ⟨⟨_, _, _, .ifThen hk he ht hs⟩, ?_⟩
    intro s' hs'
    rw [List.flatMap_singleton, Option.toList_none, List.flatMap_nil, List.append_nil] at hs'
    exact ih s' (Block.mem_nested_ofStatement hs')
  | ifElse hk he ht hs hel ho hne ih iho =>
    rw [nested_conditional]
    refine List.forall_mem_cons.mpr ⟨⟨_, _, _, .ifElse hk he ht hs hel ho hne⟩, ?_⟩
    intro s' hs'
    rw [List.flatMap_singleton, Option.toList_some, List.flatMap_singleton] at hs'
    rcases List.mem_append.mp hs' with hbranch | hotherwise
    · exact ih s' (Block.mem_nested_ofStatement hbranch)
    · exact iho s' (Block.mem_nested_ofStatement hotherwise)
  | elseIf hk he ht hs hel ho ih iho =>
    rw [nested_conditional] at iho ⊢
    refine List.forall_mem_cons.mpr ⟨⟨_, _, _, .elseIf hk he ht hs hel ho⟩, ?_⟩
    intro s' hs'
    rw [List.flatMap_cons, List.append_assoc] at hs'
    rcases List.mem_append.mp hs' with hbranch | hothers
    · exact ih s' (Block.mem_nested_ofStatement hbranch)
    · exact iho s' (List.mem_cons_of_mem _ hothers)

/-! ## Bare blocks -/

/-- A statement with a body has the origin of its keyword, which is no `begin`. -/
theorem text_ne_begin (h : Spelling levels isOpen s ts) (hbody : s.hasBody = true) :
    s.origin.text ≠ "begin" := by
  have hkeyword : ∃ word ∈ ["while", "for", "if"], s.origin.text = word := by
    cases h with
    | assignment | bareCall | call | block => cases hbody
    | whileLoop hk _ _ _ => exact ⟨_, by decide, Terminal.text_of_word_admits hk⟩
    | forLoop hk _ _ _ _ _ _ _ => exact ⟨_, by decide, Terminal.text_of_word_admits hk⟩
    | ifThen hk _ _ _ => exact ⟨_, by decide, Terminal.text_of_word_admits hk⟩
    | ifElse hk _ _ _ _ _ _ => exact ⟨_, by decide, Terminal.text_of_word_admits hk⟩
    | elseIf hk _ _ _ _ _ => exact ⟨_, by decide, Terminal.text_of_word_admits hk⟩
  obtain ⟨word, hword, htext⟩ := hkeyword
  rw [htext]
  have hall : ∀ word ∈ ["while", "for", "if"], word ≠ "begin" := by decide
  exact hall word hword

/-- The block of a statement is bare only if it has been wrapped around it. -/
theorem eq_of_isBare (h : Spelling levels isOpen s ts) (hbare : (Block.ofStatement s).IsBare s')
    (hbody : s'.hasBody = true) : s = s' := by
  obtain ⟨hstatements, horigin⟩ := hbare
  cases h with
  | @block _ _ opening _ pieces _ ho hp hnone hs hc =>
    -- a block that is read starts with its `begin`, and its statement does not
    have hmem : s' ∈ pieces.filterMap (·.1) := by
      have hself := List.mem_singleton_self s'
      rwa [← hstatements] at hself
    obtain ⟨piece, hpiece, hsome⟩ := List.mem_filterMap.mp hmem
    have htext : opening.text = "begin" := Terminal.text_of_word_admits ho
    have hsame : opening.origin.text = s'.origin.text := congrArg Origin.text horigin
    exact absurd (hsame.symm.trans htext) ((hp piece hpiece s' hsome).text_ne_begin hbody)
  | _ => exact List.singleton_inj.mp hstatements

/-! ## Closed statements -/

/-- A statement that cannot take an `else` is not open. -/
theorem not_open (h : Spelling levels false s ts) : ¬ s.Open := by
  generalize hclosed : false = isOpen at h
  induction h with
  | assignment | bareCall | call | block => exact fun hopen => nomatch hopen
  | whileLoop _ _ _ hs ih =>
    intro hopen
    cases hopen with
    | whileLoop _ hbare hlast =>
      obtain rfl := hs.eq_of_isBare hbare hlast.hasBody
      exact ih hclosed hlast
  | forLoop _ _ _ _ _ _ _ hs ih =>
    intro hopen
    cases hopen with
    | forLoop _ _ _ _ _ hbare hlast =>
      obtain rfl := hs.eq_of_isBare hbare hlast.hasBody
      exact ih hclosed hlast
  | ifThen => cases hclosed
  | ifElse _ _ _ _ _ ho _ _ iho =>
    intro hopen
    cases hopen with
    | withElse _ _ hbare hlast =>
      obtain rfl := ho.eq_of_isBare hbare hlast.hasBody
      exact iho hclosed hlast
  | elseIf _ _ _ _ _ _ _ iho =>
    -- the rest of the chain has the same last part
    intro hopen
    exact iho hclosed (hopen.changeBranches _ _)

theorem not_open_of_isBare (h : Spelling levels false s ts)
    (s' : Statement) (hbare : (Block.ofStatement s).IsBare s') : ¬ s'.Open := by
  intro hopen
  obtain rfl := h.eq_of_isBare hbare hopen.hasBody
  exact h.not_open hopen

/-- What stands before an `else` in a spelling is closed, and what stands after
the last one does not start with an `if`. -/
theorem elseNearest {branches : List Branch} {otherwise : Option Block} {origin : Origin}
    (h : Spelling levels isOpen (.conditional branches otherwise origin) ts) :
    ElseNearest branches otherwise := by
  generalize hs : Statement.conditional branches otherwise origin = s at h
  induction h generalizing branches otherwise origin with
  | assignment | bareCall | call | block | whileLoop | forLoop => cases hs
  | ifThen =>
    cases hs
    exact .withoutElse _
  | ifElse _ _ _ hthen _ ho hfront _ _ =>
    cases hs
    refine .cons hthen.not_open_of_isBare (.nil ?_)
    intro b s hsome hbare branches' otherwise' origin' heq
    subst heq
    cases hsome
    obtain rfl := ho.eq_of_isBare hbare rfl
    obtain ⟨keyword, us, rfl, hif⟩ := ho.conditional_front
    exact hfront (Terminal.admits_iff.mp hif)
  | elseIf _ _ _ hthen _ _ _ ih =>
    cases hs
    exact .cons hthen.not_open_of_isBare (ih rfl)

end Spelling
end Statement

/-! ## Programs -/

theorem Block.Spelling.isSpelled_nested {levels : Nat} {b : Block} {ts : List Token}
    (h : Block.Spelling levels b ts) : ∀ s ∈ b.nested, s.IsSpelled := by
  have hstatement : Statement.Spelling (levels + 1) true (.block b) ts :=
    Statement.spelling_block_iff.mpr h
  intro s hs
  exact hstatement.isSpelled_nested s (List.mem_cons_of_mem _ hs)

theorem Routine.Spelling.isSpelled_nested {levels : Nat} {r : Routine} {ts : List Token}
    (h : Routine.Spelling levels r ts) : ∀ s ∈ r.body.nested, s.IsSpelled := by
  cases h with
  | mk _ _ _ _ _ _ hbody _ => exact hbody.isSpelled_nested

namespace Program

theorem Spelling.isSpelled_statements {levels : Nat} {p : Program} {ts : List Token}
    (h : Program.Spelling levels p ts) : ∀ s ∈ p.statements, s.IsSpelled := by
  intro s hs
  cases h with
  | mk _ _ _ _ _ hroutines hbody _ =>
    rcases List.mem_append.mp hs with hroutine | hmain
    · obtain ⟨r, hr, hnested⟩ := List.mem_flatMap.mp hroutine
      exact hroutines.forall_mem (fun _ _ h => h.isSpelled_nested) r hr s hnested
    · exact hbody.isSpelled_nested s hmain

/-- Every `else` of a source belongs to the nearest `if` that can take it, and the
chains of `else if` are flat: this holds of all conditionals in the tree, at any
depth. -/
theorem ofSource_elseNearest {limits : Limits} {source : String} {p : Program}
    (h : ofSource limits source = .ok p) {branches : List Branch} {otherwise : Option Block}
    {origin : Origin} (hmem : .conditional branches otherwise origin ∈ p.statements) :
    Statement.ElseNearest branches otherwise := by
  obtain ⟨tokens, -, hparse⟩ := ofSource_eq_ok_iff.mp h
  obtain ⟨levels, isOpen, ts, hs⟩ := (parse_iff.mp hparse).isSpelled_statements _ hmem
  exact hs.elseNearest

/-- How many branches a conditional has, and whether there is one after them. -/
def alternatives : Statement → Option (Nat × Bool)
  | .conditional branches otherwise _ => some (branches.length, otherwise.isSome)
  | _ => none

/-- The first `else` is next to a loop that ends in a conditional. -/
def chainedSource : String :=
  "program p; begin if a then while b do if c then x else y else if d then z end."

/-- The conditional in the loop takes the first `else`, and so the second one is
left to the conditional around the loop. -/
theorem chainedSource_elseNearest :
    ∃ p, ofSource .standard chainedSource = .ok p ∧
      p.statements.filterMap alternatives = [(2, false), (1, true)] ∧
      ∃ branches otherwise origin, .conditional branches otherwise origin ∈ p.statements ∧
        branches.length = 2 ∧ Statement.ElseNearest branches otherwise := by
  have hread : (ofSource .standard chainedSource).map (·.statements.filterMap alternatives) =
      .ok [(2, false), (1, true)] := by
    decide +kernel
  cases h : ofSource .standard chainedSource with
  | error e =>
    rw [h] at hread
    cases hread
  | ok p =>
    rw [h] at hread
    have hstatements : p.statements.filterMap alternatives = [(2, false), (1, true)] :=
      Except.ok.inj hread
    have hfirst : (2, false) ∈ p.statements.filterMap alternatives := by
      rw [hstatements]
      exact List.mem_cons_self
    obtain ⟨s, hmem, hs⟩ := List.mem_filterMap.mp hfirst
    cases s with
    | conditional branches otherwise origin =>
      obtain ⟨hlength, -⟩ := Prod.mk.inj (Option.some.inj hs)
      exact ⟨p, rfl, hstatements, branches, otherwise, origin, hmem, hlength,
        ofSource_elseNearest h hmem⟩
    | _ => cases hs

end Program
end PascalSyntax
