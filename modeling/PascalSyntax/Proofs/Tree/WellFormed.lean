import Mathlib.Algebra.Group.Int.Defs
import PascalSyntax.Proofs.Expr.Rendering
import PascalSyntax.Proofs.Tree.Words

/-!
# Well-formed trees

A tree is well-formed if it can be written: its names are identifiers, its
integers and strings can be literals, no argument is bound to a parameter, a
conditional has a branch, and a section that is there declares something.  The
words of a well-formed tree are proper words.
-/

namespace PascalSyntax

/-- An ASCII letter and then ASCII letters and digits, but no reserved word. -/
def Identifier.WellFormed (x : Identifier) : Prop :=
  IsLexeme .identifier x.name.toList

instance (x : Identifier) : Decidable x.WellFormed :=
  inferInstanceAs (Decidable (IsLexeme .identifier x.name.toList))

inductive Expr.WellFormed : Expr → Prop
  | identifier {x : Identifier} : x.WellFormed → WellFormed (.identifier x)
  | integer {literal : IntegerLiteral} : 0 ≤ literal.value → literal.value ≤ 2 ^ 63 - 1 →
      WellFormed (.integer literal)
  | string {literal : StringLiteral} :
      (∀ c ∈ literal.value.toList, c ≠ '\'' ∧ c ≠ '\n' ∧ c ≠ '\r') → WellFormed (.string literal)
  | call {c : Call} : c.routine.WellFormed → (∀ a ∈ c.arguments, a.Unbound) →
      (∀ a ∈ c.arguments, WellFormed a.value) → WellFormed (.call c)
  | binary {op : BinaryOperator} {left right : Expr} {origin : Origin} :
      WellFormed left → WellFormed right → WellFormed (.binary op left right origin)
  | unary {op : UnaryOperator} {operand : Expr} {origin : Origin} :
      WellFormed operand → WellFormed (.unary op operand origin)

inductive Statement.WellFormed : Statement → Prop
  | assignment {target : Identifier} {value : Expr} {origin : Origin} :
      target.WellFormed → value.WellFormed → WellFormed (.assignment target value origin)
  | call {c : Call} : (Expr.call c).WellFormed → WellFormed (.call c)
  | conditional {branches : List Branch} {otherwise : Option Block} {origin : Origin} :
      branches ≠ [] → (∀ b ∈ branches, b.condition.WellFormed) →
      (∀ b ∈ branches, ∀ s ∈ b.body.statements, WellFormed s) →
      (∀ b ∈ otherwise, ∀ s ∈ b.statements, WellFormed s) →
      WellFormed (.conditional branches otherwise origin)
  | whileLoop {branch : Branch} {origin : Origin} : branch.condition.WellFormed →
      (∀ s ∈ branch.body.statements, WellFormed s) → WellFormed (.whileLoop branch origin)
  | forLoop {counter : Identifier} {first last : Expr} {direction : Direction} {body : Block}
      {origin : Origin} :
      counter.WellFormed → first.WellFormed → last.WellFormed →
      (∀ s ∈ body.statements, WellFormed s) →
      WellFormed (.forLoop counter first last direction body origin)
  | block {b : Block} : (∀ s ∈ b.statements, WellFormed s) → WellFormed (.block b)

def Block.WellFormed (b : Block) : Prop :=
  ∀ s ∈ b.statements, s.WellFormed

structure VarDecl.WellFormed (d : VarDecl) : Prop where
  name : d.name.WellFormed
  typeName : d.typeName.WellFormed
  init : ∀ e ∈ d.init, e.WellFormed

structure ConstDecl.WellFormed (d : ConstDecl) : Prop where
  name : d.name.WellFormed
  value : d.value.WellFormed

/-- There is a declaration after the keyword, and each can be written. -/
structure DeclSection.WellFormed (wellFormed : α → Prop) (s : DeclSection α) : Prop where
  nonempty : s.decls ≠ []
  decls : ∀ d ∈ s.decls, wellFormed d

structure Parameter.WellFormed (p : Parameter) : Prop where
  name : p.name.WellFormed
  typeName : p.typeName.WellFormed

def Routine.Kind.WellFormed : Routine.Kind → Prop
  | .function returnType => returnType.WellFormed
  | .procedure => True

structure Routine.WellFormed (r : Routine) : Prop where
  kind : r.kind.WellFormed
  name : r.name.WellFormed
  parameters : ∀ p ∈ r.parameters, p.WellFormed
  locals : ∀ d ∈ r.locals, d.WellFormed
  body : r.body.WellFormed

structure Program.WellFormed (p : Program) : Prop where
  name : p.name.WellFormed
  vars : ∀ s ∈ p.vars, s.WellFormed VarDecl.WellFormed
  consts : ∀ s ∈ p.consts, s.WellFormed ConstDecl.WellFormed
  routines : ∀ r ∈ p.routines, r.WellFormed
  body : p.body.WellFormed

/-! ## Proper words -/

theorem BinaryOperator.word_proper (op : BinaryOperator) : op.word.Proper := by
  cases op
  case or => exact Word.keyword_proper (by decide)
  case quotient => exact Word.keyword_proper (by decide)
  case remainder => exact Word.keyword_proper (by decide)
  case and => exact Word.keyword_proper (by decide)
  all_goals exact Word.symbol_proper (by decide)

theorem UnaryOperator.word_proper (op : UnaryOperator) : op.word.Proper := by
  cases op with
  | negate => exact Word.symbol_proper (by decide)
  | not => exact Word.keyword_proper (by decide)

theorem Direction.word_proper (d : Direction) : (Word.keyword d.word).Proper := by
  cases d <;> exact Word.keyword_proper (by decide)

theorem Identifier.WellFormed.proper {x : Identifier} (h : x.WellFormed) : x.word.Proper :=
  Word.name_proper h

theorem Expr.WellFormed.proper {e : Expr} (h : e.WellFormed) : Word.AllProper e.words := by
  induction h with
  | identifier hx =>
    rw [words, Word.allProper_singleton_iff]
    exact hx.proper
  | integer _ _ =>
    rw [words, Word.allProper_singleton_iff]
    exact Word.number_proper _
  | string hvalue =>
    rw [words, Word.allProper_singleton_iff]
    exact Word.string_proper hvalue
  | @call c hroutine _ _ ih =>
    rw [words, Call.words_eq]
    simp only [Word.allProper_cons_iff, Word.allProper_append_iff, Word.allProper_nil, and_true]
    refine ⟨hroutine.proper, Word.symbol_proper (by decide), ?_, Word.symbol_proper (by decide)⟩
    refine Word.allProper_intercalate (Word.symbol_proper (by decide)) ?_
    rw [List.forall_mem_map]
    exact ih
  | @binary op _ _ _ _ _ ihl ihr =>
    rw [words]
    simp only [Word.allProper_cons_iff, Word.allProper_append_iff, Word.allProper_nil, and_true]
    exact ⟨Word.symbol_proper (by decide), ⟨ihl, op.word_proper, ihr⟩,
      Word.symbol_proper (by decide)⟩
  | @unary op _ _ _ ih =>
    rw [words]
    simp only [Word.allProper_cons_iff, Word.allProper_append_iff, Word.allProper_nil, and_true]
    exact ⟨Word.symbol_proper (by decide), ⟨op.word_proper, ih⟩, Word.symbol_proper (by decide)⟩

/-- A block has proper words if its statements have. -/
theorem Block.words_proper {b : Block} (h : ∀ s ∈ b.statements, Word.AllProper s.words) :
    Word.AllProper b.words := by
  rw [words_eq]
  simp only [Word.allProper_cons_iff, Word.allProper_append_iff, Word.allProper_nil, and_true]
  refine ⟨Word.keyword_proper (by decide), ?_, Word.keyword_proper (by decide)⟩
  refine Word.allProper_intercalate (Word.symbol_proper (by decide)) ?_
  rw [List.forall_mem_map]
  exact h

theorem Statement.WellFormed.proper {s : Statement} (h : s.WellFormed) :
    Word.AllProper s.words := by
  induction h with
  | assignment htarget hvalue =>
    rw [words, Word.allProper_cons_iff, Word.allProper_cons_iff]
    exact ⟨htarget.proper, Word.symbol_proper (by decide), hvalue.proper⟩
  | call hcall =>
    have := hcall.proper
    rwa [Expr.words] at this
  | conditional _ hconditions _ _ ihbranches ihotherwise =>
    rw [words_conditional]
    refine Word.allProper_intercalate (Word.keyword_proper (by decide)) ?_
    rw [List.forall_mem_append, List.forall_mem_map, List.forall_mem_map]
    constructor
    · intro b hb
      rw [Branch.words_eq]
      simp only [Word.allProper_cons_iff, Word.allProper_append_iff]
      exact ⟨Word.keyword_proper (by decide), (hconditions b hb).proper,
        Word.keyword_proper (by decide), Block.words_proper (ihbranches b hb)⟩
    · intro b hb
      exact Block.words_proper (ihotherwise b (Option.mem_toList.mp hb))
  | whileLoop hcondition _ ih =>
    rw [words_whileLoop]
    simp only [Word.allProper_cons_iff, Word.allProper_append_iff]
    exact ⟨Word.keyword_proper (by decide), hcondition.proper, Word.keyword_proper (by decide),
      Block.words_proper ih⟩
  | @forLoop _ _ _ direction _ _ hcounter hfirst hlast _ ih =>
    rw [words]
    simp only [Word.allProper_cons_iff, Word.allProper_append_iff]
    exact ⟨Word.keyword_proper (by decide), hcounter.proper, Word.symbol_proper (by decide),
      hfirst.proper, direction.word_proper, hlast.proper, Word.keyword_proper (by decide),
      Block.words_proper ih⟩
  | block _ ih =>
    rw [words]
    exact Block.words_proper ih

theorem Block.WellFormed.proper {b : Block} (h : b.WellFormed) : Word.AllProper b.words :=
  Block.words_proper fun s hs => (h s hs).proper

theorem VarDecl.WellFormed.proper {d : VarDecl} (h : d.WellFormed) : Word.AllProper d.words := by
  unfold words initWords
  cases hinit : d.init with
  | none =>
    simp only [Word.allProper_cons_iff, Word.allProper_append_iff, Word.allProper_nil, and_true,
      true_and]
    exact ⟨h.name.proper, Word.symbol_proper (by decide), h.typeName.proper,
      Word.symbol_proper (by decide)⟩
  | some e =>
    simp only [Word.allProper_cons_iff, Word.allProper_append_iff, Word.allProper_nil, and_true]
    exact ⟨h.name.proper, Word.symbol_proper (by decide), h.typeName.proper,
      ⟨Word.symbol_proper (by decide), (h.init e hinit).proper⟩, Word.symbol_proper (by decide)⟩

theorem ConstDecl.WellFormed.proper {d : ConstDecl} (h : d.WellFormed) :
    Word.AllProper d.words := by
  unfold words
  simp only [Word.allProper_cons_iff, Word.allProper_append_iff, Word.allProper_nil, and_true]
  exact ⟨h.name.proper, Word.symbol_proper (by decide), h.value.proper,
    Word.symbol_proper (by decide)⟩

/-- A section has proper words if its declarations have. -/
theorem DeclSection.words_proper {keyword : String} (hkeyword : keyword ∈ Vocabulary.reservedWords)
    {words : α → List Word} {part : Option (DeclSection α)}
    (h : ∀ s ∈ part, ∀ d ∈ s.decls, Word.AllProper (words d)) :
    Word.AllProper (DeclSection.words keyword words part) := by
  cases part with
  | none => simp [DeclSection.words]
  | some s =>
    rw [DeclSection.words, Word.allProper_cons_iff]
    exact ⟨Word.keyword_proper hkeyword, Word.allProper_flatMap (h s rfl)⟩

theorem Parameter.WellFormed.proper {p : Parameter} (h : p.WellFormed) :
    Word.AllProper p.words := by
  have hplain : Word.AllProper [p.name.word, .symbol ":", p.typeName.word] := by
    simp only [Word.allProper_cons_iff, Word.allProper_nil, and_true]
    exact ⟨h.name.proper, Word.symbol_proper (by decide), h.typeName.proper⟩
  unfold words
  split
  · exact Word.allProper_cons_iff.mpr ⟨Word.keyword_proper (by decide), hplain⟩
  · exact hplain

namespace Routine

theorem Kind.WellFormed.proper {k : Kind} (h : k.WellFormed) : Word.AllProper k.words := by
  cases k with
  | procedure => simp [Kind.words]
  | function returnType =>
    simp only [Kind.words, Word.allProper_cons_iff, Word.allProper_nil, and_true]
    exact ⟨Word.symbol_proper (by decide), Identifier.WellFormed.proper h⟩

theorem formalWords_proper {parameters : List Parameter} (h : ∀ p ∈ parameters, p.WellFormed) :
    Word.AllProper (formalWords parameters) := by
  cases parameters with
  | nil => simp [formalWords]
  | cons p ps =>
    simp only [formalWords, Word.allProper_cons_iff, Word.allProper_append_iff, Word.allProper_nil,
      and_true]
    refine ⟨Word.symbol_proper (by decide), ?_, Word.symbol_proper (by decide)⟩
    refine Word.allProper_intercalate (Word.symbol_proper (by decide)) ?_
    rw [List.forall_mem_map]
    exact fun q hq => (h q hq).proper

theorem WellFormed.localSection {r : Routine} (h : r.WellFormed) :
    ∀ s ∈ r.localSection, s.WellFormed VarDecl.WellFormed := by
  have hlocals := h.locals
  unfold Routine.localSection
  cases hdecls : r.locals with
  | nil => simp
  | cons d rest =>
    rw [hdecls] at hlocals
    intro s h
    cases h
    exact ⟨List.cons_ne_nil d rest, hlocals⟩

theorem WellFormed.proper {r : Routine} (h : r.WellFormed) : Word.AllProper r.words := by
  unfold words
  simp only [Word.allProper_cons_iff, Word.allProper_append_iff, Word.allProper_nil, and_true]
  refine ⟨?_, h.name.proper, formalWords_proper h.parameters, h.kind.proper,
    Word.symbol_proper (by decide), ?_, h.body.proper,
    Word.symbol_proper (by decide)⟩
  · split <;> exact Word.keyword_proper (by decide)
  · exact DeclSection.words_proper (by decide) fun s hs d hd =>
      ((h.localSection s hs).decls d hd).proper

end Routine

theorem Program.WellFormed.proper {p : Program} (h : p.WellFormed) : Word.AllProper p.words := by
  unfold words
  simp only [Word.allProper_cons_iff, Word.allProper_append_iff, Word.allProper_nil,
    and_true]
  refine ⟨Word.keyword_proper (by decide), h.name.proper, Word.symbol_proper (by decide), ?_, ?_,
    Word.allProper_flatMap fun r hr => (h.routines r hr).proper, h.body.proper,
    Word.symbol_proper (by decide)⟩
  · exact DeclSection.words_proper (by decide) fun s hs d hd => ((h.vars s hs).decls d hd).proper
  · exact DeclSection.words_proper (by decide) fun s hs d hd => ((h.consts s hs).decls d hd).proper

end PascalSyntax
