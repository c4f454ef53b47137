import PascalSyntax.Proofs.Program.Faithful
import PascalSyntax.Proofs.Tree.Node

/-!
# The leaves of a tree

A tree that is faithful to its source is so at each of its nodes, since what is
faithful has faithful children (`Node.Faithful.children`).  So a leaf, wherever it
stands, says what its text says: an integer is the decimal number of its digits,
and the negative of it fits into 64 bits as well (`Program.ofSource_leaves`).

The other way round, a number token is read as an integer whenever its decimal value
fits.  How many digits it has does not matter.
-/

namespace PascalSyntax

/-! ## From a node to its children -/

namespace Node

/-- The leaves of the node and of all that is below it say what their texts say. -/
def Faithful : Node → Prop
  | program p => p.Faithful
  | varSection s => ∀ d ∈ s.decls, d.Faithful
  | constSection s => ∀ d ∈ s.decls, d.Faithful
  | varDecl d => d.Faithful
  | constDecl d => d.Faithful
  | routine r => r.Faithful
  | parameter p => p.WellFormed
  | block b => b.Faithful
  | branch b => b.condition.Faithful ∧ b.body.Faithful
  | statement s => s.Faithful
  | expr e => e.Faithful
  | argument a => a.Unbound ∧ a.value.Faithful
  | identifier x => x.WellFormed

theorem faithful_ofCall {c : Call} (h : (Expr.call c).Faithful) : ∀ m ∈ ofCall c, m.Faithful := by
  cases h with
  | call hroutine hunbound hvalues =>
    refine List.forall_mem_cons.mpr ⟨hroutine, List.forall_mem_map.mpr ?_⟩
    intro a ha
    exact ⟨hunbound a ha, hvalues a ha⟩

theorem faithful_expr {e : Expr} (h : e.Faithful) : ∀ m ∈ (expr e).children, m.Faithful := by
  cases h with
  | identifier _ => exact List.forall_mem_nil _
  | integer _ => exact List.forall_mem_nil _
  | string _ => exact List.forall_mem_nil _
  | call hroutine hunbound hvalues => exact faithful_ofCall (.call hroutine hunbound hvalues)
  | binary hleft hright =>
    exact List.forall_mem_cons.mpr ⟨hleft, List.forall_mem_singleton.mpr hright⟩
  | unary hoperand => exact List.forall_mem_singleton.mpr hoperand

theorem faithful_statement {s : Statement} (h : s.Faithful) :
    ∀ m ∈ (statement s).children, m.Faithful := by
  cases h with
  | assignment htarget hvalue =>
    exact List.forall_mem_cons.mpr ⟨htarget, List.forall_mem_singleton.mpr hvalue⟩
  | call hc => exact faithful_ofCall hc
  | conditional hconditions hbodies hotherwise =>
    refine List.forall_mem_append.mpr ⟨List.forall_mem_map.mpr ?_, List.forall_mem_map.mpr ?_⟩
    · intro b hb
      exact ⟨hconditions b hb, hbodies b hb⟩
    · intro b hb
      exact hotherwise b (Option.mem_toList.mp hb)
  | whileLoop hcondition hbody => exact List.forall_mem_singleton.mpr ⟨hcondition, hbody⟩
  | forLoop hcounter hfirst hlast hbody =>
    exact List.forall_mem_cons.mpr ⟨hcounter, List.forall_mem_cons.mpr ⟨hfirst,
      List.forall_mem_cons.mpr ⟨hlast, List.forall_mem_singleton.mpr hbody⟩⟩⟩
  | block hb => exact List.forall_mem_map.mpr hb

theorem faithful_varDecl {d : VarDecl} (h : d.Faithful) :
    ∀ m ∈ (varDecl d).children, m.Faithful := by
  refine List.forall_mem_cons.mpr ⟨h.name, List.forall_mem_cons.mpr ⟨h.typeName, ?_⟩⟩
  refine List.forall_mem_map.mpr fun e he => ?_
  exact h.init e (Option.mem_toList.mp he)

theorem faithful_routine {r : Routine} (h : r.Faithful) :
    ∀ m ∈ (routine r).children, m.Faithful := by
  have hkind : ∀ x ∈ r.kind.returnType?.toList, x.WellFormed := by
    have := h.kind
    cases hr : r.kind with
    | function returnType =>
      rw [hr] at this
      exact List.forall_mem_singleton.mpr this
    | procedure => exact List.forall_mem_nil _
  simp only [children, List.forall_mem_cons, List.forall_mem_append, List.forall_mem_map]
  exact ⟨h.name, hkind, h.parameters, h.locals, h.body, List.forall_mem_nil _⟩

theorem faithful_program {p : Program} (h : p.Faithful) :
    ∀ m ∈ (program p).children, m.Faithful := by
  simp only [children, List.forall_mem_cons, List.forall_mem_append, List.forall_mem_map,
    Option.mem_toList]
  exact ⟨h.name, h.vars, h.consts, h.routines, h.body, List.forall_mem_nil _⟩

/-- What is faithful has faithful children. -/
theorem Faithful.children {n : Node} (h : n.Faithful) : ∀ m ∈ n.children, m.Faithful := by
  cases n with
  | program p => exact faithful_program h
  | varSection s => exact List.forall_mem_map.mpr h
  | constSection s => exact List.forall_mem_map.mpr h
  | varDecl d => exact faithful_varDecl h
  | constDecl d => exact List.forall_mem_cons.mpr ⟨h.name, List.forall_mem_singleton.mpr h.value⟩
  | routine r => exact faithful_routine h
  | parameter p => exact List.forall_mem_cons.mpr ⟨h.name, List.forall_mem_singleton.mpr h.typeName⟩
  | block b => exact List.forall_mem_map.mpr h
  | branch b => exact List.forall_mem_cons.mpr ⟨h.1, List.forall_mem_singleton.mpr h.2⟩
  | statement s => exact faithful_statement h
  | expr e => exact faithful_expr h
  | argument a =>
    obtain ⟨⟨hparameter, htypeName, -⟩, hvalue⟩ := h
    rw [Node.children, hparameter, htypeName]
    exact List.forall_mem_singleton.mpr hvalue
  | identifier x => exact List.forall_mem_nil _

theorem Faithful.below {root n : Node} (h : root.Faithful) (hn : root.Below n) : n.Faithful := by
  induction hn with
  | refl => exact h
  | tail _ hchild ih => exact ih.children _ hchild

end Node

/-! ## Integers -/

/-- Negating an integer of a source does not overflow. -/
theorem IntegerLiteral.Faithful.exists_neg {literal : IntegerLiteral} (h : literal.Faithful) :
    ∃ word : Int64, word.toInt = -literal.value := by
  have hvalue := h.value
  have hrange := h.inRange
  exact ⟨.ofInt (-literal.value), Int64.toInt_ofInt_of_le (by omega) (by omega)⟩

/-- A number token is read as an integer just if its value fits. -/
theorem Parser.primary_of_digits [Spot σ] {t : Token} {s : σ} (hpeek : Spot.peek? s = some t)
    (hkind : t.kind = .number) (hdigits : Numeral.Digits t.text.toList) (levels : Nat) :
    primary levels s =
      if Numeral.value t.text.toList ≤ Numeral.maxSigned then
        .ok (.integer ⟨Numeral.value t.text.toList, t.origin⟩, Spot.advance s)
      else
        .error ⟨.integerOutOfRange t, s⟩ := by
  simp only [primary, primaryOver, bind_apply, andThen, peek?, hpeek, hkind, integer,
    Numeral.signed?_of_digits hdigits]
  by_cases hle : Numeral.value t.text.toList ≤ Numeral.maxSigned
  · simp only [if_pos hle]
    rfl
  · simp only [if_neg hle]

namespace Program

/-- In the tree of a source each leaf says what its text says.  An integer is the decimal
number of its digits and has a negative of 64 bits, a string is what stands between its
quotes, and a name is an identifier.  Conversely a number token of a source is an operand
just if its decimal number fits, however long it is, and is reported else; this holds
wherever a reading comes to it, on every kind of spots. -/
theorem ofSource_leaves (limits : Limits) (source : String) :
    (∀ p, ofSource limits source = .ok p →
      (∀ literal, (Node.program p).Below (.expr (.integer literal)) →
        Numeral.Digits literal.origin.text.toList ∧
          literal.value = Nat.ofDigitChars 10 literal.origin.text.toList 0 ∧
          0 ≤ literal.value ∧ literal.value ≤ 2 ^ 63 - 1 ∧
          ∃ word : Int64, word.toInt = -literal.value) ∧
      (∀ literal, (Node.program p).Below (.expr (.string literal)) →
        literal.origin.text = "'" ++ literal.value ++ "'" ∧
          ∀ c ∈ literal.value.toList, c ≠ '\'' ∧ c ≠ '\n' ∧ c ≠ '\r') ∧
      ∀ x, (Node.program p).Below (.identifier x) ∨ (Node.program p).Below (.expr (.identifier x)) →
        x.WellFormed) ∧
    ∀ tokens, tokenize limits.maxTokens source = .ok tokens →
      ∀ t ∈ tokens, t.kind = .number → ∀ (σ : Type) [Spot σ] (s : σ), Spot.peek? s = some t →
        ∀ levels,
          let value := Nat.ofDigitChars 10 t.text.toList 0
          (2 ^ 63 - 1 < value → ∃ failure, Parser.primary levels s = .error failure ∧
            ∀ finish maxDepth, failure.report finish maxDepth = .integerOutOfRange t) ∧
          (value ≤ 2 ^ 63 - 1 →
            Parser.primary levels s = .ok (.integer ⟨value, t.origin⟩, Spot.advance s)) := by
  constructor
  · intro p hp
    have hfaithful : ∀ n, (Node.program p).Below n → n.Faithful :=
      fun n => Node.Faithful.below (ofSource_faithful hp)
    refine ⟨fun literal hbelow => ?_, fun literal hbelow => ?_, fun x hbelow => ?_⟩
    · cases hfaithful _ hbelow with
      | integer h =>
        refine ⟨h.digits, ?_, ?_, h.inRange, h.exists_neg⟩
        · rw [h.value, Numeral.value_eq_ofDigitChars]
        · rw [h.value]
          exact Int.natCast_nonneg _
    · cases hfaithful _ hbelow with
      | string h =>
        refine ⟨?_, h.onLine⟩
        rw [← String.toList_inj, h.text]
        simp
    · rcases hbelow with hbelow | hbelow
      · exact hfaithful _ hbelow
      · cases hfaithful _ hbelow with
        | identifier h => exact h
  · intro tokens htokens t ht hkind σ _ s hpeek levels value
    have hlexeme := Token.lexed_of_tokenize htokens t ht
    rw [hkind] at hlexeme
    have hprimary :=
      Parser.primary_of_digits hpeek hkind (isLexeme_number_iff.mp hlexeme) levels
    rw [Numeral.value_eq_ofDigitChars] at hprimary
    refine ⟨fun hlt => ?_, fun hle => hprimary.trans (if_pos hle)⟩
    have hgt : ¬ value ≤ Numeral.maxSigned := Nat.not_le.mpr hlt
    exact ⟨_, hprimary.trans (if_neg hgt), fun _ _ => rfl⟩

/-- A source with the greatest integer, after zeros, and with a string. -/
def constantsSource : String :=
  "program p; const big = 009223372036854775807; s = 'it'; begin end."

/-- The greatest integer, and the one after it, both after zeros. -/
def boundarySource : String :=
  "009223372036854775807 009223372036854775808"

def greatestToken : Token :=
  ⟨.number, "009223372036854775807", ⟨1, 1⟩⟩

def excessiveToken : Token :=
  ⟨.number, "009223372036854775808", ⟨1, 23⟩⟩

/-- The values of the constants, of one kind of expression. -/
def constantsOf (select : Expr → Option α) (p : Program) : List α :=
  p.consts.toList.flatMap fun s => s.decls.filterMap fun d => select d.value

def integer? : Expr → Option IntegerLiteral
  | .integer literal => some literal
  | _ => none

def string? : Expr → Option StringLiteral
  | .string literal => some literal
  | _ => none

theorem exists_below_of_constantsOf {select : Expr → Option α} {p : Program} {a : α}
    (h : a ∈ p.constantsOf select) : ∃ e, select e = some a ∧ (Node.program p).Below (.expr e) := by
  obtain ⟨s, hs, hdecls⟩ := List.mem_flatMap.mp h
  obtain ⟨d, hd, hvalue⟩ := List.mem_filterMap.mp hdecls
  have hsection : (Node.program p).Child (.constSection s) := by
    simp [Node.Child, Node.children, Option.mem_toList.mp hs]
  have hdecl : (Node.constSection s).Child (.constDecl d) := List.mem_map_of_mem hd
  have hexpr : (Node.constDecl d).Child (.expr d.value) := by
    simp [Node.Child, Node.children]
  exact ⟨d.value, hvalue, ((Relation.ReflTransGen.single hsection).tail hdecl).tail hexpr⟩

theorem below_of_integer {p : Program} {literal : IntegerLiteral}
    (h : literal ∈ p.constantsOf integer?) : (Node.program p).Below (.expr (.integer literal)) := by
  obtain ⟨e, he, hbelow⟩ := exists_below_of_constantsOf h
  cases e <;> cases he
  exact hbelow

theorem below_of_string {p : Program} {literal : StringLiteral}
    (h : literal ∈ p.constantsOf string?) : (Node.program p).Below (.expr (.string literal)) := by
  obtain ⟨e, he, hbelow⟩ := exists_below_of_constantsOf h
  cases e <;> cases he
  exact hbelow

/-- The greatest integer is read, with zeros before it, and the next one is not. -/
theorem constantsSource_leaves :
    (∃ p integer string, ofSource .standard constantsSource = .ok p ∧
      p.constantsOf integer? = [integer] ∧ integer.value = 2 ^ 63 - 1 ∧
      (∃ word : Int64, word.toInt = -integer.value) ∧
      p.constantsOf string? = [string] ∧ string.origin.text = "'" ++ string.value ++ "'" ∧
      p.name.WellFormed) ∧
    tokenize 2 boundarySource = .ok [greatestToken, excessiveToken] ∧
    Parser.primary 64 (Cursor.ofTokens [greatestToken, excessiveToken]) =
      .ok (.integer ⟨2 ^ 63 - 1, greatestToken.origin⟩, Cursor.ofTokens [excessiveToken]) ∧
    ∃ failure, Parser.primary 64 (Cursor.ofTokens [excessiveToken]) = .error failure ∧
      failure.report .start 64 = .integerOutOfRange excessiveToken := by
  constructor
  · have hread : (ofSource .standard constantsSource).map
        (fun p => (p.constantsOf integer?, p.constantsOf string?)) =
          .ok ([⟨2 ^ 63 - 1, ⟨⟨1, 24⟩, "009223372036854775807"⟩⟩],
            [⟨"it", ⟨⟨1, 51⟩, "'it'"⟩⟩]) := by
      decide +kernel
    cases h : ofSource .standard constantsSource with
    | error e =>
      rw [h] at hread
      cases hread
    | ok p =>
      rw [h] at hread
      obtain ⟨hinteger, hstring⟩ := Prod.mk.inj (Except.ok.inj hread)
      obtain ⟨hintegers, hstrings, hnames⟩ := (ofSource_leaves .standard constantsSource).1 p h
      have hname : (Node.program p).Below (.identifier p.name) :=
        .single List.mem_cons_self
      obtain ⟨-, -, -, -, hword⟩ :=
        hintegers _ (below_of_integer (hinteger ▸ List.mem_singleton_self _))
      obtain ⟨htext, -⟩ := hstrings _ (below_of_string (hstring ▸ List.mem_singleton_self _))
      exact ⟨p, _, _, rfl, hinteger, rfl, hword, hstring, htext, hnames _ (.inl hname)⟩
  · have htokens : tokenize 2 boundarySource = .ok [greatestToken, excessiveToken] := by
      decide +kernel
    have hleaves := (ofSource_leaves ⟨64, 2⟩ boundarySource).2 _ htokens
    obtain ⟨-, hfits⟩ := hleaves greatestToken (by decide) rfl Cursor
      (.ofTokens [greatestToken, excessiveToken]) rfl 64
    obtain ⟨hexceeds, -⟩ := hleaves excessiveToken (by decide) rfl Cursor
      (.ofTokens [excessiveToken]) rfl 64
    obtain ⟨failure, hfailure, hreport⟩ := hexceeds (by decide)
    exact ⟨htokens, hfits (by decide), failure, hfailure, hreport _ _⟩

end Program
end PascalSyntax
