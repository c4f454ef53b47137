import PascalSyntax.Proofs.Program.Conservation
import PascalSyntax.Proofs.Tree.WellFormed

/-!
# Trees whose leaves are what their texts say

In the tree of a source a name is an identifier, an integer has the value of its
digits and is not negative, the text of a string is its value between quotes, and
no argument is bound.  This follows along the spellings, since the tokens of a
source are lexemes.
-/

namespace PascalSyntax

/-! ## Faithful leaves -/

structure IntegerLiteral.Faithful (literal : IntegerLiteral) : Prop where
  digits : Numeral.Digits literal.origin.text.toList
  value : literal.value = Numeral.value literal.origin.text.toList
  inRange : literal.value ≤ 2 ^ 63 - 1

structure StringLiteral.Faithful (literal : StringLiteral) : Prop where
  text : literal.origin.text.toList = '\'' :: (literal.value.toList ++ ['\''])
  onLine : ∀ c ∈ literal.value.toList, c ≠ '\'' ∧ c ≠ '\n' ∧ c ≠ '\r'

inductive Expr.Faithful : Expr → Prop
  | identifier {x : Identifier} : x.WellFormed → Faithful (.identifier x)
  | integer {literal : IntegerLiteral} : literal.Faithful → Faithful (.integer literal)
  | string {literal : StringLiteral} : literal.Faithful → Faithful (.string literal)
  | call {c : Call} : c.routine.WellFormed → (∀ a ∈ c.arguments, a.Unbound) →
      (∀ a ∈ c.arguments, Faithful a.value) → Faithful (.call c)
  | binary {op : BinaryOperator} {left right : Expr} {origin : Origin} :
      Faithful left → Faithful right → Faithful (.binary op left right origin)
  | unary {op : UnaryOperator} {operand : Expr} {origin : Origin} :
      Faithful operand → Faithful (.unary op operand origin)

inductive Statement.Faithful : Statement → Prop
  | assignment {target : Identifier} {value : Expr} {origin : Origin} :
      target.WellFormed → value.Faithful → Faithful (.assignment target value origin)
  | call {c : Call} : (Expr.call c).Faithful → Faithful (.call c)
  | conditional {branches : List Branch} {otherwise : Option Block} {origin : Origin} :
      (∀ b ∈ branches, b.condition.Faithful) →
      (∀ b ∈ branches, ∀ s ∈ b.body.statements, Faithful s) →
      (∀ b ∈ otherwise, ∀ s ∈ b.statements, Faithful s) →
      Faithful (.conditional branches otherwise origin)
  | whileLoop {branch : Branch} {origin : Origin} : branch.condition.Faithful →
      (∀ s ∈ branch.body.statements, Faithful s) → Faithful (.whileLoop branch origin)
  | forLoop {counter : Identifier} {first last : Expr} {direction : Direction} {body : Block}
      {origin : Origin} :
      counter.WellFormed → first.Faithful → last.Faithful →
      (∀ s ∈ body.statements, Faithful s) →
      Faithful (.forLoop counter first last direction body origin)
  | block {b : Block} : (∀ s ∈ b.statements, Faithful s) → Faithful (.block b)

def Block.Faithful (b : Block) : Prop :=
  ∀ s ∈ b.statements, s.Faithful

structure VarDecl.Faithful (d : VarDecl) : Prop where
  name : d.name.WellFormed
  typeName : d.typeName.WellFormed
  init : ∀ e ∈ d.init, e.Faithful

structure ConstDecl.Faithful (d : ConstDecl) : Prop where
  name : d.name.WellFormed
  value : d.value.Faithful

structure Routine.Faithful (r : Routine) : Prop where
  kind : r.kind.WellFormed
  name : r.name.WellFormed
  parameters : ∀ p ∈ r.parameters, p.WellFormed
  locals : ∀ d ∈ r.locals, d.Faithful
  body : r.body.Faithful

structure Program.Faithful (p : Program) : Prop where
  name : p.name.WellFormed
  vars : ∀ s ∈ p.vars, ∀ d ∈ s.decls, d.Faithful
  consts : ∀ s ∈ p.consts, ∀ d ∈ s.decls, d.Faithful
  routines : ∀ r ∈ p.routines, r.Faithful
  body : p.body.Faithful

/-! ## Tokens that are lexemes -/

/-- Each of the tokens is a lexeme of its kind. -/
def Token.Lexed (ts : List Token) : Prop :=
  ∀ t ∈ ts, IsLexeme t.kind t.text.toList

namespace Token

@[simp] theorem lexed_cons_iff {t : Token} {ts : List Token} :
    Lexed (t :: ts) ↔ IsLexeme t.kind t.text.toList ∧ Lexed ts :=
  List.forall_mem_cons

@[simp] theorem lexed_append_iff {ts us : List Token} :
    Lexed (ts ++ us) ↔ Lexed ts ∧ Lexed us :=
  List.forall_mem_append

theorem Lexed.sequence {spells : α → List Token → Prop} {as : List α} {ts : List Token}
    (hl : Lexed ts) (h : Sequence spells as ts) : ∀ a ∈ as, ∃ us, Lexed us ∧ spells a us :=
  (h.inherit lexed_append_iff.mp hl).forall_mem fun _ us hus => ⟨us, hus⟩

theorem Lexed.separated {separator : Terminal} {spells : α → List Token → Prop} {as : List α}
    {ts : List Token} (hl : Lexed ts) (h : Separated separator spells as ts) :
    ∀ a ∈ as, ∃ us, Lexed us ∧ spells a us := by
  have hinherit : Separated separator (fun a us => Lexed us ∧ spells a us) as ts :=
    h.inherit (fun hts => (lexed_append_iff.mp hts).1)
      (fun _ hts => (lexed_cons_iff.mp (lexed_append_iff.mp hts).2).2) hl
  exact hinherit.forall_mem fun _ us hus => ⟨us, hus⟩

theorem identifier_wellFormed {t : Token} (hlexeme : IsLexeme t.kind t.text.toList)
    (ht : Terminal.identifier.admits t) : t.toIdentifier.WellFormed := by
  rwa [show t.kind = .identifier by simpa [Terminal.admits] using ht] at hlexeme

theorem integer_faithful {t : Token} {value : Int} (hlexeme : IsLexeme t.kind t.text.toList)
    (ht : Terminal.number.admits t) (hv : Numeral.signed? t.text.toList = some value) :
    IntegerLiteral.Faithful ⟨value, t.origin⟩ := by
  rw [show t.kind = .number by simpa [Terminal.admits] using ht] at hlexeme
  have hdigits := isLexeme_number_iff.mp hlexeme
  rw [Numeral.signed?_of_digits hdigits] at hv
  split at hv
  · rename_i hle
    cases hv
    refine ⟨hdigits, rfl, ?_⟩
    rw [Numeral.maxSigned] at hle
    simp only
    omega
  · cases hv

theorem string_faithful {t : Token} (hlexeme : IsLexeme t.kind t.text.toList)
    (ht : Terminal.string.admits t) : StringLiteral.Faithful ⟨t.unquoted, t.origin⟩ := by
  rw [show t.kind = .string by simpa [Terminal.admits] using ht] at hlexeme
  generalize htext : t.text.toList = text at hlexeme
  cases hlexeme with
  | @string body hbody =>
    have hvalue : t.unquoted.toList = body := by
      simp [unquoted, htext]
    refine ⟨?_, ?_⟩
    · rw [hvalue]
      exact htext
    · rw [hvalue]
      exact hbody

end Token

open Token

/-! ## Expressions and statements -/

theorem Expr.Spelling.faithful {levels k : Nat} {e : Expr} {ts : List Token}
    (h : Expr.Spelling levels k e ts) (hl : Lexed ts) : e.Faithful := by
  induction h with
  | identifier ht => exact .identifier (identifier_wellFormed (lexed_cons_iff.mp hl).1 ht)
  | integer ht hv => exact .integer (integer_faithful (lexed_cons_iff.mp hl).1 ht hv)
  | string ht => exact .string (string_faithful (lexed_cons_iff.mp hl).1 ht)
  | emptyCall hn _ _ =>
    exact .call (identifier_wellFormed (lexed_cons_iff.mp hl).1 hn) (List.forall_mem_nil _)
      (List.forall_mem_nil _)
  | @call _ _ _ _ _ pieces ts hn _ _ hs _ ih =>
    simp only [lexed_cons_iff, lexed_append_iff] at hl
    obtain ⟨hname, -, hts, -⟩ := hl
    have hvalues : Separated (.symbol ",") (fun e us => Lexed us → e.Faithful)
        (pieces.map (·.1)) ts :=
      separated_iff_pieces.mpr ⟨pieces, rfl, ih, hs⟩
    refine .call (identifier_wellFormed hname hn)
      (List.forall_mem_map.mpr fun _ _ => ⟨rfl, rfl, rfl⟩)
      (List.forall_mem_map.mpr fun piece hpiece => ?_)
    obtain ⟨us, hus, h⟩ := hts.separated hvalues _ (List.mem_map_of_mem hpiece)
    exact h hus
  | parenthesized _ _ _ ih =>
    simp only [lexed_cons_iff, lexed_append_iff] at hl
    exact ih hl.2.1
  | unary _ _ ih => exact .unary (ih (lexed_cons_iff.mp hl).2)
  | binary _ _ _ _ ihl ihr =>
    simp only [lexed_cons_iff, lexed_append_iff] at hl
    obtain ⟨hleft, -, hright⟩ := hl
    exact .binary (ihl hleft) (ihr hright)

theorem Expr.Within.faithful {levels : Nat} {e : Expr} {ts : List Token}
    (h : Expr.Within levels e ts) (hl : Lexed ts) : e.Faithful := by
  cases levels with
  | zero => exact h.elim
  | succ levels => exact Expr.Spelling.faithful h hl

theorem Call.Arguments.faithful {levels : Nat} {args : List Argument} {ts : List Token}
    (h : Call.Arguments (Expr.Within levels) args ts) (hl : Lexed ts) :
    (∀ a ∈ args, a.Unbound) ∧ ∀ a ∈ args, a.value.Faithful := by
  cases h with
  | empty _ _ => exact ⟨List.forall_mem_nil _, List.forall_mem_nil _⟩
  | given _ hs _ =>
    simp only [lexed_cons_iff, lexed_append_iff] at hl
    obtain ⟨-, hus, -⟩ := hl
    refine ⟨List.forall_mem_map.mpr fun _ _ => ⟨rfl, rfl, rfl⟩,
      List.forall_mem_map.mpr fun e he => ?_⟩
    obtain ⟨vs, hvs, h⟩ := hus.separated hs e he
    exact h.faithful hvs

/-- The statements of a block are faithful if what stands between the semicolons
is. -/
theorem Token.Lexed.block {spells : Statement → List Token → Prop}
    {items : List (Option Statement)} {ts : List Token} (hl : Lexed ts)
    (h : Separated (.symbol ";") (Statement.Piece spells) items ts)
    (each : ∀ s us, spells s us → Lexed us → s.Faithful) :
    ∀ s ∈ items.filterMap id, s.Faithful := by
  intro s hs
  obtain ⟨o, ho, rfl⟩ := List.mem_filterMap.mp hs
  obtain ⟨us, hus, hpiece⟩ := hl.separated h _ ho
  exact each s us hpiece hus

theorem Statement.Faithful.ofStatement {s : Statement} (h : s.Faithful) :
    (Block.ofStatement s).Faithful := by
  unfold Block.ofStatement
  split
  · cases h with
    | block hb => exact hb
  · exact List.forall_mem_singleton.mpr h

theorem Statement.Spelling.faithful {levels : Nat} {isOpen : Bool} {s : Statement}
    {ts : List Token} (h : Statement.Spelling levels isOpen s ts) (hl : Lexed ts) :
    s.Faithful := by
  induction h with
  | assignment hn _ he =>
    obtain ⟨hname, -, hvalue⟩ := by simpa only [lexed_cons_iff] using hl
    exact .assignment (identifier_wellFormed hname hn) (he.faithful hvalue)
  | bareCall hn =>
    exact .call (.call (identifier_wellFormed (lexed_cons_iff.mp hl).1 hn)
      (List.forall_mem_nil _) (List.forall_mem_nil _))
  | call hn ha =>
    obtain ⟨hname, harguments⟩ := lexed_cons_iff.mp hl
    obtain ⟨hunbound, hvalues⟩ := ha.faithful harguments
    exact .call (.call (identifier_wellFormed hname hn) hunbound hvalues)
  | @block _ _ _ _ pieces us _ _ hnone hs _ ih =>
    have hitems : Separated (.symbol ";") (Statement.Piece fun s vs => Lexed vs → s.Faithful)
        (pieces.map (·.1)) us := by
      refine separated_iff_pieces.mpr ⟨pieces, rfl, ?_, hs⟩
      rintro ⟨o, vs⟩ hpiece
      cases o with
      | none => exact hnone _ hpiece rfl
      | some s => exact ih _ hpiece s rfl
    simp only [lexed_cons_iff, lexed_append_iff] at hl
    have hblock := hl.2.1.block hitems fun _ _ h => h
    rw [List.filterMap_map] at hblock
    exact .block hblock
  | whileLoop _ he _ _ ih =>
    simp only [lexed_cons_iff, lexed_append_iff] at hl
    obtain ⟨-, hcondition, -, hbody⟩ := hl
    exact .whileLoop (he.faithful hcondition) (ih hbody).ofStatement
  | forLoop _ hn _ hf _ hlast _ _ ih =>
    simp only [lexed_cons_iff, lexed_append_iff] at hl
    obtain ⟨-, hname, -, hfirst, -, htarget, -, hbody⟩ := hl
    exact .forLoop (identifier_wellFormed hname hn) (hf.faithful hfirst)
      (hlast.faithful htarget) (ih hbody).ofStatement
  | ifThen _ he _ _ ih =>
    simp only [lexed_cons_iff, lexed_append_iff] at hl
    obtain ⟨-, hcondition, -, hbody⟩ := hl
    exact .conditional (List.forall_mem_singleton.mpr (he.faithful hcondition))
      (List.forall_mem_singleton.mpr (ih hbody).ofStatement) (by simp)
  | ifElse _ he _ _ _ _ _ ih iho =>
    simp only [lexed_cons_iff, lexed_append_iff] at hl
    obtain ⟨-, hcondition, -, hbody, -, hotherwise⟩ := hl
    have hotherwise := (iho hotherwise).ofStatement
    exact .conditional (List.forall_mem_singleton.mpr (he.faithful hcondition))
      (List.forall_mem_singleton.mpr (ih hbody).ofStatement) (by rintro _ ⟨⟩; exact hotherwise)
  | elseIf _ he _ _ _ _ ih iho =>
    simp only [lexed_cons_iff, lexed_append_iff] at hl
    obtain ⟨-, hcondition, -, hbody, -, hothers⟩ := hl
    cases iho hothers with
    | conditional hconditions hbodies hotherwise =>
      exact .conditional (List.forall_mem_cons.mpr ⟨he.faithful hcondition, hconditions⟩)
        (List.forall_mem_cons.mpr ⟨(ih hbody).ofStatement, hbodies⟩) hotherwise

theorem Block.Spelling.faithful {levels : Nat} {b : Block} {ts : List Token}
    (h : Block.Spelling levels b ts) (hl : Lexed ts) : b.Faithful := by
  cases h with
  | mk _ hs _ =>
    simp only [lexed_cons_iff, lexed_append_iff] at hl
    exact hl.2.1.block hs fun _ _ h => h.faithful

/-! ## Declarations -/

theorem Identifier.Spelling.wellFormed {x : Identifier} {ts : List Token}
    (h : Identifier.Spelling x ts) (hl : Lexed ts) : x.WellFormed := by
  cases h with
  | mk ht => exact identifier_wellFormed (lexed_cons_iff.mp hl).1 ht

theorem VarDecl.Group.faithful {levels : Nat} {decls : List VarDecl} {ts : List Token}
    (h : VarDecl.Group levels decls ts) (hl : Lexed ts) : ∀ d ∈ decls, d.Faithful := by
  cases h with
  | plain hs _ ht _ =>
    simp only [lexed_cons_iff, lexed_append_iff] at hl
    obtain ⟨hnames, -, htype, -⟩ := hl
    refine List.forall_mem_map.mpr fun x hx => ?_
    obtain ⟨us, hus, hx⟩ := hnames.separated hs x hx
    exact ⟨hx.wellFormed hus, identifier_wellFormed htype ht, by simp⟩
  | initialized hn _ ht _ hv _ =>
    simp only [lexed_cons_iff, lexed_append_iff] at hl
    obtain ⟨hname, -, htype, -, hvalue, -⟩ := hl
    refine List.forall_mem_singleton.mpr
      ⟨identifier_wellFormed hname hn, identifier_wellFormed htype ht, ?_⟩
    rintro _ ⟨⟩
    exact hv.faithful hvalue

theorem VarSection.Spelling.faithful {levels : Nat} {o : Option (DeclSection VarDecl)}
    {ts : List Token} (h : VarSection.Spelling levels o ts) (hl : Lexed ts) :
    ∀ s ∈ o, ∀ d ∈ s.decls, d.Faithful := by
  cases h with
  | absent => simp
  | present _ _ hs =>
    rintro _ ⟨⟩ d hd
    obtain ⟨group, hgroup, hd⟩ := List.mem_flatten.mp hd
    obtain ⟨us, hus, h⟩ := (lexed_cons_iff.mp hl).2.sequence hs group hgroup
    exact h.faithful hus d hd

theorem ConstSection.Spelling.faithful {levels : Nat} {o : Option (DeclSection ConstDecl)}
    {ts : List Token} (h : ConstSection.Spelling levels o ts) (hl : Lexed ts) :
    ∀ s ∈ o, ∀ d ∈ s.decls, d.Faithful := by
  cases h with
  | absent => simp
  | present _ _ hs =>
    rintro _ ⟨⟩ d hd
    obtain ⟨us, hus, h⟩ := (lexed_cons_iff.mp hl).2.sequence hs d hd
    cases h with
    | mk hn _ hv _ =>
      simp only [lexed_cons_iff, lexed_append_iff] at hus
      obtain ⟨hname, -, hvalue, -⟩ := hus
      exact ⟨identifier_wellFormed hname hn, hv.faithful hvalue⟩

theorem Parameter.Group.wellFormed {parameters : List Parameter} {ts : List Token}
    (h : Parameter.Group parameters ts) (hl : Lexed ts) : ∀ p ∈ parameters, p.WellFormed := by
  cases h with
  | byValue hs _ ht =>
    simp only [lexed_cons_iff, lexed_append_iff] at hl
    obtain ⟨hnames, -, htype, -⟩ := hl
    refine List.forall_mem_map.mpr fun x hx => ?_
    obtain ⟨us, hus, hx⟩ := hnames.separated hs x hx
    exact ⟨hx.wellFormed hus, identifier_wellFormed htype ht⟩
  | byReference _ hs _ ht =>
    simp only [lexed_cons_iff, lexed_append_iff] at hl
    obtain ⟨-, hnames, -, htype, -⟩ := hl
    refine List.forall_mem_map.mpr fun x hx => ?_
    obtain ⟨us, hus, hx⟩ := hnames.separated hs x hx
    exact ⟨hx.wellFormed hus, identifier_wellFormed htype ht⟩

theorem Routine.Formals.wellFormed {parameters : List Parameter} {ts : List Token}
    (h : Routine.Formals parameters ts) (hl : Lexed ts) : ∀ p ∈ parameters, p.WellFormed := by
  cases h with
  | absent => exact List.forall_mem_nil _
  | empty _ _ => exact List.forall_mem_nil _
  | given _ hs _ =>
    simp only [lexed_cons_iff, lexed_append_iff] at hl
    obtain ⟨-, hus, -⟩ := hl
    intro p hp
    obtain ⟨group, hgroup, hp⟩ := List.mem_flatten.mp hp
    obtain ⟨vs, hvs, h⟩ := hus.separated hs group hgroup
    exact h.wellFormed hvs p hp

theorem Routine.Kind.Spelling.wellFormed {isFunction : Bool} {kind : Routine.Kind}
    {ts : List Token} (h : Routine.Kind.Spelling isFunction kind ts) (hl : Lexed ts) :
    kind.WellFormed := by
  cases h with
  | function _ ht =>
    simp only [lexed_cons_iff] at hl
    exact identifier_wellFormed hl.2.1 ht
  | procedure => trivial

theorem Routine.Spelling.faithful {levels : Nat} {r : Routine} {ts : List Token}
    (h : Routine.Spelling levels r ts) (hl : Lexed ts) : r.Faithful := by
  cases h with
  | @mk _ _ _ _ _ _ _ locals _ _ _ _ _ _ hn hp hkind _ hlocals hb _ =>
    simp only [lexed_cons_iff, lexed_append_iff] at hl
    obtain ⟨-, hname, hformals, hresult, -, hvariables, hbody, -⟩ := hl
    refine ⟨hkind.wellFormed hresult, identifier_wellFormed hname hn, hp.wellFormed hformals, ?_,
      hb.faithful hbody⟩
    have hdecls := hlocals.faithful hvariables
    cases locals with
    | none => exact List.forall_mem_nil _
    | some s => exact hdecls s rfl

/-! ## Programs -/

theorem Program.Spelling.faithful {levels : Nat} {p : Program} {ts : List Token}
    (h : Program.Spelling levels p ts) (hl : Lexed ts) : p.Faithful := by
  cases h with
  | mk _ hn _ hv hc hr hb _ =>
    simp only [lexed_cons_iff, lexed_append_iff] at hl
    obtain ⟨-, hname, -, hvars, hconsts, hroutines, hbody, -⟩ := hl
    refine ⟨identifier_wellFormed hname hn, hv.faithful hvars, hc.faithful hconsts,
      fun r hrs => ?_, hb.faithful hbody⟩
    obtain ⟨us, hus, h⟩ := hroutines.sequence hr r hrs
    exact h.faithful hus

theorem Token.lexed_of_tokenize {maxTokens : Nat} {source : String} {tokens : List Token}
    (h : tokenize maxTokens source = .ok tokens) : Lexed tokens := by
  obtain ⟨layout, hlayout, -, hpieces⟩ := exists_pieces_of_tokenize h
  intro t ht
  obtain ⟨piece, hpiece, hkind, htext⟩ := hpieces t ht
  rw [hkind, htext]
  exact (hlayout.wellFormed piece hpiece).isLexeme

/-- The tree of a source is faithful to it. -/
theorem Program.ofSource_faithful {limits : Limits} {source : String} {p : Program}
    (h : ofSource limits source = .ok p) : p.Faithful := by
  obtain ⟨tokens, htokens, hparse⟩ := ofSource_eq_ok_iff.mp h
  have hlexed := Token.lexed_of_tokenize htokens
  exact (parse_iff.mp hparse).faithful fun t ht => hlexed t (List.mem_of_mem_filter ht)

end PascalSyntax
