import PascalSyntax.Proofs.Program.Need
import PascalSyntax.Proofs.Tree.Node

/-!
# The nodes that are read

Every node of a tree that is read has been read from some of the tokens
(`Node.Read`), and this goes on from a node to its children
(`Node.Read.children`).  So it holds at every node of a program, and what a node
that is read is like can be told from its own spelling.

With the tokens goes the room that is left for the nodes below.  A level of nesting
has room for five nodes.  Each step down takes one of them, but for a step down
from a binary operator, whose operands are on the same level.
-/

namespace PascalSyntax

/-- The room that a node takes: a binary operator takes none. -/
def Node.weight : Node → Nat
  | .expr (.binary _ _ _ _) => 0
  | _ => 1

/-- The node is read from some of the tokens, and `room` has the nodes that its
levels of nesting allow for. -/
inductive Node.Read (tokens : List Token) (room : Nat) : Node → Prop
  | program {levels : Nat} {p : Program} {ts : List Token} :
      Program.Spelling levels p ts → ts ⊆ tokens → 5 * levels + 8 ≤ room →
      Read tokens room (.program p)
  | varSection {levels : Nat} {s : DeclSection VarDecl} {ts : List Token} :
      VarSection.Spelling levels (some s) ts → ts ⊆ tokens → 5 * levels + 3 ≤ room →
      Read tokens room (.varSection s)
  | constSection {levels : Nat} {s : DeclSection ConstDecl} {ts : List Token} :
      ConstSection.Spelling levels (some s) ts → ts ⊆ tokens → 5 * levels + 3 ≤ room →
      Read tokens room (.constSection s)
  | varDecl {levels : Nat} {group : List VarDecl} {d : VarDecl} {ts : List Token} :
      VarDecl.Group levels group ts → d ∈ group → ts ⊆ tokens → 5 * levels + 2 ≤ room →
      Read tokens room (.varDecl d)
  | constDecl {levels : Nat} {d : ConstDecl} {ts : List Token} :
      ConstDecl.Spelling levels d ts → ts ⊆ tokens → 5 * levels + 2 ≤ room →
      Read tokens room (.constDecl d)
  | routine {levels : Nat} {r : Routine} {ts : List Token} :
      Routine.Spelling levels r ts → ts ⊆ tokens → 5 * levels + 7 ≤ room →
      Read tokens room (.routine r)
  | parameter {group : List Parameter} {p : Parameter} {ts : List Token} :
      Parameter.Group group ts → p ∈ group → ts ⊆ tokens → 2 ≤ room →
      Read tokens room (.parameter p)
  | block {levels : Nat} {isOpen : Bool} {s : Statement} {ts : List Token} :
      Statement.Spelling levels isOpen s ts → ts ⊆ tokens → 5 * levels + 1 ≤ room →
      Read tokens room (.block (.ofStatement s))
  | branch {levels : Nat} {isOpen : Bool} {keyword : Token} {condition : Expr} {s : Statement}
      {ts us : List Token} :
      keyword ∈ tokens → Expr.Within levels condition ts → ts ⊆ tokens →
      Statement.Spelling levels isOpen s us → us ⊆ tokens → 5 * levels + 2 ≤ room →
      Read tokens room (.branch ⟨condition, .ofStatement s, keyword.origin⟩)
  | statement {levels : Nat} {isOpen : Bool} {s : Statement} {ts : List Token} :
      Statement.Spelling levels isOpen s ts → ts ⊆ tokens → 5 * levels ≤ room →
      Read tokens room (.statement s)
  | expr {levels k : Nat} {e : Expr} {ts : List Token} :
      Expr.Spelling levels k e ts → ts ⊆ tokens → 5 * levels + (3 - k) + 2 ≤ room →
      Read tokens room (.expr e)
  | argument {levels : Nat} {e : Expr} {ts : List Token} :
      Expr.Spelling levels 0 e ts → ts ⊆ tokens → 5 * levels + 6 ≤ room →
      Read tokens room (.argument (.ofValue e))
  | identifier {t : Token} : t ∈ tokens → 1 ≤ room → Read tokens room (.identifier t.toIdentifier)

variable {tokens : List Token} {room : Nat}

theorem Expr.Within.read {levels : Nat} {e : Expr} {ts : List Token}
    (h : Expr.Within levels e ts) (hts : ts ⊆ tokens) (hroom : 5 * levels ≤ room) :
    Node.Read tokens room (.expr e) := by
  cases levels with
  | zero => exact h.elim
  | succ levels => exact .expr h hts (by omega)

/-! ## The children of a node are read -/

theorem Expr.Spelling.read_children {levels k : Nat} {e : Expr} {ts : List Token}
    (h : Expr.Spelling levels k e ts) (hts : ts ⊆ tokens)
    (hroom : 5 * levels + (3 - k) + 2 ≤ room + (Node.expr e).weight) :
    ∀ m ∈ (Node.expr e).children, m.Read tokens room := by
  induction h with
  | identifier _ => exact List.forall_mem_nil _
  | integer _ _ => exact List.forall_mem_nil _
  | string _ => exact List.forall_mem_nil _
  | emptyCall hn _ _ =>
    simp only [Node.weight] at hroom
    exact List.forall_mem_singleton.mpr (.identifier (List.cons_subset.mp hts).1 (by omega))
  | @call levels k name _ _ pieces ts hn _ hp hs _ _ =>
    simp only [Node.weight] at hroom
    simp only [List.cons_subset, List.append_subset] at hts
    obtain ⟨hname, -, hts, -⟩ := hts
    refine List.forall_mem_cons.mpr ⟨.identifier hname (by omega), ?_⟩
    rw [List.forall_mem_map, List.forall_mem_map]
    intro piece hpiece
    have hsub := hs.subset _ (List.mem_map_of_mem hpiece)
    exact .argument (hp piece hpiece) (List.Subset.trans hsub hts) (by omega)
  | parenthesized _ _ _ ih =>
    simp only [List.cons_subset, List.append_subset] at hts
    exact ih hts.2.1 (by omega)
  | unary _ he _ =>
    simp only [Node.weight] at hroom
    exact List.forall_mem_singleton.mpr (.expr he (List.cons_subset.mp hts).2 (by omega))
  | @binary _ _ op _ _ _ _ _ hk hl _ hr _ _ =>
    simp only [Node.weight] at hroom
    simp only [List.cons_subset, List.append_subset] at hts
    obtain ⟨hleft, -, hright⟩ := hts
    have hlevel := op.level_le_two
    refine List.forall_mem_cons.mpr ⟨.expr hl hleft (by omega), ?_⟩
    exact List.forall_mem_singleton.mpr (.expr hr hright (by omega))

theorem Call.Arguments.read {levels : Nat} {args : List Argument} {ts : List Token}
    (h : Call.Arguments (Expr.Within levels) args ts) (hts : ts ⊆ tokens)
    (hroom : 5 * levels + 1 ≤ room) : ∀ m ∈ args.map Node.argument, m.Read tokens room := by
  cases h with
  | empty _ _ => exact List.forall_mem_nil _
  | given _ hs _ =>
    simp only [List.cons_subset, List.append_subset] at hts
    rw [List.forall_mem_map, List.forall_mem_map]
    refine hs.within.forall_mem ?_
    intro e us h
    obtain ⟨hsub, he⟩ := h
    cases levels with
    | zero => exact he.elim
    | succ levels => exact .argument he (List.Subset.trans hsub hts.2.1) (by omega)

theorem Statement.Spelling.read_children {levels : Nat} {isOpen : Bool} {s : Statement}
    {ts : List Token} (h : Statement.Spelling levels isOpen s ts) (hts : ts ⊆ tokens)
    (hroom : 5 * levels ≤ room + 1) : ∀ m ∈ (Node.statement s).children, m.Read tokens room := by
  induction h with
  | assignment _ _ he =>
    simp only [List.cons_subset] at hts
    obtain ⟨hname, -, hvalue⟩ := hts
    exact List.forall_mem_cons.mpr ⟨.identifier hname (by omega),
      List.forall_mem_singleton.mpr (he.read hvalue (by omega))⟩
  | bareCall _ =>
    exact List.forall_mem_singleton.mpr (.identifier (List.cons_subset.mp hts).1 (by omega))
  | call _ ha =>
    obtain ⟨hname, harguments⟩ := List.cons_subset.mp hts
    exact List.forall_mem_cons.mpr ⟨.identifier hname (by omega), ha.read harguments (by omega)⟩
  | block _ hp _ hs _ _ =>
    simp only [List.cons_subset, List.append_subset] at hts
    refine List.forall_mem_map.mpr fun s hs' => ?_
    obtain ⟨piece, hpiece, hsome⟩ := List.mem_filterMap.mp hs'
    have hsub := hs.subset _ (List.mem_map_of_mem hpiece)
    exact .statement (hp piece hpiece s hsome) (List.Subset.trans hsub hts.2.1) (by omega)
  | whileLoop _ he _ hs _ =>
    simp only [List.cons_subset, List.append_subset] at hts
    obtain ⟨hkeyword, hcondition, -, hbody⟩ := hts
    exact List.forall_mem_singleton.mpr (.branch hkeyword he hcondition hs hbody (by omega))
  | forLoop _ _ _ hf _ hl _ hs _ =>
    simp only [List.cons_subset, List.append_subset] at hts
    obtain ⟨-, hname, -, hfirst, -, hlast, -, hbody⟩ := hts
    exact List.forall_mem_cons.mpr ⟨.identifier hname (by omega),
      List.forall_mem_cons.mpr ⟨hf.read hfirst (by omega),
        List.forall_mem_cons.mpr ⟨hl.read hlast (by omega),
          List.forall_mem_singleton.mpr (.block hs hbody (by omega))⟩⟩⟩
  | ifThen _ he _ hs _ =>
    simp only [List.cons_subset, List.append_subset] at hts
    obtain ⟨hkeyword, hcondition, -, hbody⟩ := hts
    exact List.forall_mem_singleton.mpr (.branch hkeyword he hcondition hs hbody (by omega))
  | ifElse _ he _ hs _ ho _ _ _ =>
    simp only [List.cons_subset, List.append_subset] at hts
    obtain ⟨hkeyword, hcondition, -, hbody, -, hotherwise⟩ := hts
    exact List.forall_mem_cons.mpr ⟨.branch hkeyword he hcondition hs hbody (by omega),
      List.forall_mem_singleton.mpr (.block ho hotherwise (by omega))⟩
  | elseIf _ he _ hs _ _ _ iho =>
    simp only [List.cons_subset, List.append_subset] at hts
    obtain ⟨hkeyword, hcondition, -, hbody, -, hothers⟩ := hts
    exact List.forall_mem_cons.mpr ⟨.branch hkeyword he hcondition hs hbody (by omega),
      iho hothers hroom⟩

/-- The statements of a body, or the statement that it is wrapped around. -/
theorem Statement.Spelling.read_body {levels : Nat} {isOpen : Bool} {s : Statement}
    {ts : List Token} (h : Statement.Spelling levels isOpen s ts) (hts : ts ⊆ tokens)
    (hroom : 5 * levels ≤ room) :
    ∀ m ∈ (Node.block (.ofStatement s)).children, m.Read tokens room := by
  cases s with
  | block b => exact h.read_children hts (by omega)
  | _ => exact List.forall_mem_singleton.mpr (.statement h hts hroom)

theorem Block.Spelling.read {levels : Nat} {b : Block} {ts : List Token}
    (h : Block.Spelling levels b ts) (hts : ts ⊆ tokens) (hroom : 5 * levels + 6 ≤ room) :
    Node.Read tokens room (.block b) := by
  have hstatement : Statement.Spelling (levels + 1) true (.block b) ts :=
    Statement.spelling_block_iff.mpr h
  exact .block hstatement hts (by omega)

/-- Names that share a type are read with it. -/
theorem Identifier.read_typed {names : List Identifier} {ts : List Token} {typeName : Token}
    (h : Separated (.symbol ",") Identifier.Spelling names ts) (hts : ts ⊆ tokens)
    (htype : typeName ∈ tokens) (hroom : 1 ≤ room) :
    ∀ x ∈ names, ∀ m ∈ [Node.identifier x, .identifier typeName.toIdentifier],
      m.Read tokens room := by
  refine h.within.forall_mem ?_
  intro x us hx
  obtain ⟨hsub, hx⟩ := hx
  cases hx with
  | mk _ =>
    exact List.forall_mem_cons.mpr ⟨.identifier (hts (hsub List.mem_cons_self)) hroom,
      List.forall_mem_singleton.mpr (.identifier htype hroom)⟩

theorem VarDecl.Group.read_children {levels : Nat} {group : List VarDecl} {ts : List Token}
    (h : VarDecl.Group levels group ts) (hts : ts ⊆ tokens) (hroom : 5 * levels + 1 ≤ room) :
    ∀ d ∈ group, ∀ m ∈ (Node.varDecl d).children, m.Read tokens room := by
  cases h with
  | plain hs _ _ _ =>
    simp only [List.cons_subset, List.append_subset] at hts
    obtain ⟨hnames, -, htype, -⟩ := hts
    exact List.forall_mem_map.mpr (Identifier.read_typed hs hnames htype (by omega))
  | initialized _ _ _ _ hv _ =>
    simp only [List.cons_subset, List.append_subset] at hts
    obtain ⟨hname, -, htype, -, hvalue, -⟩ := hts
    exact List.forall_mem_singleton.mpr (List.forall_mem_cons.mpr ⟨.identifier hname (by omega),
      List.forall_mem_cons.mpr ⟨.identifier htype (by omega),
        List.forall_mem_singleton.mpr (hv.read hvalue (by omega))⟩⟩)

theorem VarSection.Spelling.read_children {levels : Nat} {s : DeclSection VarDecl}
    {ts : List Token} (h : VarSection.Spelling levels (some s) ts) (hts : ts ⊆ tokens)
    (hroom : 5 * levels + 2 ≤ room) : ∀ d ∈ s.decls, Node.Read tokens room (.varDecl d) := by
  cases h with
  | present _ _ hs =>
    refine hs.within.forall_mem_flatten ?_
    intro group us h d hd
    exact .varDecl h.2 hd (List.Subset.trans h.1 (List.cons_subset.mp hts).2) hroom

theorem ConstSection.Spelling.read_children {levels : Nat} {s : DeclSection ConstDecl}
    {ts : List Token} (h : ConstSection.Spelling levels (some s) ts) (hts : ts ⊆ tokens)
    (hroom : 5 * levels + 2 ≤ room) : ∀ d ∈ s.decls, Node.Read tokens room (.constDecl d) := by
  cases h with
  | present _ _ hs =>
    refine hs.within.forall_mem ?_
    intro d us h
    exact .constDecl h.2 (List.Subset.trans h.1 (List.cons_subset.mp hts).2) hroom

theorem Parameter.Group.read_children {group : List Parameter} {ts : List Token}
    (h : Parameter.Group group ts) (hts : ts ⊆ tokens) (hroom : 1 ≤ room) :
    ∀ p ∈ group, ∀ m ∈ (Node.parameter p).children, m.Read tokens room := by
  cases h with
  | byValue hs _ _ =>
    simp only [List.cons_subset, List.append_subset] at hts
    obtain ⟨hnames, -, htype, -⟩ := hts
    exact List.forall_mem_map.mpr (Identifier.read_typed hs hnames htype hroom)
  | byReference _ hs _ _ =>
    simp only [List.cons_subset, List.append_subset] at hts
    obtain ⟨-, hnames, -, htype, -⟩ := hts
    exact List.forall_mem_map.mpr (Identifier.read_typed hs hnames htype hroom)

theorem Routine.Formals.read {parameters : List Parameter} {ts : List Token}
    (h : Routine.Formals parameters ts) (hts : ts ⊆ tokens) (hroom : 2 ≤ room) :
    ∀ p ∈ parameters, Node.Read tokens room (.parameter p) := by
  cases h with
  | absent => exact List.forall_mem_nil _
  | empty _ _ => exact List.forall_mem_nil _
  | given _ hs _ =>
    simp only [List.cons_subset, List.append_subset] at hts
    refine hs.within.forall_mem_flatten ?_
    intro group us h p hp
    exact .parameter h.2 hp (List.Subset.trans h.1 hts.2.1) hroom

theorem Routine.Spelling.read_children {levels : Nat} {r : Routine} {ts : List Token}
    (h : Routine.Spelling levels r ts) (hts : ts ⊆ tokens) (hroom : 5 * levels + 6 ≤ room) :
    ∀ m ∈ (Node.routine r).children, m.Read tokens room := by
  cases h with
  | @mk _ _ _ _ _ _ _ locals _ _ us _ _ _ _ hf hkind _ hlocals hb _ =>
    simp only [List.cons_subset, List.append_subset] at hts
    obtain ⟨-, hname, hformals, hresult, -, hvariables, hbody, -⟩ := hts
    simp only [Node.children, List.forall_mem_cons, List.forall_mem_append, List.forall_mem_map]
    refine ⟨.identifier hname (by omega), ?_, hf.read hformals (by omega), ?_,
      hb.read hbody hroom, List.forall_mem_nil _⟩
    · cases hkind with
      | function _ _ =>
        simp only [List.cons_subset] at hresult
        exact List.forall_mem_singleton.mpr (.identifier hresult.2.1 (by omega))
      | procedure => exact List.forall_mem_nil _
    · cases locals with
      | none => exact List.forall_mem_nil _
      | some s => exact hlocals.read_children hvariables (by omega)

theorem Program.Spelling.read_children {levels : Nat} {p : Program} {ts : List Token}
    (h : Program.Spelling levels p ts) (hts : ts ⊆ tokens) (hroom : 5 * levels + 7 ≤ room) :
    ∀ m ∈ (Node.program p).children, m.Read tokens room := by
  cases h with
  | mk _ _ _ hv hc hr hb _ =>
    simp only [List.cons_subset, List.append_subset] at hts
    obtain ⟨-, hname, -, hvars, hconsts, hroutines, hbody, -⟩ := hts
    simp only [Node.children, List.forall_mem_cons, List.forall_mem_append, List.forall_mem_map]
    refine ⟨.identifier hname (by omega), ?_, ?_, ?_, hb.read hbody (by omega),
      List.forall_mem_nil _⟩
    · intro s hs
      obtain rfl := Option.mem_toList.mp hs
      exact .varSection hv hvars (by omega)
    · intro s hs
      obtain rfl := Option.mem_toList.mp hs
      exact .constSection hc hconsts (by omega)
    · refine hr.within.forall_mem ?_
      intro r us h
      exact .routine h.2 (List.Subset.trans h.1 hroutines) (by omega)

namespace Node.Read

variable {n : Node}

/-- One step down the tree: what is read has children that are read. -/
theorem children (h : n.Read tokens (room + n.weight)) : ∀ m ∈ n.children, m.Read tokens room := by
  cases h with
  | program hp hts hroom => exact hp.read_children hts (Nat.le_of_succ_le_succ hroom)
  | varSection hs hts hroom =>
    exact List.forall_mem_map.mpr (hs.read_children hts (Nat.le_of_succ_le_succ hroom))
  | constSection hs hts hroom =>
    exact List.forall_mem_map.mpr (hs.read_children hts (Nat.le_of_succ_le_succ hroom))
  | varDecl hg hd hts hroom => exact hg.read_children hts (Nat.le_of_succ_le_succ hroom) _ hd
  | constDecl hc hts hroom =>
    cases hc with
    | mk _ _ he _ =>
      simp only [List.cons_subset, List.append_subset] at hts
      simp only [Node.weight] at hroom
      exact List.forall_mem_cons.mpr ⟨.identifier hts.1 (by omega),
        List.forall_mem_singleton.mpr (he.read hts.2.2.1 (by omega))⟩
  | routine hr hts hroom => exact hr.read_children hts (Nat.le_of_succ_le_succ hroom)
  | parameter hg hp hts hroom => exact hg.read_children hts (Nat.le_of_succ_le_succ hroom) _ hp
  | block hs hts hroom => exact hs.read_body hts (Nat.le_of_succ_le_succ hroom)
  | branch _ he hts hs hus hroom =>
    simp only [Node.weight] at hroom
    exact List.forall_mem_cons.mpr ⟨he.read hts (by omega),
      List.forall_mem_singleton.mpr (.block hs hus (by omega))⟩
  | statement hs hts hroom => exact hs.read_children hts hroom
  | expr he hts hroom => exact he.read_children hts hroom
  | argument he hts hroom =>
    exact List.forall_mem_singleton.mpr (.expr he hts (Nat.le_of_succ_le_succ hroom))
  | identifier _ _ => exact List.forall_mem_nil _

/-- There is room for the node itself. -/
theorem weight_le (h : n.Read tokens room) : n.weight ≤ room := by
  have hone : n.weight ≤ 1 := by
    unfold Node.weight
    split <;> omega
  have hroom : 1 ≤ room := by
    cases h with
    | statement hs _ hroom =>
      obtain ⟨m, rfl⟩ := Statement.exists_levels hs.need_le
      omega
    | _ => omega
  exact Nat.le_trans hone hroom

/-- Every node below one that is read has been read. -/
theorem below {root : Node} (h : root.Read tokens room) (hn : root.Below n) :
    ∃ room', n.Read tokens room' := by
  induction hn with
  | refl => exact ⟨room, h⟩
  | tail _ hchild ih =>
    obtain ⟨room', hread⟩ := ih
    obtain ⟨room', rfl⟩ := Nat.exists_eq_add_of_le' hread.weight_le
    exact ⟨room', hread.children _ hchild⟩

end Node.Read

/-- The root of a tree has room for five nodes for each level, and eight more. -/
theorem Program.read_of_parse {maxDepth : Nat} {tokens : List Token} {p : Program}
    (h : Program.parse maxDepth tokens = .ok p) :
    Node.Read (Token.significant tokens) (5 * maxDepth + 8) (.program p) :=
  .program (Program.parse_iff.mp h) (List.Subset.refl _) (Nat.le_refl _)

end PascalSyntax
