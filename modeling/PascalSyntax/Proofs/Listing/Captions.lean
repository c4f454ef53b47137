import PascalSyntax.Proofs.Listing.Nodes
import PascalSyntax.Proofs.Program.Leaves

/-!
# What the lines of an outline say

Every line of the outline of a program is that of a node of its tree: it has the
place of the node, and its label and its detail are a caption of the node
(`Outline.linesOf_program`).

If the tree is faithful to its source, a caption has only letters, digits and a few
marks in its detail, apart from the text of a string
(`Node.Faithful.not_mem_caption`).
-/

namespace PascalSyntax

/-- What a node may be called in an outline, each with the detail that goes with it.
A block is called so, and the one after `else` by that word first. -/
def Node.captions : Node → List (String × String)
  | program p => [("Program", p.name.name)]
  | varSection _ => [("Var", "")]
  | constSection _ => [("Const", "")]
  | varDecl d => [("VarDecl", d.name.name ++ ": " ++ d.typeName.name)]
  | constDecl d => [("ConstDecl", d.name.name)]
  | routine r =>
    match r.kind with
    | .function returnType => [("Function", r.name.name ++ ": " ++ returnType.name)]
    | .procedure => [("Procedure", r.name.name)]
  | parameter p =>
    [("Parameter", (if p.byReference then "var " else "") ++ p.name.name ++ ": " ++
      p.typeName.name)]
  | block _ => [("Else", ""), ("Block", "")]
  | branch _ => [("Branch", "")]
  | statement (.assignment target _ _) => [("Assignment", target.name)]
  | statement (.call c) => [("Call", c.routine.name)]
  | statement (.conditional _ _ _) => [("If", "")]
  | statement (.whileLoop _ _) => [("While", "")]
  | statement (.forLoop counter _ _ direction _ _) =>
    [("For", counter.name ++ " " ++ direction.word)]
  | statement (.block _) => [("Block", "")]
  | expr (.identifier x) => [("Identifier", x.name)]
  | expr (.integer literal) => [("Integer", toString literal.value)]
  | expr (.string literal) => [("String", literal.origin.text)]
  | expr (.call c) => [("Call", c.routine.name)]
  | expr (.binary op _ _ _) => [("Operator", op.text)]
  | expr (.unary op _ _) => [("Operator", op.text)]
  | argument _ => []
  | identifier _ => []

/-- The line is one of the node. -/
structure OutlineLine.IsOf (line : OutlineLine) (n : Node) : Prop where
  caption : (line.label, line.detail) ∈ n.captions
  position : line.position = n.origin.position

namespace Outline

/-! ## The lines of a tree -/

/-- Each line is one of a node of the tree. -/
def LinesOf (root : Node) (lines : List OutlineLine) : Prop :=
  ∀ line ∈ lines, ∃ n, root.Below n ∧ line.IsOf n

theorem linesOf_nil (root : Node) : LinesOf root [] :=
  List.forall_mem_nil _

theorem LinesOf.append {root : Node} {lines others : List OutlineLine} (h : LinesOf root lines)
    (h' : LinesOf root others) : LinesOf root (lines ++ others) :=
  List.forall_mem_append.mpr ⟨h, h'⟩

/-- The line of the root, before others. -/
theorem LinesOf.cons {root : Node} {label detail : String} {lines : List OutlineLine}
    (hcaption : (label, detail) ∈ root.captions) (depth : Nat) (h : LinesOf root lines) :
    LinesOf root (node depth label detail root.origin :: lines) :=
  List.forall_mem_cons.mpr ⟨⟨root, .refl, hcaption, rfl⟩, h⟩

/-- What is below a child is below its parent. -/
theorem LinesOf.child {root n : Node} {lines : List OutlineLine} (h : LinesOf n lines)
    (hchild : n ∈ root.children) : LinesOf root lines := by
  intro line hline
  obtain ⟨m, hbelow, hcaption⟩ := h line hline
  exact ⟨m, .head hchild hbelow, hcaption⟩

/-- The lines of some children, one after the other. -/
theorem linesOf_flatMap (child : α → Node) {root : Node} {part : α → List OutlineLine}
    {xs : List α} (hchild : ∀ x ∈ xs, child x ∈ root.children)
    (h : ∀ x ∈ xs, LinesOf (child x) (part x)) : LinesOf root (xs.flatMap part) :=
  List.forall_mem_flatMap.mpr fun x hx => (h x hx).child (hchild x hx)

/-- A call is named by its routine, and has the lines of the values of its arguments. -/
theorem linesOf_call {root : Node} {c : Call} (depth : Nat)
    (hcaption : ("Call", c.routine.name) ∈ root.captions) (horigin : root.origin = c.origin)
    (hchildren : root.children = Node.ofCall c)
    (h : ∀ a ∈ c.arguments, LinesOf (.expr a.value) (ofExpr (depth + 1) a.value)) :
    LinesOf root (ofCall depth c) := by
  rw [ofCall_eq, ← horigin]
  refine .cons hcaption depth (linesOf_flatMap .argument ?_ ?_)
  · intro a ha
    rw [hchildren]
    exact List.mem_cons_of_mem _ (List.mem_map_of_mem ha)
  · intro a ha
    exact (h a ha).child List.mem_cons_self

mutual

theorem linesOf_expr : ∀ (depth : Nat) (e : Expr), LinesOf (.expr e) (ofExpr depth e)
  | depth, .identifier _ => .cons List.mem_cons_self depth (linesOf_nil _)
  | depth, .integer _ => .cons List.mem_cons_self depth (linesOf_nil _)
  | depth, .string _ => .cons List.mem_cons_self depth (linesOf_nil _)
  | depth, .call ⟨routine, arguments, origin⟩ =>
    linesOf_call depth List.mem_cons_self rfl rfl (linesOf_arguments (depth + 1) arguments)
  | depth, .binary op left right origin => by
    have hleft := linesOf_expr (depth + 1) left
    have hright := linesOf_expr (depth + 1) right
    rw [ofExpr]
    exact .cons List.mem_cons_self depth
      ((hleft.child List.mem_cons_self).append (hright.child (.tail _ List.mem_cons_self)))
  | depth, .unary op operand origin => by
    rw [ofExpr]
    exact .cons List.mem_cons_self depth
      ((linesOf_expr (depth + 1) operand).child List.mem_cons_self)

theorem linesOf_arguments : ∀ (depth : Nat) (args : List Argument),
    ∀ a ∈ args, LinesOf (.expr a.value) (ofExpr depth a.value)
  | _, [] => List.forall_mem_nil _
  | depth, ⟨value, _, _, _, _⟩ :: others =>
    List.forall_mem_cons.mpr ⟨linesOf_expr depth value, linesOf_arguments depth others⟩

end

/-- The line of a block, and those of its statements. -/
theorem linesOf_block {root : Node} {b : Block} (depth : Nat)
    (hcaption : ("Block", "") ∈ root.captions) (horigin : root.origin = b.origin)
    (hchildren : root.children = b.statements.map .statement)
    (h : ∀ s ∈ b.statements, LinesOf (.statement s) (ofStatement (depth + 1) s)) :
    LinesOf root (ofBlock depth b) := by
  rw [ofBlock_eq, ← horigin]
  refine .cons hcaption depth (linesOf_flatMap .statement ?_ h)
  intro s hs
  rw [hchildren]
  exact List.mem_map_of_mem hs

mutual

theorem linesOf_statement :
    ∀ (depth : Nat) (s : Statement), LinesOf (.statement s) (ofStatement depth s)
  | depth, .assignment target value origin => by
    rw [ofStatement]
    exact .cons List.mem_cons_self depth
      ((linesOf_expr (depth + 1) value).child (.tail _ List.mem_cons_self))
  | depth, .call c =>
    linesOf_call depth List.mem_cons_self rfl rfl fun a _ => linesOf_expr (depth + 1) a.value
  | depth, .conditional branches otherwise origin => by
    rw [ofStatement, ofBranches_eq]
    refine .cons List.mem_cons_self depth (.append ?_ ?_)
    · refine linesOf_flatMap .branch ?_ (linesOf_branches (depth + 1) branches)
      exact fun b hb => List.mem_append_left _ (List.mem_map_of_mem hb)
    · rw [ofElse_eq]
      refine linesOf_flatMap .block ?_ fun b hb => ?_
      · exact fun b hb => List.mem_append_right _ (List.mem_map_of_mem hb)
      · exact .cons List.mem_cons_self (depth + 1) (linesOf_otherwise (depth + 2) otherwise b hb)
  | depth, .whileLoop branch origin => by
    rw [ofStatement]
    exact .cons List.mem_cons_self depth
      ((linesOf_branch (depth + 1) branch).child List.mem_cons_self)
  | depth, .forLoop counter first last direction body origin => by
    have hfirst := linesOf_expr (depth + 1) first
    have hlast := linesOf_expr (depth + 1) last
    have hbody := linesOf_body (depth + 1) body
    rw [ofStatement]
    exact .cons List.mem_cons_self depth
      (((hfirst.child (.tail _ List.mem_cons_self)).append
        (hlast.child (.tail _ (.tail _ List.mem_cons_self)))).append
        (hbody.child (.tail _ (.tail _ (.tail _ List.mem_cons_self)))))
  | depth, .block ⟨statements, origin⟩ =>
    linesOf_block depth List.mem_cons_self rfl rfl (linesOf_statements (depth + 1) statements)

theorem linesOf_body : ∀ (depth : Nat) (b : Block), LinesOf (.block b) (ofBlock depth b)
  | depth, ⟨statements, _⟩ =>
    linesOf_block depth (.tail _ List.mem_cons_self) rfl rfl
      (linesOf_statements (depth + 1) statements)

theorem linesOf_branch : ∀ (depth : Nat) (b : Branch), LinesOf (.branch b) (ofBranch depth b)
  | depth, ⟨condition, body, origin⟩ => by
    have hcondition := linesOf_expr (depth + 1) condition
    have hbody := linesOf_body (depth + 1) body
    rw [ofBranch]
    exact .cons List.mem_cons_self depth
      ((hcondition.child List.mem_cons_self).append (hbody.child (.tail _ List.mem_cons_self)))

theorem linesOf_otherwise : ∀ (depth : Nat) (otherwise : Option Block),
    ∀ b ∈ otherwise.toList, LinesOf (.block b) (ofBlock depth b)
  | _, none => List.forall_mem_nil _
  | depth, some b => List.forall_mem_singleton.mpr (linesOf_body depth b)

theorem linesOf_statements : ∀ (depth : Nat) (statements : List Statement),
    ∀ s ∈ statements, LinesOf (.statement s) (ofStatement depth s)
  | _, [] => List.forall_mem_nil _
  | depth, s :: others =>
    List.forall_mem_cons.mpr ⟨linesOf_statement depth s, linesOf_statements depth others⟩

theorem linesOf_branches : ∀ (depth : Nat) (branches : List Branch),
    ∀ b ∈ branches, LinesOf (.branch b) (ofBranch depth b)
  | _, [] => List.forall_mem_nil _
  | depth, b :: others =>
    List.forall_mem_cons.mpr ⟨linesOf_branch depth b, linesOf_branches depth others⟩

end

/-! ## The lines of a program -/

theorem linesOf_varDecl (depth : Nat) (d : VarDecl) : LinesOf (.varDecl d) (ofVarDecl depth d) := by
  have hinit : LinesOf (.varDecl d) (d.init.toList.flatMap (ofExpr (depth + 1))) := by
    refine linesOf_flatMap .expr ?_ fun e _ => linesOf_expr (depth + 1) e
    exact fun e he => .tail _ (.tail _ (List.mem_map_of_mem he))
  rw [ofVarDecl_eq]
  exact .cons List.mem_cons_self depth hinit

theorem linesOf_constDecl (depth : Nat) (d : ConstDecl) :
    LinesOf (.constDecl d) (ofConstDecl depth d) :=
  .cons List.mem_cons_self depth
    ((linesOf_expr (depth + 1) d.value).child (.tail _ List.mem_cons_self))

theorem linesOf_parameter (depth : Nat) (p : Parameter) :
    LinesOf (.parameter p) [ofParameter depth p] :=
  .cons List.mem_cons_self depth (linesOf_nil _)

theorem linesOf_routine (depth : Nat) (r : Routine) : LinesOf (.routine r) (ofRoutine depth r) := by
  have hheading : ∃ label detail, (label, detail) ∈ (Node.routine r).captions ∧
      ofHeading depth r = node depth label detail r.origin := by
    rw [ofHeading, Node.captions]
    cases r.kind with
    | function returnType => exact ⟨_, _, List.mem_cons_self, rfl⟩
    | procedure => exact ⟨_, _, List.mem_cons_self, rfl⟩
  obtain ⟨label, detail, hcaption, hheading⟩ := hheading
  rw [ofRoutine, hheading, List.map_eq_flatMap]
  refine .cons hcaption depth (.append (.append ?_ ?_) ?_)
  · refine linesOf_flatMap .parameter ?_ fun p _ => linesOf_parameter (depth + 1) p
    intro p hp
    simp [Node.children, hp]
  · refine linesOf_flatMap .varDecl ?_ fun d _ => linesOf_varDecl (depth + 1) d
    intro d hd
    simp [Node.children, hd]
  · refine (linesOf_body (depth + 1) r.body).child ?_
    simp [Node.children]

/-- A section has a line of its own, and those of its declarations. -/
theorem linesOf_section (whole : DeclSection α → Node) {decl : α → Node} {root : Node}
    {label : String} {ofDecl : α → List OutlineLine} {o : Option (DeclSection α)} (depth : Nat)
    (hcaption : ∀ s, (label, "") ∈ (whole s).captions) (horigin : ∀ s, (whole s).origin = s.origin)
    (hchildren : ∀ s, (whole s).children = s.decls.map decl)
    (hwhole : ∀ s ∈ o, whole s ∈ root.children) (h : ∀ d, LinesOf (decl d) (ofDecl d)) :
    LinesOf root (ofSection depth label ofDecl o) := by
  rw [ofSection_eq]
  refine linesOf_flatMap whole (fun s hs => hwhole s (Option.mem_toList.mp hs)) ?_
  intro s _
  have hdecls : LinesOf (whole s) (s.decls.flatMap ofDecl) := by
    refine linesOf_flatMap decl (fun d hd => ?_) fun d _ => h d
    rw [hchildren]
    exact List.mem_map_of_mem hd
  rw [← horigin]
  exact .cons (hcaption s) depth hdecls

/-- Each line of an outline is one of a node of the tree. -/
theorem linesOf_program (p : Program) : LinesOf (.program p) p.outline := by
  rw [Program.outline]
  refine .cons List.mem_cons_self 0 (.append (.append (.append ?_ ?_) ?_) ?_)
  · refine linesOf_section .varSection 1 (fun _ => List.mem_cons_self) (fun _ => rfl)
      (fun _ => rfl) ?_ (linesOf_varDecl 2)
    intro s hs
    simp [Node.children, Option.mem_def.mp hs]
  · refine linesOf_section .constSection 1 (fun _ => List.mem_cons_self) (fun _ => rfl)
      (fun _ => rfl) ?_ (linesOf_constDecl 2)
    intro s hs
    simp [Node.children, Option.mem_def.mp hs]
  · refine linesOf_flatMap .routine ?_ fun r _ => linesOf_routine 1 r
    intro r hr
    simp [Node.children, hr]
  · refine (linesOf_body 1 p.body).child ?_
    simp [Node.children]

/-! ## What captions are made of -/

/-- What may stand in a detail besides letters and digits. -/
def marks : List Char :=
  [' ', ':', '+', '-', '*', '/', '=', '<', '>']

/-- The text has nothing but letters, digits and marks. -/
def isMarked (text : String) : Bool :=
  text.toList.all fun c => c.isAlphanum || marks.contains c

end Outline

namespace Node

theorem label_of_caption {n : Node} : ∀ caption ∈ n.captions, caption.1 ∈ Outline.labels := by
  cases n with
  | routine r => cases hkind : r.kind <;> simp [captions, hkind, Outline.labels]
  | statement s => cases s <;> simp [captions, Outline.labels]
  | expr e => cases e <;> simp [captions, Outline.labels]
  | _ => simp [captions, Outline.labels]

section Details

variable {c : Char}

theorem not_mem_marked (hc : c.isAlphanum = false) (hmark : c ∉ Outline.marks) {text : String}
    (h : Outline.isMarked text = true) : c ∉ text.toList := by
  intro hmem
  have hmarked := List.all_eq_true.mp h c hmem
  rw [hc, Bool.false_or, List.contains_iff_mem] at hmarked
  exact hmark hmarked

/-- The detail of what is declared with a type. -/
theorem not_mem_typed (hc : c.isAlphanum = false) (hmark : c ∉ Outline.marks) {x y : Identifier}
    (hx : x.WellFormed) (hy : y.WellFormed) : c ∉ (x.name ++ ": " ++ y.name).toList := by
  have hname := hx.not_mem hc
  have htype := hy.not_mem hc
  have hcolon : c ∉ ": ".toList := not_mem_marked hc hmark (by decide)
  simp only [String.toList_append, List.mem_append, hname, htype, hcolon, or_self,
    not_false_eq_true]

theorem not_mem_expr (hc : c.isAlphanum = false) (hmark : c ∉ Outline.marks) {e : Expr}
    (h : e.Faithful) (hstring : ∀ literal, e = .string literal → c ∉ literal.origin.text.toList) :
    ∀ caption ∈ (expr e).captions, c ∉ caption.2.toList := by
  cases h with
  | identifier hx => exact List.forall_mem_singleton.mpr (hx.not_mem hc)
  | integer hl =>
    have hdigit : c.isDigit = false := by
      simp only [Char.isAlphanum, Bool.or_eq_false_iff] at hc
      exact hc.2
    rw [captions, List.forall_mem_singleton, hl.value]
    exact OutlineLine.not_mem_digits hdigit _
  | string _ => exact List.forall_mem_singleton.mpr (hstring _ rfl)
  | call hroutine _ _ => exact List.forall_mem_singleton.mpr (hroutine.not_mem hc)
  | @binary op _ _ _ _ _ =>
    have htext : Outline.isMarked op.text = true := by
      cases op <;> decide
    exact List.forall_mem_singleton.mpr (not_mem_marked hc hmark htext)
  | @unary op _ _ _ =>
    have htext : Outline.isMarked op.text = true := by
      cases op <;> decide
    exact List.forall_mem_singleton.mpr (not_mem_marked hc hmark htext)

theorem not_mem_statement (hc : c.isAlphanum = false) (hmark : c ∉ Outline.marks) {s : Statement}
    (h : s.Faithful) : ∀ caption ∈ (statement s).captions, c ∉ caption.2.toList := by
  have hempty : c ∉ "".toList := List.not_mem_nil
  cases h with
  | assignment htarget _ => exact List.forall_mem_singleton.mpr (htarget.not_mem hc)
  | call hcall =>
    cases hcall with
    | call hroutine _ _ => exact List.forall_mem_singleton.mpr (hroutine.not_mem hc)
  | conditional _ _ _ => exact List.forall_mem_singleton.mpr hempty
  | whileLoop _ _ => exact List.forall_mem_singleton.mpr hempty
  | @forLoop _ _ _ direction _ _ hcounter _ _ _ =>
    have hname := hcounter.not_mem hc
    have hspace : c ∉ " ".toList := not_mem_marked hc hmark (by decide)
    have hword : c ∉ direction.word.toList :=
      not_mem_marked hc hmark (by cases direction <;> decide)
    rw [captions, List.forall_mem_singleton]
    simp only [String.toList_append, List.mem_append, hname, hspace, hword, or_self,
      not_false_eq_true]
  | block _ => exact List.forall_mem_singleton.mpr hempty

theorem not_mem_routine (hc : c.isAlphanum = false) (hmark : c ∉ Outline.marks) {r : Routine}
    (h : r.Faithful) : ∀ caption ∈ (routine r).captions, c ∉ caption.2.toList := by
  have hkind := h.kind
  rw [captions]
  cases hr : r.kind with
  | function returnType =>
    rw [hr] at hkind
    exact List.forall_mem_singleton.mpr (not_mem_typed hc hmark h.name hkind)
  | procedure => exact List.forall_mem_singleton.mpr (h.name.not_mem hc)

/-- The details of a faithful node have only letters, digits and marks, apart from
the text of a string. -/
theorem Faithful.not_mem_caption {n : Node} (h : n.Faithful) (hc : c.isAlphanum = false)
    (hmark : c ∉ Outline.marks)
    (hstring : ∀ literal, n = .expr (.string literal) → c ∉ literal.origin.text.toList) :
    ∀ caption ∈ n.captions, c ∉ caption.2.toList := by
  have hempty : c ∉ "".toList := List.not_mem_nil
  cases n with
  | program p => exact List.forall_mem_singleton.mpr (h.name.not_mem hc)
  | varSection s => exact List.forall_mem_singleton.mpr hempty
  | constSection s => exact List.forall_mem_singleton.mpr hempty
  | varDecl d => exact List.forall_mem_singleton.mpr (not_mem_typed hc hmark h.name h.typeName)
  | constDecl d => exact List.forall_mem_singleton.mpr (h.name.not_mem hc)
  | routine r => exact not_mem_routine hc hmark h
  | parameter p =>
    have htyped := not_mem_typed hc hmark h.name h.typeName
    have hmode : c ∉ (if p.byReference then "var " else "").toList :=
      not_mem_marked hc hmark (by cases p.byReference <;> decide)
    rw [captions, List.forall_mem_singleton]
    simp only [String.toList_append, List.mem_append, not_or] at htyped ⊢
    exact ⟨⟨⟨hmode, htyped.1.1⟩, htyped.1.2⟩, htyped.2⟩
  | block b =>
    exact List.forall_mem_cons.mpr ⟨hempty, List.forall_mem_singleton.mpr hempty⟩
  | branch b => exact List.forall_mem_singleton.mpr hempty
  | statement s => exact not_mem_statement hc hmark h
  | expr e => exact not_mem_expr hc hmark h fun literal he => hstring literal (congrArg expr he)
  | argument a => exact List.forall_mem_nil _
  | identifier x => exact List.forall_mem_nil _

end Details

end Node
end PascalSyntax
