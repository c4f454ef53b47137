import PascalSyntax.Proofs.Listing.Lines
import PascalSyntax.Proofs.Program.Faithful

/-!
# Telling nodes by their lines

The lines of a node start at its depth, and all others of them are deeper.  So
they end where the next line is not deeper, and in this way the lines of an
expression, of a statement or of a list of them tell it from any other, whatever
follows (`Outline.Told`): a sign from a difference, a call from a name, and a
conditional with an `else` from one without.
-/

namespace PascalSyntax

/-! ## Names in a line -/

theorem Identifier.WellFormed.not_mem {x : Identifier} (h : x.WellFormed) {c : Char}
    (hc : c.isAlphanum = false) : c ∉ x.name.toList := by
  intro hmem
  have halpha : ∀ d ∈ x.name.toList, d.isAlphanum = true := by
    unfold Identifier.WellFormed at h
    generalize x.name.toList = text at h
    cases h with
    | identifier hd hds _ =>
      exact List.forall_mem_cons.mpr ⟨by simp [Char.isAlphanum, hd], hds⟩
  rw [halpha c hmem] at hc
  cases hc

/-- Names that are the same are the same identifier, apart from their origins. -/
theorem Identifier.erase_eq {x y : Identifier} (h : x.name = y.name) :
    x.mapOrigin (fun _ => .erased) = y.mapOrigin fun _ => .erased := by
  simp only [mapOrigin, h]

/-! ## Lists of lines -/

namespace Outline

@[simp] theorem node_inj {depth depth' : Nat} {label label' detail detail' : String}
    {origin origin' : Origin} :
    node depth label detail origin = node depth' label' detail' origin' ↔
      depth = depth' ∧ label = label' ∧ detail = detail' ∧ origin.position = origin'.position := by
  simp [node]

theorem ofArguments_eq (depth : Nat) (args : List Argument) :
    ofArguments depth args = args.flatMap fun a => ofExpr depth a.value := by
  induction args with
  | nil => rfl
  | cons a rest ih =>
    cases a
    rw [ofArguments, ih, List.flatMap_cons]

theorem ofStatements_eq (depth : Nat) (statements : List Statement) :
    ofStatements depth statements = statements.flatMap (ofStatement depth) := by
  induction statements with
  | nil => rfl
  | cons s rest ih => rw [ofStatements, ih, List.flatMap_cons]

theorem ofBranches_eq (depth : Nat) (branches : List Branch) :
    ofBranches depth branches = branches.flatMap (ofBranch depth) := by
  induction branches with
  | nil => rfl
  | cons b rest ih => rw [ofBranches, ih, List.flatMap_cons]

theorem ofCall_eq (depth : Nat) (c : Call) :
    ofCall depth c = node depth "Call" c.routine.name c.origin ::
      c.arguments.flatMap fun a => ofExpr (depth + 1) a.value := by
  cases c
  rw [ofCall, ofArguments_eq]

theorem ofBlock_eq (depth : Nat) (b : Block) :
    ofBlock depth b = node depth "Block" "" b.origin ::
      b.statements.flatMap (ofStatement (depth + 1)) := by
  cases b
  rw [ofBlock, ofStatements_eq]

theorem ofBranch_eq (depth : Nat) (b : Branch) :
    ofBranch depth b = node depth "Branch" "" b.origin ::
      (ofExpr (depth + 1) b.condition ++ ofBlock (depth + 1) b.body) := by
  cases b
  rw [ofBranch]

theorem ofElse_eq (depth : Nat) (otherwise : Option Block) :
    ofElse depth otherwise =
      otherwise.toList.flatMap fun b => node depth "Else" "" b.origin :: ofBlock (depth + 1) b := by
  rcases otherwise with _ | ⟨_, _⟩
  · rfl
  · rw [ofElse, Option.toList_some, List.flatMap_singleton, ofBlock]

theorem ofVarDecl_eq (depth : Nat) (d : VarDecl) :
    ofVarDecl depth d =
      node depth "VarDecl" (d.name.name ++ ": " ++ d.typeName.name) d.origin ::
        d.init.toList.flatMap (ofExpr (depth + 1)) := by
  rw [ofVarDecl]
  cases d.init <;> simp

theorem ofSection_eq (depth : Nat) (label : String) (ofDecl : α → List OutlineLine)
    (o : Option (DeclSection α)) :
    ofSection depth label ofDecl o =
      o.toList.flatMap fun s => node depth label "" s.origin :: s.decls.flatMap ofDecl := by
  cases o with
  | none => rfl
  | some s => rw [Option.toList_some, List.flatMap_singleton, ofSection]

/-- The lines start with one of the given depth whose label satisfies `P`. -/
def Opens (depth : Nat) (P : String → Prop) (lines : List OutlineLine) : Prop :=
  ∃ line rest, lines = line :: rest ∧ line.depth = depth ∧ P line.label

/-- The lines do not go on below the given depth. -/
def Ends (depth : Nat) (lines : List OutlineLine) : Prop :=
  ∀ line ∈ lines.head?, line.depth ≤ depth

/-- At the given depth the lines do not go on with a label that satisfies `P`. -/
def Closes (depth : Nat) (P : String → Prop) (lines : List OutlineLine) : Prop :=
  ∀ line ∈ lines.head?, line.depth < depth ∨ line.depth = depth ∧ ¬ P line.label

variable {depth : Nat} {P Q : String → Prop} {lines rest : List OutlineLine}

theorem opens_node {label : String} (hlabel : P label) (detail : String) (origin : Origin)
    (rest : List OutlineLine) : Opens depth P (node depth label detail origin :: rest) :=
  ⟨_, _, rfl, rfl, hlabel⟩

theorem opens_label (label detail : String) (origin : Origin) (rest : List OutlineLine) :
    Opens depth (· = label) (node depth label detail origin :: rest) :=
  ⟨_, _, rfl, rfl, rfl⟩

theorem Opens.append (h : Opens depth P lines) (rest : List OutlineLine) :
    Opens depth P (lines ++ rest) := by
  obtain ⟨line, others, rfl, hline⟩ := h
  exact ⟨line, others ++ rest, rfl, hline⟩

theorem Opens.ends (h : Opens depth P lines) : Ends depth lines := by
  obtain ⟨line, others, rfl, hdepth, -⟩ := h
  rintro _ ⟨⟩
  exact hdepth.le

theorem Opens.closes (h : Opens depth P lines) (hpq : ∀ label, P label → ¬ Q label) :
    Closes depth Q lines := by
  obtain ⟨line, others, rfl, hdepth, hlabel⟩ := h
  rintro _ ⟨⟩
  exact .inr ⟨hdepth, hpq _ hlabel⟩

/-- What stands after some parts starts as they do, or as what follows them. -/
theorem Opens.flatMap {part : α → List OutlineLine} (hrest : Opens depth Q rest)
    (hpart : ∀ x, Opens depth P (part x)) (xs : List α) :
    Opens depth (fun label => P label ∨ Q label) (xs.flatMap part ++ rest) := by
  cases xs with
  | nil =>
    obtain ⟨line, others, he, hdepth, hlabel⟩ := hrest
    exact ⟨line, others, he, hdepth, .inr hlabel⟩
  | cons x xs =>
    obtain ⟨line, others, he, hdepth, hlabel⟩ := ((hpart x).append (xs.flatMap part)).append rest
    exact ⟨line, others, he, hdepth, .inl hlabel⟩

theorem Ends.closes (h : Ends depth rest) : Closes (depth + 1) P rest :=
  fun line hline => .inl (Nat.lt_succ_of_le (h line hline))

theorem Closes.ends (h : Closes depth P rest) : Ends depth rest := by
  intro line hline
  rcases h line hline with h | h
  · exact h.le
  · exact h.1.le

theorem Ends.succ (h : Ends depth rest) : Ends (depth + 1) rest :=
  fun line hline => Nat.le_succ_of_le (h line hline)

/-- Lines that go on in the given way do not close it. -/
theorem Closes.not_opens (h : Closes depth P lines) : ¬ Opens depth P lines := by
  intro hopens
  obtain ⟨line, others, rfl, hdepth, hlabel⟩ := hopens
  rcases h line rfl with h | h
  · omega
  · exact h.2 hlabel

/-! ## Parts told from one another -/

/-- The lines of `x`, whatever follows them, are those of `y` only if both are the
same apart from their origins. -/
def Told (lines : α → List OutlineLine) (erase : α → β) (depth : Nat) (x y : α) : Prop :=
  ∀ rest rest', Ends depth rest → Ends depth rest' → lines x ++ rest = lines y ++ rest' →
    erase x = erase y ∧ rest = rest'

theorem Told.symm {lines : α → List OutlineLine} {erase : α → β} {x y : α}
    (h : Told lines erase depth x y) : Told lines erase depth y x := by
  intro rest rest' hrest hrest' he
  obtain ⟨herase, he⟩ := h rest' rest hrest' hrest he.symm
  exact ⟨herase.symm, he.symm⟩

/-- Parts of different kinds are told by their first lines. -/
theorem told_of_ne {lines : α → List OutlineLine} {erase : α → β} {x y : α}
    (h : ∀ rest rest', lines x ++ rest ≠ lines y ++ rest') : Told lines erase depth x y :=
  fun rest rest' _ _ he => absurd he (h rest rest')

/-- Parts one after another are told from other ones if each of them is, and if
what follows them cannot be one more. -/
theorem told_flatMap {lines : α → List OutlineLine} {erase : α → β}
    (hopens : ∀ x, Opens depth P (lines x)) {xs ys : List α}
    (htold : ∀ x ∈ xs, ∀ y ∈ ys, Told lines erase depth x y) {rest rest' : List OutlineLine}
    (hrest : Closes depth P rest) (hrest' : Closes depth P rest')
    (h : xs.flatMap lines ++ rest = ys.flatMap lines ++ rest') :
    xs.map erase = ys.map erase ∧ rest = rest' := by
  have hends (zs : List α) {more : List OutlineLine} (hmore : Closes depth P more) :
      Ends depth (zs.flatMap lines ++ more) := by
    cases zs with
    | nil => exact hmore.ends
    | cons z zs => exact (((hopens z).append _).append _).ends
  induction xs generalizing ys with
  | nil =>
    cases ys with
    | nil => exact ⟨rfl, h⟩
    | cons y ys =>
      refine absurd ?_ hrest.not_opens
      rw [List.flatMap_nil, List.nil_append] at h
      rw [h]
      exact ((hopens y).append _).append _
  | cons x xs ih =>
    cases ys with
    | nil =>
      refine absurd ?_ hrest'.not_opens
      rw [List.flatMap_nil, List.nil_append] at h
      rw [← h]
      exact ((hopens x).append _).append _
    | cons y ys =>
      rw [List.flatMap_cons, List.flatMap_cons, List.append_assoc, List.append_assoc] at h
      obtain ⟨hx, h⟩ := htold x List.mem_cons_self y List.mem_cons_self _ _ (hends xs hrest)
        (hends ys hrest') h
      obtain ⟨hxs, hrest⟩ := ih (fun x hx y hy => htold x (List.mem_cons_of_mem _ hx) y
        (List.mem_cons_of_mem _ hy)) h
      exact ⟨by rw [List.map_cons, List.map_cons, hx, hxs], hrest⟩

/-- The same for one part that may be missing. -/
theorem told_option {lines : α → List OutlineLine} {erase : α → β}
    (hopens : ∀ x, Opens depth P (lines x)) {o o' : Option α}
    (htold : ∀ x ∈ o, ∀ y ∈ o', Told lines erase depth x y) {rest rest' : List OutlineLine}
    (hrest : Closes depth P rest) (hrest' : Closes depth P rest')
    (h : o.toList.flatMap lines ++ rest = o'.toList.flatMap lines ++ rest') :
    o.map erase = o'.map erase ∧ rest = rest' := by
  obtain ⟨hparts, hrest⟩ := told_flatMap hopens
    (fun x hx y hy => htold x (Option.mem_toList.mp hx) y (Option.mem_toList.mp hy)) hrest hrest' h
  rw [← Option.toList_map, ← Option.toList_map] at hparts
  have hpart := congrArg List.head? hparts
  rw [Option.head?_toList, Option.head?_toList] at hpart
  exact ⟨hpart, hrest⟩

/-! ## Expressions -/

theorem opens_ofExpr (depth : Nat) (e : Expr) : Opens depth (fun _ => True) (ofExpr depth e) := by
  cases e with
  | call c =>
    rw [ofExpr, ofCall_eq]
    exact opens_node trivial ..
  | _ => exact opens_node trivial ..

end Outline

theorem BinaryOperator.text_injective {op op' : BinaryOperator} (h : op.text = op'.text) :
    op = op' := by
  cases op <;> cases op' <;> simp [text] at h ⊢

theorem UnaryOperator.text_injective {op op' : UnaryOperator} (h : op.text = op'.text) :
    op = op' := by
  cases op <;> cases op' <;> simp [text] at h ⊢

theorem Direction.word_injective {d d' : Direction} (h : d.word = d'.word) : d = d' := by
  cases d <;> cases d' <;> simp [word] at h ⊢

/-- The name of a counter ends at the first space. -/
theorem counted_injective {x y : Identifier} (hx : x.WellFormed) (hy : y.WellFormed)
    {d d' : Direction} (h : x.name ++ " " ++ d.word = y.name ++ " " ++ d'.word) :
    x.name = y.name ∧ d = d' := by
  have hchars := congrArg String.toList h
  simp only [String.toList_append, List.append_assoc] at hchars
  obtain ⟨hname, hword⟩ := cut_at (hx.not_mem rfl) (hy.not_mem rfl) hchars
  exact ⟨String.toList_injective hname, Direction.word_injective (String.toList_injective hword)⟩

theorem Statement.erase_conditional {branches branches' : List Branch}
    {otherwise otherwise' : Option Block} {origin origin' : Origin}
    (hbranches : branches.map Branch.erase = branches'.map Branch.erase)
    (hotherwise : otherwise.map Block.erase = otherwise'.map Block.erase) :
    (conditional branches otherwise origin).erase =
      (conditional branches' otherwise' origin').erase := by
  simp only [erase, mapOrigin, Branch.mapOrigins_eq_map, Block.mapOrigin?_eq_map]
  exact congrArg₂ (conditional · · .erased) hbranches hotherwise

/-- A number that is not negative is known by its digits. -/
theorem IntegerLiteral.Faithful.value_eq {literal literal' : IntegerLiteral}
    (h : literal.Faithful) (h' : literal'.Faithful)
    (he : toString literal.value = toString literal'.value) : literal.value = literal'.value := by
  rw [h.value, h'.value] at he ⊢
  exact congrArg Nat.cast (repr_injective (congrArg String.toList he))

theorem StringLiteral.Faithful.value_eq {literal literal' : StringLiteral} (h : literal.Faithful)
    (h' : literal'.Faithful) (he : literal.origin.text = literal'.origin.text) :
    literal.value = literal'.value := by
  have htext := h.text
  rw [he, h'.text] at htext
  exact String.toList_injective (List.append_cancel_right (List.cons.inj htext).2).symm

namespace Outline

/-- An unbound argument is told by its value. -/
theorem told_argument {a a' : Argument} (ha : a.Unbound) (ha' : a'.Unbound) {depth : Nat}
    (h : Told (ofExpr depth) Expr.erase depth a.value a'.value) :
    Told (fun a => ofExpr depth a.value) (fun a => a.mapOrigin fun _ => .erased) depth a a' := by
  intro rest rest' hrest hrest' he
  obtain ⟨hvalue, he⟩ := h rest rest' hrest hrest' he
  exact ⟨(Expr.ofValue_mapOrigin ha rfl).symm.trans (Expr.ofValue_mapOrigin ha' hvalue), he⟩

theorem call_erase_eq {c c' : Call} (hroutine : c.routine.name = c'.routine.name)
    (harguments : c.arguments.map (fun a => a.mapOrigin fun _ => .erased) =
      c'.arguments.map fun a => a.mapOrigin fun _ => .erased) :
    c.mapOrigin (fun _ => .erased) = c'.mapOrigin fun _ => .erased := by
  cases c
  cases c'
  simp only [Call.mapOrigin, Argument.mapOrigins_eq_map, Identifier.erase_eq hroutine, harguments]

theorem told_call {c c' : Call} {depth : Nat}
    (h : ∀ a ∈ c.arguments, ∀ a' ∈ c'.arguments,
      Told (fun a : Argument => ofExpr (depth + 1) a.value) (fun a => a.mapOrigin fun _ => .erased)
        (depth + 1) a a') :
    Told (ofExpr depth) Expr.erase depth (.call c) (.call c') := by
  intro rest rest' hrest hrest' he
  simp only [ofExpr, ofCall_eq, List.cons_append, List.cons.injEq, node_inj] at he
  obtain ⟨⟨-, -, hname, -⟩, he⟩ := he
  obtain ⟨harguments, he⟩ := told_flatMap (fun a : Argument => opens_ofExpr (depth + 1) a.value)
    h hrest.closes hrest'.closes he
  exact ⟨congrArg Expr.call (call_erase_eq hname harguments), he⟩

section Operands

variable {depth : Nat} {op op' : BinaryOperator} {sign sign' : UnaryOperator}
  {left left' right right' operand operand' : Expr} {origin origin' : Origin}

theorem told_binary (hleft : Told (ofExpr (depth + 1)) Expr.erase (depth + 1) left left')
    (hright : Told (ofExpr (depth + 1)) Expr.erase (depth + 1) right right') :
    Told (ofExpr depth) Expr.erase depth (.binary op left right origin)
      (.binary op' left' right' origin') := by
  intro rest rest' hrest hrest' he
  simp only [ofExpr, List.cons_append, List.append_assoc, List.cons.injEq, node_inj] at he
  obtain ⟨⟨-, -, htext, -⟩, he⟩ := he
  obtain ⟨hleft, he⟩ := hleft _ _ ((opens_ofExpr (depth + 1) right).append rest).ends
    ((opens_ofExpr (depth + 1) right').append rest').ends he
  obtain ⟨hright, he⟩ := hright _ _ hrest.succ hrest'.succ he
  refine ⟨?_, he⟩
  simp only [Expr.erase] at hleft hright
  simp only [Expr.erase, Expr.mapOrigin, hleft, hright, BinaryOperator.text_injective htext]

theorem told_unary (h : Told (ofExpr (depth + 1)) Expr.erase (depth + 1) operand operand') :
    Told (ofExpr depth) Expr.erase depth (.unary sign operand origin)
      (.unary sign' operand' origin') := by
  intro rest rest' hrest hrest' he
  simp only [ofExpr, List.cons_append, List.cons.injEq, node_inj] at he
  obtain ⟨⟨-, -, htext, -⟩, he⟩ := he
  obtain ⟨hoperand, he⟩ := h _ _ hrest.succ hrest'.succ he
  refine ⟨?_, he⟩
  simp only [Expr.erase] at hoperand
  simp only [Expr.erase, Expr.mapOrigin, hoperand, UnaryOperator.text_injective htext]

/-- An operator has two operands just if two expressions follow it one level deeper. -/
theorem told_binary_unary
    (h : Told (ofExpr (depth + 1)) Expr.erase (depth + 1) left operand) :
    Told (ofExpr depth) Expr.erase depth (.binary op left right origin)
      (.unary sign operand origin') := by
  intro rest rest' _ hrest' he
  have hright := (opens_ofExpr (depth + 1) right).append rest
  simp only [ofExpr, List.cons_append, List.append_assoc, List.cons.injEq, node_inj] at he
  obtain ⟨-, he⟩ := h _ _ hright.ends hrest'.succ he.2
  exact absurd (he ▸ hright) hrest'.closes.not_opens

end Operands

/-- The lines of an expression tell it, apart from its origins. -/
theorem told_expr {e : Expr} (h : e.Faithful) {e' : Expr} (h' : e'.Faithful)
    (depth : Nat) : Told (ofExpr depth) Expr.erase depth e e' := by
  induction h generalizing depth e' with
  | identifier hx =>
    cases h' with
    | identifier hx' =>
      intro rest rest' _ _ he
      simp only [ofExpr, List.singleton_append, List.cons.injEq, node_inj] at he
      obtain ⟨⟨-, -, hname, -⟩, he⟩ := he
      exact ⟨congrArg Expr.identifier (Identifier.erase_eq hname), he⟩
    | _ => exact told_of_ne (by simp [ofExpr, ofCall_eq])
  | integer hl =>
    cases h' with
    | integer hl' =>
      intro rest rest' _ _ he
      simp only [ofExpr, List.singleton_append, List.cons.injEq, node_inj] at he
      obtain ⟨⟨-, -, hdetail, -⟩, he⟩ := he
      exact ⟨by simp only [Expr.erase, Expr.mapOrigin, hl.value_eq hl' hdetail], he⟩
    | _ => exact told_of_ne (by simp [ofExpr, ofCall_eq])
  | string hl =>
    cases h' with
    | string hl' =>
      intro rest rest' _ _ he
      simp only [ofExpr, List.singleton_append, List.cons.injEq, node_inj] at he
      obtain ⟨⟨-, -, hdetail, -⟩, he⟩ := he
      exact ⟨by simp only [Expr.erase, Expr.mapOrigin, hl.value_eq hl' hdetail], he⟩
    | _ => exact told_of_ne (by simp [ofExpr, ofCall_eq])
  | call _ hunbound _ ih =>
    cases h' with
    | call _ hunbound' hvalues' =>
      exact told_call fun a ha a' ha' => told_argument (hunbound a ha) (hunbound' a' ha')
        (ih a ha (hvalues' a' ha') (depth + 1))
    | _ => exact told_of_ne (by simp [ofExpr, ofCall_eq])
  | binary _ _ ihl ihr =>
    cases h' with
    | binary hl' hr' => exact told_binary (ihl hl' (depth + 1)) (ihr hr' (depth + 1))
    | unary ho' => exact told_binary_unary (ihl ho' (depth + 1))
    | _ => exact told_of_ne (by simp [ofExpr, ofCall_eq])
  | unary _ ih =>
    cases h' with
    | unary ho' => exact told_unary (ih ho' (depth + 1))
    | binary hl' _ => exact (told_binary_unary (ih hl' (depth + 1)).symm).symm
    | _ => exact told_of_ne (by simp [ofExpr, ofCall_eq])

/-! ## Statements -/

theorem opens_ofBlock (depth : Nat) (b : Block) :
    Opens depth (· = "Block") (ofBlock depth b) := by
  rw [ofBlock_eq]
  exact opens_label ..

theorem opens_ofBranch (depth : Nat) (b : Branch) :
    Opens depth (· = "Branch") (ofBranch depth b) := by
  rw [ofBranch_eq]
  exact opens_label ..

theorem opens_ofStatement (depth : Nat) (s : Statement) :
    Opens depth (fun _ => True) (ofStatement depth s) := by
  cases s with
  | call c =>
    rw [ofStatement, ofCall_eq]
    exact opens_node trivial ..
  | block b =>
    rw [ofStatement, ofBlock_eq]
    exact opens_node trivial ..
  | _ =>
    rw [ofStatement]
    exact opens_node trivial ..

/-- After the branches of a conditional no line of their depth starts one more. -/
theorem closes_ofElse {depth : Nat} {rest : List OutlineLine} (h : Ends depth rest)
    (otherwise : Option Block) :
    Closes (depth + 1) (· = "Branch") (ofElse (depth + 1) otherwise ++ rest) := by
  cases otherwise with
  | none => exact h.closes
  | some b =>
    rw [ofElse_eq, Option.toList_some, List.flatMap_singleton]
    exact ((opens_label ..).append rest).closes (by simp)

/-- A block is told by its lines if its statements are. -/
theorem told_block {b b' : Block} {depth : Nat}
    (h : ∀ s ∈ b.statements, ∀ s' ∈ b'.statements,
      Told (ofStatement (depth + 1)) Statement.erase (depth + 1) s s') :
    Told (ofBlock depth) Block.erase depth b b' := by
  intro rest rest' hrest hrest' he
  simp only [ofBlock_eq, List.cons_append, List.cons.injEq] at he
  obtain ⟨hstatements, he⟩ := told_flatMap (opens_ofStatement (depth + 1)) h hrest.closes
    hrest'.closes he.2
  refine ⟨?_, he⟩
  cases b
  cases b'
  exact Block.erase_mk hstatements

theorem told_branch {b b' : Branch} {depth : Nat}
    (hcondition : Told (ofExpr (depth + 1)) Expr.erase (depth + 1) b.condition b'.condition)
    (hbody : Told (ofBlock (depth + 1)) Block.erase (depth + 1) b.body b'.body) :
    Told (ofBranch depth) Branch.erase depth b b' := by
  intro rest rest' hrest hrest' he
  simp only [ofBranch_eq, List.cons_append, List.append_assoc, List.cons.injEq] at he
  have hends (b : Block) (rest : List OutlineLine) :
      Ends (depth + 1) (ofBlock (depth + 1) b ++ rest) :=
    ((opens_ofBlock _ b).append rest).ends
  obtain ⟨hcondition, he⟩ := hcondition _ _ (hends _ _) (hends _ _) he.2
  obtain ⟨hbody, he⟩ := hbody _ _ hrest.succ hrest'.succ he
  refine ⟨?_, he⟩
  cases b
  exact Branch.erase_mk hcondition hbody

/-- A block under the line of an `else` is told as it is without that line. -/
theorem told_else {b b' : Block} {depth : Nat}
    (h : Told (ofBlock (depth + 1)) Block.erase (depth + 1) b b') :
    Told (fun b => node depth "Else" "" b.origin :: ofBlock (depth + 1) b) Block.erase depth b
      b' := by
  intro rest rest' hrest hrest' he
  simp only [List.cons_append, List.cons.injEq] at he
  exact h rest rest' hrest.succ hrest'.succ he.2

section Statements

variable {depth : Nat} {origin origin' : Origin}

theorem told_assignment {target target' : Identifier} {value value' : Expr}
    (h : Told (ofExpr (depth + 1)) Expr.erase (depth + 1) value value') :
    Told (ofStatement depth) Statement.erase depth (.assignment target value origin)
      (.assignment target' value' origin') := by
  intro rest rest' hrest hrest' he
  simp only [ofStatement, List.cons_append, List.cons.injEq, node_inj] at he
  obtain ⟨⟨-, -, hname, -⟩, he⟩ := he
  obtain ⟨hvalue, he⟩ := h _ _ hrest.succ hrest'.succ he
  refine ⟨?_, he⟩
  simp only [Expr.erase] at hvalue
  simp only [Statement.erase, Statement.mapOrigin, hvalue, Identifier.erase_eq hname]

/-- A call has the same lines as a statement and as an expression. -/
theorem told_callStatement {c c' : Call}
    (h : Told (ofExpr depth) Expr.erase depth (.call c) (.call c')) :
    Told (ofStatement depth) Statement.erase depth (.call c) (.call c') := by
  intro rest rest' hrest hrest' he
  obtain ⟨hcall, he⟩ := h rest rest' hrest hrest' he
  refine ⟨?_, he⟩
  simp only [Expr.erase, Expr.mapOrigin, Expr.call.injEq] at hcall
  simp only [Statement.erase, Statement.mapOrigin, hcall]

theorem told_conditional {branches branches' : List Branch} {otherwise otherwise' : Option Block}
    (hbranches : ∀ b ∈ branches, ∀ b' ∈ branches',
      Told (ofBranch (depth + 1)) Branch.erase (depth + 1) b b')
    (hotherwise : ∀ b ∈ otherwise, ∀ b' ∈ otherwise',
      Told (ofBlock (depth + 2)) Block.erase (depth + 2) b b') :
    Told (ofStatement depth) Statement.erase depth (.conditional branches otherwise origin)
      (.conditional branches' otherwise' origin') := by
  intro rest rest' hrest hrest' he
  simp only [ofStatement, ofBranches_eq, List.cons_append, List.append_assoc,
    List.cons.injEq] at he
  obtain ⟨hbranches, he⟩ := told_flatMap (opens_ofBranch (depth + 1)) hbranches
    (closes_ofElse hrest _) (closes_ofElse hrest' _) he.2
  rw [ofElse_eq, ofElse_eq] at he
  obtain ⟨hotherwise, he⟩ := told_option (fun _ => opens_label ..)
    (fun b hb b' hb' => told_else (hotherwise b hb b' hb')) hrest.closes hrest'.closes he
  exact ⟨Statement.erase_conditional hbranches hotherwise, he⟩

theorem told_whileLoop {b b' : Branch}
    (h : Told (ofBranch (depth + 1)) Branch.erase (depth + 1) b b') :
    Told (ofStatement depth) Statement.erase depth (.whileLoop b origin)
      (.whileLoop b' origin') := by
  intro rest rest' hrest hrest' he
  simp only [ofStatement, List.cons_append, List.cons.injEq] at he
  obtain ⟨hbranch, he⟩ := h _ _ hrest.succ hrest'.succ he.2
  refine ⟨?_, he⟩
  simp only [Branch.erase] at hbranch
  simp only [Statement.erase, Statement.mapOrigin, hbranch]

theorem told_forLoop {counter counter' : Identifier} (hcounter : counter.WellFormed)
    (hcounter' : counter'.WellFormed) {first first' last last' : Expr}
    {direction direction' : Direction} {body body' : Block}
    (hfirst : Told (ofExpr (depth + 1)) Expr.erase (depth + 1) first first')
    (hlast : Told (ofExpr (depth + 1)) Expr.erase (depth + 1) last last')
    (hbody : Told (ofBlock (depth + 1)) Block.erase (depth + 1) body body') :
    Told (ofStatement depth) Statement.erase depth
      (.forLoop counter first last direction body origin)
      (.forLoop counter' first' last' direction' body' origin') := by
  intro rest rest' hrest hrest' he
  simp only [ofStatement, List.cons_append, List.append_assoc, List.cons.injEq, node_inj] at he
  obtain ⟨⟨-, -, hdetail, -⟩, he⟩ := he
  obtain ⟨hname, hdirection⟩ := counted_injective hcounter hcounter' hdetail
  have hends (e : Expr) (b : Block) (more : List OutlineLine) :
      Ends (depth + 1) (ofExpr (depth + 1) e ++ (ofBlock (depth + 1) b ++ more)) :=
    ((opens_ofExpr _ e).append _).ends
  have hblock (b : Block) (more : List OutlineLine) :
      Ends (depth + 1) (ofBlock (depth + 1) b ++ more) :=
    ((opens_ofBlock _ b).append more).ends
  obtain ⟨hfirst, he⟩ := hfirst _ _ (hends _ _ _) (hends _ _ _) he
  obtain ⟨hlast, he⟩ := hlast _ _ (hblock _ _) (hblock _ _) he
  obtain ⟨hbody, he⟩ := hbody _ _ hrest.succ hrest'.succ he
  refine ⟨?_, he⟩
  simp only [Expr.erase] at hfirst hlast
  simp only [Block.erase] at hbody
  simp only [Statement.erase, Statement.mapOrigin, hfirst, hlast, hbody, hdirection,
    Identifier.erase_eq hname]

theorem told_blockStatement {b b' : Block} (h : Told (ofBlock depth) Block.erase depth b b') :
    Told (ofStatement depth) Statement.erase depth (.block b) (.block b') := by
  intro rest rest' hrest hrest' he
  obtain ⟨hblock, he⟩ := h rest rest' hrest hrest' he
  exact ⟨congrArg Statement.block hblock, he⟩

end Statements

/-- The lines of a statement tell it, apart from its origins. -/
theorem told_statement {s : Statement} (h : s.Faithful) {s' : Statement}
    (h' : s'.Faithful) (depth : Nat) : Told (ofStatement depth) Statement.erase depth s s' := by
  induction h generalizing depth s' with
  | assignment _ hvalue =>
    cases h' with
    | assignment _ hvalue' => exact told_assignment (told_expr hvalue hvalue' (depth + 1))
    | _ => exact told_of_ne (by simp [ofStatement, ofCall_eq, ofBlock_eq])
  | call hcall =>
    cases h' with
    | call hcall' => exact told_callStatement (told_expr hcall hcall' depth)
    | _ => exact told_of_ne (by simp [ofStatement, ofCall_eq, ofBlock_eq])
  | conditional hconditions _ _ ihbodies ihotherwise =>
    cases h' with
    | conditional hconditions' hbodies' hotherwise' =>
      refine told_conditional (fun b hb b' hb' => ?_) fun b hb b' hb' => ?_
      · exact told_branch (told_expr (hconditions b hb) (hconditions' b' hb') (depth + 2))
          (told_block fun s hs s' hs' => ihbodies b hb s hs (hbodies' b' hb' s' hs') (depth + 3))
      · exact told_block fun s hs s' hs' =>
          ihotherwise b hb s hs (hotherwise' b' hb' s' hs') (depth + 3)
    | _ => exact told_of_ne (by simp [ofStatement, ofCall_eq, ofBlock_eq])
  | whileLoop hcondition _ ih =>
    cases h' with
    | whileLoop hcondition' hbody' =>
      exact told_whileLoop (told_branch (told_expr hcondition hcondition' (depth + 2))
        (told_block fun s hs s' hs' => ih s hs (hbody' s' hs') (depth + 3)))
    | _ => exact told_of_ne (by simp [ofStatement, ofCall_eq, ofBlock_eq])
  | forLoop hcounter hfirst hlast _ ih =>
    cases h' with
    | forLoop hcounter' hfirst' hlast' hbody' =>
      exact told_forLoop hcounter hcounter' (told_expr hfirst hfirst' (depth + 1))
        (told_expr hlast hlast' (depth + 1))
        (told_block fun s hs s' hs' => ih s hs (hbody' s' hs') (depth + 2))
    | _ => exact told_of_ne (by simp [ofStatement, ofCall_eq, ofBlock_eq])
  | block _ ih =>
    cases h' with
    | block hb' =>
      exact told_blockStatement
        (told_block fun s hs s' hs' => ih s hs (hb' s' hs') (depth + 1))
    | _ => exact told_of_ne (by simp [ofStatement, ofCall_eq, ofBlock_eq])

end Outline
end PascalSyntax
