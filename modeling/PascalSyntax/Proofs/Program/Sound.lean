import PascalSyntax.Proofs.Program.NearestElse
import PascalSyntax.Proofs.Program.Nodes

/-!
# Sound trees

Every tree that is read is sound: at each of its nodes what the node says agrees
with its origin and with its parts, and its origin is one of the tokens
(`Program.parse_sound`).  This holds of any tokens, and needs nothing of their
positions and texts.

Each kind of node is looked at once, with the spelling that it was read from.
-/

namespace PascalSyntax

/-! ## Texts of operators -/

theorem Terminal.text_of_symbol_admits {text : String} {t : Token}
    (h : (symbol text).admits t = true) : t.text = text :=
  congrArg Prod.snd (symbol_admits_iff.mp h)

theorem BinaryOperator.text_of_admits {op : BinaryOperator} {t : Token}
    (h : op.terminal.admits t = true) : t.text = op.text := by
  unfold terminal at h
  split at h
  · exact Terminal.text_of_word_admits h
  · exact Terminal.text_of_symbol_admits h

theorem UnaryOperator.text_of_admits {op : UnaryOperator} {t : Token}
    (h : op.terminal.admits t = true) : t.text = op.text := by
  unfold terminal at h
  split at h
  · exact Terminal.text_of_word_admits h
  · exact Terminal.text_of_symbol_admits h

/-! ## Expressions and statements -/

theorem Expr.Spelling.sound {levels k : Nat} {e : Expr} {ts : List Token}
    (h : Expr.Spelling levels k e ts) : (Node.expr e).Sound := by
  induction h with
  | identifier _ => exact rfl
  | integer _ _ => exact trivial
  | string _ => exact trivial
  | emptyCall _ _ _ => exact rfl
  | call _ _ _ _ _ _ => exact rfl
  | parenthesized _ _ _ ih => exact ih
  | @unary _ _ op _ _ _ ht _ _ =>
    refine ⟨?_, UnaryOperator.text_of_admits ht⟩
    cases op <;> decide
  | @binary _ _ op _ _ _ _ _ _ _ ht _ _ _ =>
    refine ⟨?_, BinaryOperator.text_of_admits ht⟩
    cases op <;> decide

theorem Expr.Spelling.origin_mem {levels k : Nat} {e : Expr} {ts : List Token}
    (h : Expr.Spelling levels k e ts) : e.origin ∈ ts.map Token.origin := by
  induction h with
  | parenthesized _ _ _ ih =>
    rw [List.map_cons, List.map_append]
    exact List.mem_cons_of_mem _ (List.mem_append_left _ ih)
  | binary _ _ _ _ _ _ =>
    rw [List.map_append, List.map_cons]
    exact List.mem_append_right _ List.mem_cons_self
  | _ => exact List.mem_cons_self

theorem Statement.Spelling.sound {levels : Nat} {isOpen : Bool} {s : Statement}
    {ts : List Token} (h : Statement.Spelling levels isOpen s ts) : (Node.statement s).Sound := by
  cases h with
  | block ho _ _ _ _ => exact Terminal.text_of_word_admits ho
  | forLoop _ _ _ _ _ _ _ _ => exact trivial
  | _ => exact rfl

/-- A body has its `begin` or is wrapped around a statement that is no block. -/
theorem Statement.Spelling.sound_body {levels : Nat} {isOpen : Bool} {s : Statement}
    {ts : List Token} (h : Statement.Spelling levels isOpen s ts) :
    (Node.block (.ofStatement s)).Sound := by
  cases s with
  | block b => exact .inl h.sound
  | _ => exact .inr ⟨_, ⟨rfl, rfl⟩, nofun⟩

theorem Block.origin_ofStatement (s : Statement) : (ofStatement s).origin = s.origin := by
  cases s <;> rfl

/-! ## Declarations -/

theorem Identifier.origin_mem_of_separated {names : List Identifier} {ts : List Token}
    (h : Separated (.symbol ",") Identifier.Spelling names ts) :
    ∀ x ∈ names, x.origin ∈ ts.map Token.origin := by
  refine h.within.forall_mem ?_
  intro x us hx
  obtain ⟨hsub, hx⟩ := hx
  cases hx with
  | mk _ => exact List.mem_map_of_mem (hsub List.mem_cons_self)

theorem VarDecl.Group.sound {levels : Nat} {group : List VarDecl} {ts : List Token}
    (h : VarDecl.Group levels group ts) : ∀ d ∈ group, (Node.varDecl d).Sound := by
  cases h with
  | plain _ _ _ _ => exact List.forall_mem_map.mpr fun _ _ => rfl
  | initialized _ _ _ _ _ _ => exact List.forall_mem_singleton.mpr rfl

theorem VarDecl.Group.origin_mem {levels : Nat} {group : List VarDecl} {ts : List Token}
    (h : VarDecl.Group levels group ts) : ∀ d ∈ group, d.origin ∈ ts.map Token.origin := by
  cases h with
  | plain hs _ _ _ =>
    rw [List.map_append]
    exact List.forall_mem_map.mpr fun x hx =>
      List.mem_append_left _ (Identifier.origin_mem_of_separated hs x hx)
  | initialized _ _ _ _ _ _ => exact List.forall_mem_singleton.mpr List.mem_cons_self

theorem Parameter.Group.sound {group : List Parameter} {ts : List Token}
    (h : Parameter.Group group ts) : ∀ p ∈ group, (Node.parameter p).Sound := by
  cases h with
  | byValue _ _ _ => exact List.forall_mem_map.mpr fun _ _ => rfl
  | byReference hk _ _ _ =>
    exact List.forall_mem_map.mpr fun _ _ => Terminal.text_of_word_admits hk

theorem Parameter.Group.origin_mem {group : List Parameter} {ts : List Token}
    (h : Parameter.Group group ts) : ∀ p ∈ group, p.origin ∈ ts.map Token.origin := by
  cases h with
  | byValue hs _ _ =>
    rw [List.map_append]
    exact List.forall_mem_map.mpr fun x hx =>
      List.mem_append_left _ (Identifier.origin_mem_of_separated hs x hx)
  | byReference _ _ _ _ => exact List.forall_mem_map.mpr fun _ _ => List.mem_cons_self

theorem VarSection.Spelling.sound {levels : Nat} {s : DeclSection VarDecl} {ts : List Token}
    (h : VarSection.Spelling levels (some s) ts) : (Node.varSection s).Sound := by
  cases h with
  | present _ hne hs =>
    obtain ⟨group, hgroup⟩ := List.exists_mem_of_ne_nil _ hne
    obtain ⟨d, hd⟩ := List.exists_mem_of_ne_nil _
      (hs.forall_mem (fun _ _ h => h.kept.1.1) group hgroup)
    exact List.ne_nil_of_mem (List.mem_flatten_of_mem hgroup hd)

theorem ConstSection.Spelling.sound {levels : Nat} {s : DeclSection ConstDecl} {ts : List Token}
    (h : ConstSection.Spelling levels (some s) ts) : (Node.constSection s).Sound := by
  cases h with
  | present _ hne _ => exact hne

/-! ## Nodes -/

namespace Node.Read

variable {tokens : List Token} {room : Nat} {n : Node}

theorem sound (h : n.Read tokens room) : n.Sound := by
  cases h with
  | program _ _ _ => exact trivial
  | varSection hs _ _ => exact hs.sound
  | constSection hs _ _ => exact hs.sound
  | varDecl hg hd _ _ => exact hg.sound _ hd
  | constDecl hc _ _ =>
    cases hc with
    | mk _ _ _ _ => exact rfl
  | routine _ _ _ => exact trivial
  | parameter hg hp _ _ => exact hg.sound _ hp
  | block hs _ _ => exact hs.sound_body
  | branch _ _ _ _ _ _ => exact trivial
  | statement hs _ _ => exact hs.sound
  | expr he _ _ => exact he.sound
  | argument _ _ _ => exact ⟨⟨rfl, rfl, rfl⟩, rfl⟩
  | identifier _ _ => exact rfl

/-- The origin of a node is that of a token. -/
theorem origin_mem (h : n.Read tokens room) : n.origin ∈ tokens.map Token.origin := by
  have hmem {o : Origin} {ts : List Token} (ho : o ∈ ts.map Token.origin) (hts : ts ⊆ tokens) :
      o ∈ tokens.map Token.origin :=
    List.map_subset _ hts ho
  cases h with
  | program hp hts _ =>
    cases hp with
    | mk _ _ _ _ _ _ _ _ => exact hmem List.mem_cons_self hts
  | varSection hs hts _ =>
    cases hs with
    | present _ _ _ => exact hmem List.mem_cons_self hts
  | constSection hs hts _ =>
    cases hs with
    | present _ _ _ => exact hmem List.mem_cons_self hts
  | varDecl hg hd hts _ => exact hmem (hg.origin_mem _ hd) hts
  | constDecl hc hts _ =>
    cases hc with
    | mk _ _ _ _ => exact hmem List.mem_cons_self hts
  | routine hr hts _ =>
    cases hr with
    | mk _ _ _ _ _ _ _ _ => exact hmem List.mem_cons_self hts
  | parameter hg hp hts _ => exact hmem (hg.origin_mem _ hp) hts
  | @block _ _ s _ hs hts _ =>
    rw [Node.origin, Block.origin_ofStatement]
    exact hmem hs.origin_mem hts
  | branch hk _ _ _ _ _ => exact List.mem_map_of_mem hk
  | statement hs hts _ => exact hmem hs.origin_mem hts
  | expr he hts _ => exact hmem he.origin_mem hts
  | argument he hts _ => exact hmem he.origin_mem hts
  | identifier ht _ => exact List.mem_map_of_mem ht

end Node.Read

namespace Program

/-- Every tree that is read is sound, whatever the tokens are.  At each of its
nodes the origin is that of a token that is no comment, and the node agrees with
its origin and its parts. -/
theorem parse_sound {maxDepth : Nat} {tokens : List Token} {p : Program}
    (h : parse maxDepth tokens = .ok p) {n : Node} (hn : (Node.program p).Below n) :
    n.origin ∈ (Token.significant tokens).map Token.origin ∧ n.Sound := by
  obtain ⟨room, hread⟩ := (read_of_parse h).below hn
  exact ⟨hread.origin_mem, hread.sound⟩

/-- The tokens of `program p; begin while a do x := f(1) end.`, all in one place. -/
def wrappedLoop : List Token :=
  [(.reservedWord, "program"), (.identifier, "p"), (.symbol, ";"), (.reservedWord, "begin"),
    (.reservedWord, "while"), (.identifier, "a"), (.reservedWord, "do"), (.identifier, "x"),
    (.symbol, ":="), (.identifier, "f"), (.symbol, "("), (.number, "1"), (.symbol, ")"),
    (.reservedWord, "end"), (.symbol, ".")].map
  fun (kind, text) => ⟨kind, text, .start⟩

/-- The text of the origin of the body of a loop. -/
def loopText : Statement → Option String
  | .whileLoop b _ => some b.body.origin.text
  | _ => none

/-- The body of the loop is wrapped, and has the origin of the assignment. -/
theorem wrappedLoop_sound :
    ∃ p, parse 64 wrappedLoop = .ok p ∧ p.body.statements.filterMap loopText = ["x"] ∧
      ∃ b origin, .whileLoop b origin ∈ p.body.statements ∧
        (Node.program p).Below (.block b.body) ∧
        b.body.origin ∈ (Token.significant wrappedLoop).map Token.origin ∧
        (Node.block b.body).Sound := by
  have hread : (parse 64 wrappedLoop).map (·.body.statements.filterMap loopText) = .ok ["x"] := by
    decide +kernel
  cases h : parse 64 wrappedLoop with
  | error e =>
    rw [h] at hread
    cases hread
  | ok p =>
    rw [h] at hread
    have htexts : p.body.statements.filterMap loopText = ["x"] := Except.ok.inj hread
    have hfirst : "x" ∈ p.body.statements.filterMap loopText := by
      rw [htexts]
      exact List.mem_cons_self
    obtain ⟨s, hmem, hs⟩ := List.mem_filterMap.mp hfirst
    cases s with
    | whileLoop b origin =>
      have hbody : (Node.program p).Child (.block p.body) := by
        simp [Node.Child, Node.children]
      have hloop : (Node.block p.body).Child (.statement (.whileLoop b origin)) :=
        List.mem_map_of_mem hmem
      have hbranch : (Node.statement (.whileLoop b origin)).Child (.branch b) :=
        List.mem_singleton_self _
      have hinner : (Node.branch b).Child (.block b.body) :=
        List.mem_cons_of_mem _ (List.mem_singleton_self _)
      have hbelow : (Node.program p).Below (.block b.body) :=
        (((Relation.ReflTransGen.single hbody).tail hloop).tail hbranch).tail hinner
      obtain ⟨horigin, hsound⟩ := parse_sound h hbelow
      exact ⟨p, rfl, htexts, b, origin, hmem, hbelow, horigin, hsound⟩
    | _ => cases hs

end Program
end PascalSyntax
