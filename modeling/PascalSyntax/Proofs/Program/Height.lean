import Mathlib.Algebra.GroupWithZero.Nat
import PascalSyntax.Proofs.Program.Nodes

/-!
# The height of a tree

The bound on the nesting bounds how far down a tree goes, but for binary operators.
A path down the tree of an accepted source has at most eight nodes for each level
and eight more, if its binary operators are not counted (`Program.ofSource_path`).

Binary operators take no level, since the operations on one level are put together
in a loop.  Each of them has those before it for its left operand, and so a chain
of them is as high as it is long, with any bound on the nesting
(`Program.exists_high`).
-/

namespace PascalSyntax

namespace Node

/-- Some nodes on the way down from a node, the node itself first. -/
structure Path (root : Node) (path : List Node) : Prop where
  start : path.head? = some root
  steps : path.IsChain Child

def isBinary : Node → Bool
  | expr (.binary _ _ _ _) => true
  | _ => false

/-- The nodes on the way down to a child of a given number, from there to the next,
and so on. -/
def descend : List Nat → Node → List Node
  | [], n => [n]
  | i :: rest, n =>
    match n.children[i]? with
    | some m => n :: descend rest m
    | none => [n]

theorem head?_descend (places : List Nat) (n : Node) : (descend places n).head? = some n := by
  cases places with
  | nil => rfl
  | cons i rest =>
    rw [descend]
    split <;> rfl

theorem path_descend (places : List Nat) (n : Node) : n.Path (descend places n) := by
  refine ⟨head?_descend places n, ?_⟩
  induction places generalizing n with
  | nil => exact .singleton n
  | cons i rest ih =>
    rw [descend]
    split
    · rename_i m hm
      refine (ih m).cons ?_
      intro m' hm'
      rw [head?_descend] at hm'
      obtain rfl := Option.some.inj hm'
      exact List.mem_of_getElem? hm
    · exact .singleton n

/-- The nodes of a path are its binary operators and those that count. -/
theorem length_eq (path : List Node) :
    path.length = (path.map weight).sum + path.countP isBinary := by
  induction path with
  | nil => rfl
  | cons n path ih =>
    have hn : n.weight + (if n.isBinary then 1 else 0) = 1 := by
      cases n with
      | expr e => cases e <;> rfl
      | _ => rfl
    rw [List.length_cons, List.map_cons, List.sum_cons, List.countP_cons, ih]
    omega

/-- A path has no more nodes that count than there is room for its first node. -/
theorem Read.path_weight {tokens : List Token} {room : Nat} {n : Node} {path : List Node}
    (h : n.Read tokens room) (hpath : n.Path path) : (path.map weight).sum ≤ room := by
  induction path generalizing n room with
  | nil => exact Nat.zero_le _
  | cons n' path ih =>
    obtain rfl := Option.some.inj hpath.start
    obtain ⟨room, rfl⟩ := Nat.exists_eq_add_of_le' h.weight_le
    rw [List.map_cons, List.sum_cons, Nat.add_comm]
    refine Nat.add_le_add_right ?_ _
    cases path with
    | nil => exact Nat.zero_le _
    | cons m path =>
      obtain ⟨hstep, hrest⟩ := List.isChain_cons_cons.mp hpath.steps
      exact ih (h.children m hstep) ⟨rfl, hrest⟩

end Node

namespace Program

/-- The bound on the nesting bounds the height of a tree, but for binary operators:
besides these a path down the tree of an accepted source has at most eight nodes
for each level, and eight more. -/
theorem ofSource_path {limits : Limits} {source : String} {p : Program}
    (h : ofSource limits source = .ok p) {path : List Node} (hpath : (Node.program p).Path path) :
    path.length ≤ 8 * (limits.maxDepth + 1) + path.countP Node.isBinary := by
  obtain ⟨tokens, -, hparse⟩ := ofSource_eq_ok_iff.mp h
  have hweight := (read_of_parse hparse).path_weight hpath
  have hlength := Node.length_eq path
  omega

/-- A sum of forty ones, which needs two levels of nesting. -/
def sumSource : String :=
  "program p; begin x := " ++
    "1+1+1+1+1+1+1+1+1+1+1+1+1+1+1+1+1+1+1+1+1+1+1+1+1+1+1+1+1+1+1+1+1+1+1+1+1+1+1+1 end."

/-- The way from the program down to the first of the ones. -/
def sumPath (p : Program) : List Node :=
  (Node.program p).descend ([1, 0, 1] ++ List.replicate 39 0)

theorem sumSource_sumPath :
    ∃ p, ofSource { Limits.standard with maxDepth := 2 } sumSource = .ok p ∧
      (sumPath p).length = 43 ∧ (sumPath p).countP Node.isBinary = 39 ∧
        (sumPath p).getLast?.map (·.children.length) = some 0 := by
  have hread : (ofSource { Limits.standard with maxDepth := 2 } sumSource).map
      (fun p => ((sumPath p).length, (sumPath p).countP Node.isBinary,
        (sumPath p).getLast?.map (·.children.length))) = .ok (43, 39, some 0) := by
    decide +kernel
  cases h : ofSource { Limits.standard with maxDepth := 2 } sumSource with
  | error e =>
    rw [h] at hread
    cases hread
  | ok p =>
    rw [h] at hread
    obtain ⟨hlength, hrest⟩ := Prod.mk.inj (Except.ok.inj hread)
    obtain ⟨hbinary, hlast⟩ := Prod.mk.inj hrest
    exact ⟨p, rfl, hlength, hbinary, hlast⟩

/-- The path has 43 nodes, of which 39 are binary operators. -/
theorem sumSource_path :
    ∃ p, ofSource { Limits.standard with maxDepth := 2 } sumSource = .ok p ∧
      (Node.program p).Path (sumPath p) ∧ (sumPath p).length = 43 ∧
        (sumPath p).length ≤ 8 * (2 + 1) + (sumPath p).countP Node.isBinary := by
  obtain ⟨p, h, hlength, -, -⟩ := sumSource_sumPath
  have hpath : (Node.program p).Path (sumPath p) := Node.path_descend _ _
  exact ⟨p, h, hpath, hlength, ofSource_path h hpath⟩

/-- The bound on the nesting alone does not bound the height of a tree: a path from
the program to a leaf has more nodes than eight for each level and eight more. -/
theorem sumSource_high :
    ∃ p path, ofSource { Limits.standard with maxDepth := 2 } sumSource = .ok p ∧
      (Node.program p).Path path ∧ (∃ n ∈ path.getLast?, n.children = []) ∧
        ¬ path.length ≤ 8 * (2 + 1) := by
  obtain ⟨p, h, hlength, -, hlast⟩ := sumSource_sumPath
  obtain ⟨n, hn, hleaf⟩ := Option.map_eq_some_iff.mp hlast
  refine ⟨p, sumPath p, h, Node.path_descend _ _, ⟨n, hn, List.eq_nil_of_length_eq_zero hleaf⟩, ?_⟩
  rw [hlength]
  decide

end Program

/-! ## Sums of any length -/

namespace LongSum

/-- A token that stands at the start. -/
def token (kind : Token.Kind) (text : String) : Token :=
  ⟨kind, text, .start⟩

/-- The sum of a one and `n` more. -/
def expr : Nat → Expr
  | 0 => .integer ⟨1, (token .number "1").origin⟩
  | n + 1 =>
    .binary .add (expr n) (.integer ⟨1, (token .number "1").origin⟩) (token .symbol "+").origin

def tokens : Nat → List Token
  | 0 => [token .number "1"]
  | n + 1 => tokens n ++ [token .symbol "+", token .number "1"]

theorem spelling (n : Nat) : Expr.Spelling 0 1 (expr n) (tokens n) := by
  induction n with
  | zero => exact .integer (by decide) (by decide)
  | succ n ih =>
    have hone : Expr.Spelling 0 2 (expr 0) (tokens 0) := .integer (by decide) (by decide)
    have hplus : BinaryOperator.add.terminal.admits (token .symbol "+") := by decide
    exact .binary (Nat.le_refl 1) ih hplus hone

/-- The first one of a sum is as far down as there are further ones. -/
theorem length_descend (n : Nat) :
    ((Node.expr (expr n)).descend (List.replicate n 0)).length = n + 1 := by
  induction n with
  | zero => rfl
  | succ n ih =>
    rw [List.replicate_succ]
    exact congrArg (· + 1) ih

def statement (n : Nat) : Statement :=
  .assignment (token .identifier "x").toIdentifier (expr n) (token .identifier "x").origin

def statementTokens (n : Nat) : List Token :=
  token .identifier "x" :: token .symbol ":=" :: tokens n

/-- The program `program p; begin x := 1 + ... + 1 end.` -/
def program (n : Nat) : Program where
  name := (token .identifier "p").toIdentifier
  vars := none
  consts := none
  routines := []
  body := ⟨[statement n], (token .reservedWord "begin").origin⟩
  origin := (token .reservedWord "program").origin

def programTokens (n : Nat) : List Token :=
  token .reservedWord "program" :: token .identifier "p" :: token .symbol ";" ::
    token .reservedWord "begin" ::
      (statementTokens n ++ [token .reservedWord "end"] ++ [token .symbol "."])

theorem program_spelling (n : Nat) : Program.Spelling 2 (program n) (programTokens n) := by
  have hvalue : Expr.Within 1 (expr n) (tokens n) := (spelling n).weaken (by decide)
  have hassignment : Statement.Spelling 2 true (statement n) (statementTokens n) :=
    .assignment (by decide) (by decide) hvalue
  have hitems : Separated (.symbol ";") (Statement.Piece (Statement.Spelling 2 true))
      [some (statement n)] (statementTokens n) :=
    .single hassignment
  have hbody : Block.Spelling 2 (program n).body
      (token .reservedWord "begin" :: (statementTokens n ++ [token .reservedWord "end"])) :=
    .mk (by decide) hitems (by decide)
  exact .mk (by decide) (by decide) (by decide) .absent .absent .nil hbody (by decide)

theorem significant_programTokens (n : Nat) :
    Token.significant (programTokens n) = programTokens n := by
  have htokens : ∀ t ∈ tokens n, t.kind ≠ .comment := by
    induction n with
    | zero => decide
    | succ n ih => exact List.forall_mem_append.mpr ⟨ih, by decide⟩
  simpa [Token.significant, programTokens, statementTokens, token] using htokens

end LongSum

/-- Two levels of nesting are enough for a tree of any height. -/
theorem Program.exists_high (height : Nat) :
    ∃ tokens p path, Program.parse 2 tokens = .ok p ∧ (Node.program p).Path path ∧
      height ≤ path.length := by
  have hparse : Program.parse 2 (LongSum.programTokens height) = .ok (LongSum.program height) := by
    rw [Program.parse_iff, LongSum.significant_programTokens]
    exact LongSum.program_spelling height
  have hlength : ((Node.program (LongSum.program height)).descend
      (1 :: 0 :: 1 :: List.replicate height 0)).length = height + 1 + 3 :=
    congrArg (· + 3) (LongSum.length_descend height)
  refine ⟨_, _, _, hparse, Node.path_descend _ _, Nat.le_trans ?_ (Nat.le_of_eq hlength.symm)⟩
  omega

end PascalSyntax
