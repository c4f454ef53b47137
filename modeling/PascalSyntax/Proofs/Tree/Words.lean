import PascalSyntax.Program.Basic
import PascalSyntax.Proofs.Token.Words

/-!
# The words of a tree

Every tree can be written out.  The words that are written leave nothing to the
rules on what binds more: an operation stands in parentheses, a call has them
even without arguments, every body is a block between `begin` and `end`, and a
name that is declared has a declaration of its own.  Origins are not written.

The functions on lists that stand beside the functions on nodes are maps; they
are there because the trees are nested.
-/

namespace PascalSyntax

def BinaryOperator.word (op : BinaryOperator) : Word :=
  if op.isWord then .keyword op.text else .symbol op.text

def UnaryOperator.word (op : UnaryOperator) : Word :=
  if op.isWord then .keyword op.text else .symbol op.text

def Identifier.word (x : Identifier) : Word :=
  .name x.name

/-! ## Expressions -/

mutual

def Expr.words : Expr → List Word
  | .identifier x => [x.word]
  | .integer literal => [.number literal.value.toNat]
  | .string literal => [.string literal.value]
  | .call c => c.words
  | .binary op left right _ =>
    .symbol "(" :: ((left.words ++ op.word :: right.words) ++ [.symbol ")"])
  | .unary op operand _ => .symbol "(" :: ((op.word :: operand.words) ++ [.symbol ")"])

def Argument.wordLists : List Argument → List (List Word)
  | [] => []
  | ⟨value, _, _, _, _⟩ :: rest => value.words :: Argument.wordLists rest

def Call.words : Call → List Word
  | ⟨routine, arguments, _⟩ =>
    routine.word :: .symbol "(" ::
      ([Word.symbol ","].intercalate (Argument.wordLists arguments) ++ [.symbol ")"])

end

theorem Argument.wordLists_eq_map (args : List Argument) :
    Argument.wordLists args = args.map (·.value.words) := by
  induction args with
  | nil => rfl
  | cons a rest ih =>
    cases a
    rw [wordLists, ih, List.map_cons]

theorem Call.words_eq (c : Call) :
    c.words = c.routine.word :: .symbol "(" ::
      ([Word.symbol ","].intercalate (c.arguments.map (·.value.words)) ++ [.symbol ")"]) := by
  cases c
  rw [words, Argument.wordLists_eq_map]

/-! ## Statements -/

mutual

def Statement.words : Statement → List Word
  | .assignment target value _ => target.word :: .symbol ":=" :: value.words
  | .call c => c.words
  | .conditional branches otherwise _ =>
    [Word.keyword "else"].intercalate (Branch.wordLists branches ++ Block.wordLists otherwise)
  | .whileLoop ⟨condition, body, _⟩ _ =>
    .keyword "while" :: (condition.words ++ .keyword "do" :: body.words)
  | .forLoop counter first last direction body _ =>
    .keyword "for" :: counter.word :: .symbol ":=" ::
      (first.words ++ .keyword direction.word :: (last.words ++ .keyword "do" :: body.words))
  | .block b => b.words

def Branch.words : Branch → List Word
  | ⟨condition, body, _⟩ => .keyword "if" :: (condition.words ++ .keyword "then" :: body.words)

def Branch.wordLists : List Branch → List (List Word)
  | [] => []
  | b :: rest => b.words :: Branch.wordLists rest

def Block.words : Block → List Word
  | ⟨statements, _⟩ =>
    .keyword "begin" ::
      ([Word.symbol ";"].intercalate (Statement.wordLists statements) ++ [.keyword "end"])

def Block.wordLists : Option Block → List (List Word)
  | none => []
  | some b => [b.words]

def Statement.wordLists : List Statement → List (List Word)
  | [] => []
  | s :: rest => s.words :: Statement.wordLists rest

end

theorem Branch.wordLists_eq_map (branches : List Branch) :
    Branch.wordLists branches = branches.map Branch.words := by
  induction branches with
  | nil => rfl
  | cons b rest ih => rw [wordLists, ih, List.map_cons]

theorem Statement.wordLists_eq_map (statements : List Statement) :
    Statement.wordLists statements = statements.map Statement.words := by
  induction statements with
  | nil => rfl
  | cons s rest ih => rw [wordLists, ih, List.map_cons]

theorem Block.wordLists_eq_map (b : Option Block) :
    Block.wordLists b = b.toList.map Block.words := by
  cases b <;> rfl

theorem Branch.words_eq (b : Branch) :
    b.words = .keyword "if" :: (b.condition.words ++ .keyword "then" :: b.body.words) := by
  cases b
  rw [words]

theorem Block.words_eq (b : Block) :
    b.words = .keyword "begin" ::
      ([Word.symbol ";"].intercalate (b.statements.map Statement.words) ++ [.keyword "end"]) := by
  cases b
  rw [words, Statement.wordLists_eq_map]

theorem Statement.words_conditional (branches : List Branch) (otherwise : Option Block)
    (origin : Origin) :
    (Statement.conditional branches otherwise origin).words =
      [Word.keyword "else"].intercalate
        (branches.map Branch.words ++ otherwise.toList.map Block.words) := by
  rw [words, Branch.wordLists_eq_map, Block.wordLists_eq_map]

theorem Statement.words_whileLoop (branch : Branch) (origin : Origin) :
    (Statement.whileLoop branch origin).words =
      .keyword "while" :: (branch.condition.words ++ .keyword "do" :: branch.body.words) := by
  cases branch
  rw [words]

/-! ## Declarations -/

namespace VarDecl

def initWords (d : VarDecl) : List Word :=
  match d.init with
  | some value => .symbol "=" :: value.words
  | none => []

def words (d : VarDecl) : List Word :=
  d.name.word :: .symbol ":" :: d.typeName.word :: (d.initWords ++ [.symbol ";"])

end VarDecl

def ConstDecl.words (d : ConstDecl) : List Word :=
  d.name.word :: .symbol "=" :: (d.value.words ++ [.symbol ";"])

/-- The words of a section after its keyword.  A section that is not there has
no words. -/
def DeclSection.words (keyword : String) (words : α → List Word) :
    Option (DeclSection α) → List Word
  | some s => .keyword keyword :: s.decls.flatMap words
  | none => []

/-- A parameter by reference has `var` before it. -/
def Parameter.words (p : Parameter) : List Word :=
  if p.byReference then [.keyword "var", p.name.word, .symbol ":", p.typeName.word]
  else [p.name.word, .symbol ":", p.typeName.word]

namespace Routine

namespace Kind

def isFunction : Kind → Bool
  | .function _ => true
  | .procedure => false

/-- What follows the parameters: the type that a function gives back. -/
def words : Kind → List Word
  | .function returnType => [.symbol ":", returnType.word]
  | .procedure => []

end Kind

/-- The words of the parameters of a routine, which are none if it has none. -/
def formalWords : List Parameter → List Word
  | [] => []
  | parameters =>
    .symbol "(" :: ([Word.symbol ";"].intercalate (parameters.map Parameter.words) ++ [.symbol ")"])

/-- The variables of a routine as a section, which is there if there are any. -/
def localSection (r : Routine) : Option (DeclSection VarDecl) :=
  match r.locals with
  | [] => none
  | d :: rest => some ⟨d :: rest, r.origin⟩

def words (r : Routine) : List Word :=
  .keyword (if r.kind.isFunction then "function" else "procedure") :: r.name.word ::
    (formalWords r.parameters ++ (r.kind.words ++ .symbol ";" ::
      (DeclSection.words "var" VarDecl.words r.localSection ++ (r.body.words ++ [.symbol ";"]))))

end Routine

/-! ## Programs -/

namespace Program

def words (p : Program) : List Word :=
  .keyword "program" :: p.name.word :: .symbol ";" ::
    (DeclSection.words "var" VarDecl.words p.vars ++
      (DeclSection.words "const" ConstDecl.words p.consts ++
        (p.routines.flatMap Routine.words ++ (p.body.words ++ [.symbol "."]))))

/-- The source that a program is written as. -/
def source (p : Program) : String :=
  Word.source p.words

end Program
end PascalSyntax
