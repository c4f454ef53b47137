import PascalSyntax.Listing.Palette
import PascalSyntax.Program.Basic

/-!
# The outline of a program

An outline has one line for each node of the tree, indented by the depth of the
node, with a label, a detail where there is one, and the position of the node.
-/

namespace PascalSyntax

structure OutlineLine where
  depth : Nat
  label : String
  detail : String
  position : Position
deriving DecidableEq, Repr

namespace OutlineLine

/-- The text of a line; an empty detail leaves no gap. -/
def render (palette : Palette) (line : OutlineLine) : String :=
  let label := palette.paint palette.theme.node line.label
  let detail := if line.detail = "" then "" else " " ++ line.detail
  let place := palette.paint palette.theme.position s!"@{line.position.line}:{line.position.column}"
  String.join (List.replicate line.depth "  ") ++ label ++ detail ++ " " ++ place ++ "\n"

end OutlineLine

namespace Outline

def node (depth : Nat) (label detail : String) (origin : Origin) : OutlineLine :=
  ⟨depth, label, detail, origin.position⟩

mutual

def ofExpr (depth : Nat) : Expr → List OutlineLine
  | .identifier name => [node depth "Identifier" name.name name.origin]
  | .integer literal => [node depth "Integer" (toString literal.value) literal.origin]
  | .string literal => [node depth "String" literal.origin.text literal.origin]
  | .call c => ofCall depth c
  | .binary op left right origin =>
    node depth "Operator" op.text origin :: (ofExpr (depth + 1) left ++ ofExpr (depth + 1) right)
  | .unary op operand origin => node depth "Operator" op.text origin :: ofExpr (depth + 1) operand

def ofCall (depth : Nat) : Call → List OutlineLine
  | ⟨routine, arguments, origin⟩ =>
    node depth "Call" routine.name origin :: ofArguments (depth + 1) arguments

/-- The lines of the arguments of a call: of each, only its value. -/
def ofArguments (depth : Nat) : List Argument → List OutlineLine
  | [] => []
  | ⟨value, _, _, _, _⟩ :: others => ofExpr depth value ++ ofArguments depth others

end

mutual

def ofStatement (depth : Nat) : Statement → List OutlineLine
  | .assignment target value origin =>
    node depth "Assignment" target.name origin :: ofExpr (depth + 1) value
  | .call c => ofCall depth c
  | .conditional branches otherwise origin =>
    node depth "If" "" origin :: (ofBranches (depth + 1) branches ++ ofElse (depth + 1) otherwise)
  | .whileLoop branch origin => node depth "While" "" origin :: ofBranch (depth + 1) branch
  | .forLoop counter first last direction body origin =>
    node depth "For" (counter.name ++ " " ++ direction.word) origin ::
      (ofExpr (depth + 1) first ++ ofExpr (depth + 1) last ++ ofBlock (depth + 1) body)
  | .block b => ofBlock depth b

def ofBlock (depth : Nat) : Block → List OutlineLine
  | ⟨statements, origin⟩ => node depth "Block" "" origin :: ofStatements (depth + 1) statements

def ofBranch (depth : Nat) : Branch → List OutlineLine
  | ⟨condition, body, origin⟩ =>
    node depth "Branch" "" origin :: (ofExpr (depth + 1) condition ++ ofBlock (depth + 1) body)

/-- The lines of what a conditional does when no condition holds. -/
def ofElse (depth : Nat) : Option Block → List OutlineLine
  | none => []
  | some ⟨statements, origin⟩ =>
    node depth "Else" "" origin ::
      node (depth + 1) "Block" "" origin :: ofStatements (depth + 2) statements

def ofStatements (depth : Nat) : List Statement → List OutlineLine
  | [] => []
  | statement :: others => ofStatement depth statement ++ ofStatements depth others

def ofBranches (depth : Nat) : List Branch → List OutlineLine
  | [] => []
  | branch :: others => ofBranch depth branch ++ ofBranches depth others

end

def ofVarDecl (depth : Nat) (decl : VarDecl) : List OutlineLine :=
  node depth "VarDecl" (decl.name.name ++ ": " ++ decl.typeName.name) decl.origin ::
    match decl.init with
    | some init => ofExpr (depth + 1) init
    | none => []

def ofConstDecl (depth : Nat) (decl : ConstDecl) : List OutlineLine :=
  node depth "ConstDecl" decl.name.name decl.origin :: ofExpr (depth + 1) decl.value

def ofSection (depth : Nat) (label : String) (ofDecl : α → List OutlineLine) :
    Option (DeclSection α) → List OutlineLine
  | none => []
  | some ⟨decls, origin⟩ => node depth label "" origin :: decls.flatMap ofDecl

def ofParameter (depth : Nat) (p : Parameter) : OutlineLine :=
  let mode := if p.byReference then "var " else ""
  node depth "Parameter" (mode ++ p.name.name ++ ": " ++ p.typeName.name) p.origin

/-- The first line of a routine. -/
def ofHeading (depth : Nat) (routine : Routine) : OutlineLine :=
  match routine.kind with
  | .function returnType =>
    node depth "Function" (routine.name.name ++ ": " ++ returnType.name) routine.origin
  | .procedure => node depth "Procedure" routine.name.name routine.origin

def ofRoutine (depth : Nat) (routine : Routine) : List OutlineLine :=
  ofHeading depth routine ::
    (routine.parameters.map (ofParameter (depth + 1)) ++
      routine.locals.flatMap (ofVarDecl (depth + 1)) ++ ofBlock (depth + 1) routine.body)

end Outline

namespace Program

def outline (p : Program) : List OutlineLine :=
  Outline.node 0 "Program" p.name.name p.origin ::
    (Outline.ofSection 1 "Var" (Outline.ofVarDecl 2) p.vars ++
      Outline.ofSection 1 "Const" (Outline.ofConstDecl 2) p.consts ++
      p.routines.flatMap (Outline.ofRoutine 1) ++ Outline.ofBlock 1 p.body)

def listing (palette : Palette) (p : Program) : List String :=
  p.outline.map (OutlineLine.render palette)

end Program
end PascalSyntax
