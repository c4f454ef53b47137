import PascalSyntax.Listing.Outline
import PascalSyntax.Listing.Printer

/-!
# Printing the outline of a program

The outline is printed while the tree is gone through: the line of a node first,
then what is below the node, one level deeper.
-/

namespace PascalSyntax
open Printer in
/-- Prints a line; an empty detail leaves no gap. -/
def OutlineLine.print (palette : Palette) (line : OutlineLine) : Printer :=
  let place := palette.paint palette.theme.position s!"@{line.position.line}:{line.position.column}"
  write (String.join (List.replicate line.depth "  ")) ++
    write (palette.paint palette.theme.node line.label) ++
    (if line.detail = "" then nothing else write " " ++ write line.detail) ++
    (write " " ++ write place ++ write "\n")

namespace TreePrinter

open Printer

section

variable (palette : Palette)

def line (depth : Nat) (label detail : String) (origin : Origin) : Printer :=
  (Outline.node depth label detail origin).print palette

mutual

def expr (depth : Nat) : Expr → Printer
  | .identifier name => line palette depth "Identifier" name.name name.origin
  | .integer literal =>
    line palette depth "Integer" (toString literal.value) literal.origin
  | .string literal => line palette depth "String" literal.origin.text literal.origin
  | .call c => call depth c
  | .binary op left right origin =>
    line palette depth "Operator" op.text origin ++
      (expr (depth + 1) left ++ expr (depth + 1) right)
  | .unary op operand origin =>
    line palette depth "Operator" op.text origin ++ expr (depth + 1) operand

def call (depth : Nat) : Call → Printer
  | ⟨routine, args, origin⟩ =>
    line palette depth "Call" routine.name origin ++ arguments (depth + 1) args

/-- Prints the arguments of a call: of each, only its value. -/
def arguments (depth : Nat) : List Argument → Printer
  | [] => nothing
  | ⟨value, _, _, _, _⟩ :: others => expr depth value ++ arguments depth others

end

mutual

def statement (depth : Nat) : Statement → Printer
  | .assignment target value origin =>
    line palette depth "Assignment" target.name origin ++ expr palette (depth + 1) value
  | .call c => call palette depth c
  | .conditional cases otherwise origin =>
    line palette depth "If" "" origin ++
      (branches (depth + 1) cases ++ elseBranch (depth + 1) otherwise)
  | .whileLoop body origin => line palette depth "While" "" origin ++ branch (depth + 1) body
  | .forLoop counter first last direction body origin =>
    line palette depth "For" (counter.name ++ " " ++ direction.word) origin ++
      (expr palette (depth + 1) first ++ expr palette (depth + 1) last ++
        block (depth + 1) body)
  | .block b => block depth b

def block (depth : Nat) : Block → Printer
  | ⟨body, origin⟩ => line palette depth "Block" "" origin ++ statements (depth + 1) body

def branch (depth : Nat) : Branch → Printer
  | ⟨condition, body, origin⟩ =>
    line palette depth "Branch" "" origin ++
      (expr palette (depth + 1) condition ++ block (depth + 1) body)

/-- Prints what a conditional does when no condition holds. -/
def elseBranch (depth : Nat) : Option Block → Printer
  | none => nothing
  | some ⟨body, origin⟩ =>
    line palette depth "Else" "" origin ++
      (line palette (depth + 1) "Block" "" origin ++ statements (depth + 2) body)

def statements (depth : Nat) : List Statement → Printer
  | [] => nothing
  | first :: others => statement depth first ++ statements depth others

def branches (depth : Nat) : List Branch → Printer
  | [] => nothing
  | first :: others => branch depth first ++ branches depth others

end

def varDecl (depth : Nat) (decl : VarDecl) : Printer :=
  line palette depth "VarDecl" (decl.name.name ++ ": " ++ decl.typeName.name) decl.origin ++
    match decl.init with
    | some init => expr palette (depth + 1) init
    | none => nothing

def constDecl (depth : Nat) (decl : ConstDecl) : Printer :=
  line palette depth "ConstDecl" decl.name.name decl.origin ++
    expr palette (depth + 1) decl.value

def declSection (depth : Nat) (label : String) (decl : α → Printer) :
    Option (DeclSection α) → Printer
  | none => nothing
  | some ⟨decls, origin⟩ => line palette depth label "" origin ++ each decl decls

def parameter (depth : Nat) (p : Parameter) : Printer :=
  (Outline.ofParameter depth p).print palette

def routine (depth : Nat) (r : Routine) : Printer :=
  (Outline.ofHeading depth r).print palette ++
    (each (parameter palette (depth + 1)) r.parameters ++
      each (varDecl palette (depth + 1)) r.locals ++ block palette (depth + 1) r.body)

end

end TreePrinter

def Program.print (palette : Palette) (p : Program) : Printer :=
  open TreePrinter in
  line palette 0 "Program" p.name.name p.origin ++
    (declSection palette 1 "Var" (varDecl palette 2) p.vars ++
      declSection palette 1 "Const" (constDecl palette 2) p.consts ++
      Printer.each (routine palette 1) p.routines ++ block palette 1 p.body)

end PascalSyntax
