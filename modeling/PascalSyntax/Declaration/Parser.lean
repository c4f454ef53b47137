import PascalSyntax.Expr.Parser
import PascalSyntax.Declaration.Basic

/-!
# Reading declarations

A section of declarations goes on as long as a name is next.
-/

namespace PascalSyntax
namespace Parser

variable {σ : Type} [Spot σ]

def identifierList : Parser σ (List Identifier) :=
  separated (.symbol ",") identifier

/-- Reads an initial value, which only a single name can have. -/
def initializer? (expression : Parser σ Expr) : List Identifier → Parser σ (Option Expr)
  | [_] => do
    match ← take? (.symbol "=") with
    | some _ => return some (← expression)
    | none => return none
  | _ => return none

/-- Reads a group of variables: names, their type and perhaps an initial value.
-/
def varGroup (expression : Parser σ Expr) : Parser σ (List VarDecl) := do
  let names ← identifierList
  let _ ← symbol ":" "after variable names"
  let typeName ← identifier
  let init ← initializer? expression names
  let _ ← symbol ";" "after variable declaration"
  return names.map fun name => ⟨name, typeName, init, name.origin⟩

def constDecl (expression : Parser σ Expr) : Parser σ ConstDecl := do
  let name ← identifier
  let _ ← symbol "=" "after constant name"
  let value ← expression
  let _ ← symbol ";" "after constant value"
  return ⟨name, value, name.origin⟩

def varSection? (expression : Parser σ Expr) : Parser σ (Option (DeclSection VarDecl)) := do
  match ← take? (.word "var") with
  | some keyword =>
    let groups ← repeated .identifier (varGroup expression)
    return some ⟨groups.flatten, keyword.origin⟩
  | none => return none

def constSection? (expression : Parser σ Expr) : Parser σ (Option (DeclSection ConstDecl)) := do
  match ← take? (.word "const") with
  | some keyword =>
    let decls ← repeated .identifier (constDecl expression)
    return some ⟨decls, keyword.origin⟩
  | none => return none

/-- Reads a group of parameters, which are all by reference if `var` stands
before them. -/
def parameterGroup : Parser σ (List Parameter) := do
  let keyword ← take? (.word "var")
  let names ← identifierList
  let _ ← symbol ":" "after parameter names"
  let typeName ← identifier
  return names.map fun name =>
    ⟨name, typeName, keyword.isSome, (keyword.map Token.origin).getD name.origin⟩

/-- Reads the parameters between the parentheses, which may be none. -/
def parameterList : Parser σ (List Parameter) := do
  if ← sees (.symbol ")") then
    return []
  else
    return (← separated (.symbol ";") parameterGroup).flatten

end Parser
end PascalSyntax
