import PascalSyntax.Expr.Parser
import PascalSyntax.Statement.Basic

/-!
# Reading statements

The first token of a statement decides its form, and only a name needs a look at
the token after it.  A statement takes one level of nesting, and what stands
inside it has the levels that are left.
-/

namespace PascalSyntax
namespace Parser

variable {σ : Type} [Spot σ]

/-- Reads what has to follow a statement in a block: a semicolon, unless `end`
is next. -/
def separator : Parser σ Unit := do
  match ← take? (.symbol ";") with
  | some _ => return ()
  | none =>
    if ← sees (.word "end") then
      return ()
    else
      fail (.oneOf [.symbol ";", .word "end"] (some "after statement"))

/-- Reads one item of a block: a semicolon, which is an empty statement, or a
statement and what has to follow it.  The `end` of the block is read too, and
gives no item. -/
def item? (statement : Parser σ Statement) : Parser σ (Option (Option Statement)) := do
  match ← take? (.word "end") with
  | some _ => return none
  | none =>
    match ← take? (.symbol ";") with
    | some _ => return some none
    | none =>
      let s ← statement
      separator
      return some (some s)

def blockOver (statement : Parser σ Statement) : Parser σ Block := do
  let opening ← take (.word "begin") none
  let items ← many (item? statement)
  return ⟨items.filterMap id, opening.origin⟩

/-- Reads a body: one statement, as a block. -/
def body (statement : Parser σ Statement) : Parser σ Block := do
  return .ofStatement (← statement)

/-- Reads a branch after its keyword: a condition, a word that ends it, and a
body. -/
def branch (expression : Parser σ Expr) (statement : Parser σ Statement) (ending : String)
    (keyword : Token) : Parser σ Branch := do
  let condition ← expression
  let _ ← word ending "after condition"
  return ⟨condition, ← body statement, keyword.origin⟩

/-- Reads one more branch of a conditional, if `else if` is next. -/
def elseIf (expression : Parser σ Expr) (statement : Parser σ Statement) :
    Parser σ (Option Branch) := do
  match ← takeBoth? (.word "else") (.word "if") with
  | some t => return some (← branch expression statement "then" t)
  | none => return none

/-- Reads a conditional after its `if`.  An `else` belongs to the innermost `if`
that is still open. -/
def conditional (expression : Parser σ Expr) (statement : Parser σ Statement) (keyword : Token) :
    Parser σ Statement := do
  let first ← branch expression statement "then" keyword
  let others ← many (elseIf expression statement)
  let otherwise ← another (.word "else") (body statement)
  return .conditional (first :: others) otherwise keyword.origin

def direction : Parser σ Direction := do
  match ← takeFirst? [.upward, .downward] (fun d => .word (Direction.word d)) with
  | some (d, _) => return d
  | none => fail (.oneOf [.word "to", .word "downto"] none)

def forLoop (expression : Parser σ Expr) (statement : Parser σ Statement) (keyword : Token) :
    Parser σ Statement := do
  let counter ← identifier
  let _ ← symbol ":=" "after loop variable"
  let first ← expression
  let way ← direction
  let last ← expression
  let _ ← word "do" "after loop bounds"
  return .forLoop counter first last way (← body statement) keyword.origin

/-- Reads a statement that starts with a name: an assignment or a call. -/
def nameStatement (expression : Parser σ Expr) : Parser σ Statement := do
  let name ← identifier
  match ← take? (.symbol ":=") with
  | some _ => return .assignment name (← expression) name.origin
  | none => return .call (← callOf expression name)

def statementOver (expression : Parser σ Expr) (statement : Parser σ Statement) :
    Parser σ Statement := do
  if let some keyword ← take? (.word "if") then
    conditional expression statement keyword
  else if let some keyword ← take? (.word "while") then
    return .whileLoop (← branch expression statement "do" keyword) keyword.origin
  else if let some keyword ← take? (.word "for") then
    forLoop expression statement keyword
  else if ← sees (.word "begin") then
    return .block (← blockOver statement)
  else if ← sees .identifier then
    nameStatement expression
  else
    fail .statement

/-- Reads a statement, which takes one of the levels allowed. -/
def statement : Nat → Parser σ Statement
  | 0 => tooDeep
  | levels + 1 => Spot.nested (statementOver (expression levels) (statement levels))

/-- Reads a block whose statements have `levels` levels allowed. -/
def block (levels : Nat) : Parser σ Block :=
  blockOver (statement levels)

end Parser
end PascalSyntax
