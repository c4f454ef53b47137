import PascalSyntax.Declaration.Parser
import PascalSyntax.Parser.Cursor
import PascalSyntax.Parser.Error
import PascalSyntax.Parser.Place
import PascalSyntax.Statement.Parser
import PascalSyntax.Program.Basic

/-!
# Reading programs

The headings of the routines are recorded as they are read, and the record is
kept when the reading fails later on: it tells how far the reading came.  The
record changes nothing in what is read (`program_outcome`).
-/

namespace PascalSyntax
namespace Parser

variable {σ : Type} [Spot σ]

def heading? : Parser σ (Option Routine.Heading) := do
  match ← takeFirst? [true, false] (fun b => .word (if b then "function" else "procedure")) with
  | some (isFunction, keyword) => return some ⟨isFunction, ← identifier, keyword.origin⟩
  | none => return none

def formals : Parser σ (List Parameter) := do
  match ← take? (.symbol "(") with
  | some _ =>
    let parameters ← parameterList
    let _ ← symbol ")" "after parameters"
    return parameters
  | none => return []

/-- Reads the return type of a function; a procedure has none. -/
def routineKind (isFunction : Bool) : Parser σ Routine.Kind := do
  if isFunction then
    let _ ← symbol ":" "before function return type"
    return .function (← identifier)
  else
    return .procedure

def routineAfter (levels : Nat) (heading : Routine.Heading) : Parser σ Routine := do
  let parameters ← formals
  let kind ← routineKind heading.isFunction
  let _ ← symbol ";" "after routine heading"
  let locals ← varSection? (expression levels)
  let body ← block levels
  let _ ← symbol ";" "after routine body"
  return ⟨kind, heading.name, parameters, (locals.map (·.decls)).getD [], body, heading.origin⟩

def routine? (levels : Nat) : Parser σ (Option Routine) := do
  match ← heading? with
  | some heading => return some (← routineAfter levels heading)
  | none => return none

theorem routine?_apply (levels : Nat) (s : σ) :
    routine? levels s =
      match heading? s with
      | .error failure => .error failure
      | .ok (none, next) => .ok (none, next)
      | .ok (some heading, next) =>
        match routineAfter levels heading next with
        | .error failure => .error failure
        | .ok (routine, last) => .ok (some routine, last) := by
  rw [routine?, bind_apply, andThen]
  cases heading? s with
  | error failure => rfl
  | ok read =>
    obtain ⟨heading, next⟩ := read
    cases heading with
    | none => rfl
    | some heading =>
      show (routineAfter levels heading).andThen (fun routine => pure (some routine)) next =
        match routineAfter levels heading next with
        | .error failure => .error failure
        | .ok (routine, last) => .ok (some routine, last)
      rw [andThen]
      cases routineAfter levels heading next <;> rfl

/-- What a reading of routines gives: the headings that it has read, and how it
ends. -/
structure Traced (σ α : Type) where
  headings : List Routine.Heading
  outcome : Except (FailureAt σ) (α × σ)

/-- Reads all routines, as `many (routine? levels)` does, and records their
headings. -/
def routines (levels : Nat) (s : σ) : Traced σ (List Routine) :=
  match heading? s with
  | .error failure => ⟨[], .error failure⟩
  | .ok (none, next) => ⟨[], .ok ([], next)⟩
  | .ok (some heading, next) =>
    match routineAfter levels heading next with
    | .error failure => ⟨[heading], .error failure⟩
    | .ok (routine, last) =>
      if Spot.left last < Spot.left s then
        let others := routines levels last
        ⟨heading :: others.headings,
          others.outcome.map fun (rs, finish) => (routine :: rs, finish)⟩
      else
        ⟨[heading], .ok ([routine], last)⟩
termination_by Spot.left s

/-- The record of headings does not change what is read. -/
theorem routines_outcome (levels : Nat) (s : σ) :
    (routines levels s).outcome = many (routine? levels) s := by
  fun_induction routines levels s with
  | case1 s failure h => rw [many, routine?_apply, h]
  | case2 s next h => rw [many, routine?_apply, h]
  | case3 s heading next h failure h' =>
    rw [many, routine?_apply, h]
    simp only [h']
  | case4 s heading next h routine last h' hlt others ih =>
    rw [many, routine?_apply, h]
    simp only [h', if_pos hlt, ← ih]
    cases others.outcome <;> rfl
  | case5 s heading next h routine last h' hlt =>
    rw [many, routine?_apply, h]
    simp only [h', if_neg hlt]

structure Opening where
  name : Identifier
  vars : Option (DeclSection VarDecl)
  consts : Option (DeclSection ConstDecl)
  origin : Origin

def opening (levels : Nat) : Parser σ Opening := do
  let keyword ← word "program" "at start of source"
  let name ← identifier
  let _ ← symbol ";" "after program name"
  let vars ← varSection? (expression levels)
  let consts ← constSection? (expression levels)
  return ⟨name, vars, consts, keyword.origin⟩

/-- Reads the part of a program after its routines, up to the last point. -/
def closing (levels : Nat) (front : Opening) (routines : List Routine) : Parser σ Program := do
  let body ← block levels
  let _ ← symbol "." "after program body"
  return ⟨front.name, front.vars, front.consts, routines, body, front.origin⟩

def program (levels : Nat) (s : σ) : Traced σ Program :=
  match opening levels s with
  | .error failure => ⟨[], .error failure⟩
  | .ok (front, next) =>
    let middle := routines levels next
    match middle.outcome with
    | .error failure => ⟨middle.headings, .error failure⟩
    | .ok (routines, last) => ⟨middle.headings, closing levels front routines last⟩

def programUntraced (levels : Nat) : Parser σ Program := do
  let front ← opening levels
  let routines ← many (routine? levels)
  closing levels front routines

theorem program_outcome (levels : Nat) (s : σ) :
    (program levels s).outcome = programUntraced levels s := by
  rw [program, programUntraced, bind_apply, andThen]
  cases opening levels s with
  | error failure => rfl
  | ok read =>
    obtain ⟨front, next⟩ := read
    simp only [routines_outcome, bind_apply, andThen]
    cases many (routine? levels) next <;> rfl

def endOfInput : Parser σ Unit := fun s =>
  if Spot.atEnd s then .ok ((), s) else .error (Spot.missing s .endOfInput)

end Parser

namespace Program

/-- The headings of the routines that a reading of tokens meets, and the program
or the error it ends with. -/
def trace (maxDepth : Nat) (tokens : List Token) :
    List Routine.Heading × Except ParseError Program :=
  -- places count the levels themselves, so the recursion is given one more than there may be
  let read := Parser.program (maxDepth + 1) (Place.start maxDepth tokens)
  let whole := do
    let (program, last) ← read.outcome
    let _ ← Parser.endOfInput last
    return program
  (read.headings, whole.mapError (·.report (Token.endOf tokens) maxDepth))

/-- The program that some tokens are, with comments anywhere among them. -/
def parse (maxDepth : Nat) (tokens : List Token) : Except ParseError Program :=
  (trace maxDepth tokens).2

end Program
end PascalSyntax
