import PascalSyntax.Parser.Spot

/-!
# Errors of a reading

A failure says at which spot the reading stopped.  The error that is reported
for it also has a position at the end of input, which only the whole list of
tokens tells, and the bound on the nesting.
-/

namespace PascalSyntax

inductive ParseError where
  | unexpectedToken (expected : Expectation) (found : Token)
  | missingTerminal (expected : Expectation) (position : Position)
  | integerOutOfRange (literal : Token)
  | nestingTooDeep (limit : Nat) (position : Position)
deriving DecidableEq, Repr

namespace ParseError

def position : ParseError → Position
  | unexpectedToken _ found => found.position
  | missingTerminal _ position => position
  | integerOutOfRange literal => literal.position
  | nestingTooDeep _ position => position

def message (e : ParseError) : String :=
  let place := e.position.describe
  match e with
  | unexpectedToken expected found =>
    s!"expected {expected.message}, found {found.describe} at {place}"
  | missingTerminal expected _ => s!"expected {expected.message} at {place}, found end of input"
  | integerOutOfRange literal => s!"integer literal {literal.text} is out of range at {place}"
  | nestingTooDeep limit _ => s!"nesting deeper than {limit} levels at {place}"

end ParseError

/-- The error that a failure is, for a list of tokens that ends at `finish` and
a bound of `maxDepth` levels. -/
def FailureAt.report [Spot σ] (failure : FailureAt σ) (finish : Position) (maxDepth : Nat) :
    ParseError :=
  match failure.reason with
  | .expected what =>
    match Spot.peek? failure.stop with
    | some found => .unexpectedToken what found
    | none => .missingTerminal what finish
  | .integerOutOfRange literal => .integerOutOfRange literal
  | .nestingTooDeep => .nestingTooDeep maxDepth (Spot.location failure.stop finish)

end PascalSyntax
