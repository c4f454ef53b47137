import PascalSyntax.Parser.Terminal

/-!
# Spots and readers

A reader of the grammar goes among tokens from spot to spot: it sees the token
at a spot, goes on to the next one, and runs other readers one level of nesting
further in.  The readers are the same on every kind of spots.  They run on the
places among all tokens (`Place`), and what they read is understood on the
cursors among the tokens that the grammar sees (`Cursor`).
-/

namespace PascalSyntax

inductive Reason where
  | expected (what : Expectation)
  | integerOutOfRange (literal : Token)
  | nestingTooDeep
deriving DecidableEq, Repr

structure FailureAt (σ : Type) where
  reason : Reason
  stop : σ

/-- A reader gives a value and the spot past what it has read, or fails.  The
first failure ends the reading: nothing is tried again after it. -/
def Parser (σ α : Type) : Type :=
  σ → Except (FailureAt σ) (α × σ)

class Spot (σ : Type) where
  peek? : σ → Option Token
  atEnd : σ → Bool
  /-- The spot after the token at a spot; the end stays where it is. -/
  advance : σ → σ
  /-- A number that is smaller at a later spot, so that progress can be told. -/
  left : σ → Nat
  /-- Runs a reader one level of nesting further in. -/
  nested : {α : Type} → Parser σ α → Parser σ α

namespace Spot

variable {σ : Type} [Spot σ]

/-- The position of the token at a spot.  At the end it is `finish`, the
position just past the last token that was written. -/
def location (s : σ) (finish : Position) : Position :=
  match peek? s with
  | some t => t.position
  | none => finish

def check (s : σ) (terminal : Terminal) : Bool :=
  match peek? s with
  | some t => terminal.admits t
  | none => false

def take? (s : σ) (terminal : Terminal) : Option (Token × σ) :=
  match peek? s with
  | some t => if terminal.admits t then some (t, advance s) else none
  | none => none

/-- The failure to find something at a spot. -/
def missing (s : σ) (what : Expectation) : FailureAt σ :=
  ⟨.expected what, s⟩

/-- Reads an instance of a terminal, which has to be there. -/
def take (s : σ) (terminal : Terminal) (place : Option String) :
    Except (FailureAt σ) (Token × σ) :=
  match take? s terminal with
  | some read => .ok read
  | none => .error (missing s (.oneOf [terminal] place))

end Spot
end PascalSyntax
