import PascalSyntax.Parser.Spot

/-!
# Cursors

A cursor is a spot among the tokens that the grammar sees, comments left out,
and holds the tokens from there on.  It also holds their number, so that
progress can be told at no cost.  It does not know how many levels of nesting it
is inside.
-/

namespace PascalSyntax

structure Cursor where
  /-- The tokens still to be read. -/
  rest : List Token
  left : Nat := rest.length
  left_eq : left = rest.length := by rfl

abbrev Failure := FailureAt Cursor

namespace Cursor

/-- The tokens still to be read tell all of a cursor. -/
@[ext] theorem ext {c d : Cursor} (h : c.rest = d.rest) : c = d := by
  cases c with
  | mk rest left left_eq =>
    cases d with
    | mk rest' left' left_eq' =>
      cases h
      cases left_eq
      cases left_eq'
      rfl

def ofTokens (tokens : List Token) : Cursor :=
  { rest := Token.significant tokens }

@[simp] theorem ofTokens_rest (tokens : List Token) :
    (ofTokens tokens).rest = Token.significant tokens := rfl

def peek? (c : Cursor) : Option Token :=
  c.rest.head?

def atEnd (c : Cursor) : Bool :=
  c.rest.isEmpty

def advance (c : Cursor) : Cursor where
  rest := c.rest.tail
  left := c.left - 1
  left_eq := by rw [c.left_eq, List.length_tail]

@[simp] theorem advance_rest (c : Cursor) : c.advance.rest = c.rest.tail := rfl

/-- The levels of nesting are counted by the readers alone. -/
instance : Spot Cursor where
  peek? := peek?
  atEnd := atEnd
  advance := advance
  left := left
  nested p := p

abbrev location (c : Cursor) (finish : Position) : Position :=
  Spot.location c finish

abbrev check (c : Cursor) (terminal : Terminal) : Bool :=
  Spot.check c terminal

abbrev take? (c : Cursor) (terminal : Terminal) : Option (Token × Cursor) :=
  Spot.take? c terminal

abbrev missing (c : Cursor) (what : Expectation) : Failure :=
  Spot.missing c what

abbrev take (c : Cursor) (terminal : Terminal) (place : Option String) :
    Except Failure (Token × Cursor) :=
  Spot.take c terminal place

end Cursor
end PascalSyntax
