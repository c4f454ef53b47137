import PascalSyntax.Token.Basic

/-!
# Terminals and expectations

A symbol or a word stands for the one token with that spelling, the other
terminals for every token of a kind.  An expectation says what would have been
right at the place of an error.
-/

namespace PascalSyntax

inductive Terminal where
  | symbol (text : String)
  | word (text : String)
  | identifier
  | number
  | string
deriving DecidableEq, Repr

namespace Terminal

def admits (terminal : Terminal) (t : Token) : Bool :=
  match terminal with
  | .symbol text => t.kind = .symbol && t.text = text
  | .word text => t.kind = .reservedWord && t.text = text
  | .identifier => t.kind = .identifier
  | .number => t.kind = .number
  | .string => t.kind = .string

/-- The terminal in a message: a spelling stands in quotes, a kind is named. -/
def describe : Terminal → String
  | .symbol text => s!"'{text}'"
  | .word text => s!"'{text}'"
  | .identifier => "identifier"
  | .number => "number"
  | .string => "string"

end Terminal

/-- What was expected at the place of an error. -/
inductive Expectation where
  /-- One of some terminals, with a word on the place in the grammar where that
  helps. -/
  | oneOf (terminals : List Terminal) (place : Option String)
  | statement
  | expression
  /-- Nothing more after the last point. -/
  | endOfInput
  /-- What a caller says in words of its own. -/
  | described (text : String)
deriving DecidableEq, Repr

namespace Expectation

def message : Expectation → String
  | oneOf terminals place =>
    let spelled := " or ".intercalate (terminals.map Terminal.describe)
    match place with
    | some place => spelled ++ " " ++ place
    | none => spelled
  | statement => "statement"
  | expression => "expression"
  | endOfInput => "end of input after '.'"
  | described text => text

end Expectation
end PascalSyntax
