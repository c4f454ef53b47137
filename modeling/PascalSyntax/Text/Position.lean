/-!
# Positions in a text

A position is a line and a column, both counted from one, and a column counts
characters.  Only a line feed starts a new line.
-/

namespace PascalSyntax

/-- A place in a text: its line and its column in characters, both counted from
1. -/
structure Position where
  line : Nat
  column : Nat
deriving DecidableEq, Repr

namespace Position

def start : Position := ⟨1, 1⟩

def next (p : Position) (c : Char) : Position :=
  if c = '\n' then ⟨p.line + 1, 1⟩ else ⟨p.line, p.column + 1⟩

def after (p : Position) (text : List Char) : Position :=
  text.foldl next p

@[simp] theorem after_nil (p : Position) : p.after [] = p := rfl

@[simp] theorem after_cons (p : Position) (c : Char) (text : List Char) :
    p.after (c :: text) = (p.next c).after text := rfl

@[simp] theorem after_append (p : Position) (front back : List Char) :
    p.after (front ++ back) = (p.after front).after back := by
  simp [after]

def describe (p : Position) : String :=
  s!"line {p.line}, column {p.column}"

end Position
end PascalSyntax
