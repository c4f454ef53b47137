import PascalSyntax.Token.Basic

/-!
# Colours

A palette paints a text by the control sequences of a terminal, or leaves it
alone.
-/

namespace PascalSyntax

/-- A colour, by its shares of red, green and blue from 0 to 255. -/
structure Color where
  red : Nat
  green : Nat
  blue : Nat
deriving DecidableEq, Repr

structure Theme where
  keyword : Color := ⟨137, 180, 250⟩
  identifier : Color := ⟨205, 214, 244⟩
  number : Color := ⟨250, 179, 135⟩
  string : Color := ⟨166, 227, 161⟩
  comment : Color := ⟨108, 112, 134⟩
  symbol : Color := ⟨148, 226, 213⟩
  node : Color := ⟨249, 226, 175⟩
  position : Color := ⟨108, 112, 134⟩
deriving DecidableEq, Repr

def Theme.ofKind (theme : Theme) : Token.Kind → Color
  | .symbol => theme.symbol
  | .reservedWord => theme.keyword
  | .identifier => theme.identifier
  | .number => theme.number
  | .string => theme.string
  | .comment => theme.comment

/-- A theme, and whether it is used at all. -/
structure Palette where
  theme : Theme := {}
  enabled : Bool
deriving DecidableEq, Repr

namespace Palette

def plain : Palette := { enabled := false }

/-- The palette that paints every text, also an empty one. -/
def colored : Palette := { enabled := true }

/-- A text in a colour: the colour is switched on before the text and off after
it. -/
def paint (palette : Palette) (color : Color) (text : String) : String :=
  if palette.enabled then
    s!"\x1b[38;2;{color.red};{color.green};{color.blue}m" ++ text ++ "\x1b[39m"
  else
    text

end Palette
end PascalSyntax
