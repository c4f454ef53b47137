import PascalSyntax.Listing.Palette
import PascalSyntax.Listing.Printer

/-!
# The listing of tokens

The listing has one line for each token, with its kind, its text and where it
starts.  A comment over several lines stays on one line of the listing, since
its line feeds are escaped.
-/

namespace PascalSyntax
namespace Token

/-- A text on one line: a backslash and the letter n stand for a line feed. -/
def onOneLine (text : String) : String :=
  String.ofList (text.toList.flatMap fun c => if c = '\n' then ['\\', 'n'] else [c])

def listingLine (palette : Palette) (t : Token) : String :=
  let color := palette.theme.ofKind t.kind
  palette.paint color t.kind.name ++ ": " ++ palette.paint color (onOneLine t.text) ++
    s!" ({t.position.line}, {t.position.column})\n"

def listing (palette : Palette) (tokens : List Token) : List String :=
  tokens.map (listingLine palette)

open Printer in
def printLine (palette : Palette) (t : Token) : Printer :=
  let color := palette.theme.ofKind t.kind
  write (palette.paint color t.kind.name) ++ write ": " ++
    write (palette.paint color (onOneLine t.text)) ++ write " (" ++
    write (toString t.position.line) ++ write ", " ++ write (toString t.position.column) ++
    write ")\n"

def print (palette : Palette) (tokens : List Token) : Printer :=
  Printer.each (printLine palette) tokens

end Token
end PascalSyntax
