import PascalSyntax.Command.Sink

/-!
# Printers

A printer writes to a sink, piece by piece.  As soon as a piece does not fit it
stops, and whatever was to come after that piece is not written.
-/

namespace PascalSyntax

/-- What a printer makes of a sink, and whether everything did fit. -/
def Printer : Type := Sink → Sink × Bool

namespace Printer

def nothing : Printer := fun sink => (sink, true)

def write (s : String) : Printer := fun sink => sink.write s

def andThen (first second : Printer) : Printer := fun sink =>
  match first sink with
  | (next, true) => second next
  | (next, false) => (next, false)

instance : Append Printer := ⟨andThen⟩

def each (print : α → Printer) : List α → Printer
  | [], sink => (sink, true)
  | x :: xs, sink => (print x ++ each print xs) sink

/-- What a printer writes when there is no end of room. -/
def bytes (print : Printer) : ByteArray := (print { room := none }).1.taken

end Printer
end PascalSyntax
