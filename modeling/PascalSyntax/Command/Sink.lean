/-!
# Sinks

A sink takes bytes as long as it has room for them.  A text that does not fit is
taken as far as it fits, cut between any two bytes, and from then on the sink is
full.
-/

namespace PascalSyntax

/-- Where output goes: the bytes taken so far, and the room that is left unless
it is unlimited. -/
structure Sink where
  taken : ByteArray := .empty
  room : Option Nat

namespace Sink

/-- The sink after a text, and whether all of it did fit. -/
def write (sink : Sink) (text : String) : Sink × Bool :=
  let bytes := text.toUTF8
  match sink.room with
  | none => (⟨sink.taken ++ bytes, none⟩, true)
  | some room =>
    if bytes.size ≤ room then
      (⟨sink.taken ++ bytes, some (room - bytes.size)⟩, true)
    else
      (⟨sink.taken ++ bytes.extract 0 room, some 0⟩, false)

end Sink
end PascalSyntax
