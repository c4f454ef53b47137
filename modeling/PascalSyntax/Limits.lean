/-!
# Limits

A source is read under two bounds.  The depth bound limits how deep statements
and expressions may nest, and so how deep any recursion over the source goes.
The token bound limits how many tokens one source may have, comments counted.
-/

namespace PascalSyntax

structure Limits where
  maxDepth : Nat := 64
  maxTokens : Nat := 1000000
deriving DecidableEq, Repr

namespace Limits

def standard : Limits := {}

end Limits
end PascalSyntax
