import PascalSyntax.Text.Unprinted

/-!
# Quoted characters

A character in a message stands between single quotes.  Six characters have an
escape of their own, an unprinted one is given by its number in hexadecimal, and
any other stands for itself.
-/

namespace PascalSyntax
namespace Text

/-- The number of a character in lower-case hexadecimal, between braces. -/
def numbered (c : Char) : String :=
  "\\u\x7b" ++ String.ofList (Nat.toDigits 16 c.toNat) ++ "\x7d"

/-- What stands between the quotes for a character. -/
def escaped (c : Char) : String :=
  if c = '\x00' then "\\0"
  else if c = '\t' then "\\t"
  else if c = '\n' then "\\n"
  else if c = '\r' then "\\r"
  else if c = '\'' then "\\'"
  else if c = '\\' then "\\\\"
  else if isUnprinted c then numbered c
  else String.singleton c

def quoted (c : Char) : String :=
  "'" ++ escaped c ++ "'"

end Text
end PascalSyntax
