/-!
# Decimal numerals

A numeral is one or more decimal digits, after at most one sign, and it is
refused when its value does not fit its size.
-/

namespace PascalSyntax
namespace Numeral

def value (digits : List Char) : Nat :=
  digits.foldl (fun n c => 10 * n + (c.toNat - '0'.toNat)) 0

/-- The value of one or more decimal digits; nothing else has one. -/
def magnitude? (text : List Char) : Option Nat :=
  if text ≠ [] ∧ text.all Char.isDigit then some (value text) else none

/-- The greatest signed number of 64 bits, which is `2^63 - 1`. -/
def maxSigned : Nat := 9223372036854775807

/-- The greatest unsigned number of 64 bits, which is `2^64 - 1`. -/
def maxUnsigned : Nat := 18446744073709551615

/-- A numeral with at most one sign, from `-2^63` to `2^63 - 1`. -/
def signed? (text : List Char) : Option Int :=
  match text with
  | '-' :: digits => do
    let n ← magnitude? digits
    if n ≤ maxSigned + 1 then some (-n) else none
  | '+' :: digits => do
    let n ← magnitude? digits
    if n ≤ maxSigned then some n else none
  | digits => do
    let n ← magnitude? digits
    if n ≤ maxSigned then some n else none

/-- A numeral without a minus sign, up to `2^64 - 1`. -/
def unsigned? (text : List Char) : Option Nat :=
  let digits := match text with
    | '+' :: digits => digits
    | digits => digits
  do
    let n ← magnitude? digits
    if n ≤ maxUnsigned then some n else none

end Numeral
end PascalSyntax
