/-!
# Hexadecimal digits

The sixteen digits with letters of either case, and the number that a sequence of digits names.
-/

namespace CiPipeline.Text

def hexValue? (c : Char) : Option Nat :=
  if c.isDigit then some (c.toNat - '0'.toNat)
  else if 'a' ≤ c ∧ c ≤ 'f' then some (c.toNat - 'a'.toNat + 10)
  else if 'A' ≤ c ∧ c ≤ 'F' then some (c.toNat - 'A'.toNat + 10)
  else none

def isHexDigit (c : Char) : Bool := (hexValue? c).isSome

/-- The number that digits name in a base of at most sixteen, other characters left aside. -/
def digitsToNat (base : Nat) (digits : List Char) : Nat :=
  (digits.filterMap hexValue?).foldl (fun n digit => n * base + digit) 0

end CiPipeline.Text
