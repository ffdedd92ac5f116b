import CiPipeline.Binary64
import CiPipeline.Json.Token

/-!
# Sizes of JSON numbers

Which numbers have a double. The digits of a number are taken into a significand of 64 bits, which
is then scaled by a power of ten. Significand and power are each rounded to a double before they
are multiplied, so near the end of the range the outcome hangs on how a number is written.
-/

namespace CiPipeline.Json

/-- Takes digits behind those of a significand as long as 64 bits hold it: the new significand and
the digits that are left. -/
def absorb (significand : Nat) : List Char → Nat × List Char
  | [] => (significand, [])
  | digit :: rest =>
      let next := Nat.ofDigitChars 10 [digit] significand
      if next < UInt64.size then absorb next rest else (significand, digit :: rest)

/-- The number `significand * 10 ^ scale`. -/
structure Scaled where
  significand : Nat
  scale : Int
deriving DecidableEq

namespace Scaled

def exponentOf (text : List Char) : Int :=
  match text with
  | _ :: '-' :: digits => -(Nat.ofDigitChars 10 digits 0 : Nat)
  | _ :: '+' :: digits => (Nat.ofDigitChars 10 digits 0 : Nat)
  | _ :: digits => (Nat.ofDigitChars 10 digits 0 : Nat)
  | [] => 0

/-- The size of a number, its sign left aside. Digits for which the significand has no room count
in the whole part for the scale only, and in the fraction not at all. -/
def ofText (text : List Char) : Scaled :=
  let size := if text.head? = some '-' then text.tail else text
  let rest := size.dropWhile isDigit
  let fraction := if rest.head? = some '.' then rest.tail.takeWhile isDigit else []
  let exponent := if rest.head? = some '.' then rest.tail.dropWhile isDigit else rest
  let (significand, leftOfWhole) := absorb 0 (size.takeWhile isDigit)
  let (significand, leftOfFraction) := absorb significand fraction
  ⟨significand,
    exponentOf exponent + leftOfWhole.length - (fraction.length - leftOfFraction.length)⟩

def isFinite (x : Scaled) : Bool :=
  if x.significand = 0 ∨ x.scale < 0 then true
  else if x.scale > 308 then false
  else
    Binary64.isFinite
      (Binary64.nearest x.significand * Binary64.nearest (Nat.pow 10 x.scale.toNat))

end Scaled

def isFiniteNumber (text : List Char) : Bool := (Scaled.ofText text).isFinite

example : Scaled.ofText "-12.50e3".toList = ⟨1250, 1⟩ := by decide +kernel

example : isFiniteNumber "1.79769313486231585e308".toList = true := by decide +kernel

example : isFiniteNumber "1.7976931348623158e308".toList = false := by decide +kernel

end CiPipeline.Json
