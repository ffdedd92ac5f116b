/-!
# Rounding to doubles

The numbers of the format `binary64` as rationals: which of them is nearest to a given rational,
and how it is laid out in 64 bits. Arithmetic on doubles is exact arithmetic with `nearest` after
each operation.
-/

namespace CiPipeline.Binary64

/-- Whether `2 ^ exponent ≤ num / den`. -/
def reaches (num den : Nat) (exponent : Int) : Bool :=
  den <<< exponent.toNat ≤ num <<< (-exponent).toNat

/-- The exponent of the unit in the last place: significands have 53 bits, and no unit is below
`2 ^ (-1074)`. -/
def unitExponent (num den : Nat) : Int :=
  let guess : Int := (num.log2 : Int) - (den.log2 : Int)
  let exponent := if reaches num den guess then guess else guess - 1
  max (exponent - 52) (-1074)

/-- The whole number nearest to a quotient; a tie goes to the even one. -/
def roundQuotient (num den : Nat) : Nat :=
  let whole := num / den
  let twice := 2 * (num % den)
  if twice < den ∨ (twice = den ∧ whole % 2 = 0) then whole else whole + 1

def significand (num den : Nat) : Nat :=
  let unit := unitExponent num den
  roundQuotient (num <<< (-unit).toNat) (den <<< unit.toNat)

def powerOfTwo (exponent : Int) : Rat :=
  mkRat (1 <<< exponent.toNat : Nat) (1 <<< (-exponent).toNat)

/-- The double nearest to a rational, for rationals within the range of finite doubles. -/
def nearest (q : Rat) : Rat :=
  let num := q.num.natAbs
  if num = 0 then 0
  else
    let size := (significand num q.den : Rat) * powerOfTwo (unitExponent num q.den)
    if q.num < 0 then -size else size

def bits (q : Rat) : Nat :=
  let num := q.num.natAbs
  let size :=
    if num = 0 then 0
    else (unitExponent num q.den + 1074).toNat <<< 52 + significand num q.den
  if q.num < 0 then 1 <<< 63 + size else size

def isFinite (q : Rat) : Bool := q.num.natAbs < (1 <<< 1024 - 1 <<< 970) * q.den

@[simp] theorem nearest_zero : nearest 0 = 0 := by simp [nearest]

example : nearest (1 / 10) = mkRat 3602879701896397 36028797018963968 := by decide +kernel

example : bits 1 = 0x3ff0000000000000 ∧ bits (1 / 10) = 0x3fb999999999999a := by decide +kernel

end CiPipeline.Binary64
