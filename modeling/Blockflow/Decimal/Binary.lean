/-!
# Binary numbers of 64 bits

Numbers with a fraction are kept in the 64-bit binary format, as mantissa and power of two. All
arithmetic is exact on natural numbers; only `Binary64.ofRatio` rounds, to the nearest number and
in the middle to the even mantissa.
-/

namespace Blockflow

/-- A number of the 64-bit binary format. A finite number is `±mantissa · 2^exponent`, where the
exponent is at least -1074 and as small as a mantissa below `2^53` allows. -/
inductive Binary64 where
  | finite (negative : Bool) (mantissa : Nat) (exponent : Int)
  | infinite (negative : Bool)
  | undefined
deriving DecidableEq, Repr

namespace Binary64

/-- The natural number nearest to `num / den`; the even one in the middle. -/
def roundDiv (num den : Nat) : Nat :=
  let quotient := num / den
  let remainder := num % den
  if 2 * remainder < den || (2 * remainder == den && quotient % 2 == 0) then quotient
  else quotient + 1

/-- The least mantissa of full length, `2^52`. -/
def leastFull : Nat := 0x10000000000000

/-- Numerator and denominator of `num / (den · 2^power)`. -/
def scaled (num den : Nat) (power : Int) : Nat × Nat :=
  if 0 ≤ power then (num, den * Nat.pow 2 power.toNat) else (num * Nat.pow 2 (-power).toNat, den)

/-- A mantissa and a power of two as a number; beyond the largest one it is infinite. -/
def pack (negative : Bool) (mantissa : Nat) (power : Int) : Binary64 :=
  if 971 < power then .infinite negative else .finite negative mantissa power

/-- The number nearest to `±num / den`. -/
def ofRatio (negative : Bool) (num den : Nat) : Binary64 :=
  if num = 0 then .finite negative 0 (-1074)
  else
    let magnitude : Int := (num.log2 : Int) - (den.log2 : Int)
    let high := scaled num den (magnitude - 52)
    let power :=
      max (if high.1 / high.2 < leastFull then magnitude - 53 else magnitude - 52) (-1074)
    let (a, b) := scaled num den power
    let mantissa := roundDiv a b
    if mantissa = 2 * leastFull then pack negative leastFull (power + 1)
    else pack negative mantissa power

/-- How many decimal digits a natural number has. -/
def digitCount (n : Nat) : Nat := (Nat.toDigits 10 n).length

/-- The number nearest to `±digits · 10^exponent`. What lies far outside the range of the format is
decided by the size of the exponent alone. -/
def ofDecimal (negative : Bool) (digits : Nat) (exponent : Int) : Binary64 :=
  if digits = 0 then .finite negative 0 (-1074)
  else if 400 < (digitCount digits : Int) + exponent then .infinite negative
  else if (digitCount digits : Int) + exponent < -400 then .finite negative 0 (-1074)
  else if 0 ≤ exponent then ofRatio negative (digits * Nat.pow 10 exponent.toNat) 1
  else ofRatio negative digits (Nat.pow 10 (-exponent).toNat)

/-- The number nearest to a whole number. -/
def ofInt (n : Int) : Binary64 := ofDecimal (n < 0) n.natAbs 0

def isZero : Binary64 → Bool
  | .finite _ mantissa _ => mantissa == 0
  | _ => false

end Binary64

end Blockflow
