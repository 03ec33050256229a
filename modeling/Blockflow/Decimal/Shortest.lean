import Blockflow.Decimal.Binary

/-!
# Shortest decimals

The decimal with the fewest digits that reads back as a given binary number, and of those the one
nearest to it. The digits are searched grid by grid: on the grid of `n`-digit decimals only the two
neighbours of the value can be nearest, so each grid needs two tests in exact arithmetic. How the
digits are laid out (positional or with an exponent) is a `DecimalStyle`.
-/

namespace Blockflow

namespace Binary64

/-- The decimal exponent of `num / den`, that is the `p` with `10^p ≤ num / den < 10^(p+1)`. -/
def decimalExponent (num den : Nat) : Int :=
  if den ≤ num then (digitCount (num / den) : Int) - 1 else -(digitCount ((den - 1) / num) : Int)

/-- The nearest decimal of `count` digits that reads back as `mantissa · 2^exponent`, if one does.
The answer is the digits as a number; they count units of `10^(point - count + 1)`.

A decimal reads back when it lies between the midpoints to the two neighbouring binary numbers; the
midpoints themselves read back when the mantissa is even. All quantities are in quarters of a unit
of the mantissa, because the lower neighbour of a power of two is half as far. -/
def readsBack? (mantissa : Nat) (exponent point : Int) (count : Nat) : Option Nat :=
  let grid : Int := point - count + 1
  let step := (if 0 ≤ grid then Nat.pow 10 grid.toNat else 1) *
    (if exponent - 2 < 0 then Nat.pow 2 (2 - exponent).toNat else 1)
  let quarter := (if 0 ≤ exponent - 2 then Nat.pow 2 (exponent - 2).toNat else 1) *
    (if grid < 0 then Nat.pow 10 (-grid).toNat else 1)
  let value := 4 * mantissa * quarter
  let below := if mantissa = leastFull && -1074 < exponent then quarter else 2 * quarter
  let low := value - below
  let high := value + 2 * quarter
  let inside (n : Nat) : Bool :=
    if mantissa % 2 = 0 then low ≤ n * step && n * step ≤ high
    else low < n * step && n * step < high
  let floor := value / step
  let left := value - floor * step
  let right := (floor + 1) * step - value
  match inside floor, inside (floor + 1) with
  | true, true =>
    if left < right || (left == right && floor % 2 == 0) then some floor else some (floor + 1)
  | true, false => some floor
  | false, true => some (floor + 1)
  | false, false => none

/-- Drop the zeros at the end of a run of digits, but not the first digit. -/
def dropZeros (digits : List Char) : List Char :=
  match (digits.reverse.dropWhile (· == '0')).reverse with
  | [] => ['0']
  | kept => kept

/-- The fewest digits that read back as `mantissa · 2^exponent`, and the decimal exponent of the
first of them. Seventeen digits are always enough. -/
def shortest (mantissa : Nat) (exponent : Int) : List Char × Int :=
  if mantissa = 0 then (['0'], 0)
  else
    let (num, den) := scaled mantissa 1 (-exponent)
    let point := decimalExponent num den
    match (List.range 17).findSome? fun i =>
        (readsBack? mantissa exponent point (i + 1)).map fun n => (n, i + 1) with
    | some (n, count) =>
      let digits := Nat.toDigits 10 n
      (dropZeros digits, point + digits.length - count)
    | none => (['0'], 0)

end Binary64

/-- How the digits of a decimal are laid out. -/
structure DecimalStyle where
  /-- the least decimal exponent that is written without an exponent -/
  leastPlain : Int
  /-- from this decimal exponent on an exponent is written -/
  firstScaled : Int
  /-- is the sign of a positive exponent written? -/
  plusSign : Bool
  /-- the least number of digits of an exponent -/
  exponentWidth : Nat

namespace DecimalStyle

/-- The style of numbers in messages and in expressions: `100000.0`, `1e+16`, `1e-07`. -/
def message : DecimalStyle := ⟨-4, 16, true, 2⟩

/-- The style of numbers in stored files: `100000.0`, `1e+16`, `1e-7`. -/
def file : DecimalStyle := ⟨-5, 16, true, 1⟩

/-- Digits whose first one has the given decimal exponent, laid out; there is always a point or an
exponent. -/
def layout (style : DecimalStyle) (digits : List Char) (point : Int) : List Char :=
  if style.leastPlain ≤ point && point < style.firstScaled then
    if point < 0 then '0' :: '.' :: List.replicate ((-point).toNat - 1) '0' ++ digits
    else
      let whole := point.toNat + 1
      if digits.length ≤ whole then
        digits ++ List.replicate (whole - digits.length) '0' ++ ['.', '0']
      else digits.take whole ++ '.' :: digits.drop whole
  else
    let lead := match digits with
      | [] => []
      | [d] => [d]
      | d :: rest => d :: '.' :: rest
    let size := Nat.toDigits 10 point.natAbs
    let sign := if point < 0 then ['-'] else if style.plusSign then ['+'] else []
    lead ++ 'e' :: sign ++ List.replicate (style.exponentWidth - size.length) '0' ++ size

/-- The text of a number. -/
def write (style : DecimalStyle) : Binary64 → String
  | .finite negative mantissa exponent =>
    let (digits, point) := Binary64.shortest mantissa exponent
    String.ofList ((if negative then ['-'] else []) ++ style.layout digits point)
  | .infinite negative => if negative then "-inf" else "inf"
  | .undefined => "nan"

end DecimalStyle

end Blockflow
