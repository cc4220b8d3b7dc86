/-! # Double-precision numbers

The numbers of the 64-bit binary format as exact values: a significand times a power of two.
`ofDecimal` rounds a decimal to the nearest of them, a tie to the even significand, and `text`
writes the fewest decimal digits that round back, the nearest such decimal and of two equally near
ones the one farther from zero, without an exponent and always with a point. -/

namespace ArchivePlan

/-- A number of the 64-bit binary format. -/
inductive Binary64 where
  | nan
  | infinite (negative : Bool)
  /-- The number `significand * 2 ^ exponent`, or its negative. -/
  | finite (negative : Bool) (significand : Nat) (exponent : Int)
  deriving DecidableEq, Repr

namespace Binary64

/-- The least exponent of a finite number. -/
def minExponent : Int := -1074

/-- The greatest exponent of a finite number. -/
def maxExponent : Int := 971

/-- The number of bits of a significand. -/
def precision : Nat := 53

/-- The quotient of two numbers, rounded to the nearest, a tie to the even one. -/
def roundQuotient (num den : Nat) : Nat :=
  let quotient := num / den
  let twice := 2 * (num % den)
  if den < twice ∨ (den = twice ∧ quotient % 2 = 1) then quotient + 1 else quotient

/-- The ratio `num / den` divided by `base ^ exponent`. -/
def scale (base : Nat) (exponent : Int) (num den : Nat) : Nat × Nat :=
  if 0 ≤ exponent then (num, den * base.pow exponent.toNat)
  else (num * base.pow (-exponent).toNat, den)

/-- The power of two at or below a positive ratio. -/
def binaryOrder (num den : Nat) : Int :=
  let guess : Int := num.log2 - den.log2
  let (a, b) := scale 2 guess num den
  if a < b then guess - 1 else guess

/-- The number nearest to a ratio. -/
def ofRatio (negative : Bool) (num den : Nat) : Binary64 :=
  if num = 0 then .finite negative 0 minExponent
  else
    let exponent := max (binaryOrder num den - (precision - 1)) minExponent
    let (a, b) := scale 2 exponent num den
    let significand := roundQuotient a b
    let (significand, exponent) :=
      if significand = Nat.pow 2 precision then (Nat.pow 2 (precision - 1), exponent + 1)
      else (significand, exponent)
    if maxExponent < exponent then .infinite negative
    else .finite negative significand exponent

/-- The number nearest to `digits * 10 ^ exponent`.  Decimals of more than 310 digits before the
point are infinite, and those with more than 330 zeros behind it are zero. -/
def ofDecimal (negative : Bool) (digits : Nat) (exponent : Int) : Binary64 :=
  let order := exponent + (Nat.toDigits 10 digits).length
  if digits ≠ 0 ∧ 310 < order then .infinite negative
  else if digits = 0 ∨ order < -330 then .finite negative 0 minExponent
  else
    let (num, den) := scale 10 (-exponent) digits 1
    ofRatio negative num den

/-- The least power of ten above a positive ratio. -/
def decimalOrder (num den : Nat) : Int :=
  let guess := binaryOrder num den * 30103 / 100000
  let above (k : Int) : Bool :=
    let (a, b) := scale 10 k num den
    a < b
  ([guess - 1, guess, guess + 1, guess + 2].find? above).getD (guess + 2)

/-- A decimal `digits * 10 ^ exponent`. -/
structure Decimal where
  digits : Nat
  exponent : Int
  deriving DecidableEq, Repr

/-- The point on the grid of multiples of `10 ^ exponent` that rounds to a number and lies nearest
to it, if there is one.  A number halfway between two points takes the greater. -/
def gridPoint? (significand : Nat) (power : Int) (exponent : Int) : Option Decimal :=
  let lowGap := if significand = Nat.pow 2 (precision - 1) ∧ minExponent < power then 1 else 2
  let (unitNum, unitDen) := scale 2 (2 - power) 1 1
  let (a, b) := scale 10 exponent unitNum unitDen
  let value := 4 * significand * a
  let low := (4 * significand - lowGap) * a
  let high := (4 * significand + 2) * a
  let inside (d : Nat) : Bool :=
    if significand % 2 = 0 then low ≤ d * b && d * b ≤ high else low < d * b && d * b < high
  let below := value / b
  let above := below + 1
  match inside below, inside above with
  | true, true =>
    some ⟨if value - below * b < above * b - value then below else above, exponent⟩
  | true, false => some ⟨below, exponent⟩
  | false, true => some ⟨above, exponent⟩
  | false, false => none

/-- The decimal with the fewest digits that rounds to a positive number. -/
def shortest (significand : Nat) (power : Int) : Decimal :=
  let (num, den) := scale 2 (-power) significand 1
  let order := decimalOrder num den
  let grids := (List.range 18).map fun (n : Nat) => order - (n : Int)
  (grids.findSome? (gridPoint? significand power)).getD ⟨0, 0⟩

/-- The digits of a decimal around a point. -/
def Decimal.text (d : Decimal) : List Char :=
  let digits := Nat.toDigits 10 d.digits
  if 0 ≤ d.exponent then digits ++ List.replicate d.exponent.toNat '0' ++ ['.', '0']
  else
    let places := (-d.exponent).toNat
    let digits := List.replicate (places + 1 - digits.length) '0' ++ digits
    digits.take (digits.length - places) ++ '.' :: digits.drop (digits.length - places)

def text : Binary64 → String
  | .nan => "NaN"
  | .infinite negative => if negative then "-inf" else "inf"
  | .finite negative significand exponent =>
    let digits :=
      if significand = 0 then ['0', '.', '0'] else (shortest significand exponent).text
    String.ofList (if negative then '-' :: digits else digits)

end Binary64

end ArchivePlan
