/-! # Numerals

Reading runs of digits in bases up to sixteen, and signed 64-bit decimals.  `read?` accepts exactly
the non-empty runs of digits of its base and gives their value. -/

namespace ArchivePlan.Numeral

/-- The value of a digit, if the base has that digit. -/
def digit? (base : Nat) (c : Char) : Option Nat :=
  let value :=
    if '0' ≤ c ∧ c ≤ '9' then some (c.toNat - 48)
    else if 'a' ≤ c ∧ c ≤ 'f' then some (c.toNat - 87)
    else if 'A' ≤ c ∧ c ≤ 'F' then some (c.toNat - 55)
    else none
  value.filter (· < base)

/-- Reads digits behind the value of those read so far. -/
def readFrom (base value : Nat) : List Char → Option Nat
  | [] => some value
  | c :: rest =>
    match digit? base c with
    | some d => readFrom base (value * base + d) rest
    | none => none

/-- The value of a non-empty run of digits. -/
def read? (base : Nat) : List Char → Option Nat
  | [] => none
  | digits => readFrom base 0 digits

/-- Splits a sign from the digits behind it: whether it is a minus, and the rest. -/
def signed : List Char → Bool × List Char
  | '-' :: rest => (true, rest)
  | '+' :: rest => (false, rest)
  | digits => (false, digits)

/-- A decimal with an optional sign, if it fits in 64 bits. -/
def int64? (text : List Char) : Option Int :=
  let (negative, digits) := signed text
  match read? 10 digits with
  | none => none
  | some n =>
    let value : Int := if negative then -(n : Int) else n
    if -0x8000000000000000 ≤ value ∧ value < 0x8000000000000000 then some value else none

/-- The digits of a number in a base, with zeros in front up to a width. -/
def padded (base width n : Nat) : List Char :=
  let digits := Nat.toDigits base n
  List.replicate (width - digits.length) '0' ++ digits

end ArchivePlan.Numeral
