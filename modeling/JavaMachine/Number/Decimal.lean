import JavaMachine.Number.FloatingPoint

/-! # Decimal text of floating-point numbers

A finite number is written with the fewest digits that read back as the same number, and among
those with the nearest ones; of two equally near the larger is taken. Numbers whose first digit
stands at one of the places from thousandths to millions are written positionally, all others with
an exponent; there is always a digit on both sides of the point. -/

namespace JavaMachine

open Float.Model

/-- A decimal: an integer times a power of ten. -/
structure Decimal where
  digits : Nat
  exponent : Int
  deriving DecidableEq, Inhabited

namespace Decimal

/-- A fraction of natural numbers. -/
structure Fraction where
  num : Nat
  den : Nat
  deriving DecidableEq, Inhabited

namespace Fraction

def le (a b : Fraction) : Bool := a.num * b.den ≤ b.num * a.den
def lt (a b : Fraction) : Bool := a.num * b.den < b.num * a.den

/-- A natural number times a power of two. -/
def ofBinary (mantissa : Nat) (exponent : Int) : Fraction :=
  ⟨mantissa <<< exponent.toNat, 1 <<< (-exponent).toNat⟩

/-- A natural number times a power of ten. -/
def ofDecimal (digits : Nat) (exponent : Int) : Fraction :=
  ⟨digits * Nat.pow 10 exponent.toNat, Nat.pow 10 (-exponent).toNat⟩

/-- The integral part of a fraction in units of a power of ten. -/
def floorAt (a : Fraction) (exponent : Int) : Nat :=
  (a.num * Nat.pow 10 (-exponent).toNat) / (a.den * Nat.pow 10 exponent.toNat)

end Fraction

/-- The numbers that round to a given one. -/
structure Interval where
  low : Fraction
  value : Fraction
  high : Fraction
  closed : Bool

namespace Interval

/-- What rounds to a mantissa times a power of two. Below the smallest mantissa of its length the
next number is only half as far away. -/
def ofBinary (format : Format) (mantissa : Nat) (exponent : Int) : Interval :=
  let below := if mantissa = 1 <<< format.mantissaBitsWithoutImplicit then 1 else 2
  { low := .ofBinary (4 * mantissa - below) (exponent - 2)
    value := .ofBinary mantissa exponent
    high := .ofBinary (4 * mantissa + 2) (exponent - 2)
    closed := mantissa % 2 = 0 }

/-- Whether a number lies in an interval. -/
def contains (interval : Interval) (number : Fraction) : Bool :=
  if interval.closed then interval.low.le number && number.le interval.high
  else interval.low.lt number && number.lt interval.high

/-- Of the two neighbours of the value among the multiples of a power of ten, the nearer one that
lies in the interval. -/
def nearest? (interval : Interval) (exponent : Int) : Option Decimal :=
  let below := interval.value.floorAt exponent
  let above := below + 1
  let half : Fraction := .ofDecimal (10 * below + 5) (exponent - 1)
  match interval.contains (.ofDecimal below exponent),
      interval.contains (.ofDecimal above exponent) with
  | true, true => some ⟨if interval.value.lt half then below else above, exponent⟩
  | true, false => some ⟨below, exponent⟩
  | false, true => some ⟨above, exponent⟩
  | false, false => none

/-- The decimal in the interval on the coarsest grid that has one, from a place down, trying at
most `places` grids. -/
def search (interval : Interval) : (places : Nat) → (exponent : Int) → Decimal
  | 0, exponent => ⟨interval.value.floorAt exponent, exponent⟩
  | places + 1, exponent =>
    match interval.nearest? exponent with
    | some found => found
    | none => search interval places (exponent - 1)

/-- A power of ten that the value is below, at most two places too high. -/
def firstPlace (interval : Interval) : Int :=
  let binary : Int := interval.value.num.log2 - interval.value.den.log2
  (binary + 1) * 1233 / 4096 + 1

/-- The shortest decimal in the interval. -/
def shortest (interval : Interval) : Decimal :=
  interval.search 20 interval.firstPlace

end Interval

/-- Drops the zeros at the end of the digits, at most `fuel` of them. -/
def strip : (fuel : Nat) → Decimal → Decimal
  | 0, decimal => decimal
  | fuel + 1, decimal =>
    if decimal.digits ≠ 0 ∧ decimal.digits % 10 = 0 then
      strip fuel ⟨decimal.digits / 10, decimal.exponent + 1⟩
    else decimal

/-- The text of digits with the point after some of them; zeros are filled in where there are no
digits, and there is a digit on both sides of the point. -/
def pointed (digits : List Char) (whole : Int) : List Char :=
  let padded := List.replicate (1 - whole).toNat '0' ++ digits
  let before := max whole 1
  let front := padded.take before.toNat
  let back := padded.drop before.toNat
  front ++ List.replicate (before.toNat - front.length) '0' ++ '.' ::
    (if back.isEmpty then ['0'] else back)

/-- The text of a decimal that is not zero. -/
def write (decimal : Decimal) : String :=
  let stripped := decimal.strip 20
  let digits := (toString stripped.digits).toList
  let whole := stripped.exponent + digits.length
  if -2 ≤ whole ∧ whole ≤ 7 then String.ofList (pointed digits whole)
  else String.ofList (pointed digits 1) ++ s!"E{whole - 1}"

/-- The text of a floating-point number. -/
def ofUnpacked (format : Format) : UnpackedFloat → String
  | .notANumber => "NaN"
  | .infinity .positive => "Infinity"
  | .infinity .negative => "-Infinity"
  | .zero .positive => "0.0"
  | .zero .negative => "-0.0"
  | .finite sign mantissa exponent _ =>
    let text := (Interval.ofBinary format mantissa exponent).shortest.write
    match sign with
    | .positive => text
    | .negative => "-" ++ text

end Decimal

/-- The text of a float. -/
def Single.text (bits : UInt32) : String :=
  Decimal.ofUnpacked .binary32 (Single.unpack bits)

/-- The text of a double. -/
def Double.text (bits : UInt64) : String :=
  Decimal.ofUnpacked .binary64 (Double.unpack bits)

end JavaMachine
