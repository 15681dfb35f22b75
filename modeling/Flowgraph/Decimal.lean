/-!
# Decimal numbers and binary64

A decimal number is kept as it was written.  Rounding it to binary64 and writing a binary64
number with the fewest digits that read back are done in exact arithmetic.
-/

namespace Flowgraph

/-- The number `± digits · 10 ^ exponent`. -/
structure Decimal where
  negative : Bool := false
  digits : Nat
  exponent : Int := 0
  deriving DecidableEq, Repr, Inhabited

/-- A positive binary64 number, `mantissa · 2 ^ exponent`. -/
structure Binary64 where
  mantissa : Nat
  exponent : Int
  deriving DecidableEq, Repr, Inhabited

/-- What a number is in binary64, its sign apart. -/
inductive Magnitude where
  | zero
  | finite (value : Binary64)
  | infinite
  deriving DecidableEq, Repr, Inhabited

/-- The quotient `a / b` of positive numbers, rounded to the nearest integer; a tie goes to the
even neighbour. -/
def roundDiv (a b : Nat) : Nat :=
  let q := a / b
  let r := a % b
  if b < 2 * r || (2 * r == b && q % 2 == 1) then q + 1 else q

/-- `base ^ exponent` as a fraction: a numerator and a denominator. -/
def powerFraction (base : Nat) (exponent : Int) : Nat × Nat :=
  (base.pow exponent.toNat, base.pow (-exponent).toNat)

namespace Binary64

/-- The least number with 54 binary digits, which no mantissa reaches. -/
def mantissaBound : Nat := 0x20000000000000

/-- The value as a fraction. -/
def fraction (x : Binary64) : Nat × Nat :=
  let (up, down) := powerFraction 2 x.exponent
  (x.mantissa * up, down)

/-- The binary64 number nearest to the fraction `a / b`. -/
def ofFraction (a b : Nat) : Magnitude :=
  if a = 0 then .zero
  else
    let guess : Int := (a.log2 : Int) - b.log2
    let (up, down) := powerFraction 2 guess
    let top := if b * up ≤ a * down then guess else guess - 1
    let exponent := max (top - 52) (-1074)
    let (up, down) := powerFraction 2 exponent
    let mantissa := roundDiv (a * down) (b * up)
    if mantissa = 0 then .zero
    else if mantissaBound ≤ mantissa && 971 ≤ exponent then .infinite
    else if 972 ≤ exponent then .infinite
    else if mantissa = mantissaBound then .finite ⟨mantissaBound / 2, exponent + 1⟩
    else .finite ⟨mantissa, exponent⟩

end Binary64

namespace Decimal

/-- How many decimal digits a number has; none for zero. -/
def digitCount (n : Nat) : Nat := if n = 0 then 0 else (Nat.toDigits 10 n).length

/-- The number as a fraction, its sign apart. -/
def fraction (d : Decimal) : Nat × Nat :=
  let (up, down) := powerFraction 10 d.exponent
  (d.digits * up, down)

/-- The nearest binary64 number.  What is far outside its range is not multiplied out. -/
def magnitude (d : Decimal) : Magnitude :=
  let size := digitCount d.digits + d.exponent
  if d.digits = 0 then .zero
  else if size < -400 then .zero
  else if 400 < size then .infinite
  else Binary64.ofFraction d.fraction.1 d.fraction.2

/-- Leave out the zeros at the end of the digits. -/
def strip : (fuel : Nat) → Decimal → Decimal
  | 0, d => d
  | fuel + 1, d =>
    if d.digits ≠ 0 && d.digits % 10 = 0 then
      strip fuel { d with digits := d.digits / 10, exponent := d.exponent + 1 }
    else d

/-- The smallest power of ten that is greater than `a / b`. -/
def ceilingPower (a b : Nat) : Int :=
  let guess : Int := (digitCount a : Int) - digitCount b
  let (up, down) := powerFraction 10 guess
  if a * down < b * up then guess else guess + 1

/-- Of the two neighbours of `x` among the multiples of `10 ^ exponent` the nearest one that
reads back as `x`.  If both are equally near, the even multiple is taken first. -/
def neighbour? (x : Binary64) (exponent : Int) : Option Decimal :=
  let (a, b) := x.fraction
  let (up, down) := powerFraction 10 exponent
  let below := a * down / (b * up)
  let rest := a * down % (b * up)
  let low : Decimal := { digits := below, exponent }
  let high : Decimal := { digits := below + 1, exponent }
  let lowFirst := 2 * rest < b * up || (2 * rest == b * up && below % 2 == 0)
  let order := if lowFirst then [low, high] else [high, low]
  order.find? fun d => d.magnitude == .finite x

/-- The decimal number with the fewest digits that reads back as `x`. -/
def shortest (x : Binary64) : Decimal :=
  let top := ceilingPower x.fraction.1 x.fraction.2
  let counts := (List.range 17).map (· + 1)
  match counts.findSome? fun (n : Nat) => neighbour? x (top - n) with
  | some d => strip 20 d
  | none => { digits := 0 }

end Decimal

end Flowgraph
