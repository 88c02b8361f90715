/-
Rounding to double precision.

`ofRatio` takes a nonnegative fraction to the nearest double, an exact
half going to the even significand. Integers, decimals, products and
quotients of doubles are fractions, so `ofInt`, `ofDecimal`, `Finite.mul`
and `Finite.div` are calls of it and share its one rounding step. In none
of them is an intermediate result a double. Scaling a double by a power of
ten is different: the power is a double first, and so is what each step
gives.

The scale is read off the size of the quotient in units of 2^-1074: it
keeps 53 bits, or fewer when that would need a scale below 0. A
significand rounded up to 2^53 is moved to the next scale.
-/
import LiveDoc.Binary64.Basic

namespace LiveDoc.Binary64

-- ==================================================== fractions

/-- The whole number nearest to `num / den`; a half goes to the even
neighbour. -/
def halfEven (num den : Nat) : Nat :=
  let q := num / den
  let r := num % den
  if 2 * r < den then q
  else if den < 2 * r then q + 1
  else q + q % 2

/-- The double with the given parts. Parts beyond the largest finite
double give an infinity. -/
def ofParts (negative : Bool) (significand scale : Nat) : Binary64 :=
  if h : significand < Nat.pow 2 53 ∧ scale ≤ 2045 ∧ (Nat.pow 2 52 ≤ significand ∨ scale = 0) then
    .finite ⟨negative, significand, scale, h.1, h.2.1, h.2.2⟩
  else
    .infinite negative

/-- The double nearest to `±num / den`, for a positive `den`. -/
def ofRatio (negative : Bool) (num den : Nat) : Binary64 :=
  let units := num * one
  let scale := Nat.log2 (units / den) - 52
  let significand := halfEven units (den * Nat.pow 2 scale)
  if significand = Nat.pow 2 53 then ofParts negative (Nat.pow 2 52) (scale + 1)
  else ofParts negative significand scale

/-- The double nearest to a whole number. -/
def ofInt (n : Int) : Binary64 :=
  ofRatio (n < 0) n.natAbs 1

/-- The double nearest to a 64-bit integer. -/
def ofInt64 (i : Int64) : Binary64 :=
  ofInt i.toInt

-- ==================================================== decimals

/-- The double nearest to `±digits · 10^exponent`.

The two early exits keep the powers of ten small and change no result:
from 10^309 on every product is above the largest double, and a product
below 10^-324 is less than half the least positive one. In the second
test `log2 digits / 3 + 1` bounds the number of decimal digits. -/
def ofDecimal (negative : Bool) (digits : Nat) (exponent : Int) : Binary64 :=
  if digits = 0 then .finite (.zero negative)
  else if 309 ≤ exponent then .infinite negative
  else if Nat.log2 digits / 3 + 1 + exponent ≤ -324 then .finite (.zero negative)
  else if 0 ≤ exponent then ofRatio negative (digits * Nat.pow 10 exponent.toNat) 1
  else ofRatio negative digits (Nat.pow 10 (-exponent).toNat)

-- ==================================================== products and quotients

/-- The double, unless it is a NaN or an infinity. -/
def finite? : Binary64 → Option Finite
  | .finite x => some x
  | _ => none

/-- The double nearest to a product. -/
def Finite.mul (x y : Finite) : Binary64 :=
  ofRatio (x.negative != y.negative) (x.magnitude * y.magnitude) (one * one)

/-- The double nearest to a quotient, for a divisor that is not zero. -/
def Finite.div (x y : Finite) : Binary64 :=
  ofRatio (x.negative != y.negative) x.magnitude y.magnitude

/-- The largest exponent of a power of ten near which there is a double. -/
def largestPower : Nat := 308

/-- The double nearest to a power of ten, up to the largest. -/
def powerOfTen? (exponent : Nat) : Option Finite :=
  if exponent ≤ largestPower then (ofRatio false (Nat.pow 10 exponent) 1).finite? else none

/-- A double times a power of ten, unless that is too large. Beyond the
largest power, only zero has a multiple. -/
def Finite.scaleUp (x : Finite) (exponent : Nat) : Option Finite :=
  if exponent ≤ largestPower then (powerOfTen? exponent).bind fun p => (x.mul p).finite?
  else if x.magnitude = 0 then some x
  else none

/-- A double divided by a power of ten: first by the largest, as long as
there is something left to divide and the exponent is beyond it. -/
def Finite.scaleDown (x : Finite) (exponent : Nat) : Option Finite :=
  if exponent ≤ largestPower then (powerOfTen? exponent).bind fun p => (x.div p).finite?
  else if x.magnitude = 0 then some x
  else
    (powerOfTen? largestPower).bind fun p => (x.div p).finite?.bind fun y =>
      y.scaleDown (exponent - largestPower)
  termination_by exponent
  decreasing_by
    unfold largestPower at *
    omega

-- ==================================================== back to integers

/-- The 64-bit integer nearest to a double: a half goes away from zero,
what lies beyond either end becomes that end, and a NaN becomes 0. -/
def toInt64 : Binary64 → Int64
  | .nan => 0
  | .infinite true => Int64.minValue
  | .infinite false => Int64.maxValue
  | .finite x =>
    let n := x.nearestInt
    if n < Int64.minValue.toInt then Int64.minValue
    else if Int64.maxValue.toInt < n then Int64.maxValue
    else Int64.ofInt n

end LiveDoc.Binary64
