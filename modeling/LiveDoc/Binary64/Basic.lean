/-
Double-precision numbers as exact values.

A finite double is a whole multiple of the least positive one, 2^-1074.
That multiple, `Finite.units`, is the view everything else goes through:
two doubles compare as their units do, a double is integral when its
units are a multiple of 2^1074, and rounding (next module) is the choice
of the units nearest to a fraction. Nothing here touches the machine's
own floating point, so all of it evaluates in the kernel.

The invariants of the format are proof fields of `Finite`: the
significand has at most 53 bits, and it has all 53 unless the scale is
the smallest. Hence each finite value, the two zeros apart, has one
representation.
-/

namespace LiveDoc

-- ==================================================== the format

/-- A finite double: `±significand · 2^scale` in units of 2^-1074. -/
structure Binary64.Finite where
  negative : Bool
  significand : Nat
  scale : Nat
  significand_lt : significand < Nat.pow 2 53
  scale_le : scale ≤ 2045
  full : Nat.pow 2 52 ≤ significand ∨ scale = 0
  deriving DecidableEq

/-- A double-precision number. All NaNs are one value. -/
inductive Binary64
  | nan
  | infinite (negative : Bool)
  | finite (x : Binary64.Finite)
  deriving DecidableEq

namespace Binary64

/-- How many units of 2^-1074 make one. -/
def one : Nat := Nat.pow 2 1074

namespace Finite

/-- The absolute value, counted in units of 2^-1074. -/
def magnitude (x : Finite) : Nat :=
  x.significand * Nat.pow 2 x.scale

/-- The exact value, counted in units of 2^-1074. -/
def units (x : Finite) : Int :=
  if x.negative then -(x.magnitude : Int) else x.magnitude

/-- Zero, with a sign. -/
def zero (negative : Bool) : Finite :=
  ⟨negative, 0, 0, by decide, by decide, Or.inr rfl⟩

/-- The value is a whole number. -/
def isIntegral (x : Finite) : Bool :=
  x.magnitude % one == 0

/-- The whole number nearest to the value; a half goes away from zero. -/
def nearestInt (x : Finite) : Int :=
  let size := (2 * x.magnitude + one) / (2 * one)
  if x.negative then -(size : Int) else size

end Finite

-- ==================================================== order

/-- The order of two doubles as exact numbers; a NaN has no place in
it, and the two zeros are equal. -/
def compare? : Binary64 → Binary64 → Option Ordering
  | .nan, _ => none
  | _, .nan => none
  | .infinite true, .infinite true => some .eq
  | .infinite true, _ => some .lt
  | .infinite false, .infinite false => some .eq
  | .infinite false, _ => some .gt
  | .finite _, .infinite true => some .gt
  | .finite _, .infinite false => some .lt
  | .finite x, .finite y => some (compare x.units y.units)

/-- Numeric equality: 0 equals -0, and a NaN equals nothing. -/
def numEq (x y : Binary64) : Bool :=
  compare? x y == some .eq

/-- The number is below zero, or is the negative zero. -/
def isNegative : Binary64 → Bool
  | .nan => false
  | .infinite negative => negative
  | .finite x => x.negative

@[simp] theorem compare?_nan_left (y : Binary64) : compare? .nan y = none := by
  cases y <;> rfl

@[simp] theorem compare?_nan_right (x : Binary64) : compare? x .nan = none := by
  rcases x with _ | ⟨_ | _⟩ | _ <;> rfl

/-- Finite doubles are compared in whole numbers. -/
@[simp] theorem compare?_finite (x y : Finite) :
    compare? (.finite x) (.finite y) = some (compare x.units y.units) := rfl

/-- On finite doubles numeric equality is equality of values. -/
theorem numEq_finite (x y : Finite) :
    numEq (.finite x) (.finite y) = true ↔ x.units = y.units := by
  simp [numEq]

end Binary64

end LiveDoc
