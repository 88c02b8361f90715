/-
The shortest decimal that stands for a double.

The reals that round to a double form an interval around it, whose ends
belong to it when the significand is even. Of all decimals in that
interval `shortest` takes those with the fewest digits, that is those on
the coarsest grid 10^k that meets the interval, and of these the nearest
to the double. A double may lie exactly between the two; which of them it
takes then is the format's choice, `Tie`.

On each grid only the double's two neighbours need a look: if any grid
point lies in the interval, so does one of them. The search starts at a
grid coarser than the double and refines it one place at a time. Seventeen
significant digits always suffice, so the step bound is never reached.
-/
import LiveDoc.Binary64.Basic

namespace LiveDoc.Binary64

/-- The decimal number `digits · 10^exponent`. -/
structure Decimal where
  digits : Nat
  exponent : Int
  deriving DecidableEq

/-- Which of two decimals stands for a double exactly between them. -/
inductive Tie
  /-- the larger one -/
  | up
  /-- the one with an even last digit -/
  | even
  deriving DecidableEq

namespace Finite

variable (x : Finite)

-- Ends and value of the interval are counted in quarters of a unit, so
-- that half the gap to a neighbour is whole.

/-- The absolute value in quarters of a unit. -/
def quarters : Nat := 4 * x.magnitude

/-- The least quarter count that rounds to the absolute value. The gap
below a power of two is half as wide as the gap above it. -/
def lowEnd : Nat :=
  if x.significand = Nat.pow 2 52 ∧ 0 < x.scale then x.quarters - Nat.pow 2 x.scale
  else x.quarters - 2 * Nat.pow 2 x.scale

/-- The greatest quarter count that rounds to the absolute value. -/
def highEnd : Nat := x.quarters + 2 * Nat.pow 2 x.scale

/-- A decimal stands for the absolute value: it lies in the interval of
reals that round to it. -/
def reads (d : Decimal) : Bool :=
  let up := Nat.pow 10 (-d.exponent).toNat
  let down := Nat.pow 10 d.exponent.toNat * (4 * one)
  let point := d.digits * down
  if x.significand % 2 = 0 then x.lowEnd * up ≤ point ∧ point ≤ x.highEnd * up
  else x.lowEnd * up < point ∧ point < x.highEnd * up

/-- The point of the grid `10^k` at or below the absolute value. -/
def gridBelow (k : Int) : Nat :=
  x.quarters * Nat.pow 10 (-k).toNat / (Nat.pow 10 k.toNat * (4 * one))

/-- How the absolute value stands to the middle between the grid point
below it and the one above. -/
def sideOfMiddle (k : Int) : Ordering :=
  let gap := Nat.pow 10 k.toNat * (4 * one)
  compare (2 * (x.quarters * Nat.pow 10 (-k).toNat % gap)) gap

/-- Of its two grid points the absolute value takes the one below. -/
def takesBelow (tie : Tie) (k : Int) : Bool :=
  match x.sideOfMiddle k, tie with
  | .lt, _ => true
  | .eq, .even => x.gridBelow k % 2 == 0
  | .eq, .up => false
  | .gt, _ => false

/-- The first grid from `10^k` down with a point in the interval. -/
def refine (tie : Tie) : Nat → Int → Decimal
  | 0, k => ⟨x.gridBelow k, k⟩
  | steps + 1, k =>
    let below : Decimal := ⟨x.gridBelow k, k⟩
    let above : Decimal := ⟨x.gridBelow k + 1, k⟩
    match x.reads below, x.reads above with
    | true, true => if x.takesBelow tie k then below else above
    | true, false => below
    | false, true => above
    | false, false => refine tie steps (k - 1)

/-- The shortest decimal that reads back as the absolute value. -/
def shortest (tie : Tie) : Decimal :=
  if x.significand = 0 then ⟨0, 0⟩
  else x.refine tie 30 (((Nat.log2 x.magnitude : Int) - 1074) * 3 / 10 + 3)

end Finite

end LiveDoc.Binary64
