/-
Decimal text of doubles.

Two notations, both positional: a fixed number of places, rounded from
the exact value with halves going to even, and the shortest digits that
read back. `Binary64.text` is the one form in which this library shows a
double as a value: integral numbers below 10^16 with one place, so that
`3.0` is not taken for the integer 3, all others with their shortest
digits. A negative zero keeps its sign.
-/
import LiveDoc.Text.Numeral
import LiveDoc.Binary64.Round
import LiveDoc.Binary64.Shortest

namespace LiveDoc.Binary64

-- ==================================================== positional notation

/-- `digits · 10^-places` with exactly `places` digits after the point,
and no point when there are none. -/
def positional (digits places : Nat) : String :=
  if places = 0 then Numeral.ofNat digits
  else Numeral.ofNat (digits / Nat.pow 10 places) ++ "." ++
    Numeral.padded places (digits % Nat.pow 10 places)

/-- A decimal without an exponent. -/
def Decimal.plain (d : Decimal) : String :=
  if 0 ≤ d.exponent then Numeral.ofNat (d.digits * Nat.pow 10 d.exponent.toNat)
  else positional d.digits (-d.exponent).toNat

/-- The sign a number is written with. -/
def sign (negative : Bool) : String :=
  if negative then "-" else ""

namespace Finite

/-- A number of places after the point, rounded from the exact value. -/
def fixed (x : Finite) (places : Nat) : String :=
  sign x.negative ++ positional (halfEven (x.magnitude * Nat.pow 10 places) one) places

/-- The shortest digits that read back; a tie goes up. -/
def short (x : Finite) : String :=
  sign x.negative ++ (x.shortest .up).plain

/-- An integral double below 10^16, which is shown with one place. -/
def isModestIntegral (x : Finite) : Bool :=
  x.isIntegral && x.magnitude < Nat.pow 10 16 * one

end Finite

-- ==================================================== doubles

/-- The text of a double as a value. -/
def text : Binary64 → String
  | .nan => "nan"
  | .infinite negative => sign negative ++ "inf"
  | .finite x => if x.isModestIntegral then x.fixed 1 else x.short

/-- A double with a fixed number of places, as templates ask for it. -/
def fixed (x : Binary64) (places : Nat) : String :=
  match x with
  | .nan => "NaN"
  | .infinite negative => sign negative ++ "inf"
  | .finite x => x.fixed places

end LiveDoc.Binary64
