/-
The numbers that literals stand for.

A literal is taken apart into its sign, its digits before and behind the
point and its exponent. Without point and exponent it is an integer, and
stays one as long as it fits; every other literal is a double.

There are two ways to that double. What a literal stands for is the double
nearest to it (`Number.ofLiteral?`). A reader (`Number.read?`) takes less
care: of the digits it keeps a number of 64 bits, makes that a double, and
scales it by a power of ten, so that it rounds more than once. The last
place may come out differently, and a literal next to the largest double
can be out of range.
-/
import LiveDoc.Json.Basic
import LiveDoc.Text.Numeral

namespace LiveDoc.Json

-- ==================================================== literals

/-- A number literal, taken apart. -/
structure Literal where
  negative : Bool
  whole : List Char
  fraction : List Char
  exponent? : Option Int
  deriving DecidableEq

namespace Literal

/-- The number of digits that must be there. -/
def readDigits? (cs : List Char) : Option Nat :=
  if cs.isEmpty || !cs.all Char.isDigit then none else some (Numeral.value cs)

/-- The number of digits with a sign in front, which may be left out. -/
def readSigned? : List Char → Option Int
  | '-' :: cs => (readDigits? cs).map fun n => -(n : Int)
  | '+' :: cs => (readDigits? cs).map Int.ofNat
  | cs => (readDigits? cs).map Int.ofNat

/-- The exponent that the rest of a literal is, if there is a rest. -/
def readExponent? : List Char → Option (Option Int)
  | [] => some none
  | e :: cs => if e = 'e' ∨ e = 'E' then (readSigned? cs).map some else none

/-- The parts of a literal: a sign, digits without a leading zero, a
fraction, an exponent, the last two optional. -/
def ofChars? (cs : List Char) : Option Literal :=
  let (negative, cs) := match cs with
    | '-' :: cs => (true, cs)
    | cs => (false, cs)
  let whole := cs.takeWhile Char.isDigit
  let rest := cs.dropWhile Char.isDigit
  if whole.isEmpty || (whole.length > 1 && whole.head? == some '0') then none
  else match rest with
    | '.' :: rest =>
      let fraction := rest.takeWhile Char.isDigit
      if fraction.isEmpty then none
      else (readExponent? (rest.dropWhile Char.isDigit)).map (⟨negative, whole, fraction, ·⟩)
    | rest => (readExponent? rest).map (⟨negative, whole, [], ·⟩)

-- ==================================================== doubles

/-- The double nearest to a literal. -/
def nearest (l : Literal) : Option Binary64.Finite :=
  (Binary64.ofDecimal l.negative (Numeral.value (l.whole ++ l.fraction))
    (l.exponent?.getD 0 - l.fraction.length)).finite?

/-- Digits are put behind a number as long as it stays below 2^64: the
number, and the digits that are left. -/
def keep (n : Nat) : List Char → Nat × List Char
  | [] => (n, [])
  | c :: cs =>
    let m := n * 10 + Numeral.digitValue c
    if m < Nat.pow 2 64 then keep m cs else (n, c :: cs)

/-- The double that is a literal's first digits, scaled by a power of ten.
Digits before the point that are left over count for the exponent; those
behind the point are kept even then, if they fit. -/
def scaled (l : Literal) : Option Binary64.Finite :=
  let (n, wholeLeft) := keep 0 l.whole
  let (n, fractionLeft) := keep n l.fraction
  let exponent :=
    l.exponent?.getD 0 + wholeLeft.length + fractionLeft.length - l.fraction.length
  (Binary64.ofRatio l.negative n 1).finite?.bind fun x =>
    if 0 ≤ exponent then x.scaleUp exponent.toNat else x.scaleDown (-exponent).toNat

-- ==================================================== numbers

/-- The integer that a literal without a point and an exponent is, as long as
it has 64 bits. A negative zero is a double. -/
def integer? (l : Literal) : Option Number :=
  let n := Numeral.value l.whole
  if !l.fraction.isEmpty || l.exponent?.isSome then none
  else if l.negative then
    if n = 0 then some (.float (.zero true))
    else if n ≤ Nat.pow 2 63 then some (.int (Int64.ofInt (-(n : Int))))
    else none
  else if n < Nat.pow 2 63 then some (.int (Int64.ofInt n))
  else if n < Nat.pow 2 64 then some (.large (UInt64.ofNat n))
  else none

/-- The number of a literal, when `double` gives its double. -/
def number? (double : Literal → Option Binary64.Finite) (l : Literal) : Option Number :=
  l.integer?.or ((double l).map .float)

end Literal

namespace Number

/-- The number that a literal stands for. -/
def ofLiteral? (cs : List Char) : Option Number :=
  (Literal.ofChars? cs).bind (Literal.number? Literal.nearest)

/-- The number that a literal is read as. -/
def read? (cs : List Char) : Option Number :=
  (Literal.ofChars? cs).bind (Literal.number? Literal.scaled)

end Number

end LiveDoc.Json
