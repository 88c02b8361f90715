/-
Short literals are read as what they stand for.

A reader rounds up to three times: the digits that it keeps, the power of ten
and the scaled number. The first two do nothing when both are doubles. All
digits are kept while they make up less than 2^64 (`keep_of_lt`), and are a
double below 2^53; powers of ten are doubles up to the 22nd, since there the
power of five has no more than 53 bits (`powerOfTen?_of_le`). The one rounding
that is left is that of the literal itself, written as another fraction
(`ofRatio_mul_right`).
-/
import LiveDoc.Json.Literal
import LiveDoc.Proofs.NearestDouble

namespace LiveDoc

open Binary64

-- ==================================================== fractions

namespace Binary64

/-- Rounding to a whole number is of a fraction, not of its terms. -/
theorem halfEven_mul_right {c : Nat} (hc : 0 < c) (num den : Nat) :
    halfEven (num * c) (den * c) = halfEven num den := by
  have hless : 2 * (num % den * c) < den * c ↔ 2 * (num % den) < den := by
    rw [← Nat.mul_assoc]
    exact Nat.mul_lt_mul_right hc
  have hmore : den * c < 2 * (num % den * c) ↔ den < 2 * (num % den) := by
    rw [← Nat.mul_assoc]
    exact Nat.mul_lt_mul_right hc
  unfold halfEven
  dsimp only
  rw [Nat.mul_div_mul_right num den hc, Nat.mul_mod_mul_right]
  simp only [hless, hmore]

/-- And so is rounding to a double. -/
theorem ofRatio_mul_right {c : Nat} (hc : 0 < c) (negative : Bool) (num den : Nat) :
    ofRatio negative (num * c) (den * c) = ofRatio negative num den := by
  have hunits : num * c * one = num * one * c := Nat.mul_right_comm num c one
  have hscale : scaleOf (num * c) (den * c) = scaleOf num den := by
    unfold scaleOf
    rw [hunits, Nat.mul_div_mul_right _ _ hc]
  have hsteps : stepsOf (num * c) (den * c) = stepsOf num den := by
    unfold stepsOf stepOf
    rw [hscale, hunits, Nat.mul_right_comm den, halfEven_mul_right hc]
  rw [ofRatio_eq, ofRatio_eq, hscale, hsteps]

/-- A whole number that is a double is rounded to itself. -/
theorem exists_ofRatio_of_value {negative : Bool} {n bits : Nat} (hbits : bits ≤ 1000)
    (hn : n ≤ 2 ^ bits) (hdouble : ∃ z : Finite, z.value = signed negative n) :
    ∃ x, ofRatio negative n 1 = .finite x ∧ x.negative = negative ∧ x.magnitude = n * one := by
  obtain ⟨x, hx⟩ := exists_ofRatio_eq negative Nat.one_pos (scaleOf_le hbits hn)
  have hnegative := (roundedFrom_of_ofRatio hx).negative_eq
  obtain ⟨z, hz⟩ := hdouble
  have hnearest := nearestTo_of_ofRatio Nat.one_pos hx
  rw [Nat.cast_one, div_one] at hnearest
  refine ⟨x, hx, hnegative, x.magnitude_of_abs_value ?_⟩
  rw [hnearest.value_eq hz, ← Int.cast_abs, abs_signed, Int.cast_natCast]

/-- A whole number of 53 bits is one of these. -/
theorem exists_ofRatio_of_lt (negative : Bool) {n : Nat} (hn : n < 2 ^ 53) :
    ∃ x, ofRatio negative n 1 = .finite x ∧ x.negative = negative ∧ x.magnitude = n * one := by
  have hdouble := Finite.exists_value_eq negative hn (Nat.zero_le 971)
  rw [Nat.pow_zero, Nat.mul_one] at hdouble
  exact exists_ofRatio_of_value (by decide : 53 ≤ 1000) hn.le hdouble

/-- Zero is rounded to the zero with its sign. -/
theorem ofRatio_zero (negative : Bool) (den : Nat) :
    ofRatio negative 0 den = .finite (.zero negative) := by
  have hscale : scaleOf 0 den = 0 := by
    unfold scaleOf
    rw [Nat.zero_mul, Nat.zero_div, Nat.log2_zero]
  have hsteps : stepsOf 0 den = 0 := by
    unfold stepsOf halfEven
    dsimp only
    rw [Nat.zero_mul, Nat.zero_div, Nat.zero_mod]
    split
    · rfl
    · rw [if_neg (Nat.not_lt_zero _)]
  rw [ofRatio_eq, hscale, hsteps, if_neg (by decide)]
  exact dif_pos ⟨by decide, by decide, .inr rfl⟩

-- ==================================================== short powers of ten

/-- The largest exponent of a power of ten that is a double. -/
def exactPower : Nat := 22

/-- A power of ten up to the 22nd is a double. -/
theorem powerOfTen?_of_le {k : Nat} (hk : k ≤ exactPower) :
    ∃ p, powerOfTen? k = some p ∧ p.negative = false ∧ p.magnitude = 10 ^ k * one := by
  have hbound : k ≤ 22 := hk
  have hfive : 5 ^ k < 2 ^ 53 :=
    Nat.lt_of_le_of_lt (Nat.pow_le_pow_right (by decide) hk) (by decide)
  have hten : 5 ^ k * 2 ^ k = 10 ^ k := (Nat.mul_pow 5 2 k).symm
  have hbits : 10 ^ k ≤ 2 ^ (4 * k) := by
    rw [Nat.pow_mul]
    exact Nat.pow_le_pow_left (by decide) k
  have hdouble := Finite.exists_value_eq false hfive (by omega : k ≤ 971)
  rw [hten] at hdouble
  obtain ⟨p, hp, hnegative, hmagnitude⟩ :=
    exists_ofRatio_of_value (by omega : 4 * k ≤ 1000) hbits hdouble
  refine ⟨p, ?_, hnegative, hmagnitude⟩
  have hlargest : k ≤ largestPower := Nat.le_trans hk (by decide)
  unfold powerOfTen?
  rw [if_pos hlargest, Nat.pow_eq, hp]
  rfl

section Scaling

variable {x : Finite} {n k : Nat}

/-- Scaling up by one of them rounds the product itself, -/
theorem Finite.scaleUp_eq (hx : x.magnitude = n * one) (hk : k ≤ exactPower) :
    x.scaleUp k = (ofRatio x.negative (n * 10 ^ k) 1).finite? := by
  obtain ⟨p, hp, hnegative, hmagnitude⟩ := powerOfTen?_of_le hk
  have hlargest : k ≤ largestPower := Nat.le_trans hk (by decide)
  have hnum : n * one * (10 ^ k * one) = n * 10 ^ k * (one * one) := Nat.mul_mul_mul_comm ..
  have hratio := ofRatio_mul_right (Nat.mul_pos one_pos one_pos) x.negative (n * 10 ^ k) 1
  rw [Nat.one_mul] at hratio
  unfold scaleUp
  rw [if_pos hlargest, hp, Option.bind_some, mul, hx, hmagnitude, hnegative, Bool.bne_false, hnum,
    hratio]

/-- and scaling down rounds the quotient itself. -/
theorem Finite.scaleDown_eq (hx : x.magnitude = n * one) (hk : k ≤ exactPower) :
    x.scaleDown k = (ofRatio x.negative n (10 ^ k)).finite? := by
  obtain ⟨p, hp, hnegative, hmagnitude⟩ := powerOfTen?_of_le hk
  have hlargest : k ≤ largestPower := Nat.le_trans hk (by decide)
  rw [scaleDown, if_pos hlargest, hp, Option.bind_some, div, hx, hmagnitude, hnegative,
    Bool.bne_false, ofRatio_mul_right one_pos]

end Scaling

/-- A decimal with such an exponent is a fraction without further ado. -/
theorem ofDecimal_eq (negative : Bool) (digits : Nat) {exponent : Int}
    (hup : exponent ≤ exactPower) (hdown : -exponent ≤ exactPower) :
    ofDecimal negative digits exponent
      = if 0 ≤ exponent then ofRatio negative (digits * 10 ^ exponent.toNat) 1
        else ofRatio negative digits (10 ^ (-exponent).toNat) := by
  unfold exactPower at hup hdown
  unfold ofDecimal
  by_cases hdigits : digits = 0
  · rw [if_pos hdigits, hdigits, Nat.zero_mul, ofRatio_zero, ofRatio_zero, ite_self]
  · rw [if_neg hdigits, if_neg (by omega), if_neg (by omega)]
    rfl

/-- Scaling by such an exponent gives the double nearest to the decimal. -/
theorem Finite.scaled_eq_ofDecimal {x : Finite} {n : Nat} {exponent : Int}
    (hx : x.magnitude = n * one) (hup : exponent ≤ exactPower) (hdown : -exponent ≤ exactPower) :
    (if 0 ≤ exponent then x.scaleUp exponent.toNat else x.scaleDown (-exponent).toNat)
      = (ofDecimal x.negative n exponent).finite? := by
  rw [ofDecimal_eq _ _ hup hdown]
  split
  · exact Finite.scaleUp_eq hx (by omega)
  · exact Finite.scaleDown_eq hx (by omega)

end Binary64

-- ==================================================== short literals

namespace Json.Literal

open Numeral

/-- Further digits make no number smaller. -/
theorem le_foldl (n : Nat) (cs : List Char) :
    n ≤ cs.foldl (fun n c => n * 10 + digitValue c) n := by
  induction cs generalizing n with
  | nil => exact Nat.le_refl n
  | cons c cs ih =>
    rw [List.foldl_cons]
    have hstep := ih (n * 10 + digitValue c)
    omega

/-- All digits are kept when the number that they make has 64 bits. -/
theorem keep_of_lt {n : Nat} {cs : List Char}
    (h : cs.foldl (fun n c => n * 10 + digitValue c) n < 2 ^ 64) :
    keep n cs = (cs.foldl (fun n c => n * 10 + digitValue c) n, []) := by
  induction cs generalizing n with
  | nil => rfl
  | cons c cs ih =>
    rw [List.foldl_cons] at h ⊢
    have hfits : n * 10 + digitValue c < Nat.pow 2 64 := Nat.lt_of_le_of_lt (le_foldl _ cs) h
    rw [keep, if_pos hfits]
    exact ih h

/-- Its digits make up a number of 53 bits, and the power of ten behind them
is a double. -/
structure Short (l : Literal) : Prop where
  digits_lt : value (l.whole ++ l.fraction) < 2 ^ 53
  exponent_le : l.exponent?.getD 0 - l.fraction.length ≤ exactPower
  le_exponent : l.fraction.length - l.exponent?.getD 0 ≤ exactPower

variable {l : Literal}

/-- A short literal is scaled to the double nearest to it. -/
theorem Short.scaled_eq (h : l.Short) : l.scaled = l.nearest := by
  have hall := h.digits_lt
  have hbits : value (l.whole ++ l.fraction) < 2 ^ 64 := by omega
  have hwhole : value l.whole ≤ value (l.whole ++ l.fraction) := by
    rw [value_append]
    exact le_foldl _ _
  have hkeepWhole : keep 0 l.whole = (value l.whole, []) :=
    keep_of_lt (Nat.lt_of_le_of_lt hwhole hbits)
  have hkeepFraction : keep (value l.whole) l.fraction = (value (l.whole ++ l.fraction), []) := by
    rw [value_append] at hbits ⊢
    exact keep_of_lt hbits
  obtain ⟨x, hx, hnegative, hmagnitude⟩ := exists_ofRatio_of_lt l.negative hall
  unfold scaled nearest
  rw [hkeepWhole]
  dsimp only
  rw [hkeepFraction]
  dsimp only
  rw [hx, finite?, Option.bind_some]
  have hup := h.exponent_le
  have hdown := h.le_exponent
  have hnone : (([] : List Char).length : Int) = 0 := rfl
  rw [Finite.scaled_eq_ofDecimal hmagnitude (by omega) (by omega), hnegative]
  congr 2
  omega

end Json.Literal

/-- A short literal is read as the number that it stands for. -/
theorem Json.Number.read?_eq {cs : List Char} {l : Json.Literal}
    (hl : Json.Literal.ofChars? cs = some l) (h : l.Short) : read? cs = ofLiteral? cs := by
  unfold read? ofLiteral?
  rw [hl, Option.bind_some, Option.bind_some, Json.Literal.number?, Json.Literal.number?,
    h.scaled_eq]

example : Json.Number.read? "-12.25e-3".toList = Json.Number.ofLiteral? "-12.25e-3".toList :=
  Json.Number.read?_eq rfl ⟨by decide, by decide, by decide⟩

/-- A larger power of ten is rounded first, and that may show. -/
example : Json.Number.read? "3e23".toList ≠ Json.Number.ofLiteral? "3e23".toList := by
  decide +kernel

end LiveDoc
