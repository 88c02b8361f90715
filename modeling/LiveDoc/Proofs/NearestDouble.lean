/-
Rounding gives the nearest double.

`ofRatio` chooses a scale, counts the fraction in steps of that scale and
rounds the count to a whole one, half a step to the even neighbour. That no
double is nearer has three reasons. Among the multiples of the step the
rounded one is nearest (`near_steps`). A double that is no multiple of the
step has too short a significand for it, so that it stays below all
multiples with 53 bits, of which the fraction is not short either
(`near_magnitude`). And doubles of the other sign lie beyond zero, which is
a multiple (`Finite.RoundedFrom.nearest`).

Up to there all distances are whole numbers, counted in units of 2^-1074
divided by the denominator; `NearestTo` then says the same of rational
numbers. Its consequences need no more of rounding: it keeps the order and
leaves alone what is a double.
-/
import LiveDoc.Binary64.Round
import Mathlib.Tactic.FieldSimp
import Mathlib.Tactic.Ring
import Mathlib.Tactic.Linarith
import Mathlib.Algebra.Order.Field.Basic
import Mathlib.Algebra.Order.Ring.Rat

namespace LiveDoc.Binary64

-- ==================================================== whole numbers

section HalfEven

variable {num den : Nat}

/-- What is rounded is at most half a step away. -/
theorem halfEven_near (hden : 0 < den) (num : Nat) :
    2 * num ≤ 2 * (halfEven num den * den) + den ∧ 2 * (halfEven num den * den) ≤ 2 * num + den := by
  have hsplit := Nat.div_add_mod num den
  have hrest := Nat.mod_lt num hden
  rw [Nat.mul_comm] at hsplit
  unfold halfEven
  dsimp only
  generalize num / den = q at hsplit ⊢
  split
  case isTrue => omega
  case isFalse =>
    split
    case isTrue =>
      rw [Nat.add_mul, Nat.one_mul]
      omega
    case isFalse =>
      rw [Nat.add_mul]
      rcases Nat.mod_two_eq_zero_or_one q with heven | hodd
      · rw [heven, Nat.zero_mul]
        omega
      · rw [hodd, Nat.one_mul]
        omega

/-- Half a step away it is even. -/
theorem halfEven_even (hden : 0 < den)
    (h : 2 * num = 2 * (halfEven num den * den) + den
      ∨ 2 * (halfEven num den * den) = 2 * num + den) : halfEven num den % 2 = 0 := by
  have hsplit := Nat.div_add_mod num den
  have hrest := Nat.mod_lt num hden
  rw [Nat.mul_comm] at hsplit
  unfold halfEven at h ⊢
  dsimp only at h ⊢
  generalize num / den = q at hsplit h ⊢
  split at h
  case isTrue hless => omega
  case isFalse hless =>
    rw [if_neg hless]
    split at h
    case isTrue hmore =>
      rw [Nat.add_mul, Nat.one_mul] at h
      omega
    case isFalse hmore =>
      rw [if_neg hmore]
      omega

end HalfEven

-- ==================================================== multiples of a step

/-- No multiple of the step is nearer than the rounded one, and if another
is as near, the number lies half a step away from both. -/
theorem near_multiple {u d m : Nat} (hlow : 2 * u ≤ 2 * (m * d) + d)
    (hhigh : 2 * (m * d) ≤ 2 * u + d) (k : Nat) :
    ((m * d : Nat) - u : Int).natAbs ≤ ((k * d : Nat) - u : Int).natAbs
      ∧ (((k * d : Nat) - u : Int).natAbs = ((m * d : Nat) - u : Int).natAbs → k ≠ m →
          2 * u = 2 * (m * d) + d ∨ 2 * (m * d) = 2 * u + d) := by
  rcases Nat.lt_trichotomy k m with hlt | rfl | hgt
  · have hstep : k * d + d ≤ m * d := by
      rw [← Nat.succ_mul]
      exact Nat.mul_le_mul_right d hlt
    omega
  · exact ⟨le_refl _, fun _ hne => absurd rfl hne⟩
  · have hstep : m * d + d ≤ k * d := by
      rw [← Nat.succ_mul]
      exact Nat.mul_le_mul_right d hgt
    omega

/-- A double is a multiple of a power of two unless its significand would be
too short for it. -/
theorem Finite.exists_multiple_or_lt (y : Finite) (scale : Nat) :
    (∃ k, y.magnitude = k * 2 ^ scale) ∨ (0 < scale ∧ y.magnitude < 2 ^ 52 * 2 ^ scale) := by
  have hmagnitude : y.magnitude = y.significand * 2 ^ y.scale := rfl
  rcases Nat.lt_or_ge y.scale scale with hlt | hge
  · refine .inr ⟨Nat.zero_lt_of_lt hlt, ?_⟩
    have hbits : y.significand < 2 ^ 53 := y.significand_lt
    calc y.magnitude
        < 2 ^ 53 * 2 ^ y.scale := by
          rw [hmagnitude]
          exact Nat.mul_lt_mul_of_pos_right hbits (Nat.two_pow_pos _)
      _ = 2 ^ 52 * 2 ^ (y.scale + 1) := by
          rw [← Nat.pow_add, ← Nat.pow_add]
          congr 1
          omega
      _ ≤ 2 ^ 52 * 2 ^ scale :=
          Nat.mul_le_mul_left _ (Nat.pow_le_pow_right Nat.two_pos hlt)
  · refine .inl ⟨y.significand * 2 ^ (y.scale - scale), ?_⟩
    rw [hmagnitude, Nat.mul_assoc, ← Nat.pow_add, Nat.sub_add_cancel hge]

-- ==================================================== fractions

/-- The scale that rounding chooses for a fraction. -/
def scaleOf (num den : Nat) : Nat := Nat.log2 (num * one / den) - 52

/-- The size of its steps at that scale, in units of `1 / den`. -/
def stepOf (num den : Nat) : Nat := den * 2 ^ scaleOf num den

/-- The number of steps that it is rounded to. -/
def stepsOf (num den : Nat) : Nat := halfEven (num * one) (stepOf num den)

theorem stepOf_pos (num : Nat) {den : Nat} (hden : 0 < den) : 0 < stepOf num den :=
  Nat.mul_pos hden (Nat.two_pow_pos _)

/-- The scale keeps all bits of the significand, unless it is the
smallest. -/
theorem scaleOf_spec {num den : Nat} (hpos : 0 < scaleOf num den) :
    2 ^ 52 * stepOf num den ≤ num * one := by
  unfold stepOf
  generalize hscale : scaleOf num den = scale at hpos ⊢
  unfold scaleOf at hscale
  have hq : num * one / den ≠ 0 := by
    intro hzero
    rw [hzero, Nat.log2_zero] at hscale
    omega
  calc 2 ^ 52 * (den * 2 ^ scale)
      = den * 2 ^ Nat.log2 (num * one / den) := by
        rw [Nat.mul_left_comm, ← Nat.pow_add]
        congr 2
        omega
    _ ≤ den * (num * one / den) := Nat.mul_le_mul_left den (Nat.log2_self_le hq)
    _ ≤ num * one := Nat.mul_div_le (num * one) den

/-- What a fraction is rounded to. -/
structure Finite.RoundedFrom (x : Finite) (negative : Bool) (num den : Nat) : Prop where
  negative_eq : x.negative = negative
  magnitude_eq : x.magnitude = stepsOf num den * 2 ^ scaleOf num den
  even : stepsOf num den % 2 = 0 → x.significand % 2 = 0

/-- Parts that give a finite double are its parts. -/
theorem ofParts_eq_finite {negative : Bool} {significand scale : Nat} {x : Finite}
    (h : ofParts negative significand scale = .finite x) :
    x.negative = negative ∧ x.significand = significand ∧ x.scale = scale := by
  unfold ofParts at h
  split at h
  case isTrue =>
    cases h
    exact ⟨rfl, rfl, rfl⟩
  case isFalse => cases h

/-- Rounding in these terms. -/
theorem ofRatio_eq (negative : Bool) (num den : Nat) :
    ofRatio negative num den
      = if stepsOf num den = 2 ^ 53 then ofParts negative (2 ^ 52) (scaleOf num den + 1)
        else ofParts negative (stepsOf num den) (scaleOf num den) := rfl

/-- A carry into the next scale changes neither the value nor, since all bits
but the first are zero then, that the significand is even. -/
theorem roundedFrom_of_ofRatio {negative : Bool} {num den : Nat} {x : Finite}
    (h : ofRatio negative num den = .finite x) : x.RoundedFrom negative num den := by
  rw [ofRatio_eq] at h
  have hmagnitude : x.magnitude = x.significand * 2 ^ x.scale := rfl
  split at h
  case isTrue hcarry =>
    obtain ⟨hnegative, hsignificand, hscale⟩ := ofParts_eq_finite h
    refine ⟨hnegative, ?_, fun _ => by rw [hsignificand]; norm_num⟩
    rw [hmagnitude, hsignificand, hscale, hcarry, Nat.pow_succ]
    ring
  case isFalse =>
    obtain ⟨hnegative, hsignificand, hscale⟩ := ofParts_eq_finite h
    refine ⟨hnegative, ?_, fun heven => ?_⟩
    · rw [hmagnitude, hsignificand, hscale]
    · rw [hsignificand]
      exact heven

-- ==================================================== no double is nearer

/-- Rounding is to a nearest number of steps, and to an even one where two
are as near. -/
theorem near_steps (num : Nat) {den : Nat} (hden : 0 < den) (k : Nat) :
    ((stepsOf num den * stepOf num den : Nat) - (num * one : Nat) : Int).natAbs
        ≤ ((k * stepOf num den : Nat) - (num * one : Nat) : Int).natAbs
      ∧ (((k * stepOf num den : Nat) - (num * one : Nat) : Int).natAbs
            = ((stepsOf num den * stepOf num den : Nat) - (num * one : Nat) : Int).natAbs →
          k ≠ stepsOf num den → stepsOf num den % 2 = 0) := by
  have hstep := stepOf_pos num hden
  obtain ⟨hlow, hhigh⟩ := halfEven_near hstep (num * one)
  obtain ⟨hle, hhalf⟩ := near_multiple hlow hhigh k
  exact ⟨hle, fun heq hne => halfEven_even hstep (hhalf heq hne)⟩

/-- The absolute value of a double is no nearer to the fraction. One that is
no number of steps is below all the numbers of steps that have 53 bits, and
the fraction is not. -/
theorem near_magnitude (num : Nat) {den : Nat} (hden : 0 < den) (y : Finite) :
    ((stepsOf num den * stepOf num den : Nat) - (num * one : Nat) : Int).natAbs
        ≤ ((y.magnitude * den : Nat) - (num * one : Nat) : Int).natAbs
      ∧ (((y.magnitude * den : Nat) - (num * one : Nat) : Int).natAbs
            = ((stepsOf num den * stepOf num den : Nat) - (num * one : Nat) : Int).natAbs →
          y.magnitude * den ≠ stepsOf num den * stepOf num den → stepsOf num den % 2 = 0) := by
  rcases y.exists_multiple_or_lt (scaleOf num den) with ⟨k, hk⟩ | ⟨hpos, hsmall⟩
  · have hy : y.magnitude * den = k * stepOf num den := by
      rw [hk, stepOf]
      ring
    obtain ⟨hle, heven⟩ := near_steps num hden k
    rw [hy]
    exact ⟨hle, fun heq hne => heven heq fun hsame => hne (by rw [hsame])⟩
  · have hbits := scaleOf_spec hpos
    have hbelow : y.magnitude * den < 2 ^ 52 * stepOf num den := by
      calc y.magnitude * den
          < 2 ^ 52 * 2 ^ scaleOf num den * den := Nat.mul_lt_mul_of_pos_right hsmall hden
        _ = 2 ^ 52 * stepOf num den := by
            rw [stepOf]
            ring
    obtain ⟨hle, -⟩ := near_steps num hden (2 ^ 52)
    generalize 2 ^ 52 * stepOf num den = full at hbits hbelow hle
    omega

/-- A whole number with a sign. -/
def signed (negative : Bool) (n : Nat) : Int := if negative then -(n : Int) else n

theorem signed_zero (negative : Bool) : signed negative 0 = 0 := by
  cases negative <;> rfl

theorem signed_natAbs (n : Int) : signed (decide (n < 0)) n.natAbs = n := by
  unfold signed
  split
  case isTrue h =>
    have := of_decide_eq_true h
    omega
  case isFalse h =>
    have := of_decide_eq_false (Bool.eq_false_iff.2 h)
    omega

theorem abs_signed (negative : Bool) (n : Nat) : |signed negative n| = (n : Int) := by
  cases negative
  · exact Nat.abs_cast n
  · exact (abs_neg (n : Int)).trans (Nat.abs_cast n)

theorem signed_mul (negative : Bool) (m n : Nat) :
    signed negative (m * n) = signed negative m * n := by
  cases negative
  · exact Int.natCast_mul m n
  · show -((m * n : Nat) : Int) = -(m : Int) * n
    rw [Int.natCast_mul, Int.neg_mul]

theorem natAbs_signed_sub (negative : Bool) (m n : Nat) :
    (signed negative m - signed negative n).natAbs = ((m : Int) - n).natAbs := by
  cases negative
  · rfl
  · show (-(m : Int) - -(n : Int)).natAbs = _
    omega

theorem natAbs_signed_sub_of_ne {negative negative' : Bool} (hne : negative' ≠ negative)
    (m n : Nat) : (signed negative' m - signed negative n).natAbs = m + n := by
  cases negative <;> cases negative'
  · exact absurd rfl hne
  · show (-(m : Int) - (n : Int)).natAbs = _
    omega
  · show ((m : Int) - -(n : Int)).natAbs = _
    omega
  · exact absurd rfl hne

theorem Finite.units_mul (x : Finite) (den : Nat) :
    x.units * den = signed x.negative (x.magnitude * den) := by
  unfold Finite.units signed
  split
  · push_cast
    ring
  · push_cast
    rfl

/-- Among doubles none is nearer to the fraction than what it is rounded to;
where another is as near, what it is rounded to is even. -/
theorem Finite.RoundedFrom.nearest {x : Finite} {negative : Bool} {num den : Nat} (hden : 0 < den)
    (hx : x.RoundedFrom negative num den) (y : Finite) :
    (x.units * den - signed negative (num * one)).natAbs
        ≤ (y.units * den - signed negative (num * one)).natAbs
      ∧ ((y.units * den - signed negative (num * one)).natAbs
            = (x.units * den - signed negative (num * one)).natAbs →
          y.units ≠ x.units → x.significand % 2 = 0) := by
  have hmagnitude : x.magnitude * den = stepsOf num den * stepOf num den := by
    rw [hx.magnitude_eq, stepOf]
    ring
  have hsame : x.units * den = signed negative (stepsOf num den * stepOf num den) := by
    rw [x.units_mul, hx.negative_eq, hmagnitude]
  by_cases hsign : y.negative = negative
  · obtain ⟨hle, heven⟩ := near_magnitude num hden y
    rw [y.units_mul, hsign, hsame, natAbs_signed_sub, natAbs_signed_sub]
    refine ⟨hle, fun heq hne => hx.even (heven heq fun hmag => hne ?_)⟩
    have hunits : y.units * (den : Int) = x.units * den := by
      rw [y.units_mul, hsign, hmag, hsame]
    exact Int.eq_of_mul_eq_mul_right (by omega) hunits
  · obtain ⟨hle, heven⟩ := near_steps num hden 0
    rw [Nat.zero_mul] at hle heven
    rw [y.units_mul, hsame, natAbs_signed_sub, natAbs_signed_sub_of_ne hsign]
    refine ⟨by omega, fun heq hne => hx.even (heven (by omega) fun hzero => hne ?_)⟩
    -- both are zero then
    rw [← hzero, Nat.zero_mul] at heq hsame
    have hy : y.magnitude * den = 0 := by omega
    have hunits : y.units * (den : Int) = x.units * den := by
      rw [y.units_mul, hy, hsame, signed_zero, signed_zero]
    exact Int.eq_of_mul_eq_mul_right (by omega) hunits

-- ==================================================== values

theorem one_pos : 0 < one := by
  unfold one
  generalize 1074 = n
  exact Nat.two_pow_pos n

/-- The exact value. -/
def Finite.value (x : Finite) : ℚ := x.units / one

/-- The size of a double is that of its units. -/
theorem Finite.abs_value (x : Finite) : |x.value| = (x.magnitude : ℚ) / one := by
  have hone : (0 : ℚ) < one := by exact_mod_cast one_pos
  have hunits : |x.units| = (x.magnitude : Int) := abs_signed x.negative x.magnitude
  unfold value
  rw [abs_div, abs_of_pos hone, ← Int.cast_abs, hunits, Int.cast_natCast]

/-- So a double of the size of a whole number has as many units. -/
theorem Finite.magnitude_of_abs_value (x : Finite) {n : Nat} (h : |x.value| = n) :
    x.magnitude = n * one := by
  have hone : (one : ℚ) ≠ 0 := by exact_mod_cast one_pos.ne'
  rw [abs_value, div_eq_iff hone] at h
  exact_mod_cast h

/-- The double is nearest to the number; if another is as near, it is the
one with an even significand. -/
structure Finite.NearestTo (x : Finite) (q : ℚ) : Prop where
  least : ∀ y : Finite, |x.value - q| ≤ |y.value - q|
  even : ∀ y : Finite, |y.value - q| = |x.value - q| → y.value ≠ x.value → x.significand % 2 = 0

/-- The distance of a double from a fraction, in units of both. -/
theorem Finite.abs_value_sub (x : Finite) (negative : Bool) (num : Nat) {den : Nat}
    (hden : 0 < den) :
    |x.value - signed negative num / den|
      = ((x.units * den - signed negative (num * one)).natAbs : ℚ) / (one * den) := by
  have hone : (0 : ℚ) < one := by exact_mod_cast one_pos
  have hden' : (0 : ℚ) < den := by exact_mod_cast hden
  rw [signed_mul, Nat.cast_natAbs, Int.cast_abs, ← abs_of_pos (mul_pos hone hden'), ← abs_div]
  unfold value
  generalize one = w at hone ⊢
  congr 1
  push_cast
  field_simp

/-- Doubles have the same value when they have the same units. -/
theorem Finite.value_inj {x y : Finite} (h : x.units = y.units) : x.value = y.value := by
  unfold value
  rw [h]

/-- A fraction is rounded to the nearest double, to the even one of two. -/
theorem nearestTo_of_ofRatio {negative : Bool} {num den : Nat} {x : Finite} (hden : 0 < den)
    (h : ofRatio negative num den = .finite x) : x.NearestTo (signed negative num / den) := by
  have hone : (0 : ℚ) < one := by exact_mod_cast one_pos
  have hden' : (0 : ℚ) < den := by exact_mod_cast hden
  have hunit : (0 : ℚ) < one * den := mul_pos hone hden'
  have hnearest := (roundedFrom_of_ofRatio h).nearest hden
  constructor
  · intro y
    rw [x.abs_value_sub negative num hden, y.abs_value_sub negative num hden]
    exact div_le_div_of_nonneg_right (by exact_mod_cast (hnearest y).1) hunit.le
  · intro y hy hne
    rw [x.abs_value_sub negative num hden, y.abs_value_sub negative num hden,
      div_left_inj' hunit.ne'] at hy
    exact (hnearest y).2 (by exact_mod_cast hy) fun hunits => hne (Finite.value_inj hunits)

-- ==================================================== whole numbers that fit

/-- A fraction has at most 53 bits at its scale. -/
theorem lt_scaleOf (num : Nat) {den : Nat} (hden : 0 < den) :
    num * one < 2 ^ 53 * stepOf num den := by
  have hlog : Nat.log2 (num * one / den) + 1 ≤ 53 + scaleOf num den := by
    unfold scaleOf
    omega
  calc num * one
      < den * (num * one / den + 1) := Nat.lt_mul_div_succ (num * one) hden
    _ ≤ den * 2 ^ (53 + scaleOf num den) := by
        refine Nat.mul_le_mul_left den (Nat.le_trans Nat.lt_log2_self ?_)
        exact Nat.pow_le_pow_right Nat.two_pos hlog
    _ = 2 ^ 53 * stepOf num den := by
        rw [Nat.pow_add, stepOf]
        ring

/-- Rounding carries at most into one more bit, -/
theorem stepsOf_le (num : Nat) {den : Nat} (hden : 0 < den) : stepsOf num den ≤ 2 ^ 53 := by
  have hstep := stepOf_pos num hden
  obtain ⟨-, hhigh⟩ := halfEven_near hstep (num * one)
  have hbits := lt_scaleOf num hden
  have hlt : 2 * stepsOf num den * stepOf num den < (2 * 2 ^ 53 + 1) * stepOf num den := by
    rw [Nat.add_mul, Nat.one_mul, Nat.mul_assoc, Nat.mul_assoc]
    unfold stepsOf
    omega
  have hsteps := Nat.lt_of_mul_lt_mul_right hlt
  omega

/-- and above the smallest scale it leaves all the bits that there are. -/
theorem le_stepsOf {num den : Nat} (hden : 0 < den) (hpos : 0 < scaleOf num den) :
    2 ^ 52 ≤ stepsOf num den := by
  have hstep := stepOf_pos num hden
  obtain ⟨hlow, -⟩ := halfEven_near hstep (num * one)
  have hbits := scaleOf_spec hpos
  have hle : 2 * 2 ^ 52 * stepOf num den ≤ (2 * stepsOf num den + 1) * stepOf num den := by
    rw [Nat.add_mul, Nat.one_mul, Nat.mul_assoc, Nat.mul_assoc]
    unfold stepsOf
    omega
  have hsteps := Nat.le_of_mul_le_mul_right hle hstep
  omega

/-- A fraction whose scale is not too large is rounded to a double. -/
theorem exists_ofRatio_eq (negative : Bool) {num den : Nat} (hden : 0 < den)
    (hscale : scaleOf num den ≤ 2044) : ∃ x, ofRatio negative num den = .finite x := by
  rw [ofRatio_eq]
  unfold ofParts
  split
  case isTrue => exact ⟨_, dif_pos ⟨by decide, by omega, .inl (Nat.le_refl _)⟩⟩
  case isFalse hne =>
    have hlt : stepsOf num den < 2 ^ 53 := Nat.lt_of_le_of_ne (stepsOf_le num hden) hne
    refine ⟨_, dif_pos ⟨hlt, by omega, ?_⟩⟩
    rcases Nat.eq_zero_or_pos (scaleOf num den) with hzero | hpos
    · exact .inr hzero
    · exact .inl (le_stepsOf hden hpos)

/-- The scale of a whole number is not too large, up to a thousand bits. -/
theorem scaleOf_le {num bits : Nat} (hbits : bits ≤ 1000) (hnum : num ≤ 2 ^ bits) :
    scaleOf num 1 ≤ 2044 := by
  have hlog : ∀ n, Nat.log2 (num * 2 ^ n) < bits + 1 + n := by
    intro n
    by_cases hzero : num * 2 ^ n = 0
    · rw [hzero, Nat.log2_zero]
      omega
    · rw [Nat.log2_lt hzero, Nat.pow_add]
      refine Nat.mul_lt_mul_of_pos_right (Nat.lt_of_le_of_lt hnum ?_) (Nat.two_pow_pos n)
      exact Nat.pow_lt_pow_right (by decide) (Nat.lt_succ_self bits)
  unfold scaleOf one
  generalize hunit : 1074 = unit
  have := hlog unit
  rw [Nat.div_one, Nat.pow_eq]
  omega

/-- Whole numbers of up to 64 bits are rounded to the nearest double. -/
theorem exists_nearestTo_ofInt {n : Int} (hn : n.natAbs ≤ 2 ^ 64) :
    ∃ x, ofInt n = .finite x ∧ x.NearestTo n := by
  obtain ⟨x, hx⟩ := exists_ofRatio_eq (decide (n < 0)) Nat.one_pos
    (scaleOf_le (by decide : 64 ≤ 1000) hn)
  have hnearest := nearestTo_of_ofRatio Nat.one_pos hx
  have hvalue : (signed (decide (n < 0)) n.natAbs : ℚ) / (1 : Nat) = n := by
    rw [Nat.cast_one, div_one, signed_natAbs]
  rw [hvalue] at hnearest
  exact ⟨x, hx, hnearest⟩

theorem exists_nearestTo_ofInt64 (i : Int64) : ∃ x, ofInt64 i = .finite x ∧ x.NearestTo i.toInt := by
  have hlower := Int64.le_toInt i
  have hupper := Int64.toInt_lt i
  exact exists_nearestTo_ofInt (by omega)

-- ==================================================== order

/-- Doubles are ordered as their units are. -/
theorem Finite.value_le_iff {x y : Finite} : x.value ≤ y.value ↔ x.units ≤ y.units := by
  have hone : (0 : ℚ) < one := by exact_mod_cast one_pos
  unfold value
  rw [div_le_div_iff_of_pos_right hone, Int.cast_le]

theorem Finite.value_eq_iff {x y : Finite} : x.value = y.value ↔ x.units = y.units := by
  rw [le_antisymm_iff, le_antisymm_iff, Finite.value_le_iff, Finite.value_le_iff]

/-- Of two numbers the larger one is nearer only to what lies above the
middle. -/
theorem add_le_of_near {a b q : ℚ} (hlt : b < a) (hnear : |a - q| ≤ |b - q|) :
    a + b ≤ 2 * q := by
  rcases abs_cases (a - q) with ⟨ha, hasign⟩ | ⟨ha, hasign⟩ <;>
    rcases abs_cases (b - q) with ⟨hb, hbsign⟩ | ⟨hb, hbsign⟩ <;>
      linarith

/-- Of two numbers the smaller one is nearer only to what lies below the
middle. -/
theorem le_add_of_near {a b q : ℚ} (hlt : b < a) (hnear : |b - q| ≤ |a - q|) :
    2 * q ≤ a + b := by
  rcases abs_cases (a - q) with ⟨ha, hasign⟩ | ⟨ha, hasign⟩ <;>
    rcases abs_cases (b - q) with ⟨hb, hbsign⟩ | ⟨hb, hbsign⟩ <;>
      linarith

namespace Finite.NearestTo

variable {x y z : Finite} {q r : ℚ}

/-- Rounding keeps the order. -/
theorem mono (hx : x.NearestTo q) (hy : y.NearestTo r) (hlt : q < r) : x.value ≤ y.value := by
  by_contra hgt
  rw [not_le] at hgt
  have hbelow := add_le_of_near hgt (hx.least y)
  have habove := le_add_of_near hgt (hy.least x)
  linarith

/-- It may make numbers equal. -/
theorem le_iff (hx : x.NearestTo q) (hy : y.NearestTo r) (hsame : q = r → x.value = y.value) :
    x.value ≤ y.value ↔ q ≤ r ∨ x.value = y.value := by
  constructor
  · intro hle
    rcases le_or_gt q r with hqr | hqr
    · exact .inl hqr
    · exact .inr (le_antisymm hle (hy.mono hx hqr))
  · rintro (hle | heq)
    · rcases hle.lt_or_eq with hlt | heq
      · exact hx.mono hy hlt
      · exact (hsame heq).le
    · exact heq.le

/-- A double is nearest to itself. -/
theorem self (z : Finite) : z.NearestTo z.value where
  least y := by
    rw [sub_self, abs_zero]
    exact abs_nonneg _
  even y heq hne := by
    rw [sub_self, abs_zero, abs_eq_zero, sub_eq_zero] at heq
    exact absurd heq hne

/-- No other double is. -/
theorem value_eq (hx : x.NearestTo q) (hz : z.value = q) : x.value = q := by
  have hle := hx.least z
  rw [hz, sub_self, abs_zero] at hle
  exact sub_eq_zero.1 (abs_nonpos_iff.1 hle)

/-- Rounding does not go up beyond a double, -/
theorem le_value (hx : x.NearestTo q) (h : q ≤ z.value) : x.value ≤ z.value := by
  rcases h.lt_or_eq with hlt | heq
  · exact hx.mono (.self z) hlt
  · exact (hx.value_eq heq.symm).trans_le h

/-- and not down beyond one. -/
theorem value_le (hx : x.NearestTo q) (h : z.value ≤ q) : z.value ≤ x.value := by
  rcases h.lt_or_eq with hlt | heq
  · exact (Finite.NearestTo.self z).mono hx hlt
  · exact h.trans_eq (hx.value_eq heq).symm

end Finite.NearestTo

-- ==================================================== numbers that are doubles

/-- What has the size of a whole number has its value. -/
theorem Finite.value_eq_of_magnitude {x : Finite} {n : Nat} (h : x.magnitude = n * one) :
    x.value = signed x.negative n := by
  have hone : (one : ℚ) ≠ 0 := by exact_mod_cast one_pos.ne'
  have hunits : x.units = signed x.negative n * one := by
    have := x.units_mul 1
    rw [Nat.mul_one, h, signed_mul] at this
    omega
  unfold value
  rw [hunits, Int.cast_mul, Int.cast_natCast]
  exact mul_div_cancel_right₀ _ hone

/-- Whole numbers of 53 bits, followed by zeros, are doubles: the
significand has its highest bit moved to the place of the 53rd. -/
theorem Finite.exists_value_eq (negative : Bool) {k e : Nat} (hk : k < 2 ^ 53) (he : e ≤ 971) :
    ∃ z : Finite, z.value = signed negative (k * 2 ^ e) := by
  rcases Nat.eq_zero_or_pos k with rfl | hpos
  · refine ⟨.zero negative, ?_⟩
    rw [Nat.zero_mul]
    refine value_eq_of_magnitude ?_
    rw [Nat.zero_mul]
    exact Nat.zero_mul _
  have hne : k ≠ 0 := by omega
  have hlog : Nat.log2 k < 53 := (Nat.log2_lt hne).2 hk
  -- the significand is shifted up until it has 53 bits
  obtain ⟨shift, hshift⟩ : ∃ shift, Nat.log2 k + shift = 52 := ⟨52 - Nat.log2 k, by omega⟩
  have hlow : 2 ^ 52 ≤ k * 2 ^ shift := by
    rw [← hshift, Nat.pow_add]
    exact Nat.mul_le_mul_right _ (Nat.log2_self_le hne)
  have hhigh : k * 2 ^ shift < 2 ^ 53 := by
    calc k * 2 ^ shift
        < 2 ^ (Nat.log2 k + 1) * 2 ^ shift :=
          Nat.mul_lt_mul_of_pos_right Nat.lt_log2_self (Nat.two_pow_pos _)
      _ = 2 ^ 53 := by
          rw [← Nat.pow_add]
          congr 1
          omega
  have hmagnitude : k * 2 ^ shift * 2 ^ (1074 + e - shift) = k * 2 ^ e * one := by
    unfold one
    generalize hbits : 1074 = bits
    rw [Nat.pow_eq, Nat.mul_assoc, Nat.mul_assoc, ← Nat.pow_add, ← Nat.pow_add]
    congr 2
    omega
  exact ⟨⟨negative, k * 2 ^ shift, 1074 + e - shift, hhigh, by omega, .inl hlow⟩,
    value_eq_of_magnitude hmagnitude⟩

/-- Powers of two are doubles, with either sign. -/
theorem Finite.exists_value_eq_two_pow {e : Nat} (he : e ≤ 971) :
    (∃ z : Finite, z.value = 2 ^ e) ∧ ∃ z : Finite, z.value = -2 ^ e := by
  obtain ⟨top, htop⟩ := exists_value_eq false (k := 1) (by decide) he
  obtain ⟨bottom, hbottom⟩ := exists_value_eq true (k := 1) (by decide) he
  refine ⟨⟨top, ?_⟩, bottom, ?_⟩
  · rw [htop, Nat.one_mul]
    exact_mod_cast rfl
  · rw [hbottom, Nat.one_mul]
    exact_mod_cast rfl

end LiveDoc.Binary64
