/-
Integers in ranges.

A range compares an integer with an end that is a 64-bit integer as it is,
and with any other end through doubles. Rounding keeps the order of two
numbers but may make them equal, and an end belongs to its range. So no
integer in a range is refused, and one outside is let through exactly when
the end is no 64-bit integer and both become the same double. Up to 2^53
that happens to no integer, since all of them are doubles; the next one
passes for its neighbour.

What rounding does enters in two ways only: every number becomes the nearest
double (`Json.Number.exists_nearestTo`), and numbers of the same value
become the same one (`Json.Number.value_eq_of_toBinary64`).
-/
import LiveDoc.Live.Check
import LiveDoc.Constraint.Entry
import LiveDoc.Json.Token
import LiveDoc.Proofs.NearestDouble

namespace LiveDoc

open Binary64

-- ==================================================== the numbers of a document

namespace Json.Number

/-- The exact value. -/
def value : Number → ℚ
  | .int i => i.toInt
  | .large n => n.toNat
  | .float x => x.value

/-- Some literal is read as the number. -/
def Written (n : Number) : Prop := ∃ cs, read? cs = some n

/-- The number is compared as a double, and has the value of the given one
then. -/
def SameDouble (n : Number) (x : Finite) : Prop :=
  (∀ j, n ≠ .int j) ∧ ∃ y, n.toBinary64 = .finite y ∧ y.value = x.value

/-- Rounding makes no difference between the number and the integer: the
number is a 64-bit integer as well, or the integer is a double. -/
def ExactFor (n : Number) (i : Int64) : Prop :=
  (∃ j, n = .int j) ∨ (n.Written ∧ ∃ z : Finite, z.value = i.toInt)

/-- Every number becomes the nearest double. -/
theorem exists_nearestTo (n : Number) : ∃ y, n.toBinary64 = .finite y ∧ y.NearestTo n.value := by
  cases n with
  | int i => exact exists_nearestTo_ofInt64 i
  | large m =>
    have hbits := m.toNat_lt
    exact exists_nearestTo_ofInt (n := m.toNat) (by omega)
  | float y => exact ⟨y, rfl, .self y⟩

/-- A literal whose number stands apart is an integer beyond 64 signed bits. -/
theorem le_of_integer?_large {l : Literal} {m : UInt64} (h : l.integer? = some (.large m)) :
    2 ^ 63 ≤ m.toNat := by
  unfold Literal.integer? at h
  dsimp only at h
  split at h
  · cases h
  · split at h
    · split at h
      · cases h
      · split at h <;> cases h
    · split at h
      · cases h
      case isFalse hbeyond =>
        split at h
        case isTrue hfits =>
          cases h
          rw [UInt64.toNat_ofNat_of_lt' hfits]
          exact Nat.le_of_not_lt hbeyond
        case isFalse => cases h

/-- An integer that is written and stands apart is beyond 64 signed bits. -/
theorem Written.le_large {m : UInt64} (h : (large m).Written) : 2 ^ 63 ≤ m.toNat := by
  obtain ⟨cs, h⟩ := h
  obtain ⟨l, -, hl⟩ := Option.bind_eq_some_iff.1 h
  rcases Option.or_eq_some_iff.1 hl with hinteger | ⟨-, hdouble⟩
  · exact le_of_integer?_large hinteger
  · obtain ⟨x, -, hx⟩ := Option.map_eq_some_iff.1 hdouble
    cases hx

end Json.Number

-- ==================================================== integers as doubles

section Integers

variable {i : Int64} {x y : Finite} {n : Json.Number}

/-- A number with the value of the integer becomes the same double. -/
theorem Json.Number.value_eq_of_toBinary64 (hx : ofInt64 i = .finite x)
    (hnear : x.NearestTo i.toInt) (hy : n.toBinary64 = .finite y) (h : n.value = i.toInt) :
    y.value = x.value := by
  cases n with
  | int j =>
    have hj : j = i := Int64.toInt_inj.1 (Int.cast_injective h)
    rw [Json.Number.toBinary64, hj, hx] at hy
    cases hy
    rfl
  | large m =>
    have hm : (m.toNat : Int) = i.toInt := Int.cast_injective h
    rw [Json.Number.toBinary64, hm] at hy
    cases hx.symm.trans hy
    rfl
  | float z =>
    cases hy
    rw [hnear.value_eq h]
    exact h

theorem Json.Number.sameDouble_iff (hdouble : ∀ j, n ≠ .int j) (hy : n.toBinary64 = .finite y) :
    n.SameDouble x ↔ y.value = x.value := by
  constructor
  · rintro ⟨-, z, hz, hsame⟩
    cases hy.symm.trans hz
    exact hsame
  · exact fun hsame => ⟨hdouble, y, hy, hsame⟩

-- ==================================================== ends of a range

namespace Bound

/-- Numbers compare as doubles, unless both are integers. -/
theorem compare?_of_number {b : Bound} {v : Value} {d : Binary64} (hd : v.number? = some d)
    (hdouble : ∀ i j, v = .int i → b ≠ .int j) : b.compare? v = d.compare? b.toBinary64 := by
  rw [compare?]
  · rw [hd, Option.bind_some]
  · exact fun i j hv hb => hdouble i j hv hb

theorem compare?_of_toBinary64 (hx : ofInt64 i = .finite x) (hdouble : ∀ j, n ≠ .int j)
    (hy : n.toBinary64 = .finite y) :
    (ofNumber n).compare? (.int i) = some (compare x.units y.units) := by
  have hbound : ofNumber n = .float (.finite y) := by
    rw [← hy]
    cases n with
    | int j => exact absurd rfl (hdouble j)
    | large m => rfl
    | float z => rfl
  have hnumber : Value.number? (.int i) = some (.finite x) := by rw [Value.number?, hx]
  rw [hbound, compare?_of_number hnumber fun _ _ _ h => (by cases h), toBinary64, compare?_finite]

/-- How an integer compares with an end of a range. Either both are
integers, or the doubles compare as the numbers do, except that they may be
equal. -/
theorem exists_compare?_ofNumber (hx : ofInt64 i = .finite x) (hnear : x.NearestTo i.toInt)
    (n : Json.Number) :
    ∃ o, (ofNumber n).compare? (.int i) = some o
      ∧ (o ≠ .lt ↔ n.value ≤ i.toInt ∨ n.SameDouble x)
      ∧ (o ≠ .gt ↔ i.toInt ≤ n.value ∨ n.SameDouble x) := by
  by_cases hint : ∃ j, n = .int j
  · obtain ⟨j, rfl⟩ := hint
    have hnone : ¬ (Json.Number.int j).SameDouble x := fun h => h.1 j rfl
    refine ⟨compare i.toInt j.toInt, rfl, ?_, ?_⟩
    · rw [Ne, compare_lt_iff_lt, not_lt, or_iff_left hnone, Json.Number.value, Int.cast_le]
    · rw [Ne, compare_gt_iff_gt, not_lt, or_iff_left hnone, Json.Number.value, Int.cast_le]
  · have hdouble : ∀ j, n ≠ .int j := fun j hj => hint ⟨j, hj⟩
    obtain ⟨y, hy, hyn⟩ := n.exists_nearestTo
    have hsame := n.value_eq_of_toBinary64 hx hnear hy
    rw [Json.Number.sameDouble_iff hdouble hy]
    refine ⟨compare x.units y.units, compare?_of_toBinary64 hx hdouble hy, ?_, ?_⟩
    · rw [Ne, compare_lt_iff_lt, not_lt, ← Finite.value_le_iff, hyn.le_iff hnear hsame]
    · rw [Ne, compare_gt_iff_gt, not_lt, ← Finite.value_le_iff,
        hnear.le_iff hyn fun heq => (hsame heq.symm).symm, eq_comm (a := x.value)]

/-- An integer is not below an end of a range. -/
theorem isAbove_ofNumber_iff (hx : ofInt64 i = .finite x) (hnear : x.NearestTo i.toInt)
    (n : Json.Number) :
    (ofNumber n).isAbove (.int i) = false ↔ n.value ≤ i.toInt ∨ n.SameDouble x := by
  obtain ⟨o, ho, hlower, -⟩ := exists_compare?_ofNumber hx hnear n
  rw [isAbove, ho, beq_eq_false_iff_ne, ← hlower, ne_eq, Option.some_inj]

/-- An integer is not above an end of a range. -/
theorem isBelow_ofNumber_iff (hx : ofInt64 i = .finite x) (hnear : x.NearestTo i.toInt)
    (n : Json.Number) :
    (ofNumber n).isBelow (.int i) = false ↔ i.toInt ≤ n.value ∨ n.SameDouble x := by
  obtain ⟨o, ho, -, hupper⟩ := exists_compare?_ofNumber hx hnear n
  rw [isBelow, ho, beq_eq_false_iff_ne, ← hupper, ne_eq, Option.some_inj]

end Bound

-- ==================================================== where rounding makes no difference

/-- The double of a larger integer than all of 64 signed bits is none of
these: 2^63 is a double. -/
theorem Binary64.Finite.NearestTo.toInt_lt {m : Nat} (hy : y.NearestTo m) (hm : 2 ^ 63 ≤ m) :
    (i.toInt : ℚ) < y.value := by
  obtain ⟨top, htop⟩ := Finite.exists_value_eq false (k := 1) (e := 63) (by decide) (by decide)
  have htop' : top.value = (2 ^ 63 : Nat) := by
    rw [htop, Nat.one_mul]
    rfl
  have hi : (i.toInt : ℚ) < (2 ^ 63 : Nat) := by
    exact_mod_cast Int64.toInt_lt i
  have hbelow : top.value ≤ m := by
    rw [htop']
    exact_mod_cast hm
  rw [← htop'] at hi
  exact hi.trans_le (hy.value_le hbelow)

/-- Where rounding makes no difference, what becomes the same double is the
same number. -/
theorem Json.Number.ExactFor.value_eq (hexact : n.ExactFor i) (hnear : x.NearestTo i.toInt)
    (h : n.SameDouble x) : n.value = i.toInt := by
  obtain ⟨hdouble, y, hy, hsame⟩ := h
  rcases hexact with ⟨j, hj⟩ | ⟨hwritten, z, hz⟩
  · exact absurd hj (hdouble j)
  rw [hnear.value_eq hz] at hsame
  cases n with
  | int j => exact absurd rfl (hdouble j)
  | float w =>
    cases hy
    exact hsame
  | large m =>
    obtain ⟨y', hy', hyn⟩ := (Json.Number.large m).exists_nearestTo
    cases hy.symm.trans hy'
    exact absurd hsame (hyn.toInt_lt hwritten.le_large).ne'

/-- Integers of at most 53 bits are doubles, and so is 2^53. -/
theorem exists_value_eq_toInt (h : i.toInt.natAbs ≤ 2 ^ 53) : ∃ z : Finite, z.value = i.toInt := by
  have hsigned : signed (decide (i.toInt < 0)) i.toInt.natAbs = i.toInt := signed_natAbs i.toInt
  rcases h.eq_or_lt with heq | hlt
  · rw [heq, ← Nat.one_mul (2 ^ 53)] at hsigned
    rw [← hsigned]
    exact Finite.exists_value_eq _ (by decide) (by decide)
  · rw [← Nat.mul_one i.toInt.natAbs, ← Nat.pow_zero 2] at hsigned
    rw [← hsigned]
    exact Finite.exists_value_eq _ hlt (by decide)

end Integers

-- ==================================================== the step for a range

namespace Check

/-- The step for the range hands the value on if the condition holds, and
refuses it with the range if not, whatever the attribute, the ancestors'
outcome and the steps that follow. -/
def PassesWhen (r : Range) (v : Value) (p : Prop) : Prop :=
  ∀ attr base cs,
    (p → Check.run attr v base (.inRange r :: cs) = Check.run attr v base cs)
      ∧ (¬ p → Check.run attr v base (.inRange r :: cs) = .error (.outOfRange attr r))

theorem passesWhen_iff {r : Range} {i : Int64} {p : Prop} (h : r.excludes (.int i) = false ↔ p) :
    PassesWhen r (.int i) p := by
  intro attr base cs
  have hrun : Check.run attr (.int i) base (.inRange r :: cs)
      = if r.excludes (.int i) then .error (.outOfRange attr r)
        else Check.run attr (.int i) base cs := rfl
  rw [hrun]
  constructor
  · intro hp
    rw [h.2 hp]
    rfl
  · intro hp
    exact if_pos (Bool.eq_true_of_not_eq_false fun hfalse => hp (h.1 hfalse))

theorem PassesWhen.congr {r : Range} {v : Value} {p q : Prop} (h : PassesWhen r v p)
    (hiff : p ↔ q) : PassesWhen r v q := by
  rw [← hiff]
  exact h

/-- How the ranges of a document compare an integer: with 64-bit integers as
it is, with other numbers as the nearest double, so that it may also pass
for a number that becomes the same double. If it is a double, as all
integers up to 2^53 are, the two come to the same. -/
theorem integer_ranges (i : Int64) :
    ∃ x, ofInt64 i = .finite x ∧ x.NearestTo i.toInt
      ∧ (∀ lo hi : Json.Number,
          PassesWhen (.atLeast (.ofNumber lo)) (.int i) (lo.value ≤ i.toInt ∨ lo.SameDouble x)
          ∧ PassesWhen (.atMost (.ofNumber hi)) (.int i) (i.toInt ≤ hi.value ∨ hi.SameDouble x)
          ∧ PassesWhen (.between (.ofNumber lo) (.ofNumber hi)) (.int i)
              ((lo.value ≤ i.toInt ∨ lo.SameDouble x) ∧ (i.toInt ≤ hi.value ∨ hi.SameDouble x)))
      ∧ (∀ lo hi : Json.Number, lo.ExactFor i → hi.ExactFor i →
          PassesWhen (.atLeast (.ofNumber lo)) (.int i) (lo.value ≤ i.toInt)
          ∧ PassesWhen (.atMost (.ofNumber hi)) (.int i) (i.toInt ≤ hi.value)
          ∧ PassesWhen (.between (.ofNumber lo) (.ofNumber hi)) (.int i)
              (lo.value ≤ i.toInt ∧ i.toInt ≤ hi.value))
      ∧ (i.toInt.natAbs ≤ 2 ^ 53 → ∃ z : Finite, z.value = i.toInt) := by
  obtain ⟨x, hx, hnear⟩ := (Json.Number.int i).exists_nearestTo
  have habove := Bound.isAbove_ofNumber_iff hx hnear
  have hbelow := Bound.isBelow_ofNumber_iff hx hnear
  have hranges : ∀ lo hi : Json.Number,
      PassesWhen (.atLeast (.ofNumber lo)) (.int i) (lo.value ≤ i.toInt ∨ lo.SameDouble x)
      ∧ PassesWhen (.atMost (.ofNumber hi)) (.int i) (i.toInt ≤ hi.value ∨ hi.SameDouble x)
      ∧ PassesWhen (.between (.ofNumber lo) (.ofNumber hi)) (.int i)
          ((lo.value ≤ i.toInt ∨ lo.SameDouble x) ∧ (i.toInt ≤ hi.value ∨ hi.SameDouble x)) := by
    intro lo hi
    refine ⟨passesWhen_iff (habove lo), passesWhen_iff (hbelow hi), passesWhen_iff ?_⟩
    show (_ || _) = false ↔ _
    rw [Bool.or_eq_false_iff, habove lo, hbelow hi]
  refine ⟨x, hx, hnear, hranges, fun lo hi hlo hhi => ?_, exists_value_eq_toInt⟩
  obtain ⟨hatLeast, hatMost, hbetween⟩ := hranges lo hi
  -- where rounding makes no difference, the same double is the same number
  have hlower : lo.value ≤ i.toInt ∨ lo.SameDouble x ↔ lo.value ≤ i.toInt :=
    or_iff_left_of_imp fun hsame => (hlo.value_eq hnear hsame).le
  have hupper : (i.toInt : ℚ) ≤ hi.value ∨ hi.SameDouble x ↔ i.toInt ≤ hi.value :=
    or_iff_left_of_imp fun hsame => (hhi.value_eq hnear hsame).ge
  exact ⟨hatLeast.congr hlower, hatMost.congr hupper, hbetween.congr (and_congr hlower hupper)⟩

/-- The first integer that is no double passes a maximum of 2^53 that is
written as a double, though it is above it. -/
theorem passes_above_largest :
    ∃ n : Json.Number, Json.Number.read? "9007199254740992.0".toList = some n
      ∧ n.value < (9007199254740993 : Int64).toInt
      ∧ ∀ attr base cs,
        Check.run attr (.int 9007199254740993) base (.inRange (.atMost (.ofNumber n)) :: cs)
          = Check.run attr (.int 9007199254740993) base cs := by
  let largest : Finite := ⟨false, Nat.pow 2 52, 1075, by decide, by decide, .inl (Nat.le_refl _)⟩
  have hvalue : largest.value = (9007199254740992 : Int) :=
    Finite.value_eq_of_magnitude (n := 9007199254740992) (by decide +kernel)
  have hpasses : (Range.atMost (.ofNumber (.float largest))).excludes (.int 9007199254740993) = false
      ↔ True := by
    decide +kernel
  refine ⟨.float largest, by decide +kernel, ?_, fun attr base cs => ?_⟩
  · show largest.value < _
    rw [hvalue, Int.cast_lt]
    decide
  · exact (passesWhen_iff hpasses attr base cs).1 trivial

end Check

end LiveDoc
