/-
Whole doubles in texts.

A double is shown with a point, whole ones with `.0`, and an integer has
none, so the two are told apart — with one exception. From 10^16 on whole
doubles are shown with their shortest digits, and these have no point: such a
double is shown as some integer is (`Binary64.TakenFor`,
`Binary64.text_eq_ofInt_iff`).

The shortest digits of a double are those on the coarsest grid 10^k with a
point that reads back, so whether there is a point is decided by the grid on
which the search ends. A double with a whole number at most half a step away
is that number, so for all others the search goes on below the whole numbers
(`isIntegral_of_reads`). A whole double is itself a whole number that reads
back, so the search ends there at the latest (`refine_whole`).
-/
import LiveDoc.Proofs.WholeNumbers

namespace LiveDoc

-- ==================================================== where the search ends

namespace Binary64.Finite

variable {x : Finite} {d : Decimal}

/-- The search goes down, and ends on a decimal that reads back unless it is
cut short. -/
theorem refine_outcome (x : Finite) (tie : Tie) (steps : Nat) (k : Int) :
    x.reads (x.refine tie steps k) = true ∨ (x.refine tie steps k).exponent = k - steps := by
  induction steps generalizing k with
  | zero => exact .inr (Int.sub_zero k).symm
  | succ steps ih =>
    rw [refine]
    split
    case h_1 hbelow habove =>
      split
      · exact .inl hbelow
      · exact .inl habove
    case h_2 hbelow _ => exact .inl hbelow
    case h_3 _ habove => exact .inl habove
    case h_4 =>
      refine (ih (k - 1)).imp_right fun h => ?_
      omega

/-- What reads back is at most half a step away. -/
theorem near_of_reads (hd : x.reads d = true) (hwhole : 0 ≤ d.exponent) :
    x.quarters ≤ d.digits * (10 ^ d.exponent.toNat * (4 * one)) + 2 * 2 ^ x.scale
      ∧ d.digits * (10 ^ d.exponent.toNat * (4 * one)) ≤ x.quarters + 2 * 2 ^ x.scale := by
  have hup : (-d.exponent).toNat = 0 := by omega
  have hlow : x.quarters ≤ x.lowEnd + 2 * 2 ^ x.scale := by
    unfold lowEnd
    simp only [Nat.pow_eq]
    split <;> omega
  have hends : x.lowEnd ≤ d.digits * (10 ^ d.exponent.toNat * (4 * one))
      ∧ d.digits * (10 ^ d.exponent.toNat * (4 * one)) ≤ x.highEnd := by
    unfold reads at hd
    simp only [hup, Nat.pow_eq, Nat.pow_zero, Nat.mul_one] at hd
    split at hd
    · exact of_decide_eq_true hd
    · obtain ⟨hlt, hlt'⟩ := of_decide_eq_true hd
      exact ⟨Nat.le_of_lt hlt, Nat.le_of_lt hlt'⟩
  unfold highEnd at hends
  simp only [Nat.pow_eq] at hends
  exact ⟨by omega, hends.2⟩

/-- Whole doubles are whole multiples of one in their units. -/
theorem isIntegral_iff : x.isIntegral = true ↔ one ∣ x.magnitude := by
  unfold isIntegral
  rw [beq_iff_eq, Nat.dvd_iff_mod_eq_zero]

/-- A double is whole, or one is a multiple of its step. -/
theorem one_dvd_or (x : Finite) : one ∣ x.magnitude ∨ 2 ^ x.scale ∣ one := by
  unfold one magnitude
  generalize 1074 = bits
  rcases Nat.le_total bits x.scale with hle | hle
  · exact .inl ((pow_dvd_pow 2 hle).mul_left _)
  · exact .inr (pow_dvd_pow 2 hle)

/-- A double with a whole number half a step away is whole. -/
theorem isIntegral_of_reads (hd : x.reads d = true) (hwhole : 0 ≤ d.exponent) :
    x.isIntegral = true := by
  rw [isIntegral_iff]
  rcases x.one_dvd_or with hone | ⟨w, hw⟩
  · exact hone
  obtain ⟨hle, hge⟩ := near_of_reads hd hwhole
  have hstep : 0 < 2 ^ x.scale := Nat.two_pow_pos x.scale
  unfold quarters magnitude at hle hge
  unfold magnitude
  rw [Nat.pow_eq, hw] at hle hge ⊢
  generalize 2 ^ x.scale = step at *
  generalize 10 ^ d.exponent.toNat = grid at *
  -- in steps of the double, the whole number is its significand
  have hpoint : d.digits * (grid * (4 * (step * w))) = 4 * (d.digits * grid * w) * step := by ring
  have hquarters : 4 * (x.significand * step) = 4 * x.significand * step := by ring
  rw [hpoint, hquarters, ← Nat.add_mul] at hle hge
  have hle' := Nat.le_of_mul_le_mul_right hle hstep
  have hge' := Nat.le_of_mul_le_mul_right hge hstep
  have hsignificand : x.significand = d.digits * grid * w := by omega
  refine ⟨d.digits * grid, ?_⟩
  rw [hsignificand]
  ring

/-- The whole number that a whole double is reads back. -/
theorem reads_gridBelow_zero (hint : x.isIntegral = true) (hpos : 0 < x.magnitude) :
    x.reads ⟨x.gridBelow 0, 0⟩ = true := by
  have hstep : 0 < Nat.pow 2 x.scale := Nat.two_pow_pos x.scale
  have hpoint : x.gridBelow 0 * (Nat.pow 10 0 * (4 * one)) = x.quarters * Nat.pow 10 0 := by
    have hdvd : 4 * one ∣ x.quarters := Nat.mul_dvd_mul_left 4 (isIntegral_iff.1 hint)
    unfold gridBelow
    simp only [Int.neg_zero, Int.toNat_zero, Nat.pow_eq, Nat.pow_zero, Nat.mul_one, Nat.one_mul]
    exact Nat.div_mul_cancel hdvd
  have hlow : x.lowEnd < x.quarters := by
    have hquarters : 0 < x.quarters := Nat.mul_pos (by decide) hpos
    unfold lowEnd
    split <;> omega
  have hhigh : x.quarters < x.highEnd := by
    unfold highEnd
    omega
  unfold reads
  simp only [Int.neg_zero, Int.toNat_zero, hpoint]
  simp only [Nat.pow_eq, Nat.pow_zero, Nat.mul_one]
  split
  · exact decide_eq_true ⟨Nat.le_of_lt hlow, Nat.le_of_lt hhigh⟩
  · exact decide_eq_true ⟨hlow, hhigh⟩

/-- The search for a whole double ends on a grid of whole numbers. -/
theorem refine_whole (hint : x.isIntegral = true) (hpos : 0 < x.magnitude) (tie : Tie)
    (steps : Nat) {k : Int} (hk : 0 ≤ k) : 0 ≤ (x.refine tie steps k).exponent := by
  induction steps generalizing k with
  | zero => exact hk
  | succ steps ih =>
    rw [refine]
    split
    case h_1 =>
      split
      · exact hk
      · exact hk
    case h_2 => exact hk
    case h_3 => exact hk
    case h_4 hbelow _ =>
      have hne : k ≠ 0 := by
        rintro rfl
        rw [reads_gridBelow_zero hint hpos] at hbelow
        cases hbelow
      exact ih (by omega)

/-- The leading bit of a double tells its size in powers of two. -/
theorem add_le_log2_iff (hpos : 0 < x.magnitude) {bits : Nat} :
    bits + 1074 ≤ Nat.log2 x.magnitude ↔ 2 ^ bits * one ≤ x.magnitude := by
  unfold one
  generalize 1074 = places
  rw [Nat.le_log2 (Nat.ne_of_gt hpos), Nat.pow_add]
  exact Iff.rfl

/-- The shortest digits of a double have no point exactly when it is whole. -/
theorem exponent_shortest_iff (hpos : 0 < x.magnitude) (tie : Tie) :
    0 ≤ (x.shortest tie).exponent ↔ x.isIntegral = true := by
  have hsignificand : x.significand ≠ 0 := by
    intro hzero
    rw [magnitude, hzero, Nat.zero_mul] at hpos
    exact Nat.lt_irrefl 0 hpos
  unfold shortest
  rw [if_neg hsignificand]
  constructor
  · intro hwhole
    rcases x.refine_outcome tie 30 _ with hreads | hend
    · exact isIntegral_of_reads hreads hwhole
    · -- only doubles without a fraction are so large that the search is cut short
      have hlarge : 2 ^ 52 * one ≤ x.magnitude := (add_le_log2_iff hpos).1 (by omega)
      obtain ⟨n, hn⟩ := exists_magnitude_eq hlarge
      exact isIntegral_iff.2 ⟨n, hn.trans (Nat.mul_comm n one)⟩
  · intro hint
    have hone : 2 ^ 0 * one ≤ x.magnitude := by
      rw [Nat.pow_zero, Nat.one_mul]
      exact Nat.le_of_dvd hpos (isIntegral_iff.1 hint)
    have hlog := (add_le_log2_iff hpos).2 hone
    exact refine_whole hint hpos tie 30 (by omega)

end Binary64.Finite

-- ==================================================== characters of numbers

namespace Numeral

/-- Numerals are read back, so different numbers have different ones. -/
theorem digits_injective {m n : Nat} (h : digits m = digits n) : m = n := by
  have hvalue := congrArg value h
  rwa [value_digits, value_digits] at hvalue

/-- No numeral begins with a sign. -/
theorem digits_ne_minus (n : Nat) (ds : List Char) : digits n ≠ '-' :: ds := by
  intro h
  have hall := all_isDigit_digits n
  rw [h] at hall
  cases hall

/-- A sign and a numeral are a whole number only in its own notation. -/
theorem sign_append_eq_ofInt_iff {negative : Bool} {n : Nat} {i : Int} :
    Binary64.sign negative ++ ofNat n = ofInt i ↔ negative = decide (i < 0) ∧ n = i.natAbs := by
  rw [← String.toList_inj, String.toList_append]
  unfold ofNat ofInt signed
  rw [String.toList_ofList, String.toList_ofList]
  by_cases hi : i < 0
  · rw [if_pos hi, decide_eq_true hi]
    cases negative
    · refine ⟨fun h => absurd h (digits_ne_minus _ _), fun h => (by cases h.1)⟩
    · refine ⟨fun h => ⟨rfl, digits_injective (List.cons.inj h).2⟩, ?_⟩
      rintro ⟨-, rfl⟩
      rfl
  · rw [if_neg hi, decide_eq_false hi]
    cases negative
    · refine ⟨fun h => ⟨rfl, digits_injective h⟩, ?_⟩
      rintro ⟨-, rfl⟩
      rfl
    · refine ⟨fun h => absurd h.symm (digits_ne_minus _ _), fun h => (by cases h.1)⟩

theorem ofInt_eq (i : Int) : ofInt i = Binary64.sign (decide (i < 0)) ++ ofNat i.natAbs :=
  (sign_append_eq_ofInt_iff.2 ⟨rfl, rfl⟩).symm

/-- Whole numbers are written with digits and a sign. -/
theorem mem_sign_append {negative : Bool} {n : Nat} {c : Char}
    (hc : c ∈ (Binary64.sign negative ++ ofNat n).toList) : (c.isDigit || c == '-') = true := by
  unfold ofNat at hc
  rw [String.toList_append, String.toList_ofList] at hc
  rcases List.mem_append.1 hc with hc | hc
  · cases negative
    · cases hc
    · rw [List.mem_singleton.1 hc]
      rfl
  · rw [List.all_eq_true.1 (all_isDigit_digits _) c hc, Bool.true_or]

end Numeral

namespace Binary64

open Json.Token (isNumberChar)

/-- The text has no characters but those of numbers. -/
def Numeric (text : String) : Prop := ∀ c ∈ text.toList, isNumberChar c = true

/-- Numeric texts put together are numeric. -/
theorem Numeric.append {s t : String} (hs : Numeric s) (ht : Numeric t) : Numeric (s ++ t) := by
  unfold Numeric
  rw [String.toList_append]
  exact List.forall_mem_append.2 ⟨hs, ht⟩

theorem numeric_digits {ds : List Char} (hds : ds.all Char.isDigit = true) :
    Numeric (String.ofList ds) := by
  intro c hc
  rw [String.toList_ofList] at hc
  simp [isNumberChar, List.all_eq_true.1 hds c hc]

theorem numeric_ofNat (n : Nat) : Numeric (Numeral.ofNat n) :=
  numeric_digits (Numeral.all_isDigit_digits n)

/-- Leading zeros are digits. -/
theorem numeric_padded (width n : Nat) : Numeric (Numeral.padded width n) := by
  refine numeric_digits ?_
  rw [List.all_append, Numeral.all_isDigit_digits, Bool.and_true, List.all_replicate]
  split <;> rfl

theorem numeric_sign (negative : Bool) : Numeric (sign negative) := by
  cases negative
  · exact fun c hc => (by cases hc)
  · exact List.forall_mem_singleton.2 rfl

/-- Digits with places behind the point are numeric, and the point is there. -/
theorem numeric_positional {places : Nat} (hplaces : 0 < places) (digits : Nat) :
    Numeric (positional digits places) ∧ '.' ∈ (positional digits places).toList := by
  have hpoint : Numeric "." := List.forall_mem_singleton.2 rfl
  unfold positional
  rw [if_neg (Nat.ne_of_gt hplaces)]
  refine ⟨((numeric_ofNat _).append hpoint).append (numeric_padded _ _), ?_⟩
  rw [String.toList_append, String.toList_append]
  exact List.mem_append_left _ (List.mem_append_right _ (List.mem_singleton.2 rfl))

end Binary64

-- ==================================================== doubles

namespace Binary64

/-- What is whole already is not rounded. -/
theorem halfEven_mul {den : Nat} (hden : 0 < den) (n : Nat) : halfEven (n * den) den = n := by
  unfold halfEven
  rw [Nat.mul_mod_left, Nat.mul_div_cancel n hden]
  exact if_pos hden

namespace Finite

/-- A whole double that is shown without a point. -/
def ShownWhole (x : Finite) : Prop := x.isIntegral = true ∧ 10 ^ 16 * one ≤ x.magnitude

/-- The whole number that its shortest digits show. -/
def shownNat (x : Finite) : Nat :=
  (x.shortest .up).digits * 10 ^ (x.shortest .up).exponent.toNat

variable {x : Finite}

/-- The test of the size goes by units, too. -/
theorem isModestIntegral_iff :
    x.isModestIntegral = true ↔ x.isIntegral = true ∧ x.magnitude < 10 ^ 16 * one := by
  unfold isModestIntegral
  rw [Bool.and_eq_true, decide_eq_true_iff, Nat.pow_eq]

/-- Whole doubles below 10^16 keep a trailing `.0`. -/
theorem text_of_isModestIntegral (hx : x.isModestIntegral = true) :
    (Binary64.finite x).text = sign x.negative ++ Numeral.ofNat (x.magnitude / one) ++ ".0" := by
  obtain ⟨n, hn⟩ := isIntegral_iff.1 (isModestIntegral_iff.1 hx).1
  have htenths : halfEven (x.magnitude * Nat.pow 10 1) one = n * 10 := by
    rw [hn, Nat.mul_comm one n, Nat.mul_right_comm]
    exact halfEven_mul one_pos (n * 10)
  have hwhole : x.magnitude / one = n := by
    rw [hn]
    exact Nat.mul_div_cancel_left n one_pos
  have hlast : Numeral.padded 1 0 = "0" := by decide +kernel
  have htenth : n * 10 / Nat.pow 10 1 = n ∧ n * 10 % Nat.pow 10 1 = 0 := by
    rw [Nat.pow_eq, Nat.pow_one]
    omega
  rw [text, if_pos hx, fixed, htenths, positional, if_neg (by decide), htenth.1, htenth.2, hlast,
    hwhole]
  simp only [String.append_assoc]
  rfl

/-- Larger ones are shown as whole numbers. -/
theorem text_of_shownWhole (hx : x.ShownWhole) :
    (Binary64.finite x).text = sign x.negative ++ Numeral.ofNat x.shownNat := by
  have hpos : 0 < x.magnitude := Nat.lt_of_lt_of_le (Nat.mul_pos (by decide) one_pos) hx.2
  have hexponent := (exponent_shortest_iff hpos .up).2 hx.1
  have hnot : ¬ x.isModestIntegral = true := fun h =>
    absurd (isModestIntegral_iff.1 h).2 (Nat.not_lt.2 hx.2)
  rw [text, if_neg hnot, short, Decimal.plain, if_pos hexponent]
  rfl

/-- All other doubles are shown with a point. -/
theorem numeric_text (hx : ¬ x.ShownWhole) :
    Numeric (Binary64.finite x).text ∧ '.' ∈ (Binary64.finite x).text.toList := by
  have hsigned : ∀ {digits places : Nat}, 0 < places →
      Numeric (sign x.negative ++ positional digits places)
        ∧ '.' ∈ (sign x.negative ++ positional digits places).toList := by
    intro digits places hplaces
    obtain ⟨hnumeric, hpoint⟩ := numeric_positional hplaces digits
    refine ⟨(numeric_sign _).append hnumeric, ?_⟩
    rw [String.toList_append]
    exact List.mem_append_right _ hpoint
  rw [text]
  split
  case isTrue => exact hsigned (by decide)
  case isFalse hmodest =>
    have hint : ¬ x.isIntegral = true := fun hint =>
      hmodest (isModestIntegral_iff.2 ⟨hint, Nat.not_le.1 fun hle => hx ⟨hint, hle⟩⟩)
    have hpos : 0 < x.magnitude := by
      refine Nat.pos_of_ne_zero fun hzero => hint (isIntegral_iff.2 ?_)
      rw [hzero]
      exact dvd_zero one
    have hexponent := mt (exponent_shortest_iff hpos .up).1 hint
    rw [short, Decimal.plain, if_neg hexponent]
    exact hsigned (by omega)

end Finite

/-- The double is shown as the integer is. -/
def TakenFor (x : Binary64) (i : Int) : Prop :=
  ∃ f, x = .finite f ∧ f.ShownWhole ∧ f.negative = decide (i < 0) ∧ f.shownNat = i.natAbs

/-- A double has the text of an integer exactly where it is taken for it. -/
theorem text_eq_ofInt_iff {x : Binary64} {i : Int} : x.text = Numeral.ofInt i ↔ x.TakenFor i := by
  -- no integer has a character that is neither a digit nor the sign
  have hforeign : ∀ c ∈ x.text.toList, (c.isDigit || c == '-') = false →
      x.text ≠ Numeral.ofInt i := by
    intro c hc hother heq
    rw [heq, Numeral.ofInt_eq] at hc
    rw [Numeral.mem_sign_append hc] at hother
    cases hother
  have hnone : (∀ f, x ≠ .finite f) → ¬ x.TakenFor i := fun h ⟨f, hf, _⟩ => h f hf
  cases x with
  | nan => exact iff_of_false (hforeign 'n' (by decide) rfl) (hnone fun f => by simp)
  | infinite negative =>
    refine iff_of_false (hforeign 'i' ?_ rfl) (hnone fun f => by simp)
    cases negative <;> decide
  | finite x =>
    by_cases hx : x.ShownWhole
    · rw [Finite.text_of_shownWhole hx, Numeral.sign_append_eq_ofInt_iff]
      refine ⟨fun h => ⟨x, rfl, hx, h⟩, ?_⟩
      rintro ⟨f, hf, -, h⟩
      cases hf
      exact h
    · refine iff_of_false (hforeign '.' (Finite.numeric_text hx).2 rfl) ?_
      rintro ⟨f, hf, hwhole, -⟩
      cases hf
      exact hx hwhole

end Binary64

end LiveDoc
