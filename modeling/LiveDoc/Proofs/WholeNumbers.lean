/-
Whole numbers in templates.

A placeholder of the whole style asks a value for its number, and numbers
are doubles there. So the digits that are shown are not those of the integer
but of the double nearest to it, brought back to 64 bits. From 2^52 on all
doubles are whole (`Finite.exists_magnitude_eq`), so the way back rounds
nothing; it only stops at the largest 64-bit integer, below the double 2^63
(`exists_toInt64_ofInt64`). An integer is thus shown as it is exactly when
it is a double or that largest one (`toInt64_ofInt64_eq_iff`), and otherwise
as a neighbour.

The digits (`Numeral.isDecimal_signed`), the filling around them
(`Layout.showsWhole_pad`) and the rest of the template
(`renderSegments_append`) do not depend on which integer it is.
-/
import LiveDoc.Live.Text
import LiveDoc.Template.Reader
import LiveDoc.Proofs.IntegerRanges
import LiveDoc.Proofs.Literals

namespace LiveDoc

namespace Binary64

-- ==================================================== whole doubles

namespace Finite

/-- So large a double has no bits behind the point: its significand stands
before it. -/
theorem exists_magnitude_eq {x : Finite} (h : 2 ^ 52 * one ≤ x.magnitude) :
    ∃ n, x.magnitude = n * one := by
  unfold one at h ⊢
  generalize 1074 = bits at h ⊢
  rcases x.exists_multiple_or_lt bits with hmultiple | ⟨-, hlt⟩
  · exact hmultiple
  · exact absurd hlt (Nat.not_lt.2 h)

theorem nearestInt_of_magnitude {x : Finite} {n : Nat} (h : x.magnitude = n * one) :
    x.nearestInt = signed x.negative n := by
  have hsize : (2 * x.magnitude + one) / (2 * one) = n := by
    have hone := one_pos
    rw [h]
    generalize one = w at hone ⊢
    rw [← Nat.mul_assoc, Nat.mul_right_comm, Nat.add_comm, Nat.add_mul_div_left _ _ (by omega),
      Nat.div_eq_of_lt (by omega), Nat.zero_add]
  unfold nearestInt
  rw [hsize]
  rfl

end Finite

section Integers

variable {i : Int64} {x : Finite}

/-- The double nearest to a 64-bit integer is whole: either it is the integer,
or both are beyond 2^53. -/
theorem Finite.NearestTo.exists_magnitude_eq (hnear : x.NearestTo i.toInt) :
    ∃ n, x.magnitude = n * one := by
  have hone : (0 : ℚ) < one := by exact_mod_cast one_pos
  have hlarge : (2 ^ 53 : Nat) ≤ |x.value| → ∃ n, x.magnitude = n * one := by
    intro hle
    rw [x.abs_value, le_div_iff₀ hone] at hle
    have hle' : 2 ^ 53 * one ≤ x.magnitude := by exact_mod_cast hle
    exact Finite.exists_magnitude_eq (by omega)
  rcases Nat.le_total i.toInt.natAbs (2 ^ 53) with hsmall | hbig
  · obtain ⟨z, hz⟩ := exists_value_eq_toInt hsmall
    refine ⟨i.toInt.natAbs, x.magnitude_of_abs_value ?_⟩
    rw [hnear.value_eq hz, ← Int.cast_abs, Int.abs_eq_natAbs, Int.cast_natCast]
  · obtain ⟨⟨top, htop⟩, bottom, hbottom⟩ := Finite.exists_value_eq_two_pow (e := 53) (by decide)
    refine hlarge ?_
    rcases Int.le_total 0 i.toInt with hpos | hneg
    · have habove : top.value ≤ i.toInt := by
        rw [htop]
        exact_mod_cast (by omega : (2 ^ 53 : Int) ≤ i.toInt)
      have hle := hnear.value_le habove
      rw [htop] at hle
      exact le_abs.2 (.inl (by exact_mod_cast hle))
    · have hbelow : (i.toInt : ℚ) ≤ bottom.value := by
        rw [hbottom]
        exact_mod_cast (by omega : i.toInt ≤ -(2 ^ 53 : Int))
      have hle := hnear.le_value hbelow
      rw [hbottom] at hle
      exact le_abs.2 (.inr (by exact_mod_cast le_neg.2 hle))

/-- The way back stops below the double 2^63. -/
theorem toInt64_of_nearestInt {n : Int} (hn : x.nearestInt = n) (hlower : -2 ^ 63 ≤ n) :
    (toInt64 (.finite x)).toInt = min n Int64.maxValue.toInt := by
  have hmin : Int64.minValue.toInt = -2 ^ 63 := rfl
  have hmax : Int64.maxValue.toInt = 2 ^ 63 - 1 := rfl
  unfold toInt64
  dsimp only
  rw [hn, if_neg (by omega)]
  split
  case isTrue habove => omega
  case isFalse hwithin =>
    rw [Int64.toInt_ofInt_of_le (by omega) (by omega)]
    omega

/-- What becomes of an integer that is made a double and an integer again. -/
theorem exists_toInt64_ofInt64 (i : Int64) :
    ∃ x, ofInt64 i = .finite x ∧ x.NearestTo i.toInt
      ∧ ((ofInt64 i).toInt64.toInt : ℚ) = min x.value Int64.maxValue.toInt := by
  obtain ⟨x, hx, hnear⟩ := exists_nearestTo_ofInt64 i
  obtain ⟨n, hn⟩ := hnear.exists_magnitude_eq
  have hvalue := Finite.value_eq_of_magnitude hn
  have hlower : -2 ^ 63 ≤ signed x.negative n := by
    obtain ⟨-, bottom, hbottom⟩ := Finite.exists_value_eq_two_pow (e := 63) (by decide)
    have habove : bottom.value ≤ i.toInt := by
      rw [hbottom]
      exact_mod_cast Int64.le_toInt i
    have hle := hnear.value_le habove
    rw [hbottom, hvalue] at hle
    exact_mod_cast hle
  refine ⟨x, hx, hnear, ?_⟩
  rw [hx, toInt64_of_nearestInt (Finite.nearestInt_of_magnitude hn) hlower, hvalue, Int.cast_min]

/-- The largest integer is no double; the nearest one is beyond it. -/
theorem toInt64_ofInt64_maxValue : (ofInt64 Int64.maxValue).toInt64 = Int64.maxValue := by
  decide +kernel

/-- An integer comes back exactly if it is a double, or the largest one. -/
theorem toInt64_ofInt64_eq_iff (i : Int64) :
    (ofInt64 i).toInt64 = i ↔ (∃ z : Finite, z.value = i.toInt) ∨ i = Int64.maxValue := by
  obtain ⟨x, hx, hnear, hback⟩ := exists_toInt64_ofInt64 i
  have hle : i.toInt ≤ Int64.maxValue.toInt := Int64.toInt_le i
  constructor
  · intro heq
    rw [heq] at hback
    rcases min_choice x.value Int64.maxValue.toInt with hmin | hmin
    · exact .inl ⟨x, (hback.trans hmin).symm⟩
    · exact .inr (Int64.toInt_inj.1 (by exact_mod_cast hback.trans hmin))
  · rintro (⟨z, hz⟩ | rfl)
    · rw [hnear.value_eq hz, ← Int.cast_min, min_eq_left hle] at hback
      exact Int64.toInt_inj.1 (by exact_mod_cast hback)
    · exact toInt64_ofInt64_maxValue

end Integers

end Binary64

-- ==================================================== digits

namespace Numeral

/-- The characters are the decimal notation of the whole number: the digits
of its absolute value without leading zeros, and a sign if it is negative. -/
def IsDecimal (cs : List Char) (n : Int) : Prop :=
  ∃ ds, cs = (if n < 0 then ['-'] else []) ++ ds
    ∧ ds ≠ [] ∧ ds.all Char.isDigit = true ∧ (ds.head? = some '0' → ds = ['0'])
    ∧ value ds = n.natAbs

theorem isDecimal_signed (n : Int) : IsDecimal (signed n) n := by
  refine ⟨digits n.natAbs, ?_, digits_ne_nil _, all_isDigit_digits _, ?_, value_digits _⟩
  · unfold signed
    split <;> rfl
  · intro hzero
    rcases Nat.eq_zero_or_pos n.natAbs with hn | hn
    · rw [hn, digits_of_lt (by decide)]
      rfl
    · exact absurd hzero (head?_digits_ne hn)

end Numeral

-- ==================================================== filling

namespace Template

variable {f : Field}

/-- The text shows the number as the layout asks for: its digits, and in front
of them the fill up to the width, unless the layout aligns them otherwise. -/
def Layout.ShowsWhole (layout : Layout) (n : Int) (text : String) : Prop :=
  ∃ digits before after, Numeral.IsDecimal digits n
    ∧ text.toList
      = List.replicate before layout.fill ++ digits ++ List.replicate after layout.fill
    ∧ before + after = layout.width - digits.length
    ∧ (layout.align = none ∨ layout.align = some .right → after = 0)
    ∧ (layout.align = some .left → before = 0)
    ∧ (layout.align = some .center → after = before ∨ after = before + 1)

theorem Layout.showsWhole_pad (layout : Layout) (n : Int) :
    layout.ShowsWhole n (layout.pad true (Numeral.ofInt n)) := by
  have hdecimal := Numeral.isDecimal_signed n
  unfold pad Numeral.ofInt
  rw [String.length_ofList]
  generalize Numeral.signed n = digits at hdecimal ⊢
  generalize hmissing : layout.width - digits.length = missing
  dsimp only
  rcases halign : layout.align with - | - | - | -
  · exact ⟨digits, missing, 0, hdecimal, by simp, by omega, by simp [halign]⟩
  · exact ⟨digits, 0, missing, hdecimal, by simp, by omega, by simp [halign]⟩
  · exact ⟨digits, missing, 0, hdecimal, by simp, by omega, by simp [halign]⟩
  · refine ⟨digits, missing / 2, missing - missing / 2, hdecimal, by simp, by omega,
      by simp [halign], by simp [halign], fun _ => ?_⟩
    omega

/-- A placeholder of the whole style sees an integer as a double. -/
theorem Field.render_int (hstyle : f.layout.style = some .whole) (hconversion : f.conversion = .str)
    (h : Heap) (i : Int64) :
    f.render (Value.view h) (.int i)
      = f.layout.pad true (Numeral.ofInt (Binary64.ofInt64 i).toInt64.toInt) := by
  unfold render
  rw [hstyle, hconversion]
  rfl

-- ==================================================== one placeholder among others

section Segments

variable {α : Type} {m : Type → Type} [Monad m] [LawfulMonad m]

/-- Segments are rendered one after the other. -/
theorem renderSegments_append (view : View α) (resolve : String → m α) (front back : List Segment) :
    renderSegments view resolve (front ++ back)
      = (do
        let a ← renderSegments view resolve front
        let b ← renderSegments view resolve back
        pure (a ++ b)) := by
  induction front with
  | nil => simp only [renderSegments, List.nil_append, pure_bind, String.empty_append, bind_pure]
  | cons segment rest ih =>
    rw [List.cons_append]
    cases segment with
    | literal text => simp only [renderSegments, ih, bind_assoc, pure_bind, String.append_assoc]
    | field f => simp only [renderSegments, ih, bind_assoc, pure_bind, String.append_assoc]

variable {t : Template} {before after : List Segment} {i : Int64}

/-- How a template shows an integer in a placeholder of the whole style: in
decimal notation, filled up to the width, but as the nearest double. So it
is the integer itself that is shown if it is a double, as all integers up
to 2^53 are, or the largest one. -/
theorem whole_style_shows {resolve : String → m Value} (h : Heap)
    (hsegments : t.segments = before ++ .field f :: after)
    (hstyle : f.layout.style = some .whole) (hconversion : f.conversion = .str)
    (hvalue : resolve f.name = pure (.int i)) :
    ∃ (x : Binary64.Finite) (j : Int64) (shown : String),
      x.NearestTo i.toInt ∧ (j.toInt : ℚ) = min x.value Int64.maxValue.toInt
        ∧ (j = i ↔ (∃ z : Binary64.Finite, z.value = i.toInt) ∨ i = Int64.maxValue)
        ∧ (i.toInt.natAbs ≤ 2 ^ 53 → j = i)
        ∧ f.layout.ShowsWhole j.toInt shown
        ∧ t.render (Value.view h) resolve
          = (do
            let front ← renderSegments (Value.view h) resolve before
            let back ← renderSegments (Value.view h) resolve after
            pure (front ++ shown ++ back)) := by
  obtain ⟨x, -, hnear, hback⟩ := Binary64.exists_toInt64_ofInt64 i
  have hexact := Binary64.toInt64_ofInt64_eq_iff i
  refine ⟨x, (Binary64.ofInt64 i).toInt64, f.render (Value.view h) (.int i), hnear, hback, hexact,
    fun hsmall => hexact.2 (.inl (exists_value_eq_toInt hsmall)), ?_, ?_⟩
  · rw [Field.render_int hstyle hconversion]
    exact f.layout.showsWhole_pad _
  · rw [render, hsegments, renderSegments_append]
    simp only [renderSegments, hvalue, bind_assoc, pure_bind, String.append_assoc]

end Segments

-- ==================================================== two integers

/-- Six places, filled with stars. -/
def starred : Field := ⟨"n", .str, ⟨'*', some .right, 6, none, some .whole⟩⟩

/-- A small integer is shown as it is, in its place in the text. -/
theorem starred_shows :
    ∃ t : Template, parse "no. \x7bn:*>6d\x7d" = .ok t
      ∧ ∃ shown, starred.layout.ShowsWhole (-42) shown
        ∧ t.render (Value.view ⟨#[]⟩) (fun _ => some (.int (-42))) = some ("no. " ++ shown) := by
  let t : Template := ⟨"no. \x7bn:*>6d\x7d", [.literal "no. ", .field starred]⟩
  have hsegments : t.segments = [.literal "no. "] ++ .field starred :: [] := rfl
  let resolve (_ : String) : Option Value := some (.int (-42))
  have hvalue : resolve starred.name = pure (.int (-42)) := rfl
  obtain ⟨x, j, shown, -, -, -, hsmall, hshows, hrender⟩ :=
    whole_style_shows ⟨#[]⟩ hsegments rfl rfl hvalue
  have hj : j = -42 := hsmall (by decide)
  rw [hj] at hshows
  refine ⟨t, by decide +kernel, shown, hshows, ?_⟩
  rw [hrender]
  simp [renderSegments]

/-- The first integer that is no double is shown as its neighbour. -/
theorem whole_style_rounds :
    ∃ t : Template, parse "\x7bn:d\x7d" = .ok t
      ∧ (∀ h, t.render (Value.view h) (fun _ => some (.int 9007199254740993))
          = some "9007199254740992")
      ∧ Numeral.ofInt (9007199254740993 : Int64).toInt = "9007199254740993" := by
  let place : Field := ⟨"n", .str, { style := some .whole }⟩
  refine ⟨⟨"\x7bn:d\x7d", [.field place]⟩, by decide +kernel, fun h => ?_, by decide +kernel⟩
  have hshown : place.render (Value.view h) (.int 9007199254740993) = "9007199254740992" := by
    rw [Field.render_int rfl rfl]
    decide +kernel
  show some (place.render (Value.view h) (.int 9007199254740993) ++ "") = _
  rw [hshown]
  rfl

end Template

end LiveDoc
