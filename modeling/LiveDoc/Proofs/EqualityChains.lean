/-
Chains of equal values.

Of three values let the first two be equal, and the last two. Then the outer
ones are equal, except for one thing that can happen at some place inside: the
outer values have integers there, the middle one a double. Integers are
compared with a double as doubles but with each other as they are, and two
integers may be rounded to one double (`Heap.Clash`).

The three values are followed at once, along the first equality. At every place
they are of one kind or are numbers, and the only chain of numbers that does
not close is the one that goes from an integer to a double and back
(`Same.trans`). Where all integers are doubles themselves no two become one
(`Clash.exists_integers`), so up to 2^53 equality is transitive.
-/
import LiveDoc.Proofs.Equality

namespace LiveDoc

open Binary64
open Relation (ReflTransGen TransGen)

theorem Binary64.SameNumber.trans {x y z : Binary64} (hxy : x.SameNumber y)
    (hyz : y.SameNumber z) : x.SameNumber z := by
  cases hxy with
  | infinite negative => exact hyz
  | finite hvalue =>
    cases hyz with
    | finite hvalue' => exact .finite (hvalue.trans hvalue')

namespace Heap

/-- At one place inside, the outer values have different integers and the
middle one has a double. -/
inductive Clash (h : Heap) : Value → Value → Value → Prop
  | here {i j : Int64} {x : Binary64} (differ : i ≠ j) : Clash h (.int i) (.float x) (.int j)
  | item {r s t : Ref} {k : Nat} {u v w : Value} (first : (h.items r)[k]? = some u)
      (middle : (h.items s)[k]? = some v) (last : (h.items t)[k]? = some w)
      (inner : Clash h u v w) : Clash h (.list r) (.list s) (.list t)
  | entry {r s t : Ref} {key : String} {u v w : Value} (first : (h.table r).find? key = some u)
      (middle : (h.table s).find? key = some v) (last : (h.table t).find? key = some w)
      (inner : Clash h u v w) : Clash h (.dict r) (.dict s) (.dict t)

variable {h : Heap} {u v w : Value}

/-- Values that clash are not the same. -/
theorem Clash.not_same (hclash : h.Clash u v w) : ¬ h.Same u w := by
  induction hclash with
  | here hdiffer =>
    intro hsame
    cases hsame
    exact hdiffer rfl
  | item hfirst _ hlast _ ih =>
    intro hsame
    cases hsame with
    | list _ hitems => exact ih (hitems _ _ _ hfirst hlast)
  | entry hfirst _ hlast _ ih =>
    intro hsame
    cases hsame with
    | dict _ hvalues => exact ih (hvalues _ _ _ hfirst hlast)

/-- Values that are the same as one in the middle are the same, unless they
clash around it. -/
theorem Same.trans (huv : h.Same u v) (hvw : h.Same v w) (hclash : ¬ h.Clash u v w) :
    h.Same u w := by
  induction huv generalizing w with
  | null => exact hvw
  | bool b => exact hvw
  | int i => exact hvw
  | str s => exact hvw
  | float hnumber =>
    cases hvw with
    | float hnumber' => exact .float (hnumber.trans hnumber')
    | floatInt hnumber' => exact .floatInt (hnumber.trans hnumber')
  | @intFloat i x hnumber =>
    cases hvw with
    | float hnumber' => exact .intFloat (hnumber.trans hnumber')
    | @floatInt _ j _ =>
      -- two integers meet at one double: equal, or the clash that is excluded
      by_cases heq : i = j
      · rw [heq]
        exact .int j
      · exact absurd (.here heq) hclash
  | floatInt hnumber =>
    cases hvw with
    | int i => exact .floatInt hnumber
    | intFloat hnumber' => exact .float (hnumber.trans hnumber')
  | @list r s hlength _ ih =>
    cases hvw with
    | @list _ t hlength' hitems' =>
      refine .list (hlength.trans hlength') fun k u w hu hw => ?_
      have hlt : k < (h.items s).length := hlength ▸ (List.getElem?_eq_some_iff.1 hu).1
      have hv := List.getElem?_eq_getElem hlt
      exact ih k u _ hu hv (hitems' k _ w hv hw) fun hinner => hclash (.item hu hv hw hinner)
  | @dict r s hkeys _ ih =>
    cases hvw with
    | @dict _ t hkeys' hvalues' =>
      refine .dict (fun key => (hkeys key).trans (hkeys' key)) fun key u w hu hw => ?_
      obtain ⟨v, hv⟩ :=
        Table.exists_find?_iff.2 ((hkeys key).1 (Table.exists_find?_iff.1 ⟨u, hu⟩))
      exact ih key u v hu hv (hvalues' key v w hv hw) fun hinner => hclash (.entry hu hv hw hinner)
  | cls hobject =>
    cases hvw with
    | cls hobject' => exact .cls (hobject.trans hobject')
  | inst hobject =>
    cases hvw with
    | inst hobject' => exact .inst (hobject.trans hobject')

/-- What clashes around a value that is the same as both has different integers
that become the same double. -/
theorem Clash.exists_integers (hclash : h.Clash u v w) (huv : h.Same u v) (hvw : h.Same v w) :
    ∃ i j : Int64, i ≠ j ∧ h.Inside u (.int i) ∧ h.Inside w (.int j)
      ∧ (ofInt64 i).SameNumber (ofInt64 j) := by
  induction hclash with
  | @here i j x hdiffer =>
    cases huv with
    | intFloat hnumber =>
      cases hvw with
      | floatInt hnumber' => exact ⟨i, j, hdiffer, .refl, .refl, hnumber.trans hnumber'⟩
  | @item r s t k u v w hu hv hw _ ih =>
    cases huv with
    | list _ hitems =>
      cases hvw with
      | list _ hitems' =>
        obtain ⟨i, j, hdiffer, hi, hj, hnumber⟩ := ih (hitems k u v hu hv) (hitems' k v w hv hw)
        have hfirst : h.Contains (.list r) u := List.mem_of_getElem? hu
        have hlast : h.Contains (.list t) w := List.mem_of_getElem? hw
        exact ⟨i, j, hdiffer, .head hfirst hi, .head hlast hj, hnumber⟩
  | @entry r s t key u v w hu hv hw _ ih =>
    cases huv with
    | dict _ hvalues =>
      cases hvw with
      | dict _ hvalues' =>
        obtain ⟨i, j, hdiffer, hi, hj, hnumber⟩ := ih (hvalues key u v hu hv) (hvalues' key v w hv hw)
        have hfirst : h.Contains (.dict r) u := List.mem_map_of_mem (Table.find?_eq_some_iff.1 hu)
        have hlast : h.Contains (.dict t) w := List.mem_map_of_mem (Table.find?_eq_some_iff.1 hw)
        exact ⟨i, j, hdiffer, .head hfirst hi, .head hlast hj, hnumber⟩

end Heap

/-- Integers that are doubles become different doubles. -/
theorem Binary64.eq_of_sameNumber {i j : Int64} (hi : ∃ z : Finite, z.value = i.toInt)
    (hj : ∃ z : Finite, z.value = j.toInt) (hnumber : (ofInt64 i).SameNumber (ofInt64 j)) :
    i = j := by
  obtain ⟨y, hy⟩ := hi
  obtain ⟨z, hz⟩ := hj
  obtain ⟨x, hx, hxnear⟩ := exists_nearestTo_ofInt64 i
  obtain ⟨x', hx', hxnear'⟩ := exists_nearestTo_ofInt64 j
  rw [hx, hx'] at hnumber
  cases hnumber with
  | finite hvalue =>
    rw [hxnear.value_eq hy, hxnear'.value_eq hz] at hvalue
    exact Int64.toInt_inj.1 (Int.cast_injective hvalue)

namespace Value

variable {h : Heap} {u v w : Value}

/-- Of three values let the first two be equal, and the last two. The outer ones
are equal exactly if they do not clash around the middle one, and they do not
if all integers inside of them are doubles. -/
theorem eq_trans_iff (huv : u.eq v h = true) (hvw : v.eq w h = true) :
    (u.eq w h = true ↔ ¬ h.Clash u v w)
      ∧ ((∀ i : Int64, h.Inside u (.int i) → ∃ z : Finite, z.value = i.toInt) →
        (∀ j : Int64, h.Inside w (.int j) → ∃ z : Finite, z.value = j.toInt) →
          u.eq w h = true) := by
  obtain ⟨hsame, hu⟩ := Heap.eqWithin_iff.1 huv
  obtain ⟨hsame', -⟩ := Heap.eqWithin_iff.1 hvw
  have hiff : u.eq w h = true ↔ ¬ h.Clash u v w := by
    unfold Value.eq
    rw [Heap.eqWithin_iff, and_iff_left hu]
    exact ⟨fun huw hclash => hclash.not_same huw, hsame.trans hsame'⟩
  refine ⟨hiff, fun hfirst hlast => hiff.2 fun hclash => ?_⟩
  obtain ⟨i, j, hdiffer, hi, hj, hnumber⟩ := hclash.exists_integers hsame hsame'
  exact hdiffer (eq_of_sameNumber (hfirst i hi) (hlast j hj) hnumber)

/-- Two integers around a double, each of the three in a list. -/
def Sample.rounded : Heap :=
  ⟨#[.list [.int 9007199254740992], .list [.float (ofInt64 9007199254740992)],
    .list [.int 9007199254740993]]⟩

/-- The outer lists are equal to the one in the middle, and clash. -/
theorem chain_of_rounded :
    (Value.list 0).eq (.list 1) Sample.rounded = true
      ∧ (Value.list 1).eq (.list 2) Sample.rounded = true
      ∧ Sample.rounded.Clash (.list 0) (.list 1) (.list 2)
      ∧ (Value.list 0).eq (.list 2) Sample.rounded ≠ true := by
  have hfirst : (Value.list 0).eq (.list 1) Sample.rounded = true := by decide +kernel
  have hlast : (Value.list 1).eq (.list 2) Sample.rounded = true := by decide +kernel
  have hclash : Sample.rounded.Clash (.list 0) (.list 1) (.list 2) :=
    .item (k := 0) rfl rfl rfl (.here (by decide))
  obtain ⟨hiff, -⟩ := eq_trans_iff hfirst hlast
  exact ⟨hfirst, hlast, hclash, fun heq => hiff.1 heq hclash⟩

/-- Equality is not transitive: 2^53 and the integer after it are equal to the
same double. -/
theorem not_transitive_past_largest :
    (Value.int 9007199254740992).eq (.float (ofInt64 9007199254740992)) .empty = true
      ∧ (Value.float (ofInt64 9007199254740992)).eq (.int 9007199254740993) .empty = true
      ∧ (Value.int 9007199254740992).eq (.int 9007199254740993) .empty = false := by
  decide +kernel

end Value

end LiveDoc
