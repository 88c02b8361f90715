/-
Equality of values.

Two values are equal when they are the same data (`Heap.Same`): lists item by
item, dicts name by name, numbers by what they are worth, classes and
instances by being one object. Said like this, equality is symmetric, and a
value without NaN is equal to itself.

Deciding it is a walk through both values at once, which is cut short after
some steps. A walk that finds two values equal has seen all of them, so their
lists and dicts nest only so deep (`Heap.Nests`); it turns round in every dict,
which makes no difference, since the same data nests as deep (`Same.nests`).
Together that is all there is to the walk: it finds the same data, nested
within its steps (`eqWithin_iff`, the one place where it is followed). What nests within some
steps nests within the steps that equality is decided with, for on a way
inwards no value comes twice (`Grounded.nests`).
-/
import LiveDoc.Live.Equality
import LiveDoc.Proofs.NearestDouble
import LiveDoc.Proofs.Walks
import Mathlib.Data.Finset.Card
import Mathlib.Logic.Relation

namespace LiveDoc

open Binary64
open Relation (ReflTransGen TransGen)

-- ==================================================== lists and tables

section Pairs

variable {α β : Type} {p : α → β → Bool}

/-- Pairwise related lists are equally long, and related place by place. -/
theorem allPairs_iff {as : List α} {bs : List β} :
    allPairs p as bs = true
      ↔ as.length = bs.length
        ∧ ∀ (n : Nat) a b, as[n]? = some a → bs[n]? = some b → p a b = true := by
  induction as generalizing bs with
  | nil => cases bs <;> simp [allPairs]
  | cons a as ih =>
    cases bs with
    | nil => simp [allPairs]
    | cons b bs =>
      rw [allPairs, Bool.and_eq_true, ih, List.length_cons, List.length_cons,
        Nat.add_right_cancel_iff]
      constructor
      · rintro ⟨hfirst, hlength, hrest⟩
        refine ⟨hlength, fun n a' b' ha hb => ?_⟩
        cases n with
        | zero =>
          cases ha
          cases hb
          exact hfirst
        | succ n => exact hrest n a' b' ha hb
      · rintro ⟨hlength, hall⟩
        exact ⟨hall 0 a b rfl rfl, hlength, fun n => hall (n + 1)⟩

/-- Names that are all among equally many others are those. -/
theorem Table.keys_iff_of_subset {s : Table α} {t : Table β} (hsize : s.size = t.size)
    (hsubset : s.keys ⊆ t.keys) (key : String) : key ∈ s.keys ↔ key ∈ t.keys := by
  have hlength : t.keys.length ≤ s.keys.length := by
    have ht : t.keys.length = t.size := List.length_map _
    have hs : s.keys.length = s.size := List.length_map _
    omega
  exact ((List.subperm_of_subset s.nodup hsubset).perm_of_length_le hlength).mem_iff

/-- Matched tables have the same names, and related values under each. The
entries of one are looked up in the other; that none of the other is left over
is known by their number. -/
theorem Table.matches_iff {q : β → α → Bool} {s : Table α} {t : Table β} :
    s.matches q t = true
      ↔ (∀ key, key ∈ s.keys ↔ key ∈ t.keys)
        ∧ ∀ key a b, s.find? key = some a → t.find? key = some b → q b a = true := by
  unfold Table.matches
  rw [Bool.and_eq_true, beq_iff_eq, List.all_eq_true]
  constructor
  · rintro ⟨hsize, hall⟩
    have hfound : ∀ key a, s.find? key = some a → ∃ b, t.find? key = some b ∧ q b a = true := by
      intro key a ha
      have hentry := hall (key, a) (Table.find?_eq_some_iff.1 ha)
      dsimp only at hentry
      split at hentry
      case h_1 b hb => exact ⟨b, hb, hentry⟩
      case h_2 => cases hentry
    refine ⟨Table.keys_iff_of_subset hsize fun key hkey => ?_, fun key a b ha hb => ?_⟩
    · obtain ⟨a, ha⟩ := Table.exists_find?_iff.2 hkey
      obtain ⟨b, hb, -⟩ := hfound key a ha
      exact Table.exists_find?_iff.1 ⟨b, hb⟩
    · obtain ⟨b', hb', hq⟩ := hfound key a ha
      rw [hb] at hb'
      cases hb'
      exact hq
  · rintro ⟨hkeys, hvalues⟩
    -- the same keys, each of them once: so there are equally many
    have hperm : s.keys.Perm t.keys := (List.perm_ext_iff_of_nodup s.nodup t.nodup).2 hkeys
    refine ⟨?_, fun e he => ?_⟩
    · have hlength := hperm.length_eq
      rwa [Table.keys, Entries.keys, Table.keys, Entries.keys, List.length_map,
        List.length_map] at hlength
    · have ha : s.find? e.1 = some e.2 := Table.find?_eq_some_iff.2 he
      obtain ⟨b, hb⟩ := Table.exists_find?_iff.2 ((hkeys e.1).1 (Table.exists_find?_iff.1 ⟨e.2, ha⟩))
      rw [hb]
      exact hvalues e.1 e.2 b ha hb

end Pairs

-- ==================================================== doubles

namespace Binary64

/-- The doubles are the same number. A NaN is none. -/
inductive SameNumber : Binary64 → Binary64 → Prop
  | infinite (negative : Bool) : SameNumber (.infinite negative) (.infinite negative)
  | finite {x y : Finite} (value : x.value = y.value) : SameNumber (.finite x) (.finite y)

/-- Comparing doubles by their units decides it. -/
theorem numEq_iff {x y : Binary64} : x.numEq y = true ↔ x.SameNumber y := by
  constructor
  · intro h
    cases x with
    | nan => simp [numEq] at h
    | infinite negative =>
      cases y with
      | nan => simp [numEq] at h
      | infinite negative' =>
        cases negative <;> cases negative'
        · exact .infinite false
        · cases h
        · cases h
        · exact .infinite true
      | finite y => cases negative <;> cases h
    | finite x =>
      cases y with
      | nan => simp [numEq] at h
      | infinite negative => cases negative <;> cases h
      | finite y => exact .finite (Finite.value_eq_iff.2 ((numEq_finite x y).1 h))
  · intro h
    cases h with
    | infinite negative => cases negative <;> rfl
    | finite hvalue => exact (numEq_finite _ _).2 (Finite.value_eq_iff.1 hvalue)

theorem SameNumber.symm {x y : Binary64} (h : x.SameNumber y) : y.SameNumber x := by
  cases h with
  | infinite negative => exact .infinite negative
  | finite hvalue => exact .finite hvalue.symm

/-- Only a NaN is not the same number as itself. -/
theorem sameNumber_self {x : Binary64} (hx : x ≠ .nan) : x.SameNumber x := by
  cases x with
  | nan => exact absurd rfl hx
  | infinite negative => exact .infinite negative
  | finite x => exact .finite rfl

end Binary64

-- ==================================================== insides

namespace Heap

/-- The items of a list, the values of a dict. -/
def contents (h : Heap) : Value → List Value
  | .list r => h.items r
  | .dict r => (h.table r).entries.map Prod.snd
  | _ => []

/-- The value is an item of the list, or a value of the dict. -/
def Contains (h : Heap) (v w : Value) : Prop := w ∈ h.contents v

/-- The second value is found in the first one, which is one of those, at any
depth. -/
abbrev Inside (h : Heap) : Value → Value → Prop := ReflTransGen h.Contains

/-- No list and no dict in the value contains itself. -/
def Grounded (h : Heap) (v : Value) : Prop := ∀ w, h.Inside v w → ¬ TransGen h.Contains w w

/-- Lists and dicts in the value nest at most so deep. -/
def Nests (h : Heap) : Nat → Value → Prop
  | 0, v => v.isCollection = false
  | n + 1, v => ∀ w ∈ h.contents v, h.Nests n w

variable {h : Heap} {n : Nat} {v w : Value}

/-- Scalars, classes and instances hold nothing: what an instance refers to is
not looked at by equality. -/
theorem contents_of_single (hv : v.isCollection = false) : h.contents v = [] := by
  cases v with
  | list r => cases hv
  | dict r => cases hv
  | _ => rfl

theorem not_contains_of_single (hv : v.isCollection = false) : ¬ h.Contains v w := by
  unfold Contains
  rw [contents_of_single hv]
  exact List.not_mem_nil

theorem nests_of_single (hv : v.isCollection = false) (n : Nat) : h.Nests n v := by
  cases n with
  | zero => exact hv
  | succ n => exact fun w hw => absurd hw (not_contains_of_single hv)

instance decidableNests (h : Heap) : (n : Nat) → (v : Value) → Decidable (h.Nests n v)
  | 0, v => inferInstanceAs (Decidable (v.isCollection = false))
  | n + 1, v =>
    have := fun w => decidableNests h n w
    inferInstanceAs (Decidable (∀ w ∈ h.contents v, h.Nests n w))

/-- What is found in a value is the value, or is found in what it contains. -/
theorem forall_inside_iff {P : Value → Prop} :
    (∀ w, h.Inside v w → P w) ↔ P v ∧ ∀ x ∈ h.contents v, ∀ w, h.Inside x w → P w := by
  constructor
  · exact fun hall => ⟨hall v .refl, fun x hx w hw => hall w (.head hx hw)⟩
  · rintro ⟨hself, hinner⟩ w hw
    rcases hw.cases_head with rfl | ⟨x, hx, hw⟩
    · exact hself
    · exact hinner x hx w hw

/-- What a value contains is stored. -/
theorem mem_values_of_contains (hw : h.Contains v w) : w ∈ h.values := by
  cases v with
  | list r => exact mem_values_of_items hw
  | dict r =>
    obtain ⟨e, he, rfl⟩ := List.mem_map.1 hw
    exact mem_values_of_table he
  | _ => cases hw

/-- A value that nothing loops in holds only such values. -/
theorem Grounded.of_contains (hv : h.Grounded v) (hw : h.Contains v w) : h.Grounded w :=
  fun x hx => hv x (.head hw hx)

open Classical in
/-- The stored values that are found in a value. -/
noncomputable def foundIn (h : Heap) (v : Value) : Finset Value :=
  h.values.toFinset.filter fun w => TransGen h.Contains v w

/-- All that is found in a value is stored, so nothing is missed by collecting
it among the stored values. -/
theorem mem_foundIn : w ∈ h.foundIn v ↔ TransGen h.Contains v w := by
  classical
  unfold foundIn
  rw [Finset.mem_filter, List.mem_toFinset, and_iff_right_iff_imp]
  intro hvw
  obtain ⟨x, -, hx⟩ := TransGen.tail'_iff.1 hvw
  exact mem_values_of_contains hx

/-- In what a value contains fewer values are found: not itself. -/
theorem Grounded.card_foundIn_lt (hv : h.Grounded v) (hw : h.Contains v w) :
    (h.foundIn w).card < (h.foundIn v).card := by
  refine Finset.card_lt_card (Finset.ssubset_iff_of_subset ?_ |>.2 ⟨w, ?_, ?_⟩)
  · intro x hx
    exact mem_foundIn.2 (.head hw (mem_foundIn.1 hx))
  · exact mem_foundIn.2 (.single hw)
  · exact fun hself => hv w (.single hw) (mem_foundIn.1 hself)

/-- There are only so many values to find. -/
theorem card_foundIn_le (h : Heap) (v : Value) : (h.foundIn v).card ≤ h.values.length := by
  classical
  exact (Finset.card_le_card (Finset.filter_subset _ _)).trans (List.toFinset_card_le _)

/-- A value nests no deeper than there are values found in it. -/
theorem Grounded.nests (hv : h.Grounded v) (hcard : (h.foundIn v).card < n) : h.Nests n v := by
  induction n generalizing v with
  | zero => exact absurd hcard (Nat.not_lt_zero _)
  | succ n ih =>
    intro w hw
    have hfewer := hv.card_foundIn_lt hw
    exact ih (hv.of_contains hw) (by omega)

/-- So a value that does not contain itself nests within the steps that a walk
is given. -/
theorem Grounded.nests_walkLimit (hv : h.Grounded v) : h.Nests h.walkLimit v := by
  have hcard := h.card_foundIn_le v
  refine hv.nests ?_
  unfold walkLimit
  omega

/-- A bound on the nesting may be raised. -/
theorem Nests.succ (hv : h.Nests n v) : h.Nests (n + 1) v := by
  induction n generalizing v with
  | zero => exact nests_of_single hv 1
  | succ n ih => exact fun w hw => ih (hv w hw)

theorem Nests.of_contains (hv : h.Nests n v) (hw : h.Contains v w) : h.Nests n w := by
  cases n with
  | zero => exact absurd hw (not_contains_of_single hv)
  | succ n => exact (hv w hw).succ

/-- What is found deeper inside nests no deeper. -/
theorem Nests.of_inside (hv : h.Nests n v) (hw : h.Inside v w) : h.Nests n w := by
  induction hw with
  | refl => exact hv
  | tail _ hx ih => exact ih.of_contains hx

/-- What nests only so deep does not contain itself. -/
theorem Nests.not_contains_self (hv : h.Nests n v) : ¬ TransGen h.Contains v v := by
  induction n generalizing v with
  | zero =>
    intro hself
    obtain ⟨w, hw, -⟩ := TransGen.head'_iff.1 hself
    exact not_contains_of_single hv hw
  | succ n ih =>
    intro hself
    obtain ⟨w, hw, hwv⟩ := TransGen.head'_iff.1 hself
    exact ih ((hv w hw).of_inside hwv) hself

/-- No list and no dict in a value contains itself exactly when they nest at
most so deep. -/
theorem grounded_iff_nests : h.Grounded v ↔ ∃ n, h.Nests n v :=
  ⟨fun hv => ⟨_, hv.nests_walkLimit⟩, fun ⟨_, hv⟩ _ hw => (hv.of_inside hw).not_contains_self⟩

-- ==================================================== the same data

/-- The values are the same data. Integers are compared with doubles as the
doubles that they are rounded to. -/
inductive Same (h : Heap) : Value → Value → Prop
  | null : Same h .null .null
  | bool (b : Bool) : Same h (.bool b) (.bool b)
  | int (i : Int64) : Same h (.int i) (.int i)
  | float {x y : Binary64} (number : x.SameNumber y) : Same h (.float x) (.float y)
  | intFloat {i : Int64} {x : Binary64} (number : (ofInt64 i).SameNumber x) :
      Same h (.int i) (.float x)
  | floatInt {x : Binary64} {i : Int64} (number : x.SameNumber (ofInt64 i)) :
      Same h (.float x) (.int i)
  | str (s : String) : Same h (.str s) (.str s)
  | list {r s : Ref} (length : (h.items r).length = (h.items s).length)
      (items : ∀ (n : Nat) v w, (h.items r)[n]? = some v → (h.items s)[n]? = some w →
        Same h v w) : Same h (.list r) (.list s)
  | dict {r s : Ref} (keys : ∀ key, key ∈ (h.table r).keys ↔ key ∈ (h.table s).keys)
      (values : ∀ key v w, (h.table r).find? key = some v → (h.table s).find? key = some w →
        Same h v w) : Same h (.dict r) (.dict s)
  | cls {c d : Class} (object : c.node.table = d.node.table) : Same h (.cls c) (.cls d)
  | inst {i j : Instance} (object : i.fields = j.fields) : Same h (.inst i) (.inst j)

/-- Being the same data goes both ways, at every depth. -/
theorem Same.symm (hvw : h.Same v w) : h.Same w v := by
  induction hvw with
  | null => exact .null
  | bool b => exact .bool b
  | int i => exact .int i
  | float hnumber => exact .float hnumber.symm
  | intFloat hnumber => exact .floatInt hnumber.symm
  | floatInt hnumber => exact .intFloat hnumber.symm
  | str s => exact .str s
  | list hlength _ ih => exact .list hlength.symm fun n v w hv hw => ih n w v hw hv
  | dict hkeys _ ih => exact .dict (fun key => (hkeys key).symm) fun key v w hv hw => ih key w v hw hv
  | cls hobject => exact .cls hobject.symm
  | inst hobject => exact .inst hobject.symm

/-- What is the same nests as deep. -/
theorem Same.nests (hvw : h.Same v w) (hv : h.Nests n v) : h.Nests n w := by
  induction hvw generalizing n with
  | @list r s hlength _ ih =>
    cases n with
    | zero => cases hv
    | succ n =>
      intro w hw
      obtain ⟨k, hk⟩ := List.mem_iff_getElem?.1 hw
      have hlt : k < (h.items r).length := by
        rw [hlength]
        exact (List.getElem?_eq_some_iff.1 hk).1
      have hitem := List.getElem?_eq_getElem hlt
      exact ih k _ w hitem hk (hv _ (List.mem_of_getElem? hitem))
  | @dict r s hkeys _ ih =>
    cases n with
    | zero => cases hv
    | succ n =>
      intro w hw
      obtain ⟨⟨key, w⟩, he, rfl⟩ := List.mem_map.1 hw
      have hfound := Table.find?_eq_some_iff.2 he
      obtain ⟨v, hkey⟩ :=
        Table.exists_find?_iff.2 ((hkeys key).2 (Table.exists_find?_iff.1 ⟨w, hfound⟩))
      exact ih key v w hkey hfound (hv v (List.mem_map_of_mem (Table.find?_eq_some_iff.1 hkey)))
  | _ => exact nests_of_single rfl n

/-- A scalar is the same as itself unless it is a NaN. -/
theorem same_self_of_single (hv : v.isCollection = false) (hnumber : v ≠ .float .nan) :
    h.Same v v := by
  cases v with
  | null => exact .null
  | bool b => exact .bool b
  | int i => exact .int i
  | float x => exact .float (sameNumber_self fun hx => hnumber (congrArg Value.float hx))
  | str s => exact .str s
  | list r => cases hv
  | dict r => cases hv
  | cls c => exact .cls rfl
  | inst i => exact .inst rfl

/-- What is no NaN and has none inside is the same as itself. -/
theorem same_self (hv : h.Nests n v) (hnumber : ∀ w, h.Inside v w → w ≠ .float .nan) :
    h.Same v v := by
  induction n generalizing v with
  | zero => exact same_self_of_single hv (hnumber v .refl)
  | succ n ih =>
    obtain ⟨hself, hinner⟩ := forall_inside_iff.1 hnumber
    have hcontents : ∀ w ∈ h.contents v, h.Same w w := fun w hw => ih (hv w hw) (hinner w hw)
    cases v with
    | list r =>
      refine .list rfl fun k v w hv hw => ?_
      obtain rfl := Option.some.inj (hv.symm.trans hw)
      exact hcontents v (List.mem_of_getElem? hv)
    | dict r =>
      refine .dict (fun _ => Iff.rfl) fun key v w hv hw => ?_
      obtain rfl := Option.some.inj (hv.symm.trans hw)
      exact hcontents v (List.mem_map_of_mem (Table.find?_eq_some_iff.1 hv))
    | _ => exact same_self_of_single rfl hself

-- ==================================================== the walk

/-- Values that hold no others are compared as they are: what is found equal is
the same, -/
theorem same_of_eqSingle (heq : v.eqSingle w = true) : h.Same v w := by
  unfold Value.eqSingle at heq
  split at heq
  case h_1 => exact .null
  case h_2 a b =>
    obtain rfl := eq_of_beq heq
    exact .bool a
  case h_3 a b =>
    obtain rfl := eq_of_beq heq
    exact .int a
  case h_4 => exact .float (numEq_iff.1 heq)
  case h_5 => exact .intFloat (numEq_iff.1 heq)
  case h_6 => exact .floatInt (numEq_iff.1 heq)
  case h_7 a b =>
    obtain rfl := eq_of_beq heq
    exact .str a
  case h_8 => exact .cls (eq_of_beq heq)
  case h_9 => exact .inst (eq_of_beq heq)
  case h_10 => cases heq

/-- and what is the same is found equal. -/
theorem Same.eqSingle (hvw : h.Same v w) (hv : v.isCollection = false) : v.eqSingle w = true := by
  cases hvw with
  | null => rfl
  | bool b => exact beq_self_eq_true b
  | int i => exact beq_self_eq_true i
  | float hnumber => exact numEq_iff.2 hnumber
  | intFloat hnumber => exact numEq_iff.2 hnumber
  | floatInt hnumber => exact numEq_iff.2 hnumber
  | str s => exact beq_self_eq_true s
  | list => cases hv
  | dict => cases hv
  | cls hobject => exact beq_iff_eq.2 hobject
  | inst hobject => exact beq_iff_eq.2 hobject

/-- Lists and dicts are never found equal by this comparison, which is where a
walk ends that has no steps left. -/
theorem single_of_eqSingle (heq : v.eqSingle w = true) : v.isCollection = false := by
  cases v with
  | list r => cases w <;> cases heq
  | dict r => cases w <;> cases heq
  | _ => rfl

theorem eqWithin_zero : h.eqWithin 0 v w = v.eqSingle w := by
  simp [eqWithin]

theorem eqWithin_of_single (hv : v.isCollection = false) : h.eqWithin n v w = v.eqSingle w := by
  cases v with
  | list r => cases hv
  | dict r => cases hv
  | _ => simp [eqWithin]

/-- Items are walked pairwise, from the first list to the second. -/
theorem eqWithin_list_iff {r s : Ref} :
    h.eqWithin (n + 1) (.list r) (.list s) = true
      ↔ (h.items r).length = (h.items s).length
        ∧ ∀ (k : Nat) v w, (h.items r)[k]? = some v → (h.items s)[k]? = some w →
          h.eqWithin n v w = true := by
  rw [eqWithin, allPairs_iff]

/-- Under each name the walk goes on from the second dict to the first. -/
theorem eqWithin_dict_iff {r s : Ref} :
    h.eqWithin (n + 1) (.dict r) (.dict s) = true
      ↔ (∀ key, key ∈ (h.table r).keys ↔ key ∈ (h.table s).keys)
        ∧ ∀ key v w, (h.table r).find? key = some v → (h.table s).find? key = some w →
          h.eqWithin n w v = true := by
  rw [eqWithin, Table.matches_iff]

/-- Values that the walk finds equal are the same data, and it has seen all of
the first. -/
theorem same_of_eqWithin (heq : h.eqWithin n v w = true) : h.Same v w ∧ h.Nests n v := by
  induction n generalizing v w with
  | zero =>
    rw [eqWithin_zero] at heq
    exact ⟨same_of_eqSingle heq, single_of_eqSingle heq⟩
  | succ n ih =>
    cases v with
    | list r =>
      cases w with
      | list s =>
        obtain ⟨hlength, hitems⟩ := eqWithin_list_iff.1 heq
        refine ⟨.list hlength fun k v w hr hs => (ih (hitems k v w hr hs)).1, fun v hv => ?_⟩
        obtain ⟨k, hk⟩ := List.mem_iff_getElem?.1 hv
        have hlt : k < (h.items s).length := hlength ▸ (List.getElem?_eq_some_iff.1 hk).1
        exact (ih (hitems k v _ hk (List.getElem?_eq_getElem hlt))).2
      | _ => cases heq
    | dict r =>
      cases w with
      | dict s =>
        obtain ⟨hkeys, hvalues⟩ := eqWithin_dict_iff.1 heq
        refine ⟨.dict hkeys fun key v w hr hs => (ih (hvalues key v w hr hs)).1.symm,
          fun v hv => ?_⟩
        obtain ⟨⟨key, v⟩, he, rfl⟩ := List.mem_map.1 hv
        have hfound := Table.find?_eq_some_iff.2 he
        obtain ⟨w, hw⟩ :=
          Table.exists_find?_iff.2 ((hkeys key).1 (Table.exists_find?_iff.1 ⟨v, hfound⟩))
        obtain ⟨hsame, hnests⟩ := ih (hvalues key v w hfound hw)
        exact hsame.nests hnests
      | _ => cases heq
    | _ =>
      rw [eqWithin_of_single rfl] at heq
      exact ⟨same_of_eqSingle heq, nests_of_single rfl _⟩

/-- The walk finds the same data equal when it nests within its steps. -/
theorem Same.eqWithin (hvw : h.Same v w) (hv : h.Nests n v) : h.eqWithin n v w = true := by
  induction n generalizing v w with
  | zero =>
    rw [eqWithin_zero]
    exact hvw.eqSingle hv
  | succ n ih =>
    by_cases hsingle : v.isCollection = false
    · rw [eqWithin_of_single hsingle]
      exact hvw.eqSingle hsingle
    · cases hvw with
      | list hlength hitems =>
        exact eqWithin_list_iff.2 ⟨hlength, fun k v w hr hs =>
          ih (hitems k v w hr hs) (hv v (List.mem_of_getElem? hr))⟩
      | dict hkeys hvalues =>
        refine eqWithin_dict_iff.2 ⟨hkeys, fun key v w hr hs => ?_⟩
        have hsame := hvalues key v w hr hs
        have hnests := hv v (List.mem_map_of_mem (Table.find?_eq_some_iff.1 hr))
        exact ih hsame.symm (hsame.nests hnests)
      | _ => exact absurd rfl hsingle

/-- The walk decides the same data as far as its steps go. -/
theorem eqWithin_iff : h.eqWithin n v w = true ↔ h.Same v w ∧ h.Nests n v :=
  ⟨same_of_eqWithin, fun ⟨hvw, hv⟩ => hvw.eqWithin hv⟩

end Heap

-- ==================================================== equality

namespace Value

variable {h : Heap} {v w : Value}

/-- A walk that is not cut short decides equality. -/
theorem eq_iff_of_grounded (hv : h.Grounded v) : v.eq w h = true ↔ h.Same v w := by
  unfold Value.eq
  rw [Heap.eqWithin_iff, and_iff_left hv.nests_walkLimit]

/-- Even a walk that is cut short gives the same answer both ways, for the same
data nests alike. -/
theorem eq_comm_of_any (h : Heap) (v w : Value) : v.eq w h = w.eq v h := by
  unfold Value.eq
  rw [Bool.eq_iff_iff, Heap.eqWithin_iff, Heap.eqWithin_iff]
  exact ⟨fun ⟨hvw, hv⟩ => ⟨hvw.symm, hvw.nests hv⟩, fun ⟨hwv, hw⟩ => ⟨hwv.symm, hwv.nests hw⟩⟩

/-- Equality is symmetric, and a value that does not contain itself is equal to
itself if it is no NaN and has none inside. Values are equal when they are the
same data; an integer is equal to the doubles that have the value of the one
nearest to it, which is its own if that is a double. -/
theorem equality_laws (h : Heap) :
    (∀ v w : Value, v.eq w h = w.eq v h)
      ∧ (∀ v, h.Grounded v → (∀ w, h.Inside v w → w ≠ .float .nan) → v.eq v h = true)
      ∧ (∀ v w, h.Grounded v → (v.eq w h = true ↔ h.Same v w))
      ∧ ∀ i : Int64, ∃ x, ofInt64 i = .finite x ∧ x.NearestTo i.toInt
        ∧ ((∃ z : Finite, z.value = i.toInt) → x.value = i.toInt)
        ∧ ∀ y, (Value.int i).eq (.float y) h = true ↔ ∃ z, y = .finite z ∧ z.value = x.value := by
  refine ⟨eq_comm_of_any h, fun v hv hnumber => ?_, fun v w => eq_iff_of_grounded, fun i => ?_⟩
  · exact (eq_iff_of_grounded hv).2 (Heap.same_self hv.nests_walkLimit hnumber)
  · obtain ⟨x, hx, hnear⟩ := exists_nearestTo_ofInt64 i
    refine ⟨x, hx, hnear, fun ⟨z, hz⟩ => hnear.value_eq hz, fun y => ?_⟩
    have hnumber : (Value.int i).eq (.float y) h = true ↔ (Binary64.finite x).SameNumber y := by
      rw [Value.eq, Heap.eqWithin_of_single rfl, eqSingle, hx, numEq_iff]
    rw [hnumber]
    constructor
    · intro hsame
      cases hsame with
      | finite hvalue => exact ⟨_, rfl, hvalue.symm⟩
    · rintro ⟨z, rfl, hvalue⟩
      exact .finite hvalue.symm

/-- Two dicts with the same names in another order. What one has as integers
the other one has as doubles, in a list as well. -/
def Sample.reordered : Heap :=
  ⟨#[.list [.int 2], .table (.ofList [("a", .int 1), ("b", .list 0)]),
    .list [.float (ofInt64 2)], .table (.ofList [("b", .list 2), ("a", .float (ofInt64 1))])]⟩

/-- Either is equal to itself and to the other. -/
theorem equality_of_reordered :
    Sample.reordered.Grounded (.dict 1)
      ∧ (∀ w, Sample.reordered.Inside (.dict 1) w → w ≠ .float .nan)
      ∧ (Value.dict 1).eq (.dict 1) Sample.reordered = true
      ∧ Sample.reordered.Same (.dict 1) (.dict 3)
      ∧ (Value.dict 3).eq (.dict 1) Sample.reordered = true := by
  obtain ⟨hcomm, hself, hsame, -⟩ := equality_laws Sample.reordered
  have hgrounded : Sample.reordered.Grounded (.dict 1) :=
    Heap.grounded_iff_nests.2 ⟨2, by decide⟩
  have hnumber : ∀ w, Sample.reordered.Inside (.dict 1) w → w ≠ .float .nan := by
    have hdict : Sample.reordered.contents (.dict 1) = [.int 1, .list 0] := rfl
    have hlist : Sample.reordered.contents (.list 0) = [.int 2] := rfl
    have hone : Sample.reordered.contents (.int 1) = [] := rfl
    have htwo : Sample.reordered.contents (.int 2) = [] := rfl
    rw [Heap.forall_inside_iff, hdict, List.forall_mem_cons, List.forall_mem_singleton,
      Heap.forall_inside_iff, hone, Heap.forall_inside_iff, hlist, List.forall_mem_singleton,
      Heap.forall_inside_iff, htwo]
    simp
  have heq : (Value.dict 1).eq (.dict 3) Sample.reordered = true := by decide +kernel
  exact ⟨hgrounded, hnumber, hself _ hgrounded hnumber, (hsame _ _ hgrounded).1 heq,
    (hcomm _ _).symm.trans heq⟩

end Value

end LiveDoc
