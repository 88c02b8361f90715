/-
Values as documents, and documents as values.

A value has a document unless something in it has none: a class, an
instance, a NaN or an infinity, at any depth (`Value.Foreign`). The way
back makes a copy (`Heap.Copied`): the same scalars, an integral double
still a double, lists item by item, dicts with the same names in the same
order. In the other direction a document is lost only in its numbers: an
integer beyond 64 signed bits comes back as a double, and everything else
as it was (`Json.Settled`).

Both directions meet at the walk that writes the document. One step of it
is taken apart once (`found_of_jsonWithin`). A walk that is not cut short
finds nothing exactly where something foreign is inside
(`jsonWithin_eq_none_iff`), and values with one document are copies of each
other, whatever heaps they are in (`copied_of_jsonWithin`). So all that is
left to say of the value that is made of a document is that the walk
through it writes the document again (`jsonWithin_of_denotes`).
-/
import LiveDoc.Live.ToJson
import LiveDoc.Proofs.DistinctKeys
import LiveDoc.Proofs.Equality
import LiveDoc.Proofs.Places
import LiveDoc.Proofs.Traversal

namespace LiveDoc

open Traversal

-- ==================================================== documents

namespace Json

mutual

/-- Every number of the document is a 64-bit integer or a double. -/
def Settled : Json → Prop
  | .number n => (∃ i, n = .int i) ∨ ∃ x, n = .float x
  | .array items => SettledAll items
  | .object fields => SettledFields fields
  | _ => True

/-- So it is in a list of documents. -/
def SettledAll : List Json → Prop
  | [] => True
  | j :: js => Settled j ∧ SettledAll js

/-- So it is in a field list. -/
def SettledFields : List (String × Json) → Prop
  | [] => True
  | (_, j) :: fs => Settled j ∧ SettledFields fs

end

theorem settledAll_iff {items : List Json} : SettledAll items ↔ ∀ j ∈ items, j.Settled := by
  induction items with
  | nil => exact ⟨fun _ _ h => (by cases h), fun _ => trivial⟩
  | cons j js ih =>
    rw [List.forall_mem_cons, ← ih]
    exact Iff.rfl

theorem settledFields_iff {fields : Entries Json} :
    SettledFields fields ↔ ∀ f ∈ fields, f.2.Settled := by
  induction fields with
  | nil => exact ⟨fun _ _ h => (by cases h), fun _ => trivial⟩
  | cons f fs ih =>
    rw [List.forall_mem_cons, ← ih]
    exact Iff.rfl

end Json

-- ==================================================== values

/-- The value has no document of its own. -/
inductive Value.Foreign : Value → Prop
  | cls (c : Class) : Foreign (.cls c)
  | inst (i : Instance) : Foreign (.inst i)
  | nan : Foreign (.float .nan)
  | infinite (negative : Bool) : Foreign (.float (.infinite negative))

/-- The value holds no others, and the document is its. -/
inductive Value.Plain : Value → Json → Prop
  | null : Plain .null .null
  | bool (b : Bool) : Plain (.bool b) (.bool b)
  | int (i : Int64) : Plain (.int i) (.number (.int i))
  | float (x : Binary64.Finite) : Plain (.float (.finite x)) (.number (.float x))
  | str (s : String) : Plain (.str s) (.str s)

namespace Heap

/-- The value in the second heap is a copy of the one in the first: the same
scalar, a list of copies in the same order, or a dict with the same names in
the same order and copies under them. -/
inductive Copied (h h' : Heap) : Value → Value → Prop
  | null : Copied h h' .null .null
  | bool (b : Bool) : Copied h h' (.bool b) (.bool b)
  | int (i : Int64) : Copied h h' (.int i) (.int i)
  | float (x : Binary64) : Copied h h' (.float x) (.float x)
  | str (s : String) : Copied h h' (.str s) (.str s)
  | list {r s : Ref} (length : (h.items r).length = (h'.items s).length)
      (items : ∀ (n : Nat) v w, (h.items r)[n]? = some v → (h'.items s)[n]? = some w →
        Copied h h' v w) : Copied h h' (.list r) (.list s)
  | dict {r s : Ref} (keys : (h.table r).keys = (h'.table s).keys)
      (values : ∀ key v w, (h.table r).find? key = some v → (h'.table s).find? key = some w →
        Copied h h' v w) : Copied h h' (.dict r) (.dict s)

variable {h h' : Heap} {n m : Nat} {v w : Value} {j : Json}

-- ==================================================== one step of the walk

/-- The documents of the items are those of an array, in order. -/
def ItemsWithin (h : Heap) (n : Nat) (vs : List Value) (js : List Json) : Prop :=
  List.Forall₂ (fun v j => h.jsonWithin n v = some j) vs js

/-- The documents of the entries are those of an object, under the same names
in order. -/
def EntriesWithin (h : Heap) (n : Nat) (es : Entries Value) (fs : Entries Json) : Prop :=
  List.Forall₂ (fun e f => f.1 = e.1 ∧ h.jsonWithin n e.2 = some f.2) es fs

/-- What a walk that finds a document has found. -/
inductive Found (h : Heap) : Nat → Value → Json → Prop
  | plain {n : Nat} {v : Value} {j : Json} (plain : v.Plain j) : Found h n v j
  | list {n : Nat} {r : Ref} {js : List Json} (items : h.ItemsWithin n (h.items r) js) :
      Found h (n + 1) (.list r) (.array js)
  | dict {n : Nat} {r : Ref} {fs : Entries Json}
      (entries : h.EntriesWithin n (h.table r).entries fs) :
      Found h (n + 1) (.dict r) (.object fs)

/-- The document of an entry keeps its name. -/
theorem jsonWithin_entry {e : String × Value} {f : String × Json} :
    ((h.jsonWithin n e.2).map fun j => (e.1, j)) = some f
      ↔ f.1 = e.1 ∧ h.jsonWithin n e.2 = some f.2 := by
  obtain ⟨key, v⟩ := e
  obtain ⟨key', j⟩ := f
  rw [Option.map_eq_some_iff]
  constructor
  · rintro ⟨i, hi, heq⟩
    cases heq
    exact ⟨rfl, hi⟩
  · rintro ⟨rfl, hj⟩
    exact ⟨j, hj, rfl⟩

/-- A walk that finds a document has found it in one of these ways, -/
theorem found_of_jsonWithin (hj : h.jsonWithin n v = some j) : h.Found n v j := by
  unfold jsonWithin at hj
  split at hj
  case h_1 =>
    cases hj
    exact .plain .null
  case h_2 b =>
    cases hj
    exact .plain (.bool b)
  case h_3 i =>
    cases hj
    exact .plain (.int i)
  case h_4 x =>
    cases hj
    exact .plain (.float x)
  case h_5 s =>
    cases hj
    exact .plain (.str s)
  case h_6 n r =>
    obtain ⟨js, hjs, rfl⟩ := Option.map_eq_some_iff.1 hj
    exact .list (mapM_eq_some.1 hjs)
  case h_7 n r =>
    obtain ⟨fs, hfs, rfl⟩ := Option.map_eq_some_iff.1 hj
    exact .dict ((mapM_eq_some.1 hfs).imp fun e f => jsonWithin_entry.1)
  case h_8 => cases hj

/-- and in each of them it finds the document. -/
theorem Found.jsonWithin (hfound : h.Found n v j) : h.jsonWithin n v = some j := by
  cases hfound with
  | plain hplain => cases hplain <;> rw [Heap.jsonWithin]
  | list hitems =>
    rw [Heap.jsonWithin, Option.map_eq_some_iff]
    exact ⟨_, mapM_eq_some.2 hitems, rfl⟩
  | dict hentries =>
    rw [Heap.jsonWithin, Option.map_eq_some_iff]
    exact ⟨_, mapM_eq_some.2 (hentries.imp fun e f => jsonWithin_entry.2), rfl⟩

-- ==================================================== values without a document

/-- Something in a value is the value, or is in what it contains. -/
theorem exists_inside_iff {P : Value → Prop} :
    (∃ w, h.Inside v w ∧ P w) ↔ P v ∨ ∃ x ∈ h.contents v, ∃ w, h.Inside x w ∧ P w := by
  constructor
  · rintro ⟨w, hw, hP⟩
    rcases hw.cases_head with rfl | ⟨x, hx, hw⟩
    · exact .inl hP
    · exact .inr ⟨x, hx, w, hw, hP⟩
  · rintro (hP | ⟨x, hx, w, hw, hP⟩)
    · exact ⟨v, .refl, hP⟩
    · exact ⟨w, .head hx hw, hP⟩

/-- What holds no others has no document exactly when it is one of the four
that have none. -/
theorem jsonWithin_eq_none_of_single (hv : v.isCollection = false) :
    h.jsonWithin n v = none ↔ ∃ w, h.Inside v w ∧ w.Foreign := by
  have hself : (∃ w, h.Inside v w ∧ w.Foreign) ↔ v.Foreign := by
    rw [exists_inside_iff, contents_of_single hv]
    simp
  rw [hself]
  constructor
  · intro hnone
    cases v with
    | float x =>
      cases x with
      | nan => exact .nan
      | infinite negative => exact .infinite negative
      | finite x => simp [jsonWithin] at hnone
    | list r => cases hv
    | dict r => cases hv
    | cls c => exact .cls c
    | inst i => exact .inst i
    | _ => simp [jsonWithin] at hnone
  · intro hforeign
    cases hforeign <;> simp [jsonWithin]

/-- A list or a dict has no document exactly when something that it contains
has none. -/
theorem jsonWithin_eq_none_of_collection (hv : v.isCollection = true) :
    h.jsonWithin (n + 1) v = none ↔ ∃ w ∈ h.contents v, h.jsonWithin n w = none := by
  cases v with
  | list r =>
    rw [jsonWithin, Option.map_eq_none_iff, mapM_eq_none]
    rfl
  | dict r =>
    rw [jsonWithin, Option.map_eq_none_iff, mapM_eq_none]
    constructor
    · rintro ⟨e, he, hnone⟩
      exact ⟨e.2, List.mem_map_of_mem he, Option.map_eq_none_iff.1 hnone⟩
    · rintro ⟨w, hw, hnone⟩
      obtain ⟨e, he, rfl⟩ := List.mem_map.1 hw
      exact ⟨e, he, Option.map_eq_none_iff.2 hnone⟩
  | _ => cases hv

/-- A walk that is not cut short finds no document exactly when something in
the value has none. -/
theorem jsonWithin_eq_none_iff (hv : h.Nests n v) :
    h.jsonWithin n v = none ↔ ∃ w, h.Inside v w ∧ w.Foreign := by
  induction n generalizing v with
  | zero => exact jsonWithin_eq_none_of_single hv
  | succ n ih =>
    cases hcollection : v.isCollection with
    | false => exact jsonWithin_eq_none_of_single hcollection
    | true =>
      have hnot : ¬ v.Foreign := by
        intro hforeign
        cases hforeign <;> cases hcollection
      rw [jsonWithin_eq_none_of_collection hcollection, exists_inside_iff, or_iff_right hnot]
      exact exists_congr fun w => and_congr_right fun hw => ih (hv w hw)

-- ==================================================== from values to documents

/-- An object has the names of its dict, in order. -/
theorem EntriesWithin.keys_eq {es : Entries Value} {fs : Entries Json}
    (hes : h.EntriesWithin n es fs) : fs.keys = es.keys :=
  map_eq_of_forall₂ (hes.imp fun _ _ hef => hef.1)

/-- What is found under a name has its document under it. -/
theorem EntriesWithin.exists_find? {es : Entries Value} {fs : Entries Json}
    (hes : h.EntriesWithin n es fs) {key : String} (hv : es.find? key = some v) :
    ∃ j, fs.find? key = some j ∧ h.jsonWithin n v = some j := by
  unfold EntriesWithin at hes
  induction hes with
  | nil => cases hv
  | @cons e f es fs hef _ ih =>
    rw [Entries.find?] at hv
    rw [Entries.find?, hef.1]
    split at hv
    case isTrue hkey =>
      cases hv
      rw [if_pos hkey]
      exact ⟨f.2, rfl, hef.2⟩
    case isFalse hkey =>
      rw [if_neg hkey]
      exact ih hv

/-- The document of a scalar is as it should be: a number of a value is an
integer of 64 bits or a double. -/
theorem settled_of_plain (hplain : v.Plain j) : j.DistinctKeys ∧ j.Settled := by
  cases hplain with
  | int i => exact ⟨trivial, .inl ⟨i, rfl⟩⟩
  | float x => exact ⟨trivial, .inr ⟨x, rfl⟩⟩
  | _ => exact ⟨trivial, trivial⟩

/-- The document of a value repeats no name, and its numbers are those that
values have. -/
theorem settled_of_jsonWithin (hj : h.jsonWithin n v = some j) : j.DistinctKeys ∧ j.Settled := by
  induction n generalizing v j with
  | zero =>
    cases found_of_jsonWithin hj with
    | plain hplain => exact settled_of_plain hplain
  | succ n ih =>
    cases found_of_jsonWithin hj with
    | plain hplain => exact settled_of_plain hplain
    | @list _ r js hitems =>
      have hall : ∀ j ∈ js, j.DistinctKeys ∧ j.Settled := fun j hj => by
        obtain ⟨v, -, hv⟩ := exists_of_mem_forall₂ hitems hj
        exact ih hv
      exact ⟨Json.distinctKeysAll_iff.2 fun j hj => (hall j hj).1,
        Json.settledAll_iff.2 fun j hj => (hall j hj).2⟩
    | @dict _ r fs hentries =>
      have hall : ∀ f ∈ fs, f.2.DistinctKeys ∧ f.2.Settled := fun f hf => by
        obtain ⟨e, -, -, he⟩ := exists_of_mem_forall₂ hentries hf
        exact ih he
      exact ⟨⟨hentries.keys_eq ▸ (h.table r).nodup,
          Json.distinctKeysFields_iff.2 fun f hf => (hall f hf).1⟩,
        Json.settledFields_iff.2 fun f hf => (hall f hf).2⟩

/-- Scalars with one document are the same scalar. -/
theorem copied_of_plain {v' : Value} (hplain : v.Plain j) (hj' : h'.jsonWithin m v' = some j) :
    h.Copied h' v v' := by
  cases found_of_jsonWithin hj' with
  | plain hplain' =>
    cases hplain with
    | null =>
      cases hplain'
      exact .null
    | bool b =>
      cases hplain'
      exact .bool b
    | int i =>
      cases hplain'
      exact .int i
    | float x =>
      cases hplain'
      exact .float _
    | str s =>
      cases hplain'
      exact .str s
  | list => cases hplain
  | dict => cases hplain

/-- Values with one document are copies of each other. -/
theorem copied_of_jsonWithin {v' : Value} (hj : h.jsonWithin n v = some j)
    (hj' : h'.jsonWithin m v' = some j) : h.Copied h' v v' := by
  induction n generalizing m v v' j with
  | zero =>
    cases found_of_jsonWithin hj with
    | plain hplain => exact copied_of_plain hplain hj'
  | succ n ih =>
    cases found_of_jsonWithin hj with
    | plain hplain => exact copied_of_plain hplain hj'
    | list hitems =>
      cases found_of_jsonWithin hj' with
      | plain hplain => cases hplain
      | list hitems' =>
        refine .list (hitems.length_eq.trans hitems'.length_eq.symm) fun k v w hv hw => ?_
        obtain ⟨i, hi, hiv⟩ := exists_getElem?_of_forall₂ hitems hv
        obtain ⟨i', hi', hiw⟩ := exists_getElem?_of_forall₂ hitems' hw
        rw [hi] at hi'
        cases hi'
        exact ih hiv hiw
    | dict hentries =>
      cases found_of_jsonWithin hj' with
      | plain hplain => cases hplain
      | dict hentries' =>
        refine .dict (hentries.keys_eq.symm.trans hentries'.keys_eq) fun key v w hv hw => ?_
        obtain ⟨i, hi, hiv⟩ := hentries.exists_find? hv
        obtain ⟨i', hi', hiw⟩ := hentries'.exists_find? hw
        rw [hi] at hi'
        cases hi'
        exact ih hiv hiw

-- ==================================================== from documents to values

/-- A bound on the nesting may be raised any number of times. -/
theorem Nests.mono (hv : h.Nests n v) (hle : n ≤ m) : h.Nests m v := by
  induction hle with
  | refl => exact hv
  | step _ ih => exact ih.succ

mutual

/-- Lists and dicts in the value of a constant nest only so deep. -/
theorem Denotes.exists_nests {v : Value} {c : Constant} : h.Denotes v c → ∃ n, h.Nests n v
  | .null => ⟨0, rfl⟩
  | .bool _ => ⟨0, rfl⟩
  | .int _ => ⟨0, rfl⟩
  | .float _ => ⟨0, rfl⟩
  | .str _ => ⟨0, rfl⟩
  | .list place items => by
    obtain ⟨n, hn⟩ := items.exists_nests
    refine ⟨n + 1, fun w hw => hn w ?_⟩
    rw [← items_of_list place]
    exact hw
  | .dict place entries => by
    obtain ⟨n, hn⟩ := entries.exists_nests
    refine ⟨n + 1, fun w hw => ?_⟩
    obtain ⟨e, he, rfl⟩ := List.mem_map.1 hw
    rw [table_of_dict place] at he
    exact hn e (Table.find?_ofList (Table.find?_eq_some_iff.2 he))

/-- What denotes a constant nests no deeper than the constant does, so one
bound serves for all items. -/
theorem DenotesAll.exists_nests {vs : List Value} {cs : List Constant} :
    h.DenotesAll vs cs → ∃ n, ∀ w ∈ vs, h.Nests n w
  | .nil => ⟨0, fun w hw => (by cases hw)⟩
  | .cons first rest => by
    obtain ⟨n, hn⟩ := first.exists_nests
    obtain ⟨m, hm⟩ := rest.exists_nests
    refine ⟨max n m, List.forall_mem_cons.2 ⟨hn.mono (Nat.le_max_left n m), fun w hw => ?_⟩⟩
    exact (hm w hw).mono (Nat.le_max_right n m)

/-- The same of the values of a dict. -/
theorem DenotesEntries.exists_nests {vs : Entries Value} {es : Entries Constant} :
    h.DenotesEntries vs es → ∃ n, ∀ e ∈ vs, h.Nests n e.2
  | .nil => ⟨0, fun e he => (by cases he)⟩
  | .cons first rest => by
    obtain ⟨n, hn⟩ := first.exists_nests
    obtain ⟨m, hm⟩ := rest.exists_nests
    refine ⟨max n m, List.forall_mem_cons.2 ⟨hn.mono (Nat.le_max_left n m), fun e he => ?_⟩⟩
    exact (hm e he).mono (Nat.le_max_right n m)

end

/-- The value of a constant does not contain itself. -/
theorem Denotes.grounded {c : Constant} (hv : h.Denotes v c) : h.Grounded v :=
  grounded_iff_nests.2 hv.exists_nests

open Constant (ofJson ofJsonAll ofJsonFields)

/-- The constant of an object has its names. -/
theorem keys_ofJsonFields (fs : Entries Json) : Entries.keys (ofJsonFields fs) = fs.keys := by
  induction fs with
  | nil => rfl
  | cons f fs ih => exact congrArg (f.1 :: ·) ih

mutual

/-- The walk through the value of a document writes the document again, if
nothing in it was lost: no second field of a name, and no number beyond those
of values. -/
theorem jsonWithin_of_denotes : (j : Json) → j.DistinctKeys → j.Settled → (v : Value) →
    h.Denotes v (ofJson j) → (n : Nat) → h.Nests n v → h.jsonWithin n v = some j
  | .null, _, _, _, .null, _, _ => Found.jsonWithin (.plain .null)
  | .bool b, _, _, _, .bool _, _, _ => Found.jsonWithin (.plain (.bool b))
  | .str s, _, _, _, .str _, _, _ => Found.jsonWithin (.plain (.str s))
  | .number k, _, hsettled, v, hv, n, _ => by
    rcases hsettled with ⟨i, rfl⟩ | ⟨x, rfl⟩
    · have hint : h.Denotes v (.int i) := hv
      cases hint
      exact Found.jsonWithin (.plain (.int i))
    · have hfloat : h.Denotes v (.float (.finite x)) := hv
      cases hfloat
      exact Found.jsonWithin (.plain (.float x))
  | .array js, hdistinct, hsettled, .list r, hv, n + 1, hnests =>
    Found.jsonWithin (.list (itemsWithin_of_denotes js hdistinct hsettled _ hv.items n hnests))
  | .object fs, hdistinct, hsettled, .dict r, hv, n + 1, hnests => by
    have hentries := hv.entries (keys_ofJsonFields fs ▸ hdistinct.1)
    have hvalues : ∀ e ∈ (h.table r).entries, h.Nests n e.2 :=
      fun e he => hnests e.2 (List.mem_map_of_mem he)
    exact Found.jsonWithin
      (.dict (entriesWithin_of_denotes fs hdistinct.2 hsettled _ hentries n hvalues))

/-- The values that the items of an array are made into have these items as
their documents. -/
theorem itemsWithin_of_denotes : (js : List Json) → Json.DistinctKeysAll js → Json.SettledAll js →
    (vs : List Value) → h.DenotesAll vs (ofJsonAll js) → (n : Nat) → (∀ w ∈ vs, h.Nests n w) →
    h.ItemsWithin n vs js
  | [], _, _, _, .nil, _, _ => .nil
  | j :: js, hdistinct, hsettled, _, .cons hfirst hrest, n, hnests => by
    obtain ⟨hv, hvs⟩ := List.forall_mem_cons.1 hnests
    exact .cons (jsonWithin_of_denotes j hdistinct.1 hsettled.1 _ hfirst n hv)
      (itemsWithin_of_denotes js hdistinct.2 hsettled.2 _ hrest n hvs)

/-- The same of the fields of an object. That no name is repeated is needed
here, since a dict would keep it only once. -/
theorem entriesWithin_of_denotes : (fs : Entries Json) → Json.DistinctKeysFields fs →
    Json.SettledFields fs → (es : Entries Value) → h.DenotesEntries es (ofJsonFields fs) →
    (n : Nat) → (∀ e ∈ es, h.Nests n e.2) → h.EntriesWithin n es fs
  | [], _, _, _, .nil, _, _ => .nil
  | (key, j) :: fs, hdistinct, hsettled, _, .cons hfirst hrest, n, hnests => by
    obtain ⟨hv, hvs⟩ := List.forall_mem_cons.1 hnests
    exact .cons ⟨rfl, jsonWithin_of_denotes j hdistinct.1 hsettled.1 _ hfirst n hv⟩
      (entriesWithin_of_denotes fs hdistinct.2 hsettled.2 _ hrest n hvs)

end

end Heap

/-- A value that does not contain itself has a document unless it is or
contains, at any depth, a class, an instance, a NaN or an infinity. What has a
document is copied by the value of that document. A document is that of its
value exactly when it repeats no name and all its numbers are 64-bit integers
or doubles. -/
theorem Value.document_round_trips (h : Heap) :
    (∀ v : Value, h.Grounded v → (v.toJson? h = none ↔ ∃ w, h.Inside v w ∧ w.Foreign))
      ∧ (∀ (v : Value) j, v.toJson? h = some j →
          ∀ g, h.Copied (Value.ofJson j g).2 v (Value.ofJson j g).1)
      ∧ ∀ j : Json, (Value.ofJson j h).1.toJson? (Value.ofJson j h).2 = some j
          ↔ j.DistinctKeys ∧ j.Settled := by
  have hback : ∀ (j : Json) (g : Heap), j.DistinctKeys → j.Settled →
      (Value.ofJson j g).1.toJson? (Value.ofJson j g).2 = some j := by
    intro j g hdistinct hsettled
    obtain ⟨-, -, hdenotes⟩ := (Constant.ofJson j).materialize_made g
    exact Heap.jsonWithin_of_denotes j hdistinct hsettled _ hdenotes _
      hdenotes.grounded.nests_walkLimit
  refine ⟨fun v hv => Heap.jsonWithin_eq_none_iff hv.nests_walkLimit, fun v j hj g => ?_,
    fun j => ⟨Heap.settled_of_jsonWithin, fun hj => hback j h hj.1 hj.2⟩⟩
  obtain ⟨hdistinct, hsettled⟩ := Heap.settled_of_jsonWithin hj
  exact Heap.copied_of_jsonWithin hj (hback j g hdistinct hsettled)

namespace Sample

/-- A dict of a list with an integral double, a negative zero and an integer,
and a list of it and a NaN. -/
def mixed : Heap :=
  ⟨#[.list [.float (.ofInt 2), .float (.finite (.zero true)), .int 2],
    .table (.ofList [("z", .list 0), ("a", .null)]), .list [.dict 1, .float .nan]]⟩

end Sample

/-- The dict is copied by way of its document, and the list around it has
none. -/
theorem Value.mixed_round_trips :
    (∃ j, (Value.dict 1).toJson? Sample.mixed = some j
        ∧ Sample.mixed.Copied (Value.ofJson j Sample.mixed).2 (.dict 1)
          (Value.ofJson j Sample.mixed).1)
      ∧ Sample.mixed.Grounded (.list 2)
      ∧ ∃ w, Sample.mixed.Inside (.list 2) w ∧ w.Foreign := by
  obtain ⟨hnone, hcopied, -⟩ := document_round_trips Sample.mixed
  have hgrounded : Sample.mixed.Grounded (.list 2) := Heap.grounded_iff_nests.2 ⟨3, by decide⟩
  have hsome : ((Value.dict 1).toJson? Sample.mixed).isSome = true := by decide +kernel
  have hno : ((Value.list 2).toJson? Sample.mixed).isNone = true := by decide +kernel
  obtain ⟨j, hj⟩ := Option.isSome_iff_exists.1 hsome
  exact ⟨⟨j, hj, hcopied _ j hj _⟩, hgrounded,
    (hnone _ hgrounded).1 (Option.isNone_iff_eq_none.1 hno)⟩

end LiveDoc
