/-
Which places values refer to, and what making values adds.

A value refers to places of the heap: lists and dicts to their own, a
class to the tables along its lineage, an instance to its fields and to
the tables of its class. A heap is closed when its objects refer only to
places that exist (`Heap.Closed`); that is what makes a new place new to
everything there was.

Making the value of a constant touches nothing that existed, and what it
adds is cut off from it: the new objects are lists and dicts that refer
only to one another (`Heap.Made`). This is kept by putting one piece of
making after another, so the induction on constants needs nothing else
(`Constant.materialize_made`). That the value is that of the constant is
said apart, by a relation that looks only at the objects below the value
(`Heap.Denotes`), and so it outlives anything that leaves them alone.
-/
import LiveDoc.Live.Value

namespace LiveDoc

-- ==================================================== places

/-- The places that a value refers to. -/
def Value.places : Value → List Ref
  | .list r => [r]
  | .dict r => [r]
  | .cls c => (c.node :: c.ancestors).map ClassNode.table
  | .inst i => i.fields :: (i.ofClass.node :: i.ofClass.ancestors).map ClassNode.table
  | _ => []

/-- The value refers only to places from `lo` on and before `hi`. -/
def Value.Between (v : Value) (lo hi : Nat) : Prop := ∀ r ∈ v.places, lo ≤ r ∧ r < hi

/-- The value refers only to the first `n` places. -/
def Value.Within (v : Value) (n : Nat) : Prop := ∀ r ∈ v.places, r < n

namespace Value

variable {v : Value} {lo hi lo' hi' : Nat}

/-- Bounds may be widened on both sides. -/
theorem Between.mono (h : v.Between lo hi) (hlo : lo' ≤ lo) (hhi : hi ≤ hi') :
    v.Between lo' hi' := by
  intro r hr
  obtain ⟨hlow, hhigh⟩ := h r hr
  exact ⟨Nat.le_trans hlo hlow, Nat.lt_of_lt_of_le hhigh hhi⟩

/-- What lies between two places lies before the second. -/
theorem Between.within (h : v.Between lo hi) : v.Within hi := fun r hr => (h r hr).2

theorem Within.mono (h : v.Within hi) (hhi : hi ≤ hi') : v.Within hi' :=
  fun r hr => Nat.lt_of_lt_of_le (h r hr) hhi

end Value

namespace Object

/-- The value is an item, or the value of an entry. -/
def Holds : Object → Value → Prop
  | .list vs, v => v ∈ vs
  | .table t, v => ∃ key, t.find? key = some v
  | .fields t, v => ∃ key, t.find? key = some v
  | .attributes t, v => ∃ key, t.find? key = some v

/-- The object is a list or a dict. -/
def isContainer : Object → Bool
  | .list _ => true
  | .table _ => true
  | .fields _ => false
  | .attributes _ => false

/-- All that the object refers to is among the first `n` places. -/
def Within (o : Object) (n : Nat) : Prop := ∀ v, o.Holds v → v.Within n

theorem Within.mono {o : Object} {n n' : Nat} (h : o.Within n) (hn : n ≤ n') : o.Within n' :=
  fun v hv => (h v hv).mono hn

end Object

/-- Objects refer only to places that exist. -/
def Heap.Closed (h : Heap) : Prop :=
  ∀ (r : Ref) (o : Object), h.objects[r]? = some o → o.Within h.size

/-- Nothing is stored in the empty heap, so nothing refers anywhere. -/
theorem Heap.closed_empty : Heap.empty.Closed := by
  intro r o hr
  cases hr

-- ==================================================== tables

namespace Table

variable {α : Type}

/-- What a table of entries has was there before, or is one of them. -/
theorem find?_insertAll {t : Table α} {es : Entries α} {key : String} {value : α}
    (h : (t.insertAll es).find? key = some value) :
    t.find? key = some value ∨ (key, value) ∈ es := by
  induction es generalizing t with
  | nil => exact .inl h
  | cons e es ih =>
    rcases ih h with h | h
    · rw [find?_insert] at h
      split at h
      case isTrue hkey =>
        cases h
        rw [← hkey]
        exact .inr List.mem_cons_self
      case isFalse => exact .inl h
    · exact .inr (List.mem_cons_of_mem _ h)

/-- What a table finds was in the list that it was made from. -/
theorem find?_ofList {es : Entries α} {key : String} {value : α}
    (h : (ofList es).find? key = some value) : (key, value) ∈ es :=
  (find?_insertAll h).resolve_left (fun hempty => by cases hempty)

/-- Entries add their names and take none away. -/
theorem mem_keys_insertAll {t : Table α} {es : Entries α} {key : String} :
    key ∈ (t.insertAll es).keys ↔ key ∈ t.keys ∨ key ∈ es.keys := by
  induction es generalizing t with
  | nil => exact (or_iff_left (List.not_mem_nil)).symm
  | cons e es ih =>
    show key ∈ ((t.insert e.1 e.2).insertAll es).keys ↔ _ ∨ key ∈ e.1 :: Entries.keys es
    rw [ih, mem_keys_insert, List.mem_cons]
    exact (or_congr_left or_comm).trans or_assoc

/-- A table has the names of the list that it was made from, each once. -/
theorem mem_keys_ofList {es : Entries α} {key : String} : key ∈ (ofList es).keys ↔ key ∈ es.keys :=
  mem_keys_insertAll.trans (or_iff_right (List.not_mem_nil))

/-- Entries of other names do not touch what is found under a name. -/
theorem find?_insertAll_of_notMem {t : Table α} {es : Entries α} {key : String}
    (h : key ∉ es.keys) : (t.insertAll es).find? key = t.find? key := by
  induction es generalizing t with
  | nil => rfl
  | cons e es ih =>
    obtain ⟨hkey, hes⟩ := not_or.1 (mt List.mem_cons.2 h)
    show ((t.insert e.1 e.2).insertAll es).find? key = _
    rw [ih hes, find?_insert, if_neg (Ne.symm hkey)]

/-- Among distinct names every entry is found, wherever it stands. -/
theorem find?_insertAll_of_mem {t : Table α} {es : Entries α} (hes : es.keys.Nodup) {key : String}
    {value : α} (h : (key, value) ∈ es) : (t.insertAll es).find? key = some value := by
  induction es generalizing t with
  | nil => cases h
  | cons e es ih =>
    obtain ⟨hkey, hes⟩ := List.nodup_cons.1 hes
    show ((t.insert e.1 e.2).insertAll es).find? key = _
    rcases List.mem_cons.1 h with rfl | h
    · rw [find?_insertAll_of_notMem hkey, find?_insert, if_pos rfl]
    · exact ih hes h

/-- Known names keep their places. -/
theorem keys_insertAll_of_subset {t : Table α} {es : Entries α} (h : es.keys ⊆ t.keys) :
    (t.insertAll es).keys = t.keys := by
  induction es generalizing t with
  | nil => rfl
  | cons e es ih =>
    obtain ⟨hkey, hes⟩ := List.cons_subset.1 h
    have hinsert : (t.insert e.1 e.2).keys = t.keys := by rw [keys_insert, if_pos hkey]
    show ((t.insert e.1 e.2).insertAll es).keys = t.keys
    rw [ih (hinsert ▸ hes), hinsert]

end Table

-- ==================================================== heaps that grow

namespace Heap

/-- The heap has grown: what there was is still there. -/
structure Extends (h h' : Heap) : Prop where
  size : h.size ≤ h'.size
  same : ∀ r, r < h.size → h'.objects[r]? = h.objects[r]?

/-- The heap has grown by lists and dicts that refer only to one
another. -/
structure Made (h h' : Heap) : Prop where
  grown : h.Extends h'
  apart : ∀ r o, h.size ≤ r → h'.objects[r]? = some o →
    o.isContainer = true ∧ ∀ v, o.Holds v → v.Between h.size h'.size

variable {h h' h'' : Heap}

theorem Extends.refl (h : Heap) : h.Extends h := ⟨Nat.le_refl _, fun _ _ => rfl⟩

theorem Extends.trans (h₁ : h.Extends h') (h₂ : h'.Extends h'') : h.Extends h'' where
  size := Nat.le_trans h₁.size h₂.size
  same r hr := (h₂.same r (Nat.lt_of_lt_of_le hr h₁.size)).trans (h₁.same r hr)

/-- A new object is placed behind all others. -/
theorem Extends.alloc (h : Heap) (o : Object) : h.Extends (h.alloc o).2 where
  size := by
    rw [size_alloc]
    exact Nat.le_succ _
  same r hr := by
    rw [getElem?_alloc, if_neg (Nat.ne_of_lt hr)]

/-- Old objects are found where they were. -/
theorem Extends.getElem? (hext : h.Extends h') {r : Ref} {o : Object}
    (hr : h.objects[r]? = some o) : h'.objects[r]? = some o :=
  (hext.same r (lt_size_of_getElem? hr)).trans hr

theorem Made.refl (h : Heap) : h.Made h where
  grown := .refl h
  apart _ _ hle hr := absurd (lt_size_of_getElem? hr) (Nat.not_lt.2 hle)

/-- What is made after something else that was made, is made of both. -/
theorem Made.trans (h₁ : h.Made h') (h₂ : h'.Made h'') : h.Made h'' where
  grown := h₁.grown.trans h₂.grown
  apart r o hle hr := by
    rcases Nat.lt_or_ge r h'.size with hlt | hge
    · rw [h₂.grown.same r hlt] at hr
      obtain ⟨hcontainer, hvalues⟩ := h₁.apart r o hle hr
      exact ⟨hcontainer, fun v hv => (hvalues v hv).mono (Nat.le_refl _) h₂.grown.size⟩
    · obtain ⟨hcontainer, hvalues⟩ := h₂.apart r o hge hr
      exact ⟨hcontainer, fun v hv => (hvalues v hv).mono h₁.grown.size (Nat.le_refl _)⟩

/-- A new container for new values. -/
theorem Made.alloc (hmade : h.Made h') {o : Object} (ho : o.isContainer = true)
    (hvalues : ∀ v, o.Holds v → v.Between h.size h'.size) : h.Made (h'.alloc o).2 where
  grown := hmade.grown.trans (.alloc h' o)
  apart r o' hle hr := by
    have hsize : h'.size ≤ (h'.alloc o).2.size := (Extends.alloc h' o).size
    rw [getElem?_alloc] at hr
    split at hr
    case isTrue =>
      cases hr
      exact ⟨ho, fun v hv => (hvalues v hv).mono (Nat.le_refl _) hsize⟩
    case isFalse =>
      obtain ⟨hcontainer, hold⟩ := hmade.apart r o' hle hr
      exact ⟨hcontainer, fun v hv => (hold v hv).mono (Nat.le_refl _) hsize⟩

/-- The place that a new container takes is a new one. -/
theorem Made.lt_alloc (hmade : h.Made h') (o : Object) :
    h.size ≤ (h'.alloc o).1 ∧ (h'.alloc o).1 < (h'.alloc o).2.size := by
  rw [size_alloc]
  exact ⟨hmade.grown.size, Nat.lt_succ_self _⟩

-- ==================================================== what values stand for

mutual

/-- The value is that of a constant. -/
inductive Denotes (h : Heap) : Value → Constant → Prop
  | null : Denotes h .null .null
  | bool (b : Bool) : Denotes h (.bool b) (.bool b)
  | int (i : Int64) : Denotes h (.int i) (.int i)
  | float (x : Binary64) : Denotes h (.float x) (.float x)
  | str (s : String) : Denotes h (.str s) (.str s)
  | list {r : Ref} {vs : List Value} {cs : List Constant} (place : h.objects[r]? = some (.list vs))
      (items : DenotesAll h vs cs) : Denotes h (.list r) (.list cs)
  | dict {r : Ref} {vs : Entries Value} {es : Entries Constant}
      (place : h.objects[r]? = some (.table (.ofList vs))) (entries : DenotesEntries h vs es) :
      Denotes h (.dict r) (.dict es)

/-- The values are those of constants, in order. -/
inductive DenotesAll (h : Heap) : List Value → List Constant → Prop
  | nil : DenotesAll h [] []
  | cons {v : Value} {vs : List Value} {c : Constant} {cs : List Constant} (first : Denotes h v c)
      (rest : DenotesAll h vs cs) : DenotesAll h (v :: vs) (c :: cs)

/-- The values are those of constants under the same names, in order. -/
inductive DenotesEntries (h : Heap) : Entries Value → Entries Constant → Prop
  | nil : DenotesEntries h [] []
  | cons {key : String} {v : Value} {vs : Entries Value} {c : Constant} {es : Entries Constant}
      (first : Denotes h v c) (rest : DenotesEntries h vs es) :
      DenotesEntries h ((key, v) :: vs) ((key, c) :: es)

end

/-- Lists and dicts are as they were. -/
def KeepsContainers (h h' : Heap) : Prop :=
  ∀ (r : Ref) (o : Object), o.isContainer = true → h.objects[r]? = some o →
    h'.objects[r]? = some o

/-- In a heap that only grows, lists and dicts stay as they are. -/
theorem Extends.keepsContainers (hext : h.Extends h') : h.KeepsContainers h' :=
  fun _ _ _ hr => hext.getElem? hr

mutual

/-- A value keeps its meaning while lists and dicts are as they were. -/
theorem Denotes.keep (hkeep : h.KeepsContainers h') {v : Value} {c : Constant} :
    h.Denotes v c → h'.Denotes v c
  | .null => .null
  | .bool b => .bool b
  | .int i => .int i
  | .float x => .float x
  | .str s => .str s
  | .list hr hitems => .list (hkeep _ _ rfl hr) (hitems.keep hkeep)
  | .dict hr hentries => .dict (hkeep _ _ rfl hr) (hentries.keep hkeep)

/-- Lists and dicts inside are kept as well, so what denotes a constant goes on
denoting it at every depth. -/
theorem DenotesAll.keep (hkeep : h.KeepsContainers h') {vs : List Value} {cs : List Constant} :
    h.DenotesAll vs cs → h'.DenotesAll vs cs
  | .nil => .nil
  | .cons hfirst hrest => .cons (hfirst.keep hkeep) (hrest.keep hkeep)

/-- Names stay in their order. -/
theorem DenotesEntries.keep (hkeep : h.KeepsContainers h') {vs : Entries Value}
    {es : Entries Constant} : h.DenotesEntries vs es → h'.DenotesEntries vs es
  | .nil => .nil
  | .cons hfirst hrest => .cons (hfirst.keep hkeep) (hrest.keep hkeep)

end

/-- A value keeps its meaning while the heap grows. -/
theorem Denotes.mono (hext : h.Extends h') {v : Value} {c : Constant} (hv : h.Denotes v c) :
    h'.Denotes v c :=
  hv.keep hext.keepsContainers

theorem DenotesAll.mono (hext : h.Extends h') {vs : List Value} {cs : List Constant}
    (hvs : h.DenotesAll vs cs) : h'.DenotesAll vs cs :=
  hvs.keep hext.keepsContainers

theorem DenotesEntries.mono (hext : h.Extends h') {vs : Entries Value} {es : Entries Constant}
    (hvs : h.DenotesEntries vs es) : h'.DenotesEntries vs es :=
  hvs.keep hext.keepsContainers

/-- Entries have the names of their constants. -/
theorem DenotesEntries.keys_eq {vs : Entries Value} {es : Entries Constant}
    (hvs : h.DenotesEntries vs es) : vs.keys = es.keys := by
  induction es generalizing vs with
  | nil =>
    cases hvs
    rfl
  | cons e es ih =>
    cases hvs with
    | cons _ hrest => exact congrArg (_ :: ·) (ih hrest)

/-- The items of a list are the values of the constants in it. -/
theorem Denotes.items {r : Ref} {cs : List Constant} (hv : h.Denotes (.list r) (.list cs)) :
    h.DenotesAll (h.items r) cs := by
  cases hv with
  | list hplace hitems =>
    rw [items_of_list hplace]
    exact hitems

/-- The entries of a dict are those of the constants in it, if no name is
repeated among them. -/
theorem Denotes.entries {r : Ref} {es : Entries Constant} (hv : h.Denotes (.dict r) (.dict es))
    (hes : es.keys.Nodup) : h.DenotesEntries (h.table r).entries es := by
  cases hv with
  | dict hplace hentries =>
    rw [table_of_dict hplace, Table.entries_ofList (hentries.keys_eq ▸ hes)]
    exact hentries

end Heap

-- ==================================================== making values

namespace Constant

open Heap

/-- A scalar is made without objects. -/
theorem made_of_scalar (h : Heap) {v : Value} {c : Constant} (hv : v.places = [])
    (hc : h.Denotes v c) : h.Made h ∧ v.Between h.size h.size ∧ h.Denotes v c := by
  refine ⟨.refl h, ?_, hc⟩
  intro r hr
  rw [hv] at hr
  cases hr

mutual

/-- The value of a constant is new, cut off from what there was, and that
of the constant. -/
theorem materialize_made : (c : Constant) → (h : Heap) →
    h.Made (c.materialize h).2 ∧ (c.materialize h).1.Between h.size (c.materialize h).2.size
      ∧ (c.materialize h).2.Denotes (c.materialize h).1 c
  | .null, h => made_of_scalar h rfl .null
  | .bool b, h => made_of_scalar h rfl (.bool b)
  | .int i, h => made_of_scalar h rfl (.int i)
  | .float x, h => made_of_scalar h rfl (.float x)
  | .str s, h => made_of_scalar h rfl (.str s)
  | .list cs, h => by
    obtain ⟨hmade, hbetween, hdenotes⟩ := materializeAll_made cs h
    have hplace := getElem?_alloc_self (materializeAll cs h).2 (.list (materializeAll cs h).1)
    rw [materialize]
    refine ⟨hmade.alloc rfl hbetween, ?_, .list hplace (hdenotes.mono (.alloc _ _))⟩
    intro r hr
    rw [List.mem_singleton.1 hr]
    exact hmade.lt_alloc _
  | .dict es, h => by
    obtain ⟨hmade, hbetween, hdenotes⟩ := materializeEntries_made es h
    have hvalues : ∀ v, (Object.table (.ofList (materializeEntries es h).1)).Holds v →
        v.Between h.size (materializeEntries es h).2.size := by
      intro v hv
      obtain ⟨key, hkey⟩ := hv
      exact hbetween (key, v) (Table.find?_ofList hkey)
    have hplace := getElem?_alloc_self (materializeEntries es h).2
      (.table (.ofList (materializeEntries es h).1))
    rw [materialize]
    refine ⟨hmade.alloc rfl hvalues, ?_, .dict hplace (hdenotes.mono (.alloc _ _))⟩
    intro r hr
    rw [List.mem_singleton.1 hr]
    exact hmade.lt_alloc _

/-- Values made one after the other: those made first still denote their
constants when the others have been made. -/
theorem materializeAll_made : (cs : List Constant) → (h : Heap) →
    h.Made (materializeAll cs h).2
      ∧ (∀ v ∈ (materializeAll cs h).1, v.Between h.size (materializeAll cs h).2.size)
      ∧ (materializeAll cs h).2.DenotesAll (materializeAll cs h).1 cs
  | [], h => ⟨.refl h, fun v hv => (by cases hv), .nil⟩
  | c :: cs, h => by
    obtain ⟨hfirst, hvalue, hdenotes⟩ := materialize_made c h
    obtain ⟨hrest, hvalues, hdenotesAll⟩ := materializeAll_made cs (c.materialize h).2
    rw [materializeAll]
    refine ⟨hfirst.trans hrest, List.forall_mem_cons.2 ⟨?_, ?_⟩, ?_⟩
    · exact hvalue.mono (Nat.le_refl _) hrest.grown.size
    · exact fun v hv => (hvalues v hv).mono hfirst.grown.size (Nat.le_refl _)
    · exact .cons (hdenotes.mono hrest.grown) hdenotesAll

/-- The values of a dict, likewise. -/
theorem materializeEntries_made : (es : Entries Constant) → (h : Heap) →
    h.Made (materializeEntries es h).2
      ∧ (∀ e ∈ (materializeEntries es h).1, e.2.Between h.size (materializeEntries es h).2.size)
      ∧ (materializeEntries es h).2.DenotesEntries (materializeEntries es h).1 es
  | [], h => ⟨.refl h, fun e he => (by cases he), .nil⟩
  | (key, c) :: es, h => by
    obtain ⟨hfirst, hvalue, hdenotes⟩ := materialize_made c h
    obtain ⟨hrest, hvalues, hdenotesEntries⟩ := materializeEntries_made es (c.materialize h).2
    rw [materializeEntries]
    refine ⟨hfirst.trans hrest, List.forall_mem_cons.2 ⟨?_, ?_⟩, ?_⟩
    · exact hvalue.mono (Nat.le_refl _) hrest.grown.size
    · exact fun e he => (hvalues e he).mono hfirst.grown.size (Nat.le_refl _)
    · exact .cons (hdenotes.mono hrest.grown) hdenotesEntries

end

/-- Entries keep their names. -/
theorem keys_materializeEntries (es : Entries Constant) (h : Heap) :
    Entries.keys (materializeEntries es h).1 = es.keys := by
  induction es generalizing h with
  | nil => rfl
  | cons e es ih =>
    obtain ⟨key, c⟩ := e
    rw [materializeEntries]
    exact congrArg (key :: ·) (ih (c.materialize h).2)

end Constant

end LiveDoc
