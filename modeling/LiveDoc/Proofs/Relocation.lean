/-
Linking does not look at the heap.

What linking makes of a program does not depend on the objects that are
there before. It can only depend on how many there are, and on that only
in one way: the new objects stand behind the old ones, so every reference
that is made is further back by the size of the heap. `moved` puts all
references further back, `Heap.behind` puts one heap behind another, and
the statement is one equation: linking behind a heap is linking, put
behind that heap (`Program.link_behind`). Failures are equal as well,
since they mention no places.

The equation holds of every step, so the proof follows the recursion:
placing one object (`Heap.alloc_behind`), making the value of a constant
(`Constant.materialize_behind`, over constants), one class, the items.
Two linkings of one program into any two heaps are thereby the same
contents, put behind the one heap and behind the other. What is made
refers to no object of either.
-/
import LiveDoc.Live.Module
import LiveDoc.Proofs.Traversal

namespace LiveDoc

open Traversal

-- ==================================================== tables

namespace Entries

variable {α β : Type}

/-- Names are not touched, so no two become one. -/
theorem keys_mapValues (f : α → β) (es : Entries α) : (es.mapValues f).keys = es.keys := by
  unfold keys mapValues
  rw [List.map_map]
  rfl

/-- What is found under a name is what was found there, mapped. -/
theorem find?_mapValues (f : α → β) (es : Entries α) (key : String) :
    (es.mapValues f).find? key = (es.find? key).map f := by
  induction es with
  | nil => rfl
  | cons e es ih =>
    obtain ⟨k, v⟩ := e
    show (if k = key then some (f v) else find? (mapValues f es) key) = _
    rw [ih, find?]
    split <;> rfl

/-- An entry may be put before or after the others are mapped. -/
theorem put_mapValues (f : α → β) (es : Entries α) (key : String) (value : α) :
    (es.mapValues f).put key (f value) = (es.put key value).mapValues f := by
  induction es with
  | nil => rfl
  | cons e es ih =>
    obtain ⟨k, v⟩ := e
    show (if k = key then (k, f value) :: mapValues f es
      else (k, f v) :: put (mapValues f es) key (f value)) = _
    rw [ih, put]
    split <;> rfl

end Entries

namespace Table

variable {α β : Type}

/-- Apply a function to every value. -/
def map (f : α → β) (t : Table α) : Table β :=
  ⟨t.entries.mapValues f, by rw [Entries.keys_mapValues]; exact t.nodup⟩

/-- Tables with the same entries are the same: that names are distinct is a
proof, of which there is one. -/
theorem ext_entries {t u : Table α} (h : t.entries = u.entries) : t = u := by
  cases t
  cases u
  cases h
  rfl

theorem find?_map (f : α → β) (t : Table α) (key : String) :
    (t.map f).find? key = (t.find? key).map f :=
  Entries.find?_mapValues f t.entries key

theorem contains_map (f : α → β) (t : Table α) (key : String) :
    (t.map f).contains key = t.contains key := by
  rw [contains, find?_map, Option.isSome_map]
  rfl

theorem insert_map (f : α → β) (t : Table α) (key : String) (value : α) :
    (t.map f).insert key (f value) = (t.insert key value).map f :=
  ext_entries (Entries.put_mapValues f t.entries key value)

/-- Later entries replace earlier ones by their names, which are the same on
both sides. -/
theorem insertAll_map (f : α → β) (t : Table α) (es : Entries α) :
    (t.map f).insertAll (es.mapValues f) = (t.insertAll es).map f := by
  induction es generalizing t with
  | nil => rfl
  | cons e es ih =>
    show ((t.map f).insert e.1 (f e.2)).insertAll (Entries.mapValues f es) = _
    rw [insert_map, ih]
    rfl

/-- A table may be made before or after its values are moved. -/
theorem ofList_map (f : α → β) (es : Entries α) :
    ofList (es.mapValues f) = (ofList es).map f :=
  insertAll_map f empty es

end Table

-- ==================================================== moving references

/-- The class with its class attributes `k` places further back. -/
def ClassNode.moved (k : Nat) (n : ClassNode) : ClassNode := { n with table := n.table + k }

/-- The class with all that it refers to `k` places further back. -/
def Class.moved (k : Nat) (c : Class) : Class :=
  ⟨c.node.moved k, c.ancestors.map (ClassNode.moved k)⟩

/-- The value with all that it refers to `k` places further back. -/
def Value.moved (k : Nat) : Value → Value
  | .list r => .list (r + k)
  | .dict r => .dict (r + k)
  | .cls c => .cls (c.moved k)
  | .inst i => .inst ⟨i.ofClass.moved k, i.fields + k⟩
  | v => v

/-- The object with all that it refers to `k` places further back. -/
def Object.moved (k : Nat) : Object → Object
  | .list vs => .list (vs.map (Value.moved k))
  | .table t => .table (t.map (Value.moved k))
  | .fields t => .fields (t.map (Value.moved k))
  | .attributes t => .attributes (t.map (Value.moved k))

namespace Heap

/-- The objects of the first heap, put behind those of the second. -/
def behind (e h : Heap) : Heap := ⟨h.objects ++ e.objects.map (Object.moved h.size)⟩

variable (e h : Heap)

/-- Nothing is lost and nothing shared. -/
theorem size_behind : (e.behind h).size = h.size + e.size := by
  unfold behind size
  rw [Array.size_append, Array.size_map]

/-- Behind a heap stands nothing but that heap. -/
theorem behind_empty : Heap.empty.behind h = h := by
  unfold behind empty
  rw [Array.map_empty, Array.append_empty]

/-- A new object behind is a new object, put behind. -/
theorem alloc_behind (o : Object) :
    (e.behind h).alloc (o.moved h.size) = ((e.alloc o).1 + h.size, (e.alloc o).2.behind h) := by
  have hplace : (e.behind h).size = e.size + h.size := by rw [size_behind, Nat.add_comm]
  unfold alloc
  rw [hplace]
  unfold behind
  rw [Array.map_push, Array.append_push]

end Heap

-- ==================================================== making values

namespace Constant

mutual

/-- The value of a constant, made behind a heap. -/
theorem materialize_behind : (c : Constant) → (e h : Heap) →
    c.materialize (e.behind h)
      = ((c.materialize e).1.moved h.size, (c.materialize e).2.behind h)
  | .null, _, _ => rfl
  | .bool _, _, _ => rfl
  | .int _, _, _ => rfl
  | .float _, _, _ => rfl
  | .str _, _, _ => rfl
  | .list cs, e, h => by
    rw [materialize, materialize, materializeAll_behind cs e h]
    have halloc := (materializeAll cs e).2.alloc_behind h (.list (materializeAll cs e).1)
    rw [Object.moved] at halloc
    dsimp only
    rw [halloc]
    rfl
  | .dict es, e, h => by
    rw [materialize, materialize, materializeEntries_behind es e h]
    have halloc := (materializeEntries es e).2.alloc_behind h
      (.table (.ofList (materializeEntries es e).1))
    rw [Object.moved, ← Table.ofList_map] at halloc
    dsimp only
    rw [halloc]
    rfl

/-- The values of a list, each made behind those before it. -/
theorem materializeAll_behind : (cs : List Constant) → (e h : Heap) →
    materializeAll cs (e.behind h)
      = ((materializeAll cs e).1.map (Value.moved h.size), (materializeAll cs e).2.behind h)
  | [], _, _ => rfl
  | c :: cs, e, h => by
    rw [materializeAll, materializeAll, materialize_behind c e h]
    dsimp only
    rw [materializeAll_behind cs _ h]
    rfl

/-- The values of a dict, likewise. -/
theorem materializeEntries_behind : (es : Entries Constant) → (e h : Heap) →
    materializeEntries es (e.behind h)
      = (Entries.mapValues (Value.moved h.size) (materializeEntries es e).1,
          (materializeEntries es e).2.behind h)
  | [], _, _ => rfl
  | (key, c) :: es, e, h => by
    rw [materializeEntries, materializeEntries, materialize_behind c e h]
    dsimp only
    rw [materializeEntries_behind es _ h]
    rfl

end

end Constant

-- ==================================================== linking

namespace Bindings

/-- The bindings with all that they refer to `k` places further back. -/
def moved (k : Nat) (b : Bindings) : Bindings :=
  ⟨b.attributes.map (Value.moved k), b.classes.map (Class.moved k)⟩

variable (k : Nat) (b : Bindings)

/-- Which names are taken does not depend on places, so clashes are the
same. -/
theorem contains_moved (name : String) : (b.moved k).contains name = b.contains name := by
  unfold contains moved
  rw [Table.contains_map, Table.contains_map]

/-- A parent is found by its name, and comes with its lineage further back. -/
theorem ancestors?_moved (base : Option String) :
    (b.moved k).ancestors? base = (b.ancestors? base).map (List.map (ClassNode.moved k)) := by
  cases base with
  | none => rfl
  | some base =>
    show ((b.classes.map (Class.moved k)).find? base).map Class.lineage = _
    rw [Table.find?_map, ancestors?, Option.map_map, Option.map_map]
    rfl

end Bindings

/-- The contents with all that they refer to `k` places further back. -/
def ModuleState.moved (k : Nat) (s : ModuleState) : ModuleState :=
  { s with
    attributes := s.attributes.map (Value.moved k)
    classes := s.classes.map (Class.moved k) }

/-- A class, linked behind a heap. -/
theorem Class.link_behind (moduleName : String) (ancestors : Lineage) (c : Program.ClassDef)
    (e h : Heap) :
    Class.link moduleName (ancestors.map (ClassNode.moved h.size)) c (e.behind h)
      = ((Class.link moduleName ancestors c e).1.moved h.size,
          (Class.link moduleName ancestors c e).2.behind h) := by
  have halloc := (Constant.materializeEntries c.classAttributes e).2.alloc_behind h
    (.attributes (.ofList (Constant.materializeEntries c.classAttributes e).1))
  rw [Object.moved, ← Table.ofList_map] at halloc
  unfold Class.link
  rw [Constant.materializeEntries_behind]
  dsimp only
  rw [halloc]
  rfl

namespace Program

/-- Items, linked behind a heap. -/
theorem linkItems_behind (moduleName : String) (items : List Item) (b : Bindings) (e h : Heap) :
    linkItems moduleName items (b.moved h.size) (e.behind h)
      = (linkItems moduleName items b e).map fun r => (r.1.moved h.size, r.2.behind h) := by
  induction items generalizing b e with
  | nil => rfl
  | cons item items ih =>
    cases item with
    | moduleAttribute name value =>
      rw [linkItems, linkItems, Bindings.contains_moved, Constant.materialize_behind]
      split
      case isTrue => rfl
      case isFalse =>
        rw [← ih]
        dsimp only [Bindings.moved]
        rw [Table.insert_map]
    | classDef c =>
      rw [linkItems, linkItems, Bindings.contains_moved, Bindings.ancestors?_moved]
      split
      case isTrue => rfl
      case isFalse =>
        cases b.ancestors? c.base with
        | none => rfl
        | some ancestors =>
          dsimp only [Option.map_some]
          rw [Class.link_behind, ← ih]
          dsimp only [Bindings.moved]
          rw [Table.insert_map]

/-- A program, linked behind a heap. -/
theorem link_behind (p : Program) (document : Json) (e h : Heap) :
    p.link document (e.behind h)
      = (p.link document e).map fun r => (r.1.moved h.size, r.2.behind h) := by
  have hitems : linkItems p.name p.items {} (e.behind h)
      = (linkItems p.name p.items {} e).map fun r => (r.1.moved h.size, r.2.behind h) :=
    linkItems_behind p.name p.items {} e h
  unfold link
  rw [hitems]
  cases linkItems p.name p.items {} e <;> rfl

/-- Linking into a heap is linking into the empty heap, put behind. -/
theorem link_eq (p : Program) (document : Json) (h : Heap) :
    p.link document h
      = (p.link document .empty).map fun r => (r.1.moved h.size, r.2.behind h) := by
  rw [← link_behind, Heap.behind_empty]

end Program

end LiveDoc
