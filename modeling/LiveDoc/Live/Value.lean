/-
Live values and the heap they share.

Lists, dicts and the fields of instances are shared by reference and
change in place, so they live as objects in a `Heap`, and a `Value` is
flat: a scalar, or a reference to an object. Three things follow. Two
values are the same object when their references are equal; what an
operation leaves alone can be said of references it does not write; and
recursion through a value is recursion through the heap, which is bounded
by the number of objects as long as no object contains itself.

A class is its own definition followed by those of its ancestors, leaf to
root, so that everything a class inherits is recursion on a list. What
changes in a class, its class attributes, is a table in the heap; the
reference to it tells classes of one name apart.
-/
import LiveDoc.Program.Basic
import LiveDoc.Table

namespace LiveDoc

-- ==================================================== values

/-- A place in the heap. -/
abbrev Ref := Nat

/-- A class as it was linked, without its ancestors. -/
structure ClassNode where
  /-- its class attributes, in the heap -/
  table : Ref
  moduleName : String
  definition : Program.ClassDef

/-- A live class. -/
structure Class where
  node : ClassNode
  ancestors : List ClassNode

/-- An instance of a class. -/
structure Instance where
  ofClass : Class
  /-- its fields, in the heap -/
  fields : Ref

/-- A live value. -/
inductive Value
  | null
  | bool (b : Bool)
  | int (i : Int64)
  | float (x : Binary64)
  | str (s : String)
  | list (r : Ref)
  | dict (r : Ref)
  | cls (c : Class)
  | inst (i : Instance)

/-- What a place in the heap holds. Dicts, the fields of instances and
class attributes are all tables, but no place ever changes from one of
the four roles to another. -/
inductive Object
  | list (items : List Value)
  /-- the entries of a dict -/
  | table (entries : Table Value)
  /-- the fields of an instance -/
  | fields (entries : Table Value)
  /-- the class attributes of a class -/
  | attributes (entries : Table Value)

/-- The objects that live values share. -/
structure Heap where
  objects : Array Object

instance : Inhabited Value := ⟨.null⟩
instance : Inhabited Heap := ⟨⟨#[]⟩⟩

-- ==================================================== the heap

namespace Heap

/-- The heap without objects. -/
def empty : Heap := ⟨#[]⟩

/-- The number of objects. -/
def size (h : Heap) : Nat := h.objects.size

/-- The items of a list; a place that holds none has none. -/
def items (h : Heap) (r : Ref) : List Value :=
  match h.objects[r]? with
  | some (.list vs) => vs
  | _ => []

/-- The table at a place, in whichever role; a place that holds none has
the empty one. -/
def table (h : Heap) (r : Ref) : Table Value :=
  match h.objects[r]? with
  | some (.table t) => t
  | some (.fields t) => t
  | some (.attributes t) => t
  | _ => ∅

/-- Place a new object. -/
def alloc (h : Heap) (o : Object) : Ref × Heap :=
  (h.size, ⟨h.objects.push o⟩)

/-- Replace the object at a place. -/
def write (h : Heap) (r : Ref) (o : Object) : Heap :=
  ⟨h.objects.setIfInBounds r o⟩

/-- A new object takes a place that held nothing. -/
theorem getElem?_alloc (h : Heap) (o : Object) (r : Ref) :
    (h.alloc o).2.objects[r]? = if r = h.size then some o else h.objects[r]? := by
  unfold alloc size
  exact Array.getElem?_push

theorem getElem?_alloc_self (h : Heap) (o : Object) :
    (h.alloc o).2.objects[h.size]? = some o := by
  rw [getElem?_alloc, if_pos rfl]

/-- A write changes the one place it names. -/
theorem getElem?_write_of_ne (h : Heap) {r s : Ref} (o : Object) (hrs : r ≠ s) :
    (h.write r o).objects[s]? = h.objects[s]? := by
  simp [write, hrs]

/-- A write to a place that exists is read back from it. -/
theorem getElem?_write_self (h : Heap) {r : Ref} (o : Object) (hr : r < h.size) :
    (h.write r o).objects[r]? = some o := by
  have hr' : r < h.objects.size := hr
  simp [write, hr']

/-- Places that hold something exist. -/
theorem lt_size_of_getElem? {h : Heap} {r : Ref} {o : Object} (hr : h.objects[r]? = some o) :
    r < h.size := by
  obtain ⟨hlt, -⟩ := Array.getElem?_eq_some_iff.1 hr
  exact hlt

/-- The items of a place that holds a list. -/
theorem items_of_list {h : Heap} {r : Ref} {vs : List Value}
    (hr : h.objects[r]? = some (.list vs)) : h.items r = vs := by
  unfold items
  rw [hr]

/-- The table of a place that holds a dict. -/
theorem table_of_dict {h : Heap} {r : Ref} {t : Table Value}
    (hr : h.objects[r]? = some (.table t)) : h.table r = t := by
  unfold table
  rw [hr]

/-- The table of a place that holds fields. -/
theorem table_of_fields {h : Heap} {r : Ref} {t : Table Value}
    (hr : h.objects[r]? = some (.fields t)) : h.table r = t := by
  unfold table
  rw [hr]

theorem size_write (h : Heap) (r : Ref) (o : Object) : (h.write r o).size = h.size := by
  simp [write, size]

theorem size_alloc (h : Heap) (o : Object) : (h.alloc o).2.size = h.size + 1 := by
  simp [alloc, size]

end Heap

-- ==================================================== making values

mutual

/-- The value of a constant. Every list and dict in it is a new object. -/
def Constant.materialize : Constant → Heap → Value × Heap
  | .null, h => (.null, h)
  | .bool b, h => (.bool b, h)
  | .int i, h => (.int i, h)
  | .float x, h => (.float x, h)
  | .str s, h => (.str s, h)
  | .list cs, h =>
    let (vs, h) := Constant.materializeAll cs h
    let (r, h) := h.alloc (.list vs)
    (.list r, h)
  | .dict es, h =>
    let (vs, h) := Constant.materializeEntries es h
    let (r, h) := h.alloc (.table (.ofList vs))
    (.dict r, h)

/-- The values of a list of constants, in order. -/
def Constant.materializeAll : List Constant → Heap → List Value × Heap
  | [], h => ([], h)
  | c :: cs, h =>
    let (v, h) := Constant.materialize c h
    let (vs, h) := Constant.materializeAll cs h
    (v :: vs, h)

/-- The values of named constants, in order. -/
def Constant.materializeEntries : List (String × Constant) → Heap → List (String × Value) × Heap
  | [], h => ([], h)
  | (k, c) :: es, h =>
    let (v, h) := Constant.materialize c h
    let (vs, h) := Constant.materializeEntries es h
    ((k, v) :: vs, h)

end

namespace Value

/-- The value of a document: a new one each time. -/
def ofJson (j : Json) (h : Heap) : Value × Heap :=
  (Constant.ofJson j).materialize h

/-- The value is null. -/
def isNull : Value → Bool
  | .null => true
  | _ => false

/-- The value is a list or a dict. -/
def isCollection : Value → Bool
  | .list _ => true
  | .dict _ => true
  | _ => false

/-- The value as a double; truth values count as 0 and 1. -/
def number? : Value → Option Binary64
  | .bool b => some (.ofInt (if b then 1 else 0))
  | .int i => some (.ofInt64 i)
  | .float x => some x
  | _ => none

/-- The text that a string value is. -/
def text? : Value → Option String
  | .str s => some s
  | _ => none

/-- The name of a value's kind; an instance goes by its class. -/
def kindName : Value → String
  | .null => "null"
  | .bool _ => "bool"
  | .int _ => "int"
  | .float _ => "float"
  | .str _ => "str"
  | .list _ => "list"
  | .dict _ => "dict"
  | .cls _ => "class"
  | .inst i => i.ofClass.node.definition.name

end Value

end LiveDoc
