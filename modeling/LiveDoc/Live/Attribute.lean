/-
Attributes of live values.

An instance is asked for its field first and then its class for a class
attribute. Assignment to an instance goes through the property of that
name: one must exist, it must not be read only, and its checker must
accept the value. Assignment to a class is free and changes the class
itself, not its ancestors.
-/
import LiveDoc.Live.Check

namespace LiveDoc

-- ==================================================== classes

namespace Class

/-- The class attribute of a name, at its nearest holder. -/
def attribute? (c : Class) (h : Heap) (attr : String) : Option Value :=
  c.lineage.attribute? h attr

/-- The class attribute of a name. -/
def getAttr (c : Class) (h : Heap) (attr : String) : Except CallError Value :=
  match c.attribute? h attr with
  | some v => .ok v
  | none => .error (.noSuchAttribute c.name attr)

/-- Assign a class attribute. Subclasses without one of that name see the
new value. -/
def setAttr (c : Class) (h : Heap) (attr : String) (v : Value) : Heap :=
  h.write c.node.table (.attributes ((h.table c.node.table).insert attr v))

end Class

-- ==================================================== instances

namespace Instance

/-- The field of a name, or the class attribute. -/
def attribute? (i : Instance) (h : Heap) (attr : String) : Option Value :=
  match (h.table i.fields).find? attr with
  | some v => some v
  | none => i.ofClass.attribute? h attr

/-- The attribute of a name. -/
def getAttr (i : Instance) (h : Heap) (attr : String) : Except CallError Value :=
  match i.attribute? h attr with
  | some v => .ok v
  | none => .error (.noSuchAttribute i.ofClass.name attr)

/-- Assign an attribute. A refusal leaves everything as it is. -/
def setAttr (i : Instance) (h : Heap) (attr : String) (v : Value) : Except CallError Heap :=
  if !i.ofClass.hasProperty attr then .error (.noSuchAttribute i.ofClass.name attr)
  else if i.ofClass.isReadOnly attr then .error (.invalid (.readOnly i.ofClass.name attr))
  else
    match i.ofClass.validate attr v with
    | .error e => .error (.invalid e)
    | .ok () => .ok (h.write i.fields (.fields ((h.table i.fields).insert attr v)))

end Instance

-- ==================================================== values

namespace Value

/-- The attribute of a value; only instances and classes have any. -/
def getAttr (v : Value) (h : Heap) (attr : String) : Except CallError Value :=
  match v with
  | .inst i => i.getAttr h attr
  | .cls c => c.getAttr h attr
  | v => .error (.noSuchAttribute v.kindName attr)

/-- Assign an attribute of a value. -/
def setAttr (v : Value) (h : Heap) (attr : String) (x : Value) : Except CallError Heap :=
  match v with
  | .inst i => i.setAttr h attr x
  | .cls c => .ok (c.setAttr h attr x)
  | v => .error (.noSuchAttribute v.kindName attr)

end Value

end LiveDoc
