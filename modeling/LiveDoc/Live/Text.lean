/-
The two texts of a value.

The exact text (`repr`) writes data as JSON and quotes strings; the
readable one (`str`) leaves a string as it is. Instances show themselves
through the templates of their class, the exact one or the readable one.

Both walk through the heap, one object deeper at each step. A walk that
comes back to the same text of the same value never ends. A walk that ends
therefore meets each stored value at most twice, once for either text, and
twice the number of stored values bounds it, with one step more for the
value that it starts at; only a walk without an end is cut short.
-/
import LiveDoc.Live.Attribute
import LiveDoc.Template.Render

namespace LiveDoc

open Template (Conversion)

/-- The text of a class. -/
def Class.text (c : Class) : String :=
  s!"<class '{c.moduleName}.{c.name}'>"

/-- The template that an instance shows itself through. -/
def Class.template (c : Class) : Conversion → Template
  | .repr => c.reprTemplate
  | .str => c.strTemplate

/-- The value that a placeholder of an instance's template stands for. -/
def Instance.placeholder? (i : Instance) (h : Heap) (name : String) : Option Value :=
  if name = "class_name" then some (.str i.ofClass.name)
  else if name = "module_name" then some (.str i.ofClass.moduleName)
  else i.attribute? h name

/-- The items of a list, or the values of named entries. -/
def Object.values : Object → List Value
  | .list vs => vs
  | .table t => t.entries.map Prod.snd
  | .fields t => t.entries.map Prod.snd
  | .attributes t => t.entries.map Prod.snd

namespace Heap

/-- The text of a value, as deep as `steps` go. An instance whose
template names something it does not have shows its class. -/
def textWithin (h : Heap) : Nat → Conversion → Value → String
  | _, _, .null => "null"
  | _, _, .bool b => Constant.boolText b
  | _, _, .int i => Numeral.ofInt i.toInt
  | _, _, .float x => x.text
  | _, .str, .str s => s
  | _, .repr, .str s => Quoted.quote s
  | _, _, .cls c => c.text
  | 0, _, .list _ => "..."
  | 0, _, .dict _ => "..."
  | 0, _, .inst _ => "..."
  | n + 1, _, .list r =>
    "[" ++ ", ".intercalate ((h.items r).map (textWithin h n .repr)) ++ "]"
  | n + 1, _, .dict r =>
    let parts := (h.table r).entries.map fun e =>
      Quoted.quote e.1 ++ ": " ++ textWithin h n .repr e.2
    "\x7b" ++ ", ".intercalate parts ++ "\x7d"
  | n + 1, conversion, .inst i =>
    let view : Template.View Value :=
      ⟨textWithin h n .str, textWithin h n .repr, Value.number?⟩
    match (i.ofClass.template conversion).render view (i.placeholder? h) with
    | some text => text
    | none => "<" ++ i.ofClass.name ++ " instance>"

/-- All values that objects hold. -/
def values (h : Heap) : List Value := h.objects.toList.flatMap Object.values

/-- How many objects a walk may pass through. -/
def walkLimit (h : Heap) : Nat := 2 * h.values.length + 1

end Heap

namespace Value

/-- The exact text of a value. -/
def reprText (v : Value) (h : Heap) : String := h.textWithin h.walkLimit .repr v

/-- The readable text of a value. -/
def strText (v : Value) (h : Heap) : String := h.textWithin h.walkLimit .str v

/-- How templates see values. -/
def view (h : Heap) : Template.View Value :=
  ⟨fun v => v.strText h, fun v => v.reprText h, Value.number?⟩

end Value

/-- The text of an instance through a template, unless a placeholder
names something that the instance does not have. -/
def Instance.render? (i : Instance) (h : Heap) (t : Template) : Option String :=
  t.render (Value.view h) (i.placeholder? h)

end LiveDoc
