/-
Checking values.

`Lineage.validate` runs the checker of the nearest class that declares an
attribute; the checker runs that of the next one up before its own steps.
The recursion is on the lineage: the outcome of the ancestors' checker is
handed to the steps, which take it where they delegate.

Integers compare with integer bounds as integers and with all other
bounds as doubles. A value is refused when it is strictly outside, so a
NaN, which compares with nothing, is not refused.
-/
import LiveDoc.Live.Class
import LiveDoc.Live.Error

namespace LiveDoc

-- ==================================================== single tests

/-- The value satisfies a `type` constraint. Truth values and integers
stand for each other, and both for doubles; classes are told by name. -/
def Kind.accepts : Kind → Value → Bool
  | .bool, .bool _ => true
  | .bool, .int _ => true
  | .int, .int _ => true
  | .int, .bool _ => true
  | .float, .float _ => true
  | .float, .int _ => true
  | .float, .bool _ => true
  | .str, .str _ => true
  | .list, .list _ => true
  | .dict, .dict _ => true
  | .instanceOf name, .inst i => i.ofClass.isSubclassOf name
  | _, _ => false

namespace Bound

/-- How a value compares with a bound, if it does. -/
def compare? (b : Bound) (v : Value) : Option Ordering :=
  match v, b with
  | .int i, .int j => some (compare i.toInt j.toInt)
  | v, b => v.number?.bind fun x => x.compare? b.toBinary64

/-- The value is strictly below the bound. -/
def isAbove (b : Bound) (v : Value) : Bool := b.compare? v == some .lt

/-- The value is strictly above the bound. -/
def isBelow (b : Bound) (v : Value) : Bool := b.compare? v == some .gt

end Bound

/-- The value is strictly outside the range. -/
def Range.excludes : Range → Value → Bool
  | .between min max, v => min.isAbove v || max.isBelow v
  | .atLeast min, v => min.isAbove v
  | .atMost max, v => max.isBelow v

-- ==================================================== checkers

/-- Run checker steps on a value for an attribute; `base` is the outcome
of the ancestors' checker. -/
def Check.run (attr : String) (v : Value) (base : Except ValidationError Unit) :
    List Check → Except ValidationError Unit
  | [] => .ok ()
  | .delegateToBase :: cs =>
    match base with
    | .error e => .error e
    | .ok () => run attr v base cs
  | .rejectNull :: cs => if v.isNull then .error (.nullRefused attr) else run attr v base cs
  | .acceptNull :: cs => if v.isNull then .ok () else run attr v base cs
  | .requireKind k :: cs =>
    if k.accepts v then run attr v base cs else .error (.wrongKind attr k v.kindName)
  | .skipCollections :: cs => if v.isCollection then .ok () else run attr v base cs
  | .inRange r :: cs =>
    if v.number?.isNone then .error (.notComparable attr v.kindName)
    else if r.excludes v then .error (.outOfRange attr r)
    else run attr v base cs

/-- Run the checker of the nearest class of a lineage that declares the
attribute. Without a declaration every value passes. -/
def Lineage.validate (attr : String) (v : Value) : Lineage → Except ValidationError Unit
  | [] => .ok ()
  | n :: l =>
    match n.property? attr with
    | none => validate attr v l
    | some p => Check.run attr v (validate attr v l) p.checks

/-- Run the checker of a class for an attribute. -/
def Class.validate (c : Class) (attr : String) (v : Value) : Except ValidationError Unit :=
  c.lineage.validate attr v

end LiveDoc
