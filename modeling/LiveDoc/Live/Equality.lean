/-
Equality of values.

Scalars are equal by value, integers and doubles also across kinds, by
way of the double nearest to the integer. Lists are equal item by item,
dicts as maps whatever the order of their keys. Classes and instances are
equal only to themselves. The walk is bounded as in `Live.Text`.
-/
import LiveDoc.Live.Text

namespace LiveDoc

/-- Two lists have equal length and pairwise related items. -/
def allPairs {α β : Type} (p : α → β → Bool) : List α → List β → Bool
  | [], [] => true
  | a :: as, b :: bs => p a b && allPairs p as bs
  | _, _ => false

/-- Every entry of a table is matched by the other, which has no more. What
the other table holds comes first in the comparison. -/
def Table.matches {α β : Type} (p : β → α → Bool) (s : Table α) (t : Table β) : Bool :=
  s.size == t.size && s.entries.all fun e =>
    match t.find? e.1 with
    | some b => p b e.2
    | none => false

/-- Equality of values that hold no others. A list or a dict is equal to
nothing here. -/
def Value.eqSingle : Value → Value → Bool
  | .null, .null => true
  | .bool a, .bool b => a == b
  | .int a, .int b => a == b
  | .float a, .float b => a.numEq b
  | .int a, .float b => (Binary64.ofInt64 a).numEq b
  | .float a, .int b => a.numEq (.ofInt64 b)
  | .str a, .str b => a == b
  | .cls c, .cls d => c.same d
  | .inst i, .inst j => i.fields == j.fields
  | _, _ => false

/-- Equality of values, as deep as `steps` go. -/
def Heap.eqWithin (h : Heap) : Nat → Value → Value → Bool
  | n + 1, .list a, .list b => allPairs (eqWithin h n) (h.items a) (h.items b)
  | n + 1, .dict a, .dict b => (h.table a).matches (eqWithin h n) (h.table b)
  | _, v, w => v.eqSingle w

/-- Two values are equal. -/
def Value.eq (v w : Value) (h : Heap) : Bool := h.eqWithin h.walkLimit v w

end LiveDoc
