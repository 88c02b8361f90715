/-
Values as documents.

Null, truth values, integers, finite doubles, strings, lists and dicts
have a document; classes and instances, NaN and the infinities have none,
and neither has a list or dict that holds one of them. The walk is
bounded as in `Live.Text`.
-/
import LiveDoc.Live.Text

namespace LiveDoc

namespace Heap

/-- The document of a value, as deep as `steps` go. -/
def jsonWithin (h : Heap) : Nat → Value → Option Json
  | _, .null => some .null
  | _, .bool b => some (.bool b)
  | _, .int i => some (.number (.int i))
  | _, .float (.finite x) => some (.number (.float x))
  | _, .str s => some (.str s)
  | n + 1, .list r => (h.items r).mapM (jsonWithin h n) |>.map Json.array
  | n + 1, .dict r =>
    (h.table r).entries.mapM (fun e => (jsonWithin h n e.2).map fun j => (e.1, j))
      |>.map Json.object
  | _, _ => none

end Heap

/-- The document of a value, if it has one. -/
def Value.toJson? (v : Value) (h : Heap) : Option Json := h.jsonWithin h.walkLimit v

end LiveDoc
