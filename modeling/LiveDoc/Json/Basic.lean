/-
JSON documents.

An object keeps the order of its names; a reader never gives one name
twice (`Json.DistinctKeys`), but the type does not insist on it, since a
proof field cannot stand inside a recursive type.

Numbers keep their kind: an integer literal that fits in 64 signed bits
is an integer, every other literal is a double. Integer literals between
2^63 and 2^64 stand apart as `large`: they count as doubles wherever
their value matters and as integers where a document is described.
-/
import LiveDoc.Binary64.Round
import LiveDoc.Table

namespace LiveDoc

/-- A number of a JSON document. -/
inductive Json.Number
  | int (i : Int64)
  | large (n : UInt64)
  | float (x : Binary64.Finite)
  deriving DecidableEq

/-- A JSON document. -/
inductive Json
  | null
  | bool (b : Bool)
  | number (n : Json.Number)
  | str (s : String)
  | array (items : List Json)
  | object (fields : List (String × Json))

namespace Json

/-- The fields of an object. -/
def fields? : Json → Option (Entries Json)
  | .object fields => some fields
  | _ => none

/-- The document is an object. -/
def isObject (j : Json) : Bool := j.fields?.isSome

theorem fields?_eq_some_iff {j : Json} {fields : Entries Json} :
    j.fields? = some fields ↔ j = .object fields := by
  cases j <;> simp [Json.fields?]

/-- An object is a document that has fields. -/
theorem isObject_iff {j : Json} : j.isObject = true ↔ ∃ fields, j = .object fields := by
  rw [Json.isObject, Option.isSome_iff_exists]
  exact exists_congr fun fields => fields?_eq_some_iff

/-- The document is an array or an object. -/
def isContainer : Json → Bool
  | .array _ => true
  | .object _ => true
  | _ => false

mutual

/-- No object of the document, at any depth, repeats a name. -/
def DistinctKeys : Json → Prop
  | .array items => DistinctKeysAll items
  | .object fields => (Entries.keys fields).Nodup ∧ DistinctKeysFields fields
  | _ => True

/-- Every document of a list has distinct keys. -/
def DistinctKeysAll : List Json → Prop
  | [] => True
  | j :: js => DistinctKeys j ∧ DistinctKeysAll js

/-- Every value of a field list has distinct keys. -/
def DistinctKeysFields : List (String × Json) → Prop
  | [] => True
  | (_, j) :: fs => DistinctKeys j ∧ DistinctKeysFields fs

end

mutual

/-- How many arrays and objects enclose the innermost one, itself
included; 0 for a scalar. -/
def depth : Json → Nat
  | .array items => depthAll items + 1
  | .object fields => depthFields fields + 1
  | _ => 0

/-- The greatest depth in a list of documents. -/
def depthAll : List Json → Nat
  | [] => 0
  | j :: js => max (depth j) (depthAll js)

/-- The greatest depth in a field list. -/
def depthFields : List (String × Json) → Nat
  | [] => 0
  | (_, j) :: fs => max (depth j) (depthFields fs)

end

end Json

namespace Json.Number

/-- The number as a double; integers are rounded to the nearest one. -/
def toBinary64 : Number → Binary64
  | .int i => .ofInt64 i
  | .large n => .ofInt n.toNat
  | .float x => .finite x

end Json.Number

end LiveDoc
