/-
Constraints on instance attributes.

The vocabulary is closed: an attribute may be read only, refuse null, be
of a kind, and lie in a range. A kind is one of six builtin ones or a
class of the same document. A bound keeps the way it was written, as an
integer or as a double, because comparison with integers depends on it.
-/
import LiveDoc.Binary64.Text

namespace LiveDoc

-- ==================================================== kinds

/-- What a `type` constraint may ask for. -/
inductive Kind
  | bool
  | str
  | list
  | int
  | float
  | dict
  /-- a class of the same document, by name -/
  | instanceOf (className : String)
  deriving DecidableEq

namespace Kind

/-- The name of a kind. -/
def name : Kind → String
  | .bool => "bool"
  | .str => "str"
  | .list => "list"
  | .int => "int"
  | .float => "float"
  | .dict => "dict"
  | .instanceOf className => className

/-- The builtin kind of a name. -/
def builtin? (name : String) : Option Kind :=
  [Kind.bool, .str, .list, .int, .float, .dict].find? fun k => k.name = name

/-- The kind that a name stands for among the given classes: a class
hides a builtin kind of the same name. -/
def resolve? (name : String) (classNames : List String) : Option Kind :=
  if name ∈ classNames then some (.instanceOf name) else builtin? name

end Kind

-- ==================================================== ranges

/-- An end of a range. -/
inductive Bound
  | int (i : Int64)
  | float (x : Binary64)
  deriving DecidableEq

namespace Bound

/-- The bound as a double. -/
def toBinary64 : Bound → Binary64
  | .int i => .ofInt64 i
  | .float x => x

/-- The text of a bound. -/
def text : Bound → String
  | .int i => Numeral.ofInt i.toInt
  | .float x => x.text

end Bound

/-- A range of numbers, ends included. -/
inductive Range
  | between (min max : Bound)
  | atLeast (min : Bound)
  | atMost (max : Bound)
  deriving DecidableEq

-- ==================================================== constraints

/-- One constraint. -/
inductive Constraint
  /-- assignment is refused -/
  | readOnly
  /-- null is refused -/
  | notNull
  /-- null is accepted without further checks -/
  | allowNull
  | kind (k : Kind)
  | range (r : Range)
  deriving DecidableEq

/-- The constraints of one attribute, in the order of evaluation:
read-only, null, kind, range. -/
abbrev Constraints := List Constraint

namespace Constraints

/-- Assignment to the attribute is refused. -/
def isReadOnly (cs : Constraints) : Bool := cs.contains .readOnly

end Constraints

end LiveDoc
