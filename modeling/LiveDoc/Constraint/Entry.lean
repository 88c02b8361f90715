/-
Reading constraint entries.

An entry of a document becomes the constraints of one attribute. What is
not an object constrains nothing, and neither does an empty object; names
outside the vocabulary are passed over. The order of the result does not
depend on the order of the entry: it is the order of evaluation.
-/
import LiveDoc.Constraint.Basic
import LiveDoc.Json.Basic

namespace LiveDoc

/-- What can be wrong with a constraint entry. -/
inductive ConstraintFault
  | notFlag (key : String)
  | typeNotText
  | unknownType (name : String)
  | notNumber (key : String)
  deriving DecidableEq

/-- The text of a constraint fault. -/
def ConstraintFault.message : ConstraintFault → String
  | .notFlag key => s!"{key} must be true or false"
  | .typeNotText => "type must be a string"
  | .unknownType name => s!"unknown type '{name}'"
  | .notNumber key => s!"{key} must be a number"

/-- The bound that a number is. -/
def Bound.ofNumber : Json.Number → Bound
  | .int i => .int i
  | n => .float n.toBinary64

/-- The range between the ends that are given, if any is. -/
def Range.ofEnds? : Option Bound → Option Bound → Option Range
  | some min, some max => some (.between min max)
  | some min, none => some (.atLeast min)
  | none, some max => some (.atMost max)
  | none, none => none

namespace Constraints

/-- A flag of an entry; absent means false. -/
def flag (entry : Entries Json) (key : String) : Except ConstraintFault Bool :=
  match entry.find? key with
  | none => .ok false
  | some (.bool b) => .ok b
  | some _ => .error (.notFlag key)

/-- The kind that an entry asks for. -/
def kind? (entry : Entries Json) (classNames : List String) :
    Except ConstraintFault (Option Kind) :=
  match entry.find? "type" with
  | none => .ok none
  | some (.str name) =>
    match Kind.resolve? name classNames with
    | some k => .ok (some k)
    | none => .error (.unknownType name)
  | some _ => .error .typeNotText

/-- A bound of an entry. -/
def bound? (entry : Entries Json) (key : String) : Except ConstraintFault (Option Bound) :=
  match entry.find? key with
  | none => .ok none
  | some (.number n) => .ok (some (.ofNumber n))
  | some _ => .error (.notNumber key)

/-- The constraints of a non-empty entry. -/
def ofFields (classNames : List String) (entry : Entries Json) :
    Except ConstraintFault Constraints := do
  let readOnly ← flag entry "read_only"
  let notNull ← flag entry "not_none"
  let kind ← kind? entry classNames
  let min ← bound? entry "min"
  let max ← bound? entry "max"
  return (if readOnly then [.readOnly] else [])
    ++ [if notNull then .notNull else .allowNull]
    ++ (kind.map Constraint.kind).toList
    ++ ((Range.ofEnds? min max).map Constraint.range).toList

/-- The constraints that an entry describes, among the given classes. -/
def ofEntry (classNames : List String) (entry : Json) : Except ConstraintFault Constraints :=
  match entry with
  | .object [] => .ok []
  | .object fields => ofFields classNames fields
  | _ => .ok []

end Constraints

end LiveDoc
