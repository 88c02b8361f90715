/-
What can go wrong with live values.

A `ValidationError` is a refusal by a checker or by a read-only
attribute; a `CallError` is one of those or a misuse of a class or an
attribute. Both carry names and ranges; their texts are made here.
-/
import LiveDoc.Constraint.Basic

namespace LiveDoc

/-- Why a value was refused for an attribute. -/
inductive ValidationError
  | readOnly (className name : String)
  | nullRefused (name : String)
  | wrongKind (name : String) (expected : Kind) (found : String)
  | outOfRange (name : String) (range : Range)
  | notComparable (name found : String)
  deriving DecidableEq

namespace ValidationError

/-- The attribute that the value was refused for. -/
def name : ValidationError → String
  | .readOnly _ name => name
  | .nullRefused name => name
  | .wrongKind name _ _ => name
  | .outOfRange name _ => name
  | .notComparable name _ => name

/-- The value was refused for its kind. -/
def isKindError : ValidationError → Bool
  | .wrongKind _ _ _ => true
  | .notComparable _ _ => true
  | _ => false

/-- The text of a refusal. -/
def message : ValidationError → String
  | .readOnly className name => s!"{className}.{name} is read only"
  | .nullRefused name => s!"Range Error : '{name}' cannot be None"
  | .wrongKind name expected found =>
    s!"Type Error : Attribute '{name}' must be of type {expected.name} : {found} given"
  | .outOfRange name (.between min max) =>
    s!"Range Error : '{name}' must be between {min.text} and {max.text}"
  | .outOfRange name (.atLeast min) => s!"Range Error : '{name}' must be >= {min.text}"
  | .outOfRange name (.atMost max) => s!"Range Error : '{name}' must be <= {max.text}"
  | .notComparable name found =>
    s!"Type Error : '{name}' cannot be compared with a numeric bound : {found} given"

end ValidationError

/-- Why an operation on a live value failed. -/
inductive CallError
  | invalid (e : ValidationError)
  | noSuchAttribute (kindName name : String)
  | unexpectedArgument (className name : String)
  | duplicateArgument (className name : String)
  | tooManyArguments (className : String) (expected given : Nat)
  | notAClass (name : String)
  deriving DecidableEq

/-- The text of a call error. -/
def CallError.message : CallError → String
  | .invalid e => e.message
  | .noSuchAttribute kindName name => s!"'{kindName}' has no attribute '{name}'"
  | .unexpectedArgument className name =>
    s!"{className}() got an unexpected keyword argument '{name}'"
  | .duplicateArgument className name =>
    s!"{className}() got multiple values for argument '{name}'"
  | .tooManyArguments className expected given =>
    s!"{className}() takes {Numeral.ofNat expected} positional arguments but " ++
    s!"{Numeral.ofNat given} were given"
  | .notAClass name => s!"'{name}' is not a class"

end LiveDoc
