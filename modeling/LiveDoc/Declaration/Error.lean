/-
What can be wrong with a document.

Each cause carries the names a reader needs to find the place; `message`
is the only place where causes become text.
-/
import LiveDoc.Constraint.Entry
import LiveDoc.Template.Basic

namespace LiveDoc

/-- The place of a name or a text in a document. -/
inductive Place
  | theModule
  | moduleAttributes
  | classNames
  | classBody (className : String)
  deriving DecidableEq

/-- The text of a place. -/
def Place.describe : Place → String
  | .theModule => "the module"
  | .moduleAttributes => "module attributes"
  | .classNames => "class names"
  | .classBody className => s!"class '{className}'"

/-- What can be wrong with a template of a class. -/
inductive TemplateFault
  | malformed (e : TemplateError)
  /-- a placeholder names nothing that instances have -/
  | unknownField (name : String)
  deriving DecidableEq

/-- The text of a template fault. -/
def TemplateFault.message : TemplateFault → String
  | .malformed e => e.message
  | .unknownField name => s!"unknown field '{name}'"

/-- Why a document declares no module. -/
inductive DocumentError
  | rootNotObject
  | classesNotObject
  | classNotObject (className : String)
  | classAttributesNotObject (className : String)
  | notString (key : String) (place : Place)
  | unknownParent (className parent : String)
  | inheritanceCycle (className : String)
  | invalidIdentifier (name : String) (place : Place)
  | reservedName (className name : String)
  | duplicateAttribute (className name : String)
  | invalidConstraint (className name : String) (fault : ConstraintFault)
  | invalidTemplate (className method : String) (fault : TemplateFault)
  deriving DecidableEq

/-- The text of a document error. -/
def DocumentError.message : DocumentError → String
  | .rootNotObject => "Top level of json file must be a dictionary"
  | .classesNotObject => "__classes__ must be a dictionary of class definitions"
  | .classNotObject c => s!"Expecting dictionary for class '{c}'"
  | .classAttributesNotObject c => s!"__class_attributes__ must be a dictionary for class '{c}'"
  | .notString key place => s!"{key} must be a string in {place.describe}"
  | .unknownParent c parent => s!"Class '{c}' names unknown parent class '{parent}'"
  | .inheritanceCycle c => s!"Inheritance cycle detected at class '{c}'"
  | .invalidIdentifier name place => s!"'{name}' is not a valid identifier in {place.describe}"
  | .reservedName c name =>
    s!"'{name}' is reserved and cannot be used as an attribute of class '{c}'"
  | .duplicateAttribute c name =>
    s!"'{name}' is declared as both a class attribute and an instance attribute of class '{c}'"
  | .invalidConstraint c name fault =>
    s!"Invalid constraint on '{c}.{name}': " ++ fault.message
  | .invalidTemplate c method fault =>
    s!"Invalid {method} template for class '{c}': " ++ fault.message

end LiveDoc
