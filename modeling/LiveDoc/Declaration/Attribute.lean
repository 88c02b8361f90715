/-
Declared attributes.

A document declares attributes of the module, of a class, and of the
instances of a class. All three have a name and a default; only the last
have constraints.
-/
import LiveDoc.Constraint.Basic
import LiveDoc.Json.Basic

namespace LiveDoc

/-- Whose attribute it is. -/
inductive Owner
  | ofModule
  | ofClass (className : String)
  | ofInstances (className : String)
  deriving DecidableEq

/-- The class that an attribute is declared in. -/
def Owner.className? : Owner → Option String
  | .ofModule => none
  | .ofClass c => some c
  | .ofInstances c => some c

/-- A declared attribute. -/
structure AttributeDecl where
  name : String
  default : Json
  owner : Owner
  constraints : Constraints := []

namespace AttributeDecl

/-- The default is a list or a dict, so every holder needs a copy. -/
def hasMutableDefault (a : AttributeDecl) : Bool := a.default.isContainer

end AttributeDecl

end LiveDoc
