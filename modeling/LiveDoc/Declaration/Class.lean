/-
Declared classes.

The body of a class mixes six reserved keys with its instance attributes;
every other key is one of these. `ClassDecl.ofBody` reads the parts in a
fixed order, so that of several faults in one body the same one is always
reported: the name, the parent, the documentation, the class attributes,
the instance attributes with their constraints, the two templates.
-/
import LiveDoc.Declaration.Attribute
import LiveDoc.Declaration.Error
import LiveDoc.Identifier
import LiveDoc.Template.Reader

namespace LiveDoc

/-- A declared class. -/
structure ClassDecl where
  name : String
  /-- the parent; none means the generic base -/
  base : Option String
  doc : Option String
  classAttributes : List AttributeDecl
  instanceAttributes : List AttributeDecl
  repr : Template
  /-- instances show as the nearest ancestor's do: the class has neither
  instance attributes nor a template of its own -/
  inheritsRepr : Bool
  /-- none means that instances show alike in both ways -/
  str : Option Template

namespace ClassDecl

-- ==================================================== vocabulary

/-- The keys of a class body that are not instance attributes. -/
def reservedKeys : List String :=
  ["__parent__", "__doc__", "__class_attributes__", "__constraints__", "__repr__", "__str__"]

/-- The names that every template may use. -/
def templateNames : List String := ["class_name", "module_name"]

/-- The name of the generic base. -/
def genericBase : String := "object"

/-- The name of the parent, spelling the generic base out. -/
def baseName (c : ClassDecl) : String := c.base.getD genericBase

/-- The names that a class declares itself, of both kinds. -/
def declaredNames (c : ClassDecl) : List String :=
  c.classAttributes.map AttributeDecl.name ++ c.instanceAttributes.map AttributeDecl.name

/-- The class declares no attributes. -/
def isEmpty (c : ClassDecl) : Bool :=
  c.classAttributes.isEmpty && c.instanceAttributes.isEmpty

/-- The names of the instance attributes that are constrained. -/
def constrainedNames (c : ClassDecl) : List String :=
  (c.instanceAttributes.filter fun a => !a.constraints.isEmpty).map AttributeDecl.name

-- ==================================================== reading a body

/-- A text of a body, if it has one. -/
def text? (body : Entries Json) (key : String) (className : String) :
    Except DocumentError (Option String) :=
  match body.find? key with
  | none => .ok none
  | some (.str s) => .ok (some s)
  | some _ => .error (.notString key (.classBody className))

/-- Attributes of a class may have every identifier for a name but those
of the template names. -/
def checkAttributeName (className name : String) : Except DocumentError Unit :=
  if !isIdentifier name then .error (.invalidIdentifier name (.classBody className))
  else if name ∈ templateNames then .error (.reservedName className name)
  else .ok ()

/-- The parent of a class; the generic base may be spelled out. -/
def readBase (className : String) (body : Entries Json) :
    Except DocumentError (Option String) := do
  let parent ← text? body "__parent__" className
  return if parent = some genericBase then none else parent

/-- One class attribute. -/
def readClassAttribute (className : String) (field : String × Json) :
    Except DocumentError AttributeDecl := do
  checkAttributeName className field.1
  return { name := field.1, default := field.2, owner := .ofClass className }

/-- The class attributes of a body. -/
def readClassAttributes (className : String) (body : Entries Json) :
    Except DocumentError (List AttributeDecl) :=
  match body.find? "__class_attributes__" with
  | none => .ok []
  | some (.object fields) => fields.mapM (readClassAttribute className)
  | some _ => .error (.classAttributesNotObject className)

/-- The constraint entries of a body; anything but an object has none. -/
def constraintEntries (body : Entries Json) : Entries Json :=
  ((body.find? "__constraints__").bind Json.fields?).getD []

/-- The constraints that entries give to an attribute. -/
def readConstraints (className : String) (classNames : List String) (entries : Entries Json)
    (name : String) : Except DocumentError Constraints :=
  match entries.find? name with
  | none => .ok []
  | some entry =>
    (Constraints.ofEntry classNames entry).mapError (.invalidConstraint className name)

/-- One instance attribute. -/
def readInstanceAttribute (className : String) (classNames shared : List String)
    (entries : Entries Json) (field : String × Json) : Except DocumentError AttributeDecl := do
  checkAttributeName className field.1
  if field.1 ∈ shared then throw (.duplicateAttribute className field.1)
  let constraints ← readConstraints className classNames entries field.1
  return { name := field.1, default := field.2, owner := .ofInstances className, constraints }

/-- The fields of a body that are instance attributes. -/
def attributeFields (body : Entries Json) : Entries Json :=
  body.filter fun f => f.1 ∉ reservedKeys

/-- A template of a body, if it has one. -/
def readTemplate (className key : String) (body : Entries Json) :
    Except DocumentError (Option Template) := do
  match ← text? body key className with
  | none => return none
  | some source =>
    let t ← (Template.parse source).mapError fun e =>
      .invalidTemplate className key (.malformed e)
    return some t

/-- The class that a name and a body declare, among the given classes. -/
def ofBody (name : String) (body : Json) (classNames : List String) :
    Except DocumentError ClassDecl := do
  let some body := body.fields? | throw (.classNotObject name)
  if !isIdentifier name || name = genericBase then throw (.invalidIdentifier name .classNames)
  let base ← readBase name body
  let doc ← text? body "__doc__" name
  let classAttributes ← readClassAttributes name body
  let shared := classAttributes.map AttributeDecl.name
  let instanceAttributes ← (attributeFields body).mapM
    (readInstanceAttribute name classNames shared (constraintEntries body))
  let repr ← readTemplate name "__repr__" body
  let str ← readTemplate name "__str__" body
  return {
    name, base, doc, classAttributes, instanceAttributes
    repr := repr.getD (.ofNames (instanceAttributes.map AttributeDecl.name))
    inheritsRepr := repr.isNone && instanceAttributes.isEmpty
    str }

end ClassDecl

end LiveDoc
