/-
Declared modules.

A document declares a module in one of two dialects: with a `__classes__`
object the entries of that object are the classes, without one every
object at the top level is a class. All other top-level entries are
module attributes. `ModuleDecl.ofDocument` is the whole reading of a
document: classes and attributes, parents first, and the check that every
placeholder of a template names something that instances have.

Without a documentation text of its own a module gets one that names the
file and the time; the time is passed in as text.
-/
import LiveDoc.Declaration.Order

namespace LiveDoc

/-- How a document declares classes. -/
inductive Dialect
  /-- every object at the top level is a class -/
  | implicit
  /-- the entries of `__classes__` are the classes -/
  | explicit
  deriving DecidableEq

/-- A declared module. Its classes stand parents first. -/
structure ModuleDecl where
  name : String
  file : String
  doc : String
  dialect : Dialect
  attributes : List AttributeDecl
  classes : List ClassDecl

namespace ModuleDecl

-- ==================================================== the top level

/-- The key of a module's documentation. -/
def docKey : String := "__doc__"

/-- The key that chooses the explicit dialect. -/
def classesKey : String := "__classes__"

/-- The dialect of a document. -/
def dialectOf (root : Entries Json) : Dialect :=
  if (root.find? classesKey).isSome then .explicit else .implicit

/-- The documentation of a module that has none of its own. -/
def generatedDoc (name file time : String) : String :=
  s!"Module {name} - Created by JsonLoader v0.2.0\n   Original json data : {file}\n" ++
  s!"   Generated {time}"

/-- The documentation of a module. -/
def readDoc (name file time : String) (root : Entries Json) : Except DocumentError String :=
  match root.find? docKey with
  | none => .ok (generatedDoc name file time)
  | some (.str s) => .ok s
  | some _ => .error (.notString docKey .theModule)

/-- What an entry of the top level declares. -/
inductive Entry
  | classes (bodies : Entries Json)
  | moduleAttribute (a : AttributeDecl)

/-- An entry of `__classes__`. -/
def checkClassEntry (field : String × Json) : Except DocumentError (String × Json) :=
  if field.2.isObject then .ok field else .error (.classNotObject field.1)

/-- A module attribute. -/
def readAttribute (field : String × Json) : Except DocumentError Entry :=
  if isIdentifier field.1 then
    .ok (.moduleAttribute { name := field.1, default := field.2, owner := .ofModule })
  else .error (.invalidIdentifier field.1 .moduleAttributes)

/-- An entry of the top level. -/
def readEntry (dialect : Dialect) (field : String × Json) : Except DocumentError Entry :=
  match dialect with
  | .explicit =>
    if field.1 = classesKey then
      match field.2.fields? with
      | none => .error .classesNotObject
      | some bodies => Entry.classes <$> bodies.mapM checkClassEntry
    else readAttribute field
  | .implicit =>
    if field.2.isObject then .ok (.classes [field])
    else readAttribute field

/-- The class bodies among entries. -/
def classBodies (entries : List Entry) : Entries Json :=
  entries.flatMap fun
    | .classes bodies => bodies
    | .moduleAttribute _ => []

/-- The module attributes among entries. -/
def moduleAttributes (entries : List Entry) : List AttributeDecl :=
  entries.filterMap fun
    | .classes _ => none
    | .moduleAttribute a => some a

-- ==================================================== classes

/-- The class of a name. -/
def findClass? (m : ModuleDecl) (name : String) : Option ClassDecl :=
  m.classes.find? fun c => c.name = name

/-- The names of the classes, parents first. -/
def classNames (m : ModuleDecl) : List String :=
  m.classes.map ClassDecl.name

/-- A class and its ancestors as far as `steps` go. The walk stops
before a name it has met. -/
def lineageFrom (m : ModuleDecl) : Nat → List String → ClassDecl → List ClassDecl
  | 0, _, c => [c]
  | steps + 1, met, c =>
    match c.base.bind m.findClass? with
    | none => [c]
    | some parent =>
      if parent.name ∈ c.name :: met then [c]
      else c :: m.lineageFrom steps (c.name :: met) parent

/-- A class followed by its ancestors, leaf to root. -/
def lineage (m : ModuleDecl) (c : ClassDecl) : List ClassDecl :=
  m.lineageFrom m.classes.length [] c

/-- The names that templates of a class may use. -/
def visibleNames (m : ModuleDecl) (c : ClassDecl) : List String :=
  (m.lineage c).flatMap ClassDecl.declaredNames ++ ClassDecl.templateNames

/-- Refuse the first placeholder that names nothing visible. -/
def checkTemplate (visible : List String) (className method : String) (t : Template) :
    Except DocumentError Unit :=
  match t.fieldNames.find? fun n => n ∉ visible with
  | none => .ok ()
  | some name => .error (.invalidTemplate className method (.unknownField name))

/-- Check the templates of a class. -/
def checkTemplates (m : ModuleDecl) (c : ClassDecl) : Except DocumentError Unit := do
  checkTemplate (m.visibleNames c) c.name "__repr__" c.repr
  match c.str with
  | none => return
  | some t => checkTemplate (m.visibleNames c) c.name "__str__" t

-- ==================================================== documents

/-- The module that a document declares. -/
def ofDocument (name file time : String) (document : Json) : Except DocumentError ModuleDecl := do
  let some root := document.fields? | throw .rootNotObject
  let dialect := dialectOf root
  let doc ← readDoc name file time root
  let entries ← (root.filter fun f => f.1 ≠ docKey).mapM (readEntry dialect)
  let bodies := classBodies entries
  let classes ← bodies.mapM fun b => ClassDecl.ofBody b.1 b.2 bodies.keys
  let classes ← ClassDecl.parentsFirst classes
  let m := { name, file, doc, dialect, attributes := moduleAttributes entries, classes }
  classes.forM m.checkTemplates
  return m

end ModuleDecl

end LiveDoc
