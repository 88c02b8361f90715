/-
Live modules.

Linking walks a program once. Every item takes a name, which attributes
and classes share, and a class takes the lineage of its parent, which
must have been linked before it; nothing is looked up again later. The
result is a `ModuleState`, all that a module holds. Replacing the state
counts one generation up and touches no object that existed, so values
and classes obtained from the old state keep working.
-/
import LiveDoc.Live.Construct
import LiveDoc.Live.Attribute

namespace LiveDoc

/-- Why a program cannot be linked. -/
inductive LinkError
  | unknownBase (className base : String)
  | duplicateName (name : String)
  deriving DecidableEq

/-- The text of a link error. -/
def LinkError.message : LinkError → String
  | .unknownBase className base =>
    s!"Class '{className}' extends '{base}' which is not defined before it"
  | .duplicateName name => s!"Name '{name}' is defined more than once in the module"

-- ==================================================== linking

/-- The names that linking has bound so far. -/
structure Bindings where
  attributes : Table Value := ∅
  classes : Table Class := ∅

namespace Bindings

/-- The name is bound. -/
def contains (b : Bindings) (name : String) : Bool :=
  b.attributes.contains name || b.classes.contains name

/-- The lineage of a parent; the generic base has none. -/
def ancestors? (b : Bindings) : Option String → Option Lineage
  | none => some []
  | some base => (b.classes.find? base).map Class.lineage

end Bindings

/-- A class of a module under the given ancestors, with its class
attributes as new objects. -/
def Class.link (moduleName : String) (ancestors : Lineage) (c : Program.ClassDef) (h : Heap) :
    Class × Heap :=
  let (vs, h) := Constant.materializeEntries c.classAttributes h
  let (r, h) := h.alloc (.attributes (.ofList vs))
  (⟨⟨r, moduleName, c⟩, ancestors⟩, h)

/-- Link items in order. -/
def Program.linkItems (moduleName : String) :
    List Program.Item → Bindings → Heap → Except LinkError (Bindings × Heap)
  | [], b, h => .ok (b, h)
  | .moduleAttribute name value :: items, b, h =>
    if b.contains name then .error (.duplicateName name)
    else
      let (v, h) := value.materialize h
      linkItems moduleName items { b with attributes := b.attributes.insert name v } h
  | .classDef c :: items, b, h =>
    if b.contains c.name then .error (.duplicateName c.name)
    else
      match b.ancestors? c.base with
      | none => .error (.unknownBase c.name (c.base.getD ""))
      | some ancestors =>
        let (live, h) := Class.link moduleName ancestors c h
        linkItems moduleName items { b with classes := b.classes.insert c.name live } h

-- ==================================================== modules

/-- What a module holds. -/
structure ModuleState where
  file : String
  doc : String
  /-- the document that the module was made from -/
  document : Json
  program : Program
  attributes : Table Value
  classes : Table Class

/-- The state of a linked program. -/
def Program.link (p : Program) (document : Json) (h : Heap) :
    Except LinkError (ModuleState × Heap) := do
  let (b, h) ← linkItems p.name p.items {} h
  return ({
    file := p.file
    doc := p.doc
    document
    program := p
    attributes := b.attributes
    classes := b.classes }, h)

/-- A live module. -/
structure Module where
  name : String
  /-- 1 at first, one more with every replacement -/
  generation : Nat
  state : ModuleState

namespace Module

/-- A module with its first state. -/
def ofState (name : String) (state : ModuleState) : Module := ⟨name, 1, state⟩

/-- The module with a new state. -/
def replace (m : Module) (state : ModuleState) : Module :=
  { m with generation := m.generation + 1, state }

/-- What errors call a module. -/
def kindName (m : Module) : String := s!"module {m.name}"

/-- The value of a name: the module's own name, file and documentation,
then its attributes, then its classes. -/
def get (m : Module) (name : String) : Except CallError Value :=
  if name = "__name__" then .ok (.str m.name)
  else if name = "__file__" then .ok (.str m.state.file)
  else if name = "__doc__" then .ok (.str m.state.doc)
  else
    match m.state.attributes.find? name, m.state.classes.find? name with
    | some v, _ => .ok v
    | none, some c => .ok (.cls c)
    | none, none => .error (.noSuchAttribute m.kindName name)

/-- Bind a module attribute. -/
def set (m : Module) (name : String) (v : Value) : Module :=
  { m with state := { m.state with attributes := m.state.attributes.insert name v } }

/-- The class of a name. -/
def getClass (m : Module) (name : String) : Except CallError Class :=
  match m.state.classes.find? name with
  | some c => .ok c
  | none =>
    if m.state.attributes.contains name then .error (.notAClass name)
    else .error (.noSuchAttribute m.kindName name)

/-- A new instance of the class of a name. -/
def instantiate (m : Module) (name : String) (args : Arguments) (h : Heap) :
    Except CallError (Instance × Heap) := do
  let c ← m.getClass name
  c.instantiate args h

/-- The names of the classes in order. -/
def classNames (m : Module) : List String := m.state.classes.keys

/-- The names of the attributes in order. -/
def attributeNames (m : Module) : List String := m.state.attributes.keys

/-- The attributes with their declared values. -/
def declaredAttributes (m : Module) : Entries Constant := m.state.program.attributes

end Module

end LiveDoc
