/-
Programs: what a declared module is turned into before it comes to life.

A program is a list of items, each an attribute or a class definition. A
class definition says how instances are made (`params`), how attributes
are checked on assignment (`properties`), and how instances are shown.
Programs may also be written by hand, so nothing here assumes that names
are distinct or that parents come first; linking decides that.
-/
import LiveDoc.Constraint.Check
import LiveDoc.Program.Constant
import LiveDoc.Template.Basic

namespace LiveDoc

/-- Where a parameter gets its value when none is passed. -/
inductive Program.Default
  /-- the constant itself -/
  | value (c : Constant)
  /-- a copy of the constant made for each call; null asks for it too -/
  | fresh (c : Constant)

/-- The constant behind a default. -/
def Program.Default.constant : Program.Default → Constant
  | .value c => c
  | .fresh c => c

/-- A parameter of a constructor. -/
structure Program.Param where
  name : String
  default : Program.Default

/-- An instance attribute as it is assigned to. -/
structure Program.Property where
  name : String
  readOnly : Bool
  checks : List Check

/-- A class definition. -/
structure Program.ClassDef where
  name : String
  /-- the parent; none means the generic base -/
  base : Option String
  doc : Option String
  classAttributes : Entries Constant
  /-- none means that the parent's constructor is inherited -/
  params : Option (List Program.Param)
  properties : List Program.Property
  repr : Template
  /-- show instances as the nearest ancestor's -/
  inheritsRepr : Bool
  str : Option Template

/-- An item of a program. -/
inductive Program.Item
  | moduleAttribute (name : String) (value : Constant)
  | classDef (c : Program.ClassDef)

/-- A program. -/
structure Program where
  name : String
  file : String
  doc : String
  items : List Program.Item

namespace Program

/-- The name of an item. -/
def Item.name : Item → String
  | .moduleAttribute name _ => name
  | .classDef c => c.name

/-- The class definitions in order. -/
def classes (p : Program) : List ClassDef :=
  p.items.filterMap fun
    | .moduleAttribute _ _ => none
    | .classDef c => some c

/-- The module attributes in order. -/
def attributes (p : Program) : Entries Constant :=
  p.items.filterMap fun
    | .moduleAttribute name value => some (name, value)
    | .classDef _ => none

end Program

end LiveDoc
