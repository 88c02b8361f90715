/-
The program of a declared module.

Attributes come first, then the classes in their order. Every instance
attribute gives its class a constructor parameter and a property; a class
without instance attributes inherits its constructor. The result depends
on the declaration alone.
-/
import LiveDoc.Declaration.Module
import LiveDoc.Program.Basic

namespace LiveDoc

namespace Program

/-- The parameter of an instance attribute. -/
def Param.ofDecl (a : AttributeDecl) : Param :=
  let c := Constant.ofJson a.default
  { name := a.name
    default := if a.hasMutableDefault then .fresh c else .value c }

/-- The property of an instance attribute. -/
def Property.ofDecl (a : AttributeDecl) : Property :=
  { name := a.name, readOnly := a.constraints.isReadOnly, checks := a.constraints.checks }

/-- The definition of a declared class. -/
def ClassDef.ofDecl (c : ClassDecl) : ClassDef :=
  { name := c.name
    base := c.base
    doc := c.doc
    classAttributes := c.classAttributes.map fun a => (a.name, Constant.ofJson a.default)
    params :=
      if c.instanceAttributes.isEmpty then none
      else some (c.instanceAttributes.map Param.ofDecl)
    properties := c.instanceAttributes.map Property.ofDecl
    repr := c.repr
    inheritsRepr := c.inheritsRepr
    str := c.str }

/-- The program of a declared module. -/
def ofModule (m : ModuleDecl) : Program :=
  { name := m.name
    file := m.file
    doc := m.doc
    items :=
      m.attributes.map (fun a => .moduleAttribute a.name (Constant.ofJson a.default))
        ++ m.classes.map (fun c => .classDef (ClassDef.ofDecl c)) }

end Program

end LiveDoc
