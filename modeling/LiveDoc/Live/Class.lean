/-
What classes inherit.

Everything here is a walk along a lineage, the definitions of a class and
its ancestors from leaf to root: the nearest declaration of a property
decides, class attributes are found at the nearest holder, and templates
are passed down. Where a lineage defines a property twice in one class,
the later definition counts.
-/
import LiveDoc.Live.Value

namespace LiveDoc

namespace ClassNode

/-- The name of the class. -/
def name (n : ClassNode) : String := n.definition.name

/-- The property of a name that the class itself defines. -/
def property? (n : ClassNode) (attr : String) : Option Program.Property :=
  n.definition.properties.reverse.find? fun p => p.name = attr

/-- The parameters that the class itself defines. -/
def params (n : ClassNode) : List Program.Param := n.definition.params.getD []

end ClassNode

-- ==================================================== lineages

/-- Definitions of a class and its ancestors, leaf to root. -/
abbrev Lineage := List ClassNode

namespace Lineage

/-- The nearest definition of a property. -/
def property? (l : Lineage) (attr : String) : Option Program.Property :=
  l.findSome? fun n => n.property? attr

/-- Some class of the lineage has the name. -/
def hasName (l : Lineage) (name : String) : Bool :=
  l.any fun n => n.name = name

/-- The number of constructor parameters along the lineage. -/
def paramCount : Lineage → Nat
  | [] => 0
  | n :: l => n.params.length + paramCount l

/-- The class attribute of a name, at its nearest holder. -/
def attribute? (l : Lineage) (h : Heap) (attr : String) : Option Value :=
  l.findSome? fun n => (h.table n.table).find? attr

/-- The nearest template for the readable text. -/
def strTemplate? (l : Lineage) : Option Template :=
  l.findSome? fun n => n.definition.str

end Lineage

-- ==================================================== classes

namespace Class

/-- The name of a class. -/
def name (c : Class) : String := c.node.name

/-- The name of the module that a class was linked in. -/
def moduleName (c : Class) : String := c.node.moduleName

/-- The class and its ancestors, leaf to root. -/
def lineage (c : Class) : Lineage := c.node :: c.ancestors

/-- The class of a lineage. -/
def ofLineage? : Lineage → Option Class
  | [] => none
  | n :: l => some ⟨n, l⟩

/-- The parent, unless it is the generic base. -/
def parent? (c : Class) : Option Class := ofLineage? c.ancestors

/-- Two classes are the same object. -/
def same (c d : Class) : Bool := c.node.table == d.node.table

/-- Some class of the lineage defines the property. -/
def hasProperty (c : Class) (attr : String) : Bool :=
  (c.lineage.property? attr).isSome

/-- The nearest definition of the property is read only. -/
def isReadOnly (c : Class) (attr : String) : Bool :=
  (c.lineage.property? attr).any (·.readOnly)

/-- The class has the name, or an ancestor of it does. -/
def isSubclassOf (c : Class) (name : String) : Bool :=
  c.lineage.hasName name

/-- The number of constructor parameters, inherited ones included. -/
def paramCount (c : Class) : Nat := c.lineage.paramCount

/-- The class attributes that the class itself declares, with their
declared values. -/
def declaredClassAttributes (c : Class) : Entries Constant :=
  c.node.definition.classAttributes

/-- The instance attributes that the class itself declares, with their
declared defaults. -/
def declaredInstanceAttributes (c : Class) : Entries Constant :=
  c.node.params.map fun p => (p.name, p.default.constant)

/-- The template for the exact text: the nearest of a class that does not
inherit it, the root's if all do. -/
def reprTemplateFrom (n : ClassNode) : Lineage → Template
  | [] => n.definition.repr
  | m :: l => if n.definition.inheritsRepr then reprTemplateFrom m l else n.definition.repr

/-- The template for the exact text of instances. -/
def reprTemplate (c : Class) : Template := reprTemplateFrom c.node c.ancestors

/-- The template for the readable text of instances: the nearest one
given, or that for the exact text. -/
def strTemplate (c : Class) : Template := c.lineage.strTemplate?.getD c.reprTemplate

end Class

end LiveDoc
