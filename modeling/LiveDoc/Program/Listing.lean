/-
The listing of a program.

One line for each thing a program says, in its order: a head of three
lines, then every item under its number. What belongs to a class stands
under it, set off by a bar.
-/
import LiveDoc.Program.Basic

namespace LiveDoc.Program

open Quoted (quote)

/-- The line of a checker step. -/
def checkText : Check → String
  | .delegateToBase => "DelegateToBase"
  | .rejectNull => "RejectNone"
  | .acceptNull => "AcceptNone"
  | .requireKind k => "RequireKind " ++ k.name
  | .skipCollections => "SkipCollections"
  | .inRange (.between min max) => "Between " ++ min.text ++ " " ++ max.text
  | .inRange (.atLeast min) => "AtLeast " ++ min.text
  | .inRange (.atMost max) => "AtMost " ++ max.text

/-- The line of a parameter. -/
def Param.line (p : Param) : String :=
  match p.default with
  | .value c => s!"   |   Param {p.name} = {c.text}"
  | .fresh c => s!"   |   Param {p.name} = null -> fresh {c.text}"

/-- The lines of a constructor. -/
def constructorLines : Option (List Param) → List String
  | none => ["   | Init inherited"]
  | some params => ("   | Init " ++ Numeral.ofNat params.length) :: params.map Param.line

/-- The lines of a property. -/
def Property.lines (p : Property) : List String :=
  ("   | Property " ++ p.name ++ (if p.readOnly then " read_only" else ""))
    :: p.checks.map fun c => "   |   " ++ checkText c

/-- The lines under a class. -/
def ClassDef.lines (c : ClassDef) : List String :=
  (c.doc.map fun d => "   | Doc " ++ quote d).toList
    ++ c.classAttributes.map (fun e => "   | ClassAttribute " ++ e.1 ++ " = " ++ e.2.text)
    ++ constructorLines c.params
    ++ c.properties.flatMap Property.lines
    ++ [if c.inheritsRepr then "   | Repr inherited" else "   | Repr " ++ quote c.repr.source]
    ++ (c.str.map fun t => "   | Str " ++ quote t.source).toList

/-- The lines of the item with the given number. -/
def Item.lines (number : Nat) : Item → List String
  | .moduleAttribute name value =>
    [Numeral.padded 4 number ++ " Attribute " ++ name ++ " = " ++ value.text]
  | .classDef c =>
    (Numeral.padded 4 number ++ " Class " ++ c.name ++ " (" ++ c.base.getD "object" ++ ")")
      :: c.lines

/-- The lines of items, numbered from `start`. -/
def itemLines (start : Nat) : List Item → List String
  | [] => []
  | item :: items => item.lines start ++ itemLines (start + 1) items

/-- The lines of a program. -/
def lines (p : Program) : List String :=
  ["== module " ++ p.name ++ " ==", "file " ++ p.file, "doc  " ++ quote p.doc]
    ++ itemLines 0 p.items

/-- The listing of a program; every line is ended. -/
def listing (p : Program) : String :=
  String.join (p.lines.map (· ++ "\n"))

end LiveDoc.Program
