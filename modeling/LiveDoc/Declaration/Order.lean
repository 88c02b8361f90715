/-
Parents before children.

Classes may be declared in any order. They are put in one where every
class follows its parent by repeated passes: a pass walks the classes
that still wait and places each one whose parent has been placed, in that
pass or before. A pass that places nothing shows a cycle, so the number
of waiting classes bounds the number of passes.
-/
import LiveDoc.Declaration.Class

namespace LiveDoc.ClassDecl

/-- A class whose parent is itself or no class of the document is
refused. -/
def checkParent (names : List String) (c : ClassDecl) : Except DocumentError Unit :=
  match c.base with
  | none => .ok ()
  | some parent =>
    if parent = c.name then .error (.inheritanceCycle c.name)
    else if parent ∉ names then .error (.unknownParent c.name parent)
    else .ok ()

/-- The class can be placed: it has no parent, or its parent has been. -/
def isReady (placed : List ClassDecl) (c : ClassDecl) : Bool :=
  match c.base with
  | none => true
  | some parent => placed.any fun p => p.name = parent

/-- One pass: the classes placed after it, and those that still wait. -/
def pass (placed : List ClassDecl) : List ClassDecl → List ClassDecl × List ClassDecl
  | [] => (placed, [])
  | c :: cs =>
    if isReady placed c then pass (placed ++ [c]) cs
    else ((pass placed cs).1, c :: (pass placed cs).2)

/-- Passes until all classes are placed or one pass places none. -/
def placeAll (placed waiting : List ClassDecl) : Except DocumentError (List ClassDecl) :=
  match pass placed waiting with
  | (placed', []) => .ok placed'
  | (placed', c :: cs) =>
    if (c :: cs).length < waiting.length then placeAll placed' (c :: cs)
    else .error (.inheritanceCycle c.name)
  termination_by waiting.length

/-- The classes in an order in which each follows its parent; classes
that a pass can place keep the order in which they were declared. -/
def parentsFirst (classes : List ClassDecl) : Except DocumentError (List ClassDecl) := do
  classes.forM (checkParent (classes.map name))
  placeAll [] classes

end LiveDoc.ClassDecl
