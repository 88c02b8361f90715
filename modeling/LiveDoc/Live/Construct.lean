/-
Making instances.

A class takes the positional arguments for its own parameters first, then
the keyword arguments that name one of them, and hands the rest to its
parent, leaf to root; what is left at the root is one too many. Fields
are assigned on the way back, root to leaf, each value checked by the
class whose parameter it is, so a class that declares an attribute again
overwrites its ancestor's value.

A default stands in for an argument that is absent. A list or dict
default stands in for null as well, and is copied for every instance.
-/
import LiveDoc.Live.Check

namespace LiveDoc

/-- The arguments of a call. -/
structure Arguments where
  positional : List Value := []
  keyword : Table Value := ∅

-- ==================================================== binding

/-- A parameter with the argument bound to it, if any. -/
structure Slot where
  param : Program.Param
  argument : Option Value

namespace Slot

/-- Parameters with positional arguments bound from the first on. -/
def ofPositional : List Program.Param → List Value → List Slot
  | [], _ => []
  | p :: ps, [] => ⟨p, none⟩ :: ofPositional ps []
  | p :: ps, v :: vs => ⟨p, some v⟩ :: ofPositional ps vs

/-- Bind an argument to the first slot of a name. -/
def fill (name : String) (v : Value) : List Slot → List Slot
  | [] => []
  | s :: ss =>
    if s.param.name = name then ⟨s.param, some v⟩ :: ss else s :: fill name v ss

/-- Bind keyword arguments in order: the slots afterwards, and the
arguments that name no slot. -/
def bindKeywords (className : String) :
    List Slot → Entries Value → Except CallError (List Slot × Entries Value)
  | slots, [] => .ok (slots, [])
  | slots, (name, v) :: rest =>
    match slots.find? fun s => s.param.name = name with
    | none =>
      match bindKeywords className slots rest with
      | .error e => .error e
      | .ok (slots, unbound) => .ok (slots, (name, v) :: unbound)
    | some ⟨_, some _⟩ => .error (.duplicateArgument className name)
    | some ⟨_, none⟩ => bindKeywords className (fill name v slots) rest

/-- The value of a slot: its argument, or its default. -/
def value (s : Slot) (h : Heap) : Value × Heap :=
  match s.param.default, s.argument with
  | .fresh c, none => c.materialize h
  | .fresh c, some .null => c.materialize h
  | .value c, none => c.materialize h
  | _, some v => (v, h)

/-- Assign slots to fields in order, each through the checker of the
lineage. -/
def assign (l : Lineage) : List Slot → Table Value → Heap → Except CallError (Table Value × Heap)
  | [], fields, h => .ok (fields, h)
  | s :: ss, fields, h =>
    match l.validate s.param.name (s.value h).1 with
    | .error e => .error (.invalid e)
    | .ok () => assign l ss (fields.insert s.param.name (s.value h).1) (s.value h).2

end Slot

-- ==================================================== construction

namespace Class

/-- Refuse what no class of a lineage has taken, keywords first. -/
def refuseLeftovers (leaf : Class) : List Value → Entries Value → Except CallError Unit
  | _, (name, _) :: _ => .error (.unexpectedArgument leaf.name name)
  | [], [] => .ok ()
  | v :: vs, [] =>
    .error (.tooManyArguments leaf.name leaf.paramCount (leaf.paramCount + (v :: vs).length))

/-- The fields that a lineage gives to an instance of `leaf`. -/
def constructFields (leaf : Class) :
    Lineage → List Value → Entries Value → Heap → Except CallError (Table Value × Heap)
  | [], positional, keyword, h => do
    refuseLeftovers leaf positional keyword
    return (∅, h)
  | n :: l, positional, keyword, h =>
    match n.definition.params with
    | none => constructFields leaf l positional keyword h
    | some params => do
      let (slots, unbound) ←
        Slot.bindKeywords leaf.name (Slot.ofPositional params positional) keyword
      let (fields, h) ← constructFields leaf l (positional.drop params.length) unbound h
      Slot.assign (n :: l) slots fields h

/-- A new instance of a class. -/
def instantiate (c : Class) (args : Arguments) (h : Heap) : Except CallError (Instance × Heap) := do
  let (fields, h) ← constructFields c c.lineage args.positional args.keyword.entries h
  let (r, h) := h.alloc (.fields fields)
  return (⟨c, r⟩, h)

end Class

/-- Call a value; only classes can be called. -/
def Value.call (v : Value) (args : Arguments) (h : Heap) : Except CallError (Value × Heap) :=
  match v with
  | .cls c => do
    let (i, h) ← c.instantiate args h
    return (.inst i, h)
  | v => .error (.notAClass v.kindName)

end LiveDoc
