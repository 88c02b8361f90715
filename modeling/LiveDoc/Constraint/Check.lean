/-
Constraints as steps of a checker.

A checker runs its steps in order; a step refuses the value, accepts it
and ends the run, or passes it on. The first step of every checker runs
the checker of the nearest ancestor for the same attribute, so a class
can only narrow what its ancestors accept. Read-only has no step: it
concerns assignment, not the value.
-/
import LiveDoc.Constraint.Basic

namespace LiveDoc

/-- One step of a checker. -/
inductive Check
  /-- run the nearest ancestor's checker for the same attribute -/
  | delegateToBase
  /-- refuse null -/
  | rejectNull
  /-- accept null and stop -/
  | acceptNull
  /-- refuse what is not of the kind -/
  | requireKind (k : Kind)
  /-- accept lists and dicts and stop -/
  | skipCollections
  /-- refuse what is not a number in the range -/
  | inRange (r : Range)
  deriving DecidableEq

/-- The steps of one constraint. -/
def Constraint.checks : Constraint → List Check
  | .readOnly => []
  | .notNull => [.rejectNull]
  | .allowNull => [.acceptNull]
  | .kind k => [.requireKind k]
  | .range r => [.skipCollections, .inRange r]

/-- The steps of constraints beyond the ancestor's. -/
def Constraints.ownChecks (cs : Constraints) : List Check :=
  cs.flatMap Constraint.checks

/-- The steps of the checker for constraints. -/
def Constraints.checks (cs : Constraints) : List Check :=
  .delegateToBase :: cs.ownChecks

end LiveDoc
