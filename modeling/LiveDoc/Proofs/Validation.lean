/-
Checkers along a lineage.

A checker delegates to the next one up before its own steps, and steps
may end a checker early, with a refusal or with an acceptance. What the
whole of it amounts to is a conjunction: every class that declares the
attribute gives a verdict by its own steps alone, and a value passes when
all verdicts are favourable. The verdicts are asked for root to leaf, so
the refusal that is reported is the first from the root
(`Lineage.validate_eq_forM`).

Two facts carry the proof. Own steps never delegate, so a verdict does
not depend on what the ancestors say (`Check.run_of_notMem`); and the
step that does delegate comes first, so no early end of a checker can
skip it (`ClassNode.DeclaredBy.checks_eq`). The induction is on the
lineage; a class that does not declare the attribute is passed over.
-/
import LiveDoc.Live.Check
import LiveDoc.Proofs.Linking

namespace LiveDoc

open Traversal

-- ==================================================== steps

namespace Check

variable {attr : String} {v : Value}

/-- A checker that delegates first runs its other steps on what the
ancestors pass. -/
theorem run_delegateToBase (base : Except ValidationError Unit) (cs : List Check) :
    run attr v base (.delegateToBase :: cs) = (base >>= fun _ => run attr v base cs) := by
  cases base <;> rfl

/-- Steps that do not delegate never ask what the ancestors say. -/
theorem run_of_notMem (base base' : Except ValidationError Unit) {cs : List Check}
    (h : .delegateToBase ∉ cs) : run attr v base cs = run attr v base' cs := by
  induction cs with
  | nil => rfl
  | cons c cs ih =>
    obtain ⟨hc, hcs⟩ := not_or.1 (mt List.mem_cons.2 h)
    have hrest := ih hcs
    cases c with
    | delegateToBase => exact absurd rfl hc
    | rejectNull => rw [run, run, hrest]
    | acceptNull => rw [run, run, hrest]
    | requireKind k => rw [run, run, hrest]
    | skipCollections => rw [run, run, hrest]
    | inRange r => rw [run, run, hrest]

end Check

/-- Constraints have no step that delegates. -/
theorem Constraints.delegateToBase_notMem_ownChecks (cs : Constraints) :
    .delegateToBase ∉ cs.ownChecks := by
  intro h
  obtain ⟨c, -, hc⟩ := List.mem_flatMap.1 h
  cases c <;> simp [Constraint.checks] at hc

-- ==================================================== what checkers see

/-- Checkers see no difference between the values. -/
structure Value.CheckedAlike (v w : Value) : Prop where
  null : v.isNull = w.isNull
  collection : v.isCollection = w.isCollection
  kindName : v.kindName = w.kindName
  number : v.number? = w.number?
  accepted (k : Kind) : k.accepts v = k.accepts w
  excluded (r : Range) : r.excludes v = r.excludes w

theorem Value.CheckedAlike.run_eq {v w : Value} (h : v.CheckedAlike w) (attr : String)
    (base : Except ValidationError Unit) (cs : List Check) :
    Check.run attr v base cs = Check.run attr w base cs := by
  induction cs with
  | nil => rfl
  | cons c cs ih =>
    cases c with
    | delegateToBase => rw [Check.run_delegateToBase, Check.run_delegateToBase, ih]
    | rejectNull => rw [Check.run, Check.run, h.null, ih]
    | acceptNull => rw [Check.run, Check.run, h.null, ih]
    | requireKind k => rw [Check.run, Check.run, h.accepted, h.kindName, ih]
    | skipCollections => rw [Check.run, Check.run, h.collection, ih]
    | inRange r => rw [Check.run, Check.run, h.number, h.kindName, h.excluded, ih]

/-- Lineages with the same definitions say the same of both. -/
theorem Value.CheckedAlike.validate_eq {v w : Value} (h : v.CheckedAlike w) {l l' : Lineage}
    (hl : l'.map ClassNode.definition = l.map ClassNode.definition) (attr : String) :
    l.validate attr v = l'.validate attr w := by
  induction l generalizing l' with
  | nil =>
    cases List.map_eq_nil_iff.1 hl
    rfl
  | cons n l ih =>
    obtain ⟨n', l', rfl, hn, hl'⟩ := List.map_eq_cons_iff.1 hl
    have hproperty : n'.property? attr = n.property? attr := by
      unfold ClassNode.property?
      rw [hn]
    rw [Lineage.validate, Lineage.validate, hproperty, ih hl']
    cases n.property? attr with
    | none => rfl
    | some p => exact h.run_eq attr _ p.checks

-- ==================================================== verdicts

namespace ClassNode

/-- The steps of a class's own checker beyond the one that delegates. -/
def ownChecks (n : ClassNode) (attr : String) : List Check :=
  match n.property? attr with
  | none => []
  | some p => p.checks.tail

/-- What the class's own steps say of a value. -/
def verdict (n : ClassNode) (attr : String) (v : Value) : Except ValidationError Unit :=
  Check.run attr v (.ok ()) (n.ownChecks attr)

variable {n : ClassNode} {d : ClassDecl} {attr : String}

/-- The own steps for a declared attribute are those of its constraints. -/
theorem DeclaredBy.ownChecks_eq (h : n.DeclaredBy d) {a : AttributeDecl}
    (ha : a ∈ d.instanceAttributes) : n.ownChecks a.name = a.constraints.ownChecks := by
  have hproperty : n.property? a.name = some (.ofDecl a) :=
    h.property?_eq_some_iff.2 ⟨a, ha, rfl, rfl⟩
  unfold ownChecks
  rw [hproperty]
  rfl

/-- The checker of a declared attribute: it delegates first and never
again. -/
theorem DeclaredBy.checks_eq (h : n.DeclaredBy d) (hattr : n.declares attr = true) :
    ∃ p, n.property? attr = some p ∧ p.checks = .delegateToBase :: n.ownChecks attr
      ∧ .delegateToBase ∉ n.ownChecks attr := by
  cases hp : n.property? attr with
  | none =>
    rw [h.property?_eq_none_iff.1 hp] at hattr
    cases hattr
  | some p =>
    obtain ⟨a, ha, rfl, rfl⟩ := h.property?_eq_some_iff.1 hp
    rw [h.ownChecks_eq ha]
    exact ⟨_, rfl, rfl, a.constraints.delegateToBase_notMem_ownChecks⟩

end ClassNode

-- ==================================================== lineages

namespace Lineage

/-- The classes of a lineage that declare an attribute, root to leaf. -/
def declarers (l : Lineage) (attr : String) : List ClassNode :=
  (l.filter fun n => n.declares attr).reverse

theorem declarers_cons_of_declares {n : ClassNode} {l : Lineage} {attr : String}
    (h : n.declares attr = true) : declarers (n :: l) attr = l.declarers attr ++ [n] := by
  unfold declarers
  rw [List.filter_cons, if_pos h, List.reverse_cons]

theorem declarers_cons_of_not {n : ClassNode} {l : Lineage} {attr : String}
    (h : n.declares attr = false) : declarers (n :: l) attr = l.declarers attr := by
  unfold declarers
  rw [List.filter_cons, if_neg (by simp [h])]

variable {n : ClassNode} {d : ClassDecl} {l : Lineage} {attr : String} {v : Value}

/-- A class that does not declare the attribute leaves the value to its
ancestors. -/
theorem validate_cons_of_not (h : n.DeclaredBy d) (hattr : n.declares attr = false) :
    validate attr v (n :: l) = l.validate attr v := by
  rw [validate, h.property?_eq_none_iff.2 hattr]

/-- A class that declares it adds its own verdict to the ancestors'. -/
theorem validate_cons_of_declares (h : n.DeclaredBy d) (hattr : n.declares attr = true) :
    validate attr v (n :: l) = (l.validate attr v >>= fun _ => n.verdict attr v) := by
  obtain ⟨p, hp, hchecks, hown⟩ := h.checks_eq hattr
  rw [validate, hp]
  show Check.run attr v (l.validate attr v) p.checks = _
  rw [hchecks, Check.run_delegateToBase, Check.run_of_notMem (l.validate attr v) (.ok ()) hown]
  rfl

/-- Checking a value is asking all declarers, root to leaf. -/
theorem validate_eq_forM (hl : l.Declared) :
    l.validate attr v = (l.declarers attr).forM fun n => n.verdict attr v := by
  induction l with
  | nil => rfl
  | cons n l ih =>
    obtain ⟨⟨d, hn⟩, hl⟩ := hl.of_cons
    cases hattr : n.declares attr with
    | false => rw [validate_cons_of_not hn hattr, declarers_cons_of_not hattr, ih hl]
    | true =>
      rw [validate_cons_of_declares hn hattr, declarers_cons_of_declares hattr, forM_append, ih hl]
      have hlast : [n].forM (fun n => n.verdict attr v) = n.verdict attr v := by
        show (n.verdict attr v >>= fun _ => .ok ()) = n.verdict attr v
        cases n.verdict attr v <;> rfl
      rw [hlast]

end Lineage

/-- The checker of a class that is linked from a document is the
conjunction of its declarers' own checkers, asked root to leaf. -/
theorem Class.validate_iff_verdicts {document : Json} {m : ModuleDecl} {c : Class}
    (hc : c.LinkedFrom document m) (attr : String) (v : Value) :
    (c.validate attr v = .ok () ↔ ∀ n ∈ c.lineage.declarers attr, n.verdict attr v = .ok ())
      ∧ (∀ e, c.validate attr v = .error e
          ↔ ∃ before n after, c.lineage.declarers attr = before ++ n :: after
            ∧ (∀ n' ∈ before, n'.verdict attr v = .ok ()) ∧ n.verdict attr v = .error e)
      ∧ ∀ n ∈ c.lineage, ∃ d ∈ m.classes, n.definition = .ofDecl d
          ∧ (n.declares attr = true ↔ attr ∈ d.instanceAttributes.map AttributeDecl.name)
          ∧ (n.declares attr = true → ∃ p, n.property? attr = some p
              ∧ p.checks = .delegateToBase :: n.ownChecks attr
              ∧ .delegateToBase ∉ n.ownChecks attr) := by
  have hl : c.lineage.Declared := hc.lineage_declared
  have hforM : c.validate attr v = (c.lineage.declarers attr).forM fun n => n.verdict attr v :=
    Lineage.validate_eq_forM hl
  refine ⟨?_, ?_, ?_⟩
  · rw [hforM, forM_eq_ok]
  · intro e
    rw [hforM, forM_eq_error]
  · intro n hn
    obtain ⟨d, hd, hnd⟩ := hc.exists_declaredBy n hn
    refine ⟨d, hd, hnd.definition, ?_, hnd.checks_eq⟩
    rw [ClassNode.declares_iff, hnd.paramNames]

/-- A level that the last of three classes refuses. -/
theorem Class.validate_gauge_level :
    ∃ (m : ModuleDecl) (c : Class), c.LinkedFrom Sample.document m
      ∧ ∃ before n after, c.lineage.declarers "level" = before ++ n :: after
        ∧ (∀ n' ∈ before, n'.verdict "level" (.int 70) = .ok ())
        ∧ n.verdict "level" (.int 70) = .error (.outOfRange "level" (.atMost (.int 50))) := by
  obtain ⟨m, c, hc, hrefused⟩ := Sample.exists_linkedFrom_of_any "Gauge"
    (fun c => c.validate "level" (.int 70) = .error (.outOfRange "level" (.atMost (.int 50))))
    (by decide +kernel)
  have hverdicts := Class.validate_iff_verdicts hc "level" (.int 70)
  exact ⟨m, c, hc, (hverdicts.2.1 _).1 (of_decide_eq_true hrefused)⟩

end LiveDoc
