/-
All that putting parents first does.

What is returned, and when, is settled by the two lists of a run
(`ParentOrder.lean`). What is left concerns the order and the refusals.

A class waits for its parent and for nothing else. So a class without a
parent never waits, and the first pass places all of these in the order in
which they stand (`filter_extendsGeneric_pass`); and where parents come first
already no class waits at all, and one pass returns what it was given
(`pass_of_parentsPrecede`). What a run returns is in such an order, so
another run changes nothing.

A run that fails has one of two reasons. Either some class names a parent
that cannot be one, itself or no class (`ParentFault`): all classes are
asked before the first pass, so the first of these is reported. Or all
parents are other classes, and the passes get stuck at a cycle.
-/
import LiveDoc.Proofs.ParentOrder
import LiveDoc.Template.Reader

namespace LiveDoc

namespace ClassDecl

open Traversal

-- ==================================================== faults of one class

/-- What is wrong with the parent that a class names: it is the class
itself, or no class has the name. -/
inductive ParentFault (names : List String) (c : ClassDecl) : DocumentError → Prop
  | itself (named : c.base = some c.name) : ParentFault names c (.inheritanceCycle c.name)
  | unknown {parent : String} (named : c.base = some parent) (other : parent ≠ c.name)
      (missing : parent ∉ names) : ParentFault names c (.unknownParent c.name parent)

variable {names : List String} {c : ClassDecl}

theorem checkParent_eq_error {e : DocumentError} :
    checkParent names c = .error e ↔ ParentFault names c e := by
  constructor
  · intro h
    unfold checkParent at h
    split at h
    case h_1 => cases h
    case h_2 parent hbase =>
      split at h
      case isTrue hself =>
        cases h
        exact .itself (hself ▸ hbase)
      case isFalse hself =>
        split at h
        case isTrue hmissing =>
          cases h
          exact .unknown hbase hself hmissing
        case isFalse => cases h
  · intro h
    unfold checkParent
    cases h with
    | itself hbase =>
      rw [hbase]
      exact if_pos rfl
    | unknown hbase hself hmissing =>
      rw [hbase]
      exact (if_neg hself).trans (if_pos hmissing)

/-- A class whose parent passes has no fault. -/
theorem not_parentFault (h : checkParent names c = .ok ()) (e : DocumentError) :
    ¬ ParentFault names c e := by
  intro hfault
  rw [checkParent_eq_error.2 hfault] at h
  cases h

-- ==================================================== classes that do not wait

/-- The class has no parent but the generic base. -/
def extendsGeneric (c : ClassDecl) : Bool := c.base.isNone

/-- A pass places all classes without a parent, in their order. -/
theorem filter_extendsGeneric_pass (placed cs : List ClassDecl) :
    (pass placed cs).1.filter extendsGeneric = (placed ++ cs).filter extendsGeneric
      ∧ (pass placed cs).2.filter extendsGeneric = [] := by
  induction cs generalizing placed with
  | nil => exact ⟨by rw [pass, List.append_nil], rfl⟩
  | cons c cs ih =>
    rw [pass]
    split
    case isTrue =>
      have h := ih (placed ++ [c])
      rw [List.append_assoc] at h
      exact h
    case isFalse hwaits =>
      -- what waits has a parent
      have hbase : ¬ c.extendsGeneric = true := by
        intro hnone
        apply hwaits
        rw [isReady_iff, Option.isNone_iff_eq_none.1 hnone]
        intro parent hparent
        cases hparent
      obtain ⟨hplaced, hwaiting⟩ := ih placed
      rw [List.filter_append, List.filter_cons_of_neg hbase, List.filter_cons_of_neg hbase,
        ← List.filter_append]
      exact ⟨hplaced, hwaiting⟩

/-- Classes without a parent keep their order. -/
theorem filter_extendsGeneric_placeAll {placed waiting classes : List ClassDecl}
    (h : placeAll placed waiting = .ok classes) :
    classes.filter extendsGeneric = (placed ++ waiting).filter extendsGeneric := by
  induction placed, waiting using placeAll.induct with
  | case1 placed waiting placed' hpass =>
    rw [placeAll, hpass] at h
    cases h
    have hroots := (filter_extendsGeneric_pass placed waiting).1
    rw [hpass] at hroots
    exact hroots
  | case2 placed waiting placed' c cs hpass hlt ih =>
    rw [placeAll, hpass] at h
    simp only [if_pos hlt] at h
    obtain ⟨hplaced, hwaiting⟩ := filter_extendsGeneric_pass placed waiting
    rw [hpass] at hplaced hwaiting
    rw [ih h, List.filter_append, hwaiting, List.append_nil]
    exact hplaced
  | case3 placed waiting placed' c cs hpass hle =>
    rw [placeAll, hpass] at h
    simp only [if_neg hle] at h
    cases h

/-- Where parents come first, one pass places everything as it stands. -/
theorem pass_of_parentsPrecede {placed cs : List ClassDecl} (h : ParentsPrecede (placed ++ cs)) :
    pass placed cs = (placed ++ cs, []) := by
  induction cs generalizing placed with
  | nil => rw [pass, List.append_nil]
  | cons c cs ih =>
    have hready : isReady placed c = true := isReady_iff.2 (h placed c cs rfl)
    have hsnoc : placed ++ c :: cs = placed ++ [c] ++ cs := by simp
    rw [pass, if_pos hready, hsnoc]
    exact ih (hsnoc ▸ h)

/-- Where parents come first already, nothing is moved. -/
theorem parentsFirst_eq_self_iff {cs : List ClassDecl} (hcs : (cs.map name).Nodup) :
    parentsFirst cs = .ok cs ↔ ParentsPrecede cs := by
  constructor
  · intro h
    exact (parentsFirst_ok h).2
  · intro h
    have hpass : pass [] cs = (cs, []) := pass_of_parentsPrecede h
    have hplaced : placeAll [] cs = .ok cs := by
      rw [placeAll, hpass]
    unfold parentsFirst
    rw [forM_checkParent h.parentsKnown (h.acyclic hcs), ok_bind, hplaced]

-- ==================================================== the whole account

/-- Classes with distinct names are put in order exactly when every parent
is a class and no class is its own ancestor. What is returned are the same
classes, each behind its parent; those without a parent keep their order,
and an order that is good already is left alone, so that doing it again
changes nothing. Otherwise the first class whose parent is itself or no
class is reported with that fault, and a cycle if there is no such class. -/
theorem parentsFirst_account {cs : List ClassDecl} (hcs : (cs.map name).Nodup) :
    ((∃ classes, parentsFirst cs = .ok classes) ↔ ParentsKnown cs ∧ Acyclic cs)
      ∧ (∀ classes, parentsFirst cs = .ok classes →
          classes.Perm cs ∧ ParentsPrecede classes
            ∧ classes.filter extendsGeneric = cs.filter extendsGeneric
            ∧ parentsFirst classes = .ok classes)
      ∧ (parentsFirst cs = .ok cs ↔ ParentsPrecede cs)
      ∧ ∀ e, parentsFirst cs = .error e →
          (∃ before c after, cs = before ++ c :: after
            ∧ (∀ d ∈ before, ∀ e', ¬ ParentFault (cs.map name) d e')
            ∧ ParentFault (cs.map name) c e)
          ∨ ((∀ d ∈ cs, ∀ e', ¬ ParentFault (cs.map name) d e')
            ∧ ∃ c ∈ cs, e = .inheritanceCycle c.name) := by
  refine ⟨exists_parentsFirst_iff hcs, fun classes h => ?_, parentsFirst_eq_self_iff hcs,
    fun e h => ?_⟩
  · obtain ⟨hperm, horder⟩ := parentsFirst_ok h
    have hnames : (classes.map name).Nodup := (hperm.map name).nodup_iff.2 hcs
    obtain ⟨-, -, hplaced⟩ := bind_eq_ok.1 h
    exact ⟨hperm, horder, filter_extendsGeneric_placeAll hplaced,
      (parentsFirst_eq_self_iff hnames).2 horder⟩
  · unfold parentsFirst at h
    cases hcheck : cs.forM (checkParent (cs.map name)) with
    | error e' =>
      rw [hcheck, error_bind] at h
      cases h
      obtain ⟨before, c, after, hsplit, hbefore, hc⟩ := forM_eq_error.1 hcheck
      exact .inl ⟨before, c, after, hsplit, fun d hd => not_parentFault (hbefore d hd),
        checkParent_eq_error.1 hc⟩
    | ok u =>
      rw [hcheck, ok_bind] at h
      obtain ⟨placed, c, stuck, hperm, -, he⟩ := placeAll_error h
      have hc : c ∈ cs := hperm.subset (List.mem_append_right _ List.mem_cons_self)
      exact .inr ⟨fun d hd => not_parentFault (forM_eq_ok.1 hcheck d hd), c, hc, he⟩

end ClassDecl

-- ==================================================== four classes

namespace Sample

/-- A class that declares nothing but its parent. -/
def bare (name : String) (base : Option String) : ClassDecl :=
  { name, base, doc := none, classAttributes := [], instanceAttributes := []
    repr := .ofNames [], inheritsRepr := true, str := none }

/-- Three classes in a line, the last one first, and one beside them. -/
def backwards : List ClassDecl :=
  [bare "C" (some "B"), bare "B" (some "A"), bare "A" none, bare "Other" none]

end Sample

/-- The line is turned round, in as many passes as it has classes. -/
theorem ClassDecl.backwards_account :
    ∃ classes, parentsFirst Sample.backwards = .ok classes
      ∧ classes.map name = ["A", "Other", "B", "C"]
      ∧ classes.Perm Sample.backwards ∧ ParentsPrecede classes
      ∧ parentsFirst classes = .ok classes := by
  have hcomputed : (parentsFirst Sample.backwards).toOption.map (List.map name)
      = some ["A", "Other", "B", "C"] := by decide +kernel
  have hnames : (Sample.backwards.map name).Nodup := by decide
  obtain ⟨-, hordered, -, -⟩ := parentsFirst_account hnames
  cases hrun : parentsFirst Sample.backwards with
  | error e =>
    rw [hrun] at hcomputed
    cases hcomputed
  | ok classes =>
    rw [hrun] at hcomputed
    obtain ⟨hperm, hprecede, -, hagain⟩ := hordered classes hrun
    exact ⟨classes, rfl, Option.some.inj hcomputed, hperm, hprecede, hagain⟩

end LiveDoc
