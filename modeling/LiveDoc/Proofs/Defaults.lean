/-
Making instances without arguments.

Without arguments construction assigns every default that is declared along
the lineage, root to leaf, and each is checked by the class that declares it
(`Lineage.mem_assignments_nil`). A default that a subclass overrides is no
exception: it is assigned before the one that overrides it. So a class can
be instantiated without arguments exactly when each class that it derives
from accepts the defaults that it declares itself
(`Class.instantiate_defaults_iff`).

To look at the nearest declaration of each attribute is not enough. For its
default the checker of the declaring class is that of the leaf
(`Class.exists_declarer?`), and if all of these pass an overridden default may
still be refused (`Class.overridden_default_refused`).
-/
import LiveDoc.Proofs.Evolution
import LiveDoc.Proofs.Keywords
import LiveDoc.Proofs.NominalKinds
import Mathlib.Data.List.TakeWhile

namespace LiveDoc

open Traversal

-- ==================================================== defaults along a lineage

/-- Without arguments every class of the lineage assigns the defaults that
it declares. -/
theorem Lineage.mem_assignments_nil {l : Lineage} (hl : l.Declared) {a : Assignment} :
    a ∈ l.assignments [] []
      ↔ ∃ k : Class, k.lineage <:+ l ∧ ∃ p ∈ k.node.params, a = ⟨k.lineage, p, none⟩ := by
  induction l with
  | nil =>
    constructor
    · intro ha
      cases ha
    · rintro ⟨k, hk, -⟩
      cases List.suffix_nil.1 hk
  | cons n l ih =>
    obtain ⟨⟨d, hn⟩, hl⟩ := hl.of_cons
    rw [assignments_given_cons hn, List.drop_nil, List.zip_nil_right, List.mem_append,
      List.mem_map]
    constructor
    · rintro (ha | ⟨p, hp, rfl⟩)
      · obtain ⟨k, hk, hown⟩ := (ih hl).1 ha
        exact ⟨k, List.suffix_cons_iff.2 (.inr hk), hown⟩
      · exact ⟨⟨n, l⟩, List.suffix_refl _, p, hp, rfl⟩
    · rintro ⟨⟨node, ancestors⟩, hk, p, hp, rfl⟩
      rcases List.suffix_cons_iff.1 hk with heq | hk
      · cases heq
        exact .inr ⟨p, hp, rfl⟩
      · exact .inl ((ih hl).2 ⟨⟨node, ancestors⟩, hk, p, hp, rfl⟩)

/-- The classes before the nearest that declares an attribute have no say in
it. -/
theorem Lineage.validate_dropWhile {l : Lineage} (hl : l.Declared) (attr : String) (v : Value) :
    validate attr v (l.dropWhile fun n => !n.declares attr) = l.validate attr v := by
  induction l with
  | nil => rfl
  | cons n l ih =>
    obtain ⟨⟨d, hn⟩, hl⟩ := hl.of_cons
    rw [List.dropWhile_cons]
    cases hdeclares : n.declares attr with
    | true => rfl
    | false => exact (ih hl).trans (validate_cons_of_not hn hdeclares).symm

namespace Class

/-- The class accepts every default that it declares itself. -/
def AcceptsDefaults (k : Class) : Prop :=
  ∀ e ∈ k.declaredInstanceAttributes, ∀ h, k.validate e.1 (e.2.materialize h).1 = .ok ()

/-- The nearest class that declares the attribute itself. -/
def declarer? (c : Class) (attr : String) : Option Class :=
  ofLineage? (c.lineage.dropWhile fun n => !n.declares attr)

variable {c k : Class}

theorem acceptsDefaults_iff :
    k.AcceptsDefaults ↔ ∀ p ∈ k.node.params, Assignment.Accepted ⟨k.lineage, p, none⟩ := by
  unfold AcceptsDefaults declaredInstanceAttributes
  rw [List.forall_mem_map]
  rfl

theorem eq_lineage_of_ofLineage? {l : Lineage} (hk : ofLineage? l = some k) : l = k.lineage := by
  cases l with
  | nil => cases hk
  | cons n l =>
    cases hk
    rfl

/-- Of every attribute that the class has there is a nearest declaration. The
class that makes it is one that the class derives from, and has the checker
that the class has. -/
theorem exists_declarer? (hl : c.lineage.Declared) {attr : String}
    (hattr : c.hasProperty attr = true) :
    ∃ k default, c.declarer? attr = some k ∧ c.DerivesFrom k
      ∧ (attr, default) ∈ k.declaredInstanceAttributes
      ∧ ∀ v, c.validate attr v = k.validate attr v := by
  have hsuffix := List.dropWhile_suffix (l := c.lineage) fun n => !n.declares attr
  have hvalid := Lineage.validate_dropWhile hl attr
  have hhead := List.head?_dropWhile_not (fun n : ClassNode => !n.declares attr) c.lineage
  unfold declarer? validate
  cases hdrop : c.lineage.dropWhile fun n => !n.declares attr with
  | nil =>
    obtain ⟨n, hn, hdeclares⟩ := (Lineage.isSome_property?_iff hl).1 hattr
    have hnone := List.dropWhile_eq_nil_iff.1 hdrop n hn
    rw [hdeclares] at hnone
    cases hnone
  | cons n l =>
    rw [hdrop] at hsuffix hvalid hhead
    have hdeclares : n.declares attr = true := by simpa using hhead
    obtain ⟨p, hp, rfl⟩ := List.mem_map.1 (ClassNode.declares_iff.1 hdeclares)
    exact ⟨⟨n, l⟩, p.default.constant, rfl, hsuffix, List.mem_map_of_mem hp,
      fun v => (hvalid v).symm⟩

-- ==================================================== instances without arguments

/-- A class can be instantiated without arguments exactly when every class
that it derives from, itself included, accepts the defaults that it declares.
Otherwise the call ends with what such a class says of a default of its own.
Every attribute has a nearest declaration, and for that one the checker of
the declaring class is that of the class itself. -/
theorem instantiate_defaults_iff {document : Json} {m : ModuleDecl}
    (hc : c.LinkedFrom document m) (h : Heap) :
    ((∃ r, c.instantiate {} h = .ok r) ↔ ∀ k, c.DerivesFrom k → k.AcceptsDefaults)
      ∧ (∀ e, c.instantiate {} h = .error e →
          ∃ k, c.DerivesFrom k ∧ ∃ a ∈ k.declaredInstanceAttributes, ∃ fault,
            e = .invalid fault ∧ ∀ h', k.validate a.1 (a.2.materialize h').1 = .error fault)
      ∧ ∀ attr, c.hasProperty attr = true →
          ∃ k default, c.declarer? attr = some k ∧ c.DerivesFrom k
            ∧ (attr, default) ∈ k.declaredInstanceAttributes
            ∧ ∀ v, c.validate attr v = k.validate attr v := by
  have hl := hc.lineage_declared
  refine ⟨?_, ?_, ?_⟩
  · -- every parameter of every class of the line is assigned its default
    have hmade : (∃ r, c.instantiate {} h = .ok r)
        ↔ ∀ a ∈ c.lineage.assignments [] [], a.Accepted := by
      rw [instantiate_nothing hl, exists_bind_eq_ok]
      simp only [Except.ok.injEq, exists_eq', and_true]
      exact Assignment.exists_makeAll_iff _ ∅ h
    rw [hmade]
    simp only [Lineage.mem_assignments_nil hl, acceptsDefaults_iff]
    constructor
    · intro hall k hk p hp
      exact hall _ ⟨k, hk, p, hp, rfl⟩
    · rintro hall a ⟨k, hk, p, hp, rfl⟩
      exact hall k hk p hp
  · intro e he
    have hmake : Assignment.makeAll (c.lineage.assignments [] []) ∅ h = .error e := by
      rw [instantiate_nothing hl] at he
      cases hresult : Assignment.makeAll (c.lineage.assignments [] []) ∅ h with
      | ok r =>
        rw [hresult] at he
        cases he
      | error e' =>
        rw [hresult] at he
        cases he
        rfl
    obtain ⟨a, ha, fault, rfl, hrefused⟩ := Assignment.exists_refused_of_makeAll hmake
    obtain ⟨k, hk, p, hp, rfl⟩ := (Lineage.mem_assignments_nil hl).1 ha
    exact ⟨k, hk, _, List.mem_map_of_mem hp, fault, rfl, hrefused⟩
  · exact fun attr hattr => exists_declarer? hl hattr

end Class

namespace Sample

/-- A default that its own class refuses, and one in its place that passes. -/
def overriding : Json :=
  .object [
    ("B", .object [
      ("__constraints__", .object [("a", .object [("max", .number (.int 0))])]),
      ("a", .number (.int 5))]),
    ("C", .object [("__parent__", .str "B"), ("a", .number (.int 0))])]

theorem distinctKeys_overriding : overriding.DistinctKeys := by
  simp [overriding, Json.DistinctKeys, Json.DistinctKeysFields, Entries.keys]

/-- The default that the nearest class declares for an attribute. -/
def nearestDefault? (c : Class) (attr : String) : Option Constant :=
  (c.declarer? attr).bind fun k => k.declaredInstanceAttributes.find? attr

/-- What the checkers say of a call without arguments, if they refuse. -/
def refusedDefault? (c : Class) (h : Heap) : Option ValidationError :=
  match c.instantiate {} h with
  | .error (.invalid fault) => some fault
  | _ => none

end Sample

/-- An attribute is declared at both ends of a lineage, and both defaults are
accepted where they are declared. -/
theorem Class.gauge_accepts_defaults :
    ∃ (m : ModuleDecl) (c k : Class), c.LinkedFrom Sample.document m ∧ c.DerivesFrom k
      ∧ "level" ∈ c.declaredInstanceAttributes.keys ∧ "level" ∈ k.declaredInstanceAttributes.keys
      ∧ k.name = "Device" ∧ (∃ r, c.instantiate {} .empty = .ok r) ∧ k.AcceptsDefaults := by
  obtain ⟨m, c, hc, hq⟩ := Sample.exists_linkedFrom_of_any "Gauge"
    (fun c => "level" ∈ c.declaredInstanceAttributes.keys ∧ (c.instantiate {} .empty).isOk
      ∧ (ofLineage? (c.lineage.drop 2)).any fun k =>
          "level" ∈ k.declaredInstanceAttributes.keys ∧ k.name = "Device")
    (by decide +kernel)
  obtain ⟨hagain, hok, hroot⟩ := of_decide_eq_true hq
  obtain ⟨k, hk, hroot⟩ := (Option.any_eq_true _ _).1 hroot
  obtain ⟨hfirst, hname⟩ := of_decide_eq_true hroot
  have hderives : c.DerivesFrom k := by
    unfold DerivesFrom
    rw [← eq_lineage_of_ofLineage? hk]
    exact List.drop_suffix 2 c.lineage
  have hmade : ∃ r, c.instantiate {} .empty = .ok r := by
    cases hresult : c.instantiate {} .empty with
    | ok r => exact ⟨r, rfl⟩
    | error e =>
      rw [hresult] at hok
      cases hok
  exact ⟨m, c, k, hc, hderives, hagain, hfirst, hname, hmade,
    (instantiate_defaults_iff hc .empty).1.1 hmade k hderives⟩

/-- The default of an overridden declaration is refused, though for every
attribute the class accepts the default of the nearest one. -/
theorem Class.overridden_default_refused :
    ∃ (m : ModuleDecl) (c : Class), c.LinkedFrom Sample.overriding m ∧ c.name = "C"
      ∧ (∀ attr, c.hasProperty attr = true →
          ∃ k default, c.declarer? attr = some k ∧ (attr, default) ∈ k.declaredInstanceAttributes
            ∧ ∀ h, c.validate attr (default.materialize h).1 = .ok ())
      ∧ c.instantiate {} .empty = .error (.invalid (.outOfRange "a" (.atMost (.int 0)))) := by
  obtain ⟨m, c, h, hc, -, hq⟩ := Sample.exists_liveIn_of_any Sample.distinctKeys_overriding "C"
    (fun p => p.1.name = "C" ∧ p.1.lineage.paramNames = ["a", "a"]
      ∧ (Sample.nearestDefault? p.1 "a").any
          (fun d => p.1.validate "a" (d.materialize .empty).1 = .ok ())
      ∧ Sample.refusedDefault? p.1 .empty = some (.outOfRange "a" (.atMost (.int 0))))
    (by decide +kernel)
  obtain ⟨hname, hparams, hdefault, hrefused⟩ := of_decide_eq_true hq
  have hlinked := hc.linkedFrom
  refine ⟨m, c, hlinked, hname, fun attr hattr => ?_, ?_⟩
  · obtain ⟨d, hd, hvalid⟩ := (Option.any_eq_true _ _).1 hdefault
    obtain ⟨k, hk, hd⟩ := Option.bind_eq_some_iff.1 hd
    have hmem := Lineage.mem_paramNames.2
      ((Lineage.isSome_property?_iff hlinked.lineage_declared).1 hattr)
    rw [hparams] at hmem
    obtain rfl : attr = "a" := by simpa using hmem
    refine ⟨k, d, hk, Entries.mem_of_find? hd, fun h => ?_⟩
    have halike := d.materialize_alike h .empty
    exact (halike.validate_eq c.lineage "a").trans (of_decide_eq_true hvalid)
  · unfold Sample.refusedDefault? at hrefused
    split at hrefused
    case h_1 fault hfault =>
      cases hrefused
      exact hfault
    case h_2 => cases hrefused

end LiveDoc
