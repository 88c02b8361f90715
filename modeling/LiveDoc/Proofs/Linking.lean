/-
What linking makes of a document's classes.

A class is linked under the lineage of its parent, which was linked
before it. What every step of linking keeps, linking keeps
(`linkItems_keeps`, the induction on the items); so whatever holds of every
class definition of a program holds of every definition along the lineage
of every linked class (`linkItems_classes`).

For the program of a declared module this says that a lineage is made of
declared classes, each with distinct instance attributes
(`ClassNode.DeclaredBy`). Programs written by hand promise neither. The
section at the end draws from it what checking and construction rest on:
parameters and properties are the instance attributes, under one name
each.
-/
import LiveDoc.Live.Module
import LiveDoc.Program.OfModule
import LiveDoc.Proofs.Reading

namespace LiveDoc

open Traversal

-- ==================================================== declared classes

/-- The class is linked from a declared class whose instance attributes
have distinct names. -/
structure ClassNode.DeclaredBy (n : ClassNode) (d : ClassDecl) : Prop where
  definition : n.definition = .ofDecl d
  nodup : (d.instanceAttributes.map AttributeDecl.name).Nodup

/-- Every class of the lineage was declared by a document. -/
def Lineage.Declared (l : Lineage) : Prop := ∀ n ∈ l, ∃ d, n.DeclaredBy d

/-- Both parts of a declared lineage are declared. -/
theorem Lineage.Declared.of_cons {n : ClassNode} {l : Lineage} (h : Lineage.Declared (n :: l)) :
    (∃ d, n.DeclaredBy d) ∧ l.Declared :=
  List.forall_mem_cons.1 h

-- ==================================================== linking

/-- The ancestors of a class are nobody, or the lineage of a class bound
before. -/
theorem Bindings.ancestors?_eq_some {b : Bindings} {base : Option String} {ancestors : Lineage}
    (h : b.ancestors? base = some ancestors) :
    (base = none ∧ ancestors = [])
      ∨ ∃ name parent, base = some name ∧ b.classes.find? name = some parent
        ∧ ancestors = parent.lineage := by
  cases base with
  | none =>
    cases h
    exact .inl ⟨rfl, rfl⟩
  | some name =>
    obtain ⟨parent, hparent, hlineage⟩ := Option.map_eq_some_iff.1 h
    exact .inr ⟨name, parent, rfl, hparent, hlineage.symm⟩

namespace Program

/-- What linking one class gives: a node with the definition, in front of
the ancestors. -/
theorem lineage_link (moduleName : String) (ancestors : Lineage) (d : ClassDef) (h : Heap) :
    ∃ n, n.definition = d
      ∧ (Class.link moduleName ancestors d h).1.lineage = n :: ancestors :=
  ⟨(Class.link moduleName ancestors d h).1.node, rfl, rfl⟩

/-- What binding one item keeps, linking items keeps. -/
theorem linkItems_keeps {P : Bindings → Heap → Prop} {moduleName : String} {items : List Item}
    {b b' : Bindings} {h h' : Heap} (hlink : linkItems moduleName items b h = .ok (b', h'))
    (hstart : P b h)
    (hattribute : ∀ name (value : Constant) b h, .moduleAttribute name value ∈ items → P b h →
      P { b with attributes := b.attributes.insert name (value.materialize h).1 }
        (value.materialize h).2)
    (hclass : ∀ d ancestors b h, .classDef d ∈ items → P b h → b.contains d.name = false →
      b.ancestors? d.base = some ancestors →
      P { b with classes := b.classes.insert d.name (Class.link moduleName ancestors d h).1 }
        (Class.link moduleName ancestors d h).2) : P b' h' := by
  induction items generalizing b h with
  | nil =>
    cases hlink
    exact hstart
  | cons item items ih =>
    have hlater := fun name value b h hvalue =>
      hattribute name value b h (List.mem_cons_of_mem item hvalue)
    have hrest := fun d ancestors b h hd =>
      hclass d ancestors b h (List.mem_cons_of_mem item hd)
    cases item with
    | moduleAttribute name value =>
      rw [linkItems] at hlink
      obtain ⟨-, hlink⟩ := ite_error_eq_ok.1 hlink
      exact ih hlink (hattribute name value b h List.mem_cons_self hstart) hlater hrest
    | classDef d =>
      rw [linkItems] at hlink
      obtain ⟨hfree, hlink⟩ := ite_error_eq_ok.1 hlink
      split at hlink
      case h_1 => cases hlink
      case h_2 ancestors hancestors =>
        have hbound := hclass d ancestors b h List.mem_cons_self hstart
          (Bool.eq_false_iff.2 hfree) hancestors
        exact ih hlink hbound hlater hrest

/-- What holds of all classes bound before, and of every class definition
that is linked, holds along the lineages of all classes bound after. -/
theorem linkItems_classes {P : ClassDef → Prop} {moduleName : String} {items : List Item}
    {b b' : Bindings} {h h' : Heap} (hlink : linkItems moduleName items b h = .ok (b', h'))
    (hbound : ∀ key c, b.classes.find? key = some c → ∀ n ∈ c.lineage, P n.definition)
    (hitems : ∀ d, .classDef d ∈ items → P d) :
    ∀ key c, b'.classes.find? key = some c → ∀ n ∈ c.lineage, P n.definition := by
  refine linkItems_keeps (P := fun b _ => ∀ key c, b.classes.find? key = some c →
    ∀ n ∈ c.lineage, P n.definition) hlink hbound (fun _ _ _ _ _ hb => hb) ?_
  intro d ancestors b h hd hb _ hancestors key c hc
  rw [Table.find?_insert] at hc
  split at hc
  case isFalse => exact hb key c hc
  case isTrue =>
    cases hc
    obtain ⟨n, hn, hlineage⟩ := lineage_link moduleName ancestors d h
    rw [hlineage, List.forall_mem_cons, hn]
    refine ⟨hitems d hd, ?_⟩
    rcases Bindings.ancestors?_eq_some hancestors with ⟨-, rfl⟩ | ⟨base, parent, -, hparent, rfl⟩
    · exact fun _ hm => (by cases hm)
    · exact hb base parent hparent

/-- The lineage of a linked class is made of class definitions of the
program. -/
theorem definition_mem_of_link {p : Program} {document : Json} {h h' : Heap} {s : ModuleState}
    (hs : p.link document h = .ok (s, h')) {key : String} {c : Class}
    (hc : s.classes.find? key = some c) :
    ∀ n ∈ c.lineage, .classDef n.definition ∈ p.items := by
  obtain ⟨⟨b, h₁⟩, hlink, hstate⟩ := bind_eq_ok.1 hs
  cases hstate
  refine linkItems_classes (P := fun d => .classDef d ∈ p.items) hlink ?_ (fun d hd => hd) key c hc
  intro key c hnone
  cases hnone

end Program

/-- The class was linked from a document that declares the module. -/
structure Class.LinkedFrom (c : Class) (document : Json) (m : ModuleDecl) : Prop where
  distinct : document.DistinctKeys
  declared : ∃ name file time, ModuleDecl.ofDocument name file time document = .ok m
  linked : ∃ before after s key, (Program.ofModule m).link document before = .ok (s, after)
    ∧ s.classes.find? key = some c

namespace Class.LinkedFrom

variable {c : Class} {document : Json} {m : ModuleDecl}

/-- Definitions of declared classes declare each attribute once. -/
theorem declaredBy (h : c.LinkedFrom document m) {n : ClassNode} {d : ClassDecl}
    (hd : d ∈ m.classes) (hdefinition : n.definition = .ofDecl d) : n.DeclaredBy d := by
  obtain ⟨name, file, time, hm⟩ := h.declared
  obtain ⟨root, rfl⟩ := ModuleDecl.exists_root_of_ofDocument hm
  have hread := (ModuleDecl.ofDocument_eq_ok h.distinct.1).1 hm
  exact ⟨hdefinition, hread.attributeNames_nodup h.distinct hd⟩

/-- Every class along the lineage was declared by the document. -/
theorem exists_declaredBy (h : c.LinkedFrom document m) :
    ∀ n ∈ c.lineage, ∃ d ∈ m.classes, n.DeclaredBy d := by
  intro n hn
  obtain ⟨before, after, s, key, hs, hc⟩ := h.linked
  have hitem := Program.definition_mem_of_link hs hc n hn
  rcases List.mem_append.1 hitem with hattribute | hclass
  · obtain ⟨a, -, ha⟩ := List.mem_map.1 hattribute
    cases ha
  · obtain ⟨d, hd, hdefinition⟩ := List.mem_map.1 hclass
    injection hdefinition with hdefinition
    exact ⟨d, hd, h.declaredBy hd hdefinition.symm⟩

/-- All classes of a lineage come from declarations when the class does. -/
theorem lineage_declared (h : c.LinkedFrom document m) : c.lineage.Declared := by
  intro n hn
  obtain ⟨d, -, hd⟩ := h.exists_declaredBy n hn
  exact ⟨d, hd⟩

end Class.LinkedFrom

-- ==================================================== what a class declares

/-- A class has a parameter for each of its instance attributes. -/
theorem Program.params_ofDecl (d : ClassDecl) :
    (ClassDef.ofDecl d).params.getD [] = d.instanceAttributes.map Param.ofDecl := by
  unfold ClassDef.ofDecl
  cases d.instanceAttributes <;> rfl

namespace ClassNode

/-- The class itself declares the instance attribute. -/
def declares (n : ClassNode) (attr : String) : Bool :=
  n.params.any fun p => p.name = attr

variable {n : ClassNode} {d : ClassDecl}

/-- The parameters of a declared class are its instance attributes, in
order. -/
theorem DeclaredBy.params (h : n.DeclaredBy d) :
    n.params = d.instanceAttributes.map Program.Param.ofDecl := by
  rw [ClassNode.params, h.definition, Program.params_ofDecl]

theorem DeclaredBy.paramNames (h : n.DeclaredBy d) :
    n.params.map Program.Param.name = d.instanceAttributes.map AttributeDecl.name := by
  rw [h.params, List.map_map]
  rfl

/-- A class declares the names of its parameters. -/
theorem declares_iff {attr : String} :
    n.declares attr = true ↔ attr ∈ n.params.map Program.Param.name := by
  simp [declares]

/-- The property of a name is that of the instance attribute of the
name. -/
theorem DeclaredBy.property?_eq_some_iff (h : n.DeclaredBy d) {attr : String}
    {p : Program.Property} :
    n.property? attr = some p
      ↔ ∃ a ∈ d.instanceAttributes, a.name = attr ∧ p = .ofDecl a := by
  have hproperties : n.definition.properties = d.instanceAttributes.map .ofDecl := by
    rw [h.definition]
    rfl
  unfold property?
  rw [hproperties]
  constructor
  · intro hp
    have hname : p.name = attr := by simpa using List.find?_some hp
    obtain ⟨a, ha, rfl⟩ := List.mem_map.1 (List.mem_reverse.1 (List.mem_of_find?_eq_some hp))
    exact ⟨a, ha, hname, rfl⟩
  · intro h
    obtain ⟨a, ha, rfl, rfl⟩ := h
    cases hfound : (d.instanceAttributes.map Program.Property.ofDecl).reverse.find?
        fun p => p.name = a.name with
    | none =>
      have hnone := List.find?_eq_none.1 hfound (.ofDecl a)
        (List.mem_reverse.2 (List.mem_map_of_mem ha))
      exact absurd (decide_eq_true rfl) hnone
    | some q =>
      have hname : q.name = a.name := by simpa using List.find?_some hfound
      obtain ⟨a', ha', rfl⟩ :=
        List.mem_map.1 (List.mem_reverse.1 (List.mem_of_find?_eq_some hfound))
      rw [List.inj_on_of_nodup_map h.nodup ha' ha hname]

/-- A class has a property of a name exactly when it declares the
attribute. -/
theorem DeclaredBy.property?_eq_none_iff (h : n.DeclaredBy d) {attr : String} :
    n.property? attr = none ↔ n.declares attr = false := by
  rw [← Bool.not_eq_true, declares_iff, h.paramNames, Option.eq_none_iff_forall_ne_some]
  constructor
  · intro hnone hmem
    obtain ⟨a, ha, hname⟩ := List.mem_map.1 hmem
    exact hnone _ (h.property?_eq_some_iff.2 ⟨a, ha, hname, rfl⟩)
  · intro hmem p hp
    obtain ⟨a, ha, hname, -⟩ := h.property?_eq_some_iff.1 hp
    exact hmem (List.mem_map.2 ⟨a, ha, hname⟩)

end ClassNode

-- ==================================================== parameters along a lineage

namespace Program

/-- The names of the parameters that a class definition has itself. -/
def ClassDef.paramNames (c : ClassDef) : List String := (c.params.getD []).map Param.name

theorem paramNames_ofDecl (d : ClassDecl) :
    (ClassDef.ofDecl d).paramNames = d.instanceAttributes.map AttributeDecl.name := by
  rw [ClassDef.paramNames, params_ofDecl, List.map_map]
  rfl

end Program

namespace Lineage

/-- The names of all parameters along a lineage. -/
def paramNames (l : Lineage) : List String := l.flatMap fun n => n.definition.paramNames

/-- Every parameter has one name in the list, also where names repeat along the
lineage. -/
theorem length_paramNames (l : Lineage) : l.paramNames.length = l.paramCount := by
  unfold paramNames
  induction l with
  | nil => rfl
  | cons n l ih =>
    rw [List.flatMap_cons, List.length_append, ih, paramCount, Program.ClassDef.paramNames,
      List.length_map, ClassNode.params]

/-- The list holds what some class of the lineage declares. -/
theorem mem_paramNames {l : Lineage} {name : String} :
    name ∈ l.paramNames ↔ ∃ n ∈ l, n.declares name = true := by
  unfold paramNames
  rw [List.mem_flatMap]
  simp only [ClassNode.declares_iff, Program.ClassDef.paramNames, ClassNode.params]

end Lineage

-- ==================================================== a class of the small document

namespace Sample

/-- A class of the document, linked into the empty heap. -/
def class? (key : String) : Option Class :=
  match ModuleDecl.ofDocument "devices" "devices.json" "now" document with
  | .error _ => none
  | .ok m =>
    match (Program.ofModule m).link document .empty with
    | .error _ => none
    | .ok (s, _) => s.classes.find? key

/-- What is computed of a class holds of a linked class. -/
theorem exists_linkedFrom_of_any (key : String) (q : Class → Bool)
    (hq : (class? key).any q = true) : ∃ m c, c.LinkedFrom document m ∧ q c = true := by
  obtain ⟨c, hc, hqc⟩ := (Option.any_eq_true q _).1 hq
  unfold class? at hc
  split at hc
  case h_1 => cases hc
  case h_2 m hm =>
    split at hc
    case h_1 => cases hc
    case h_2 s h hs =>
      exact ⟨m, c, ⟨distinctKeys_document, ⟨_, _, _, hm⟩, ⟨_, h, s, key, hs, hc⟩⟩, hqc⟩

end Sample

end LiveDoc
