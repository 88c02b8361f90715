/-
A document declares a module exactly when it is well formed.

Reading looks at a document in three ways: entry by entry at the top
level, body by body for the classes, and across all classes for parents,
cycles and the names in templates. The first two are settled by
`exists_readEntries_iff` and `ClassDecl.exists_readFrom_iff`. Across
classes the link is that a class has the name and the parent of its body,
so the parents of the classes read are those that the document names
(`parentIn_iff_extends`); what `parentsFirst` and the lineage walk decide
of the one therefore holds of the other, and what templates may use is
what the document says is visible (`mem_visibleNames_iff_visible`).

A class without a template of its own gets one that is never refused: it
names the class name and the attributes of the class itself.
-/
import LiveDoc.Proofs.Ancestry
import LiveDoc.Proofs.CallTemplate
import LiveDoc.Proofs.WellFormed

namespace LiveDoc.ModuleDecl

open ClassDecl (ParentIn ParentsPrecede)
open Json (IsObject IsString)
open Relation (TransGen ReflTransGen)
open Traversal

variable {root : Entries Json} {classes : List ClassDecl}

-- ==================================================== across classes

/-- The classes of a document are read when all bodies are well formed
objects. -/
theorem exists_declared_iff :
    (∃ declared, (classEntries root).mapM
        (fun b => ClassDecl.ofBody b.1 b.2 (classEntries root).keys) = .ok declared)
      ↔ ∀ name j, (name, j) ∈ classEntries root → ∃ body, j = .object body
        ∧ ClassDecl.WellFormed (classEntries root).keys name body := by
  rw [exists_mapM_eq_ok, Prod.forall]
  refine forall_congr' fun name => forall_congr' fun j => forall_congr' fun _ => ?_
  constructor
  · intro h
    obtain ⟨c, hc⟩ := h
    obtain ⟨body, rfl⟩ := ClassDecl.exists_body_of_ofBody hc
    exact ⟨body, rfl, ClassDecl.exists_readFrom_iff.1 ⟨c, ClassDecl.ofBody_eq_ok.1 hc⟩⟩
  · intro h
    obtain ⟨body, rfl, hbody⟩ := h
    obtain ⟨c, hc⟩ := ClassDecl.exists_readFrom_iff.2 hbody
    exact ⟨c, ClassDecl.ofBody_eq_ok.2 hc⟩

/-- Classes are read in the order of their entries. -/
theorem map_name_declared {declared : List ClassDecl}
    (h : (classEntries root).mapM (fun b => ClassDecl.ofBody b.1 b.2 (classEntries root).keys)
      = .ok declared) : declared.map ClassDecl.name = (classEntries root).keys := by
  refine map_eq_of_mapM h fun b c hc => ?_
  obtain ⟨name, j⟩ := b
  obtain ⟨body, rfl⟩ := ClassDecl.exists_body_of_ofBody hc
  exact (ClassDecl.ofBody_eq_ok.1 hc).name_eq

/-- The parents of the classes read are those that the document names. -/
theorem parentIn_iff_extends {declared : List ClassDecl}
    (h : (classEntries root).mapM (fun b => ClassDecl.ofBody b.1 b.2 (classEntries root).keys)
      = .ok declared) {child parent : String} :
    ParentIn declared child parent ↔ Extends root child parent := by
  constructor
  · intro hparent
    obtain ⟨c, hc, hchild, hbase⟩ := hparent
    obtain ⟨⟨name, j⟩, hb, hread⟩ := exists_of_mem_mapM h hc
    obtain ⟨body, rfl⟩ := ClassDecl.exists_body_of_ofBody hread
    have hparts := ClassDecl.ofBody_eq_ok.1 hread
    have hname : name = child := hparts.name_eq.symm.trans hchild
    have hreadBase := hparts.base
    rw [hbase] at hreadBase
    rw [hname] at hb
    exact ⟨body, hb, ClassDecl.readBase_eq_some_iff.1 hreadBase⟩
  · intro hextends
    obtain ⟨body, hb, hparent⟩ := hextends
    obtain ⟨c, hc, hread⟩ := exists_mem_of_mapM h hb
    have hparts := ClassDecl.ofBody_eq_ok.1 hread
    have hreadBase := hparts.base
    rw [ClassDecl.readBase_eq_some_iff.2 hparent] at hreadBase
    exact ⟨c, hc, hparts.name_eq, (Except.ok.inj hreadBase).symm⟩

/-- Among classes that were read, parents are those that the document names. -/
theorem parentIn_eq_extends (h : ReadClasses root classes) : ParentIn classes = Extends root := by
  obtain ⟨declared, hdeclared, hordered⟩ := h
  have hperm := (ClassDecl.parentsFirst_ok hordered).1
  funext child parent
  apply propext
  rw [← parentIn_iff_extends hdeclared]
  unfold ParentIn
  simp only [hperm.mem_iff]

/-- The classes of a document can be read and put in order when all
bodies are well formed objects, every parent is a class and no class is
its own ancestor. -/
theorem exists_readClasses_iff (hkeys : (classEntries root).keys.Nodup) :
    (∃ classes, ReadClasses root classes)
      ↔ (∀ name j, (name, j) ∈ classEntries root → ∃ body, j = .object body
          ∧ ClassDecl.WellFormed (classEntries root).keys name body)
        ∧ (∀ child parent, Extends root child parent → parent ∈ (classEntries root).keys)
        ∧ ∀ name, ¬ TransGen (Extends root) name name := by
  -- for classes that have been read the last two conditions are those of their order
  have horder : ∀ declared, (classEntries root).mapM
        (fun b => ClassDecl.ofBody b.1 b.2 (classEntries root).keys) = .ok declared →
      ((∃ classes, ClassDecl.parentsFirst declared = .ok classes)
        ↔ (∀ child parent, Extends root child parent → parent ∈ (classEntries root).keys)
          ∧ ∀ name, ¬ TransGen (Extends root) name name) := by
    intro declared hdeclared
    have hnames := map_name_declared hdeclared
    have hrelation : ParentIn declared = Extends root := by
      funext child parent
      exact propext (parentIn_iff_extends hdeclared)
    rw [ClassDecl.exists_parentsFirst_iff (hnames ▸ hkeys)]
    unfold ClassDecl.Acyclic ClassDecl.ParentsKnown
    rw [hrelation, hnames]
    refine and_congr_left fun _ => ?_
    rw [← hrelation]
    constructor
    · intro hknown child parent hparent
      obtain ⟨c, hc, -, hbase⟩ := hparent
      exact hknown c hc parent hbase
    · intro hknown c hc parent hbase
      exact hknown c.name parent ⟨c, hc, rfl, hbase⟩
  rw [← exists_declared_iff]
  constructor
  · intro h
    obtain ⟨classes, declared, hdeclared, hordered⟩ := h
    exact ⟨⟨declared, hdeclared⟩, (horder declared hdeclared).1 ⟨classes, hordered⟩⟩
  · intro h
    obtain ⟨⟨declared, hdeclared⟩, hconditions⟩ := h
    obtain ⟨classes, hordered⟩ := (horder declared hdeclared).2 hconditions
    exact ⟨classes, declared, hdeclared, hordered⟩

/-- Putting parents first loses no class and adds none. -/
theorem ReadClasses.classNames_perm (h : ReadClasses root classes) :
    (classes.map ClassDecl.name).Perm (classEntries root).keys := by
  obtain ⟨declared, hdeclared, hordered⟩ := h
  rw [← map_name_declared hdeclared]
  exact (ClassDecl.parentsFirst_ok hordered).1.map _

/-- The classes of a module that was read have distinct names. -/
theorem ReadFrom.classNames_nodup {name file time : String} {m : ModuleDecl}
    (h : m.ReadFrom name file time root) (hroot : (Json.object root).DistinctKeys) :
    m.classNames.Nodup :=
  h.classes.classNames_perm.nodup_iff.2 (classEntries_distinct hroot).1

theorem ReadClasses.parentsPrecede (h : ReadClasses root classes) : ParentsPrecede classes := by
  obtain ⟨declared, -, hordered⟩ := h
  exact (ClassDecl.parentsFirst_ok hordered).2

/-- What templates may use is what the document makes visible. -/
theorem mem_visibleNames_iff_visible {m : ModuleDecl} (h : ReadClasses root m.classes)
    (hnames : m.classNames.Nodup) {c : ClassDecl} (hc : c ∈ m.classes) {name : String} :
    name ∈ m.visibleNames c ↔ Visible root c.name name := by
  rw [mem_visibleNames_iff h.parentsPrecede hnames hc, parentIn_eq_extends h]
  have htemplate : name ∈ ClassDecl.templateNames ↔ name = "class_name" ∨ name = "module_name" := by
    simp [ClassDecl.templateNames]
  have hdeclares : (∃ d ∈ m.classes, ReflTransGen (Extends root) c.name d.name
        ∧ name ∈ d.declaredNames)
      ↔ ∃ ancestor body, ReflTransGen (Extends root) c.name ancestor
        ∧ (ancestor, .object body) ∈ classEntries root
        ∧ name ∈ ClassDecl.sharedKeys body ++ ClassDecl.ownKeys body := by
    constructor
    · intro hdeclared
      obtain ⟨d, hd, hpath, hname⟩ := hdeclared
      obtain ⟨body, hbody, hparts⟩ := h.exists_body hd
      rw [hparts.declaredNames_eq] at hname
      exact ⟨d.name, body, hpath, hbody, hname⟩
    · intro hdeclared
      obtain ⟨ancestor, body, hpath, hbody, hname⟩ := hdeclared
      obtain ⟨d, hd, hparts⟩ := h.exists_class hbody
      rw [← hparts.declaredNames_eq] at hname
      rw [← hparts.name_eq] at hpath
      exact ⟨d, hd, hpath, hname⟩
  unfold Visible
  rw [htemplate, hdeclares, or_comm, or_assoc]

/-- The templates of a class that is read use what is visible when those
that its body gives do: the one that it has otherwise always does. -/
theorem checkTemplates_iff_visible {m : ModuleDecl} (h : ReadClasses root m.classes)
    (hnames : m.classNames.Nodup) {c : ClassDecl} (hc : c ∈ m.classes) {body : Entries Json}
    (hbody : (c.name, .object body) ∈ classEntries root)
    (hparts : ClassDecl.ReadFrom c.name body (classEntries root).keys c) :
    m.checkTemplates c = .ok ()
      ↔ ∀ key ∈ ["__repr__", "__str__"], ∀ source t,
        Entries.find? body key = some (.str source) → Template.parse source = .ok t →
        ∀ field ∈ t.fieldNames, Visible root c.name field := by
  have hvisible : ∀ name, name ∈ m.visibleNames c ↔ Visible root c.name name := fun name =>
    mem_visibleNames_iff_visible h hnames hc
  obtain ⟨given, hgiven, hrepr, -⟩ := hparts.repr
  rw [checkTemplates_eq_ok]
  simp only [hvisible]
  constructor
  · intro hchecked key hkey source t hsource hparse
    obtain ⟨hchecksRepr, hchecksStr⟩ := hchecked
    rcases List.mem_pair.1 hkey with rfl | rfl
    · have hread : ClassDecl.readTemplate c.name "__repr__" body = .ok (some t) :=
        ClassDecl.readTemplate_eq_some_iff.2 ⟨source, hsource, hparse⟩
      rw [hgiven] at hread
      cases hread
      rw [hrepr] at hchecksRepr
      exact hchecksRepr
    · have hread : ClassDecl.readTemplate c.name "__str__" body = .ok (some t) :=
        ClassDecl.readTemplate_eq_some_iff.2 ⟨source, hsource, hparse⟩
      rw [hparts.str] at hread
      exact hchecksStr t (Except.ok.inj hread)
  · intro hall
    constructor
    · cases given with
      | some t =>
        rw [hrepr]
        obtain ⟨source, hsource, hparse⟩ := ClassDecl.readTemplate_eq_some_iff.1 hgiven
        exact hall "__repr__" (by simp) source t hsource hparse
      | none =>
        -- a repr template that is not given names the class and its own attributes, all
        -- of them visible
        have hwell := ClassDecl.exists_readFrom_iff.1 ⟨c, hparts⟩
        have hown : ∀ n ∈ c.instanceAttributes.map AttributeDecl.name, isIdentifier n = true := by
          intro n hn
          rw [hparts.instanceNames] at hn
          exact (hwell.names n (List.mem_append_right _ hn)).1
        intro field hfield
        rw [hrepr, Option.getD_none, Template.fieldNames_ofNames hown, List.mem_cons] at hfield
        rcases hfield with rfl | hfield
        · exact .inl rfl
        · rw [hparts.instanceNames] at hfield
          exact .inr (.inr ⟨c.name, body, .refl, hbody, List.mem_append_right _ hfield⟩)
    · intro t ht
      have hread := hparts.str
      rw [ht] at hread
      obtain ⟨source, hsource, hparse⟩ := ClassDecl.readTemplate_eq_some_iff.1 hread
      exact hall "__str__" (by simp) source t hsource hparse

-- ==================================================== documents

/-- A documentation may be left out but has to be a text. -/
theorem exists_readDoc_iff {name file time : String} :
    (∃ doc, readDoc name file time root = .ok doc) ↔ root.Optional "__doc__" IsString := by
  unfold readDoc Entries.Optional IsString docKey
  cases Entries.find? root "__doc__" with
  | none => simp
  | some j => cases j <;> simp

/-- In both dialects a class entry that is reached is an object. -/
theorem isObject_of_mem_classEntries
    (h : root.Optional "__classes__" fun j => ∃ bodies, j = .object bodies
      ∧ ∀ b ∈ bodies, b.2.IsObject) {name : String} {j : Json}
    (hb : (name, j) ∈ classEntries root) : j.IsObject := by
  unfold classEntries at hb
  cases hclasses : Entries.find? root classesKey with
  | none =>
    rw [hclasses] at hb
    have hobject := (of_decide_eq_true (List.mem_filter.1 hb).2).2
    exact Json.isObject_iff.1 hobject
  | some classes =>
    rw [hclasses] at hb
    obtain ⟨bodies, rfl, hbodies⟩ := h classes hclasses
    exact hbodies _ hb

/-- A document declares a module exactly when it is an object that is
well formed. -/
theorem exists_ofDocument_iff_wellFormed {document : Json} (hkeys : document.DistinctKeys)
    (name file time : String) :
    (∃ m, ofDocument name file time document = .ok m)
      ↔ ∃ root, document = .object root ∧ WellFormed root := by
  constructor
  · intro h
    obtain ⟨m, hm⟩ := h
    obtain ⟨root, rfl⟩ := exists_root_of_ofDocument hm
    -- whatever was read says of the document what its part of `WellFormed` asks for
    have hread := (ofDocument_eq_ok hkeys.1).1 hm
    have hnodup := (classEntries_distinct hkeys).1
    have hnames : m.classNames.Nodup := hread.classes.classNames_perm.nodup_iff.2 hnodup
    obtain ⟨hclasses, hattributes⟩ := (exists_readEntries_iff hkeys.1).1 hread.readable
    obtain ⟨hbodies, hparents, hacyclic⟩ := (exists_readClasses_iff hnodup).1 ⟨_, hread.classes⟩
    refine ⟨root, rfl, exists_readDoc_iff.1 ⟨_, hread.doc⟩, ?_, hattributes, ?_, hparents,
      hacyclic, ?_⟩
    · intro j hj
      obtain ⟨bodies, rfl, hobjects⟩ := hclasses j hj
      exact ⟨bodies, rfl, fun b hb => Json.isObject_iff.1 (hobjects b hb)⟩
    · intro className body hb
      obtain ⟨body', heq, hbody⟩ := hbodies className _ hb
      cases heq
      exact hbody
    · intro className body hb
      obtain ⟨c, hc, hparts⟩ := hread.classes.exists_class hb
      have hname := hparts.name_eq
      rw [← hname] at hb hparts ⊢
      exact (checkTemplates_iff_visible hread.classes hnames hc hb hparts).1 (hread.templates c hc)
  · intro h
    obtain ⟨root, rfl, h⟩ := h
    have hnodup := (classEntries_distinct hkeys).1
    obtain ⟨doc, hdoc⟩ := exists_readDoc_iff.2 h.doc
    have hreadable := (exists_readEntries_iff hkeys.1).2 ⟨fun j hj => by
      obtain ⟨bodies, rfl, hobjects⟩ := h.classes j hj
      exact ⟨bodies, rfl, fun b hb => Json.isObject_iff.2 (hobjects b hb)⟩, h.attributes⟩
    have hbodies : ∀ className j, (className, j) ∈ classEntries root → ∃ body, j = .object body
        ∧ ClassDecl.WellFormed (classEntries root).keys className body := by
      intro className j hb
      obtain ⟨body, rfl⟩ := isObject_of_mem_classEntries h.classes hb
      exact ⟨body, rfl, h.bodies className body hb⟩
    obtain ⟨classes, hclasses⟩ := (exists_readClasses_iff hnodup).2
      ⟨hbodies, h.parents, h.acyclic⟩
    -- the parts can all be read, so this is what they make up; only templates are
    -- left to check
    let m : ModuleDecl :=
      { name, file, doc, dialect := dialectOf root
        attributes := (attributeEntries root).map attributeOf, classes }
    refine ⟨m, (ofDocument_eq_ok hkeys.1).2 ⟨rfl, rfl, hdoc, rfl, hreadable, rfl, hclasses, ?_⟩⟩
    intro c hc
    have hnames : m.classNames.Nodup := hclasses.classNames_perm.nodup_iff.2 hnodup
    obtain ⟨body, hb, hparts⟩ := ReadClasses.exists_body hclasses hc
    exact (checkTemplates_iff_visible hclasses hnames hc hb hparts).2 (h.templates c.name body hb)

/-- The small document is well formed, since it is read. -/
theorem wellFormed_devices : ∃ root, Sample.document = .object root ∧ WellFormed root := by
  have hread : (ofDocument "devices" "devices.json" "now" Sample.document).isOk = true := by
    decide +kernel
  apply (exists_ofDocument_iff_wellFormed Sample.distinctKeys_document "devices" "devices.json"
    "now").1
  cases hm : ofDocument "devices" "devices.json" "now" Sample.document with
  | error e =>
    rw [hm] at hread
    cases hread
  | ok m => exact ⟨m, rfl⟩

end LiveDoc.ModuleDecl
