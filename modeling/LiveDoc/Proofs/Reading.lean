/-
What a successful reading returns.

`ClassDecl.ReadFrom` and `ModuleDecl.ReadFrom` list, part by part, what
each part of a declaration was read from. A body or a document is read
successfully exactly as a declaration with these parts
(`ofBody_eq_ok`, `ofDocument_eq_ok`), so later statements take a reading
apart by its parts and not by its steps.

The parts that later statements need most follow at the end: the names
of a declaration are those of the document, hence distinct where those of
the document's objects are.
-/
import LiveDoc.Proofs.DistinctKeys
import LiveDoc.Proofs.ParentOrder
import LiveDoc.Proofs.TopLevel

namespace LiveDoc

open Traversal

-- ==================================================== classes

namespace ClassDecl

/-- The declaration has the parts of a body. -/
structure ReadFrom (name : String) (body : Entries Json) (classNames : List String)
    (c : ClassDecl) : Prop where
  identifier : isIdentifier name = true
  notGeneric : name ≠ genericBase
  name_eq : c.name = name
  base : readBase name body = .ok c.base
  doc : text? body "__doc__" name = .ok c.doc
  shared : readClassAttributes name body = .ok c.classAttributes
  own : (attributeFields body).mapM (readInstanceAttribute name classNames
    (c.classAttributes.map AttributeDecl.name) (constraintEntries body)) = .ok c.instanceAttributes
  repr : ∃ t, readTemplate name "__repr__" body = .ok t
    ∧ c.repr = t.getD (.ofNames (c.instanceAttributes.map AttributeDecl.name))
    ∧ c.inheritsRepr = (t.isNone && c.instanceAttributes.isEmpty)
  str : readTemplate name "__str__" body = .ok c.str

theorem ofBody_eq_ok {name : String} {body : Entries Json} {classNames : List String}
    {c : ClassDecl} :
    ofBody name (.object body) classNames = .ok c ↔ ReadFrom name body classNames c := by
  unfold ofBody
  dsimp only [Json.fields?]
  constructor
  · intro h
    split at h
    case isTrue => cases h
    case isFalse hname =>
      simp only [Bool.or_eq_true, Bool.not_eq_true', decide_eq_true_eq, not_or,
        Bool.not_eq_false] at hname
      obtain ⟨base, hbase, h⟩ := bind_eq_ok.1 h
      obtain ⟨doc, hdoc, h⟩ := bind_eq_ok.1 h
      obtain ⟨shared, hshared, h⟩ := bind_eq_ok.1 h
      obtain ⟨own, hown, h⟩ := bind_eq_ok.1 h
      obtain ⟨repr, hrepr, h⟩ := bind_eq_ok.1 h
      obtain ⟨str, hstr, h⟩ := bind_eq_ok.1 h
      cases h
      exact ⟨hname.1, hname.2, rfl, hbase, hdoc, hshared, hown, ⟨repr, hrepr, rfl, rfl⟩, hstr⟩
  · intro h
    obtain ⟨hid, hgeneric, rfl, hbase, hdoc, hshared, hown, ⟨t, ht, hrepr, hinherits⟩, hstr⟩ := h
    rw [if_neg (by simp [hid, hgeneric]), hbase, ok_bind, hdoc, ok_bind, hshared, ok_bind,
      hown, ok_bind, ht, ok_bind, hstr, ok_bind, ← hrepr, ← hinherits]
    rfl

/-- Only objects declare classes. -/
theorem exists_body_of_ofBody {name : String} {body : Json} {classNames : List String}
    {c : ClassDecl} (h : ofBody name body classNames = .ok c) : ∃ fields, body = .object fields := by
  cases hbody : body.fields? with
  | none =>
    unfold ofBody at h
    rw [hbody] at h
    cases h
  | some fields => exact ⟨fields, Json.fields?_eq_some_iff.1 hbody⟩

theorem checkAttributeName_eq_ok {className name : String} :
    checkAttributeName className name = .ok ()
      ↔ isIdentifier name = true ∧ name ∉ templateNames := by
  unfold checkAttributeName
  by_cases hid : isIdentifier name = true <;> by_cases hname : name ∈ templateNames <;>
    simp [hid, hname]

/-- What one instance attribute is read from. -/
theorem readInstanceAttribute_eq_ok {className : String} {classNames shared : List String}
    {entries : Entries Json} {field : String × Json} {a : AttributeDecl} :
    readInstanceAttribute className classNames shared entries field = .ok a
      ↔ checkAttributeName className field.1 = .ok () ∧ field.1 ∉ shared
        ∧ ∃ cs, readConstraints className classNames entries field.1 = .ok cs
          ∧ a = { name := field.1, default := field.2, owner := .ofInstances className,
                  constraints := cs } := by
  unfold readInstanceAttribute
  constructor
  · intro h
    obtain ⟨⟨⟩, hname, h⟩ := bind_eq_ok.1 h
    split at h
    case isTrue => cases h
    case isFalse hshared =>
      obtain ⟨cs, hcs, h⟩ := bind_eq_ok.1 h
      cases h
      exact ⟨hname, hshared, cs, hcs, rfl⟩
  · intro h
    obtain ⟨hname, hshared, cs, hcs, rfl⟩ := h
    rw [hname, ok_bind, if_neg hshared, hcs]
    rfl

theorem readClassAttribute_eq_ok {className : String} {field : String × Json}
    {a : AttributeDecl} :
    readClassAttribute className field = .ok a
      ↔ checkAttributeName className field.1 = .ok ()
        ∧ a = { name := field.1, default := field.2, owner := .ofClass className } := by
  unfold readClassAttribute
  constructor
  · intro h
    obtain ⟨⟨⟩, hname, h⟩ := bind_eq_ok.1 h
    cases h
    exact ⟨hname, rfl⟩
  · intro h
    obtain ⟨hname, rfl⟩ := h
    rw [hname]
    rfl

variable {name : String} {body : Entries Json} {classNames : List String} {c : ClassDecl}

/-- The instance attributes are the free fields of the body, in order. -/
theorem ReadFrom.instanceFields (h : ReadFrom name body classNames c) :
    c.instanceAttributes.map (fun a => (a.name, a.default)) = attributeFields body := by
  rw [← List.map_id (attributeFields body)]
  refine map_eq_of_mapM h.own fun field a ha => ?_
  obtain ⟨-, -, cs, -, rfl⟩ := readInstanceAttribute_eq_ok.1 ha
  rfl

/-- The instance attributes have the names of the body's free keys. -/
theorem ReadFrom.instanceNames (h : ReadFrom name body classNames c) :
    c.instanceAttributes.map AttributeDecl.name = (attributeFields body).keys := by
  rw [← h.instanceFields, Entries.keys, List.map_map]
  rfl

/-- The fields of a body that are class attributes. -/
def sharedFields (body : Entries Json) : Entries Json :=
  ((body.find? "__class_attributes__").bind Json.fields?).getD []

/-- The class attributes are these fields, in order. -/
theorem readClassAttributes_fields {as : List AttributeDecl}
    (h : readClassAttributes name body = .ok as) :
    as.map (fun a => (a.name, a.default)) = sharedFields body := by
  unfold readClassAttributes at h
  unfold sharedFields
  cases hfind : body.find? "__class_attributes__" with
  | none =>
    rw [hfind] at h
    cases h
    rfl
  | some j =>
    rw [hfind] at h
    cases j with
    | object fields =>
      show _ = fields
      rw [← List.map_id fields]
      refine map_eq_of_mapM h fun field a ha => ?_
      obtain ⟨-, rfl⟩ := readClassAttribute_eq_ok.1 ha
      rfl
    | _ => cases h

/-- The instance attributes of a class have distinct names. -/
theorem ReadFrom.nodup (h : ReadFrom name body classNames c)
    (hbody : (Entries.keys body).Nodup) :
    (c.instanceAttributes.map AttributeDecl.name).Nodup := by
  rw [h.instanceNames]
  exact hbody.sublist (List.Sublist.map _ List.filter_sublist)

end ClassDecl

-- ==================================================== modules

namespace ModuleDecl

/-- The classes of a document, parents first. -/
def ReadClasses (root : Entries Json) (classes : List ClassDecl) : Prop :=
  ∃ declared,
    (classEntries root).mapM (fun b => ClassDecl.ofBody b.1 b.2 (classEntries root).keys)
        = .ok declared
      ∧ ClassDecl.parentsFirst declared = .ok classes

/-- The declaration has the parts of a document's top level. -/
structure ReadFrom (name file time : String) (root : Entries Json) (m : ModuleDecl) : Prop where
  name_eq : m.name = name
  file_eq : m.file = file
  doc : readDoc name file time root = .ok m.doc
  dialect : m.dialect = dialectOf root
  readable : ∃ entries, (readFields root).mapM (readEntry (dialectOf root)) = .ok entries
  attributes : m.attributes = (attributeEntries root).map attributeOf
  classes : ReadClasses root m.classes
  templates : ∀ c ∈ m.classes, m.checkTemplates c = .ok ()

theorem ofDocument_eq_ok {name file time : String} {root : Entries Json}
    (hroot : (Entries.keys root).Nodup) {m : ModuleDecl} :
    ofDocument name file time (.object root) = .ok m ↔ ReadFrom name file time root m := by
  unfold ofDocument
  dsimp only [Json.fields?]
  constructor
  · intro h
    obtain ⟨doc, hdoc, h⟩ := bind_eq_ok.1 h
    obtain ⟨entries, hentries, h⟩ := bind_eq_ok.1 h
    obtain ⟨declared, hdeclared, h⟩ := bind_eq_ok.1 h
    obtain ⟨classes, hclasses, h⟩ := bind_eq_ok.1 h
    obtain ⟨⟨⟩, htemplates, h⟩ := bind_eq_ok.1 h
    cases h
    obtain ⟨hbodies, hattributes⟩ := readEntries_ok hroot hentries
    rw [hbodies] at hdeclared
    exact ⟨rfl, rfl, hdoc, rfl, ⟨entries, hentries⟩, hattributes, ⟨declared, hdeclared, hclasses⟩,
      forM_eq_ok.1 htemplates⟩
  · intro h
    obtain ⟨rfl, rfl, hdoc, hdialect, ⟨entries, hentries⟩, hattributes,
      ⟨declared, hdeclared, hclasses⟩, htemplates⟩ := h
    obtain ⟨hbodies, hfound⟩ := readEntries_ok hroot hentries
    unfold readFields at hentries
    rw [← hbodies] at hdeclared
    rw [hdoc, ok_bind, hentries, ok_bind, hdeclared, ok_bind, hclasses, ok_bind, hfound,
      ← hattributes, ← hdialect]
    have hchecks : m.classes.forM m.checkTemplates = .ok () := forM_eq_ok.2 htemplates
    show (m.classes.forM m.checkTemplates >>= fun _ => pure m) = .ok m
    rw [hchecks]
    rfl

/-- Only objects declare modules. -/
theorem exists_root_of_ofDocument {name file time : String} {document : Json} {m : ModuleDecl}
    (h : ofDocument name file time document = .ok m) : ∃ root, document = .object root := by
  cases hroot : document.fields? with
  | none =>
    unfold ofDocument at h
    rw [hroot] at h
    cases h
  | some root => exact ⟨root, Json.fields?_eq_some_iff.1 hroot⟩

-- ==================================================== the classes of a document

/-- The classes of a document have distinct names and are themselves
documents with distinct names. -/
theorem classEntries_distinct {root : Entries Json} (h : (Json.object root).DistinctKeys) :
    (classEntries root).keys.Nodup ∧ Json.DistinctKeysFields (classEntries root) := by
  unfold classEntries
  cases hclasses : Entries.find? root classesKey with
  | some classes =>
    have hdistinct := h.of_find? hclasses
    dsimp only
    cases hfields : classes.fields? with
    | none => exact ⟨List.nodup_nil, trivial⟩
    | some fields =>
      rw [Json.fields?_eq_some_iff.1 hfields] at hdistinct
      exact hdistinct
  | none =>
    refine ⟨h.1.sublist (List.Sublist.map _ List.filter_sublist), ?_⟩
    rw [Json.distinctKeysFields_iff]
    exact fun f hf => Json.distinctKeysFields_iff.1 h.2 f (List.mem_filter.1 hf).1

variable {name file time : String} {root : Entries Json} {m : ModuleDecl}

/-- Every class of the module is read from the body of its name. -/
theorem ReadClasses.exists_body {classes : List ClassDecl} (h : ReadClasses root classes)
    {c : ClassDecl} (hc : c ∈ classes) :
    ∃ body, (c.name, Json.object body) ∈ classEntries root
      ∧ ClassDecl.ReadFrom c.name body (classEntries root).keys c := by
  obtain ⟨declared, hdeclared, hordered⟩ := h
  have hmem := (ClassDecl.parentsFirst_ok hordered).1.subset hc
  obtain ⟨⟨key, j⟩, hb, hread⟩ := exists_of_mem_mapM hdeclared hmem
  obtain ⟨body, rfl⟩ := ClassDecl.exists_body_of_ofBody hread
  have hparts := ClassDecl.ofBody_eq_ok.1 hread
  have hname : key = c.name := hparts.name_eq.symm
  rw [hname] at hb hparts
  exact ⟨body, hb, hparts⟩

/-- Every body of the document is read as a class of the module. -/
theorem ReadClasses.exists_class {classes : List ClassDecl} (h : ReadClasses root classes)
    {name : String} {body : Entries Json} (hb : (name, Json.object body) ∈ classEntries root) :
    ∃ c ∈ classes, ClassDecl.ReadFrom name body (classEntries root).keys c := by
  obtain ⟨declared, hdeclared, hordered⟩ := h
  obtain ⟨c, hc, hread⟩ := exists_mem_of_mapM hdeclared hb
  exact ⟨c, (ClassDecl.parentsFirst_ok hordered).1.symm.subset hc, ClassDecl.ofBody_eq_ok.1 hread⟩

/-- Every class of a document has instance attributes with distinct
names. -/
theorem ReadFrom.attributeNames_nodup (h : ReadFrom name file time root m)
    (hroot : (Json.object root).DistinctKeys) {c : ClassDecl} (hc : c ∈ m.classes) :
    (c.instanceAttributes.map AttributeDecl.name).Nodup := by
  obtain ⟨body, hbody, hparts⟩ := h.classes.exists_body hc
  have hdistinct := Json.distinctKeysFields_iff.1 (classEntries_distinct hroot).2 _ hbody
  exact hparts.nodup hdistinct.1

end ModuleDecl

-- ==================================================== a small document

namespace Sample

/-- Three classes in a line; the one in the middle declares nothing, the
last one declares an attribute of the first again. -/
def document : Json :=
  .object [
    ("Device", .object [
      ("label", .str "d"),
      ("level", .number (.int 0)),
      ("tags", .array []),
      ("__constraints__", .object [
        ("label", .object [("read_only", .bool true)]),
        ("level", .object [("min", .number (.int 0)), ("max", .number (.int 100))])])]),
    ("Sensor", .object [("__parent__", .str "Device")]),
    ("Gauge", .object [
      ("__parent__", .str "Sensor"),
      ("level", .number (.int 5)),
      ("unit", .str "bar"),
      ("__constraints__", .object [("level", .object [("max", .number (.int 50))])])])]

theorem distinctKeys_document : document.DistinctKeys := by
  simp [document, Json.DistinctKeys, Json.DistinctKeysFields, Json.DistinctKeysAll, Entries.keys]

end Sample

end LiveDoc
