/-
Two dialects, one module.

A document without `__classes__` says the same as one in which the objects
of its top level are moved into `__classes__`: both declare the same module,
or are refused for the same reason. The dialects are read by different arms
of one loop, which check different things in different orders, so what has
to agree is not only what is read but what is refused first.

What the two have in common is `readTop_eq`: when the entries that hold
classes are all readable, reading the top level comes to reading the names
of the other entries, in their order, and to the classes in theirs. Moving
the objects changes neither (`filter_isAttribute_moved`,
`flatMap_bodiesIn_moved`). What follows looks at the classes and attributes
found and takes no notice of the dialect (`ofParts_map`).
-/
import LiveDoc.Program.OfModule
import LiveDoc.Proofs.Reading

namespace LiveDoc

open Traversal

namespace ModuleDecl

-- ==================================================== reading the top level

/-- The module attribute of an entry, if its name will do. -/
def nameAttribute (field : String × Json) : Except DocumentError AttributeDecl :=
  if isIdentifier field.1 then .ok (attributeOf field)
  else .error (.invalidIdentifier field.1 .moduleAttributes)

/-- The classes and the attributes that entries of the top level declare. -/
def readTop (dialect : Dialect) (fields : Entries Json) :
    Except DocumentError (Entries Json × List AttributeDecl) := do
  let entries ← fields.mapM (readEntry dialect)
  return (classBodies entries, moduleAttributes entries)

theorem readEntry_eq_nameAttribute {dialect : Dialect} {field : String × Json}
    (hfield : isAttribute dialect field = true) :
    readEntry dialect field = (nameAttribute field >>= fun a => .ok (.moduleAttribute a)) := by
  have hread : readEntry dialect field = readAttribute field := by
    cases dialect with
    | implicit =>
      have hobject : ¬ field.2.isObject = true := by simpa [isAttribute] using hfield
      rw [readEntry, if_neg hobject]
    | explicit =>
      have hkey : ¬ field.1 = classesKey := by simpa [isAttribute] using hfield
      rw [readEntry, if_neg hkey]
  rw [hread, readAttribute, nameAttribute]
  split <;> rfl

theorem readTop_cons (dialect : Dialect) (field : String × Json) (fields : Entries Json) :
    readTop dialect (field :: fields)
      = (readEntry dialect field >>= fun entry => readTop dialect fields >>= fun r =>
          .ok (classBodies [entry] ++ r.1, moduleAttributes [entry] ++ r.2)) := by
  unfold readTop
  rw [List.mapM_cons]
  cases readEntry dialect field with
  | error e => rfl
  | ok entry =>
    rw [ok_bind, ok_bind]
    cases fields.mapM (readEntry dialect) with
    | error e => rfl
    | ok entries =>
      have hbodies : classBodies (entry :: entries) = classBodies [entry] ++ classBodies entries := by
        unfold classBodies
        rw [← List.flatMap_append, List.singleton_append]
      have hattributes : moduleAttributes (entry :: entries)
          = moduleAttributes [entry] ++ moduleAttributes entries := by
        unfold moduleAttributes
        rw [← List.filterMap_append, List.singleton_append]
      show Except.ok (classBodies (entry :: entries), moduleAttributes (entry :: entries)) = _
      rw [hbodies, hattributes]
      rfl

/-- Where all classes are readable, reading the top level is reading the
names of the attributes. -/
theorem readTop_eq {dialect : Dialect} {fields : Entries Json}
    (hclasses : ∀ f ∈ fields, isAttribute dialect f = false →
      readEntry dialect f = .ok (.classes (bodiesIn dialect f))) :
    readTop dialect fields
      = ((fields.filter (isAttribute dialect)).mapM nameAttribute >>= fun as =>
          .ok (fields.flatMap (bodiesIn dialect), as)) := by
  induction fields with
  | nil => rfl
  | cons f fs ih =>
    obtain ⟨hf, hfs⟩ := List.forall_mem_cons.1 hclasses
    rw [readTop_cons, ih hfs, List.flatMap_cons]
    cases hfield : isAttribute dialect f with
    | true =>
      rw [readEntry_eq_nameAttribute hfield, bodiesIn_of_attribute hfield,
        List.filter_cons_of_pos hfield, List.mapM_cons]
      cases nameAttribute f with
      | error e => rfl
      | ok a => cases (fs.filter (isAttribute dialect)).mapM nameAttribute <;> rfl
    | false =>
      rw [hf hfield, List.filter_cons_of_neg (by simp [hfield]), ok_bind]
      cases (fs.filter (isAttribute dialect)).mapM nameAttribute with
      | error e => rfl
      | ok as => simp [classBodies, moduleAttributes, ok_bind]

-- ==================================================== after the top level

/-- What is declared with the classes and the attributes of the top level:
the classes are read and ordered, and their templates checked. -/
def ofParts (name file doc : String) (dialect : Dialect) (bodies : Entries Json)
    (attributes : List AttributeDecl) : Except DocumentError ModuleDecl := do
  let declared ← bodies.mapM fun b => ClassDecl.ofBody b.1 b.2 bodies.keys
  let classes ← ClassDecl.parentsFirst declared
  let m := { name, file, doc, dialect, attributes, classes }
  classes.forM m.checkTemplates
  return m

/-- A document is read in three parts. -/
theorem ofDocument_eq_ofParts (name file time : String) (root : Entries Json) :
    ofDocument name file time (.object root)
      = (readDoc name file time root >>= fun doc =>
          readTop (dialectOf root) (readFields root) >>= fun r =>
            ofParts name file doc (dialectOf root) r.1 r.2) := by
  unfold ofDocument readTop readFields
  dsimp only [Json.fields?]
  cases readDoc name file time root with
  | error e => rfl
  | ok doc =>
    rw [ok_bind, ok_bind]
    cases (root.filter fun f => f.1 ≠ docKey).mapM (readEntry (dialectOf root)) <;> rfl

/-- Lineages are those of the classes. -/
theorem lineageFrom_congr {m m' : ModuleDecl} (hclasses : m'.classes = m.classes) (steps : Nat)
    (met : List String) (c : ClassDecl) :
    m'.lineageFrom steps met c = m.lineageFrom steps met c := by
  have hfind : m'.findClass? = m.findClass? := by
    funext name
    rw [findClass?, hclasses]
    rfl
  induction steps generalizing met c with
  | zero => rfl
  | succ steps ih => simp only [lineageFrom, hfind, ih]

/-- Templates are checked against the classes. -/
theorem checkTemplates_congr {m m' : ModuleDecl} (hclasses : m'.classes = m.classes) :
    m'.checkTemplates = m.checkTemplates := by
  funext c
  have hvisible : m'.visibleNames c = m.visibleNames c := by
    unfold visibleNames lineage
    rw [hclasses, lineageFrom_congr hclasses]
  unfold checkTemplates
  rw [hvisible]

/-- A change to what is declared that leaves the classes alone can be made
to the parts. -/
theorem ofParts_map {f : ModuleDecl → ModuleDecl} {name file doc doc' : String}
    {dialect dialect' : Dialect}
    (hf : ∀ attributes classes, f { name, file, doc, dialect, attributes, classes }
      = { name, file, doc := doc', dialect := dialect', attributes, classes })
    (bodies : Entries Json) (attributes : List AttributeDecl) :
    ofParts name file doc' dialect' bodies attributes
      = (ofParts name file doc dialect bodies attributes).map f := by
  unfold ofParts
  rw [map_bind]
  congr 1
  funext declared
  rw [map_bind]
  congr 1
  funext classes
  rw [← hf attributes classes]
  have hchecks : (f { name, file, doc, dialect, attributes, classes }).checkTemplates
      = checkTemplates { name, file, doc, dialect, attributes, classes } :=
    checkTemplates_congr (by rw [hf])
  show (classes.forM (f { name, file, doc, dialect, attributes, classes }).checkTemplates >>= _)
    = Except.map f (classes.forM (checkTemplates { name, file, doc, dialect, attributes, classes })
      >>= _)
  rw [map_bind, hchecks]
  rfl

-- ==================================================== moving the classes

/-- The entries of the top level that are classes without `__classes__`. -/
def objectEntries (root : Entries Json) : Entries Json :=
  root.filter fun f => f.1 ≠ "__doc__" ∧ f.2.isObject = true

/-- All other entries of the top level. -/
def otherEntries (root : Entries Json) : Entries Json :=
  root.filter fun f => ¬ (f.1 ≠ "__doc__" ∧ f.2.isObject = true)

/-- The document with its classes moved into `__classes__`, which stands
between two parts of the other entries. -/
def moved (root before after : Entries Json) : Entries Json :=
  before ++ ("__classes__", .object (objectEntries root)) :: after

variable {root before after : Entries Json}

theorem ne_classesKey (hclasses : Entries.find? root classesKey = none)
    (hrest : before ++ after = otherEntries root) : ∀ f ∈ before ++ after, f.1 ≠ classesKey := by
  intro f hf heq
  rw [hrest] at hf
  have hmem : f.1 ∈ Entries.keys root := List.mem_map_of_mem (List.mem_filter.1 hf).1
  rw [heq] at hmem
  exact Entries.find?_eq_none_iff.1 hclasses hmem

theorem dialectOf_moved (root before after : Entries Json) :
    dialectOf (moved root before after) = .explicit := by
  have hmem : classesKey ∈ Entries.keys (moved root before after) :=
    List.mem_map_of_mem (List.mem_append_right _ List.mem_cons_self)
  have hsome : (Entries.find? (moved root before after) classesKey).isSome = true := by
    rw [Option.isSome_iff_ne_none]
    exact fun hnone => Entries.find?_eq_none_iff.1 hnone hmem
  rw [dialectOf, if_pos hsome]

/-- The documentation is that of the same entry. -/
theorem readDoc_moved (hrest : before ++ after = otherEntries root) (name file time : String) :
    readDoc name file time (moved root before after) = readDoc name file time root := by
  have hdoc : Entries.find? (moved root before after) docKey = Entries.find? root docKey := by
    have hskip : Entries.find? (("__classes__", Json.object (objectEntries root)) :: after) docKey
        = Entries.find? after docKey := if_neg (by decide)
    rw [moved, Entries.find?_append, hskip, ← Entries.find?_append, hrest]
    exact Entries.find?_filter fun v => by simp [docKey]
  rw [readDoc, readDoc, hdoc]

/-- The classes of the moved document are readable: they are objects. -/
theorem readEntry_moved (hclasses : Entries.find? root classesKey = none)
    (hrest : before ++ after = otherEntries root) :
    ∀ f ∈ readFields (moved root before after), isAttribute .explicit f = false →
      readEntry .explicit f = .ok (.classes (bodiesIn .explicit f)) := by
  intro f hf hfield
  have hkey : f.1 = classesKey := by simpa [isAttribute] using hfield
  have hmem : f ∈ before ++ ("__classes__", .object (objectEntries root)) :: after :=
    (List.mem_filter.1 hf).1
  have hother := ne_classesKey hclasses hrest
  rcases List.mem_append.1 hmem with hmem | hmem
  · exact absurd hkey (hother f (List.mem_append_left _ hmem))
  · rcases List.mem_cons.1 hmem with rfl | hmem
    · refine (readEntry_of_classes hfield).2 ⟨rfl, ?_, rfl⟩
      intro b hb
      exact (of_decide_eq_true (List.mem_filter.1 hb).2).2
    · exact absurd hkey (hother f (List.mem_append_right _ hmem))

/-- The attributes stay, in their order. -/
theorem filter_isAttribute_moved (hclasses : Entries.find? root classesKey = none)
    (hrest : before ++ after = otherEntries root) :
    (readFields (moved root before after)).filter (isAttribute .explicit)
      = (readFields root).filter (isAttribute .implicit) := by
  have hother : ∀ f ∈ before ++ after, isAttribute .explicit f = true :=
    fun f hf => decide_eq_true (ne_classesKey hclasses hrest f hf)
  obtain ⟨hbefore, hafter⟩ := List.forall_mem_append.1 hother
  have hkept : (moved root before after).filter (isAttribute .explicit) = otherEntries root := by
    rw [moved, List.filter_append, List.filter_cons_of_neg (by simp [isAttribute, classesKey]),
      List.filter_eq_self.2 hbefore, List.filter_eq_self.2 hafter, hrest]
  unfold readFields
  rw [List.filter_comm, hkept, otherEntries, List.filter_filter, List.filter_filter]
  refine List.filter_congr fun f _ => ?_
  by_cases hdoc : f.1 = "__doc__" <;> simp [isAttribute, docKey, hdoc]

/-- The classes stay, in their order. -/
theorem flatMap_bodiesIn_moved (hclasses : Entries.find? root classesKey = none)
    (hrest : before ++ after = otherEntries root) :
    (readFields (moved root before after)).flatMap (bodiesIn .explicit)
      = (readFields root).flatMap (bodiesIn .implicit) := by
  have hnone : ∀ fs : Entries Json, fs ⊆ before ++ after →
      (fs.filter fun f => f.1 ≠ docKey).flatMap (bodiesIn .explicit) = [] := by
    intro fs hfs
    rw [List.flatMap_eq_nil_iff]
    intro f hf
    exact if_neg (ne_classesKey hclasses hrest f (hfs (List.mem_filter.1 hf).1))
  have hmoved : (readFields (moved root before after)).flatMap (bodiesIn .explicit)
      = objectEntries root := by
    unfold readFields moved
    rw [List.filter_append, List.filter_cons_of_pos (by simp [docKey]), List.flatMap_append,
      List.flatMap_cons, hnone before (List.subset_append_left _ _),
      hnone after (List.subset_append_right _ _), List.nil_append, List.append_nil]
    rfl
  have himplicit : (readFields root).flatMap (bodiesIn .implicit) = objectEntries root := by
    refine (flatMap_ite_singleton (fun f => f.2.isObject) (readFields root)).trans ?_
    unfold readFields objectEntries
    rw [List.filter_filter]
    refine List.filter_congr fun f _ => ?_
    by_cases hdoc : f.1 = "__doc__" <;> simp [docKey, hdoc]
  rw [hmoved, himplicit]

/-- Moving the objects of the top level into `__classes__` changes neither
what a document declares, but for the dialect, nor why it is refused. -/
theorem ofDocument_moved (hclasses : Entries.find? root "__classes__" = none)
    (hrest : before ++ after = otherEntries root) (name file time : String) :
    ofDocument name file time (.object (moved root before after))
        = (ofDocument name file time (.object root)).map (fun m => { m with dialect := .explicit })
      ∧ ∀ m, ofDocument name file time (.object root) = .ok m →
          m.dialect = .implicit
          ∧ Program.ofModule { m with dialect := .explicit } = Program.ofModule m := by
  have himplicit : dialectOf root = .implicit := by
    rw [dialectOf, classesKey, hclasses]
    rfl
  have hread : ∀ f ∈ readFields root, isAttribute .implicit f = false →
      readEntry .implicit f = .ok (.classes (bodiesIn .implicit f)) := by
    intro f _ hfield
    have hobject : f.2.isObject = true := by simpa [isAttribute] using hfield
    rw [readEntry, bodiesIn, if_pos hobject, if_pos hobject]
  -- the entries are read apart into attributes and bodies, and both parts are the
  -- same
  have htop : readTop .explicit (readFields (moved root before after))
      = readTop .implicit (readFields root) := by
    rw [readTop_eq (readEntry_moved hclasses hrest), readTop_eq hread,
      filter_isAttribute_moved hclasses hrest, flatMap_bodiesIn_moved hclasses hrest]
  constructor
  · rw [ofDocument_eq_ofParts, ofDocument_eq_ofParts, dialectOf_moved, himplicit,
      readDoc_moved hrest, htop, map_bind]
    congr 1
    funext doc
    rw [map_bind]
    congr 1
    funext r
    exact ofParts_map (fun _ _ => rfl) r.1 r.2
  · -- a model that is built has the dialect its document was read in
    intro m hm
    refine ⟨?_, rfl⟩
    rw [ofDocument_eq_ofParts, himplicit] at hm
    obtain ⟨doc, -, hm⟩ := bind_eq_ok.1 hm
    obtain ⟨r, -, hm⟩ := bind_eq_ok.1 hm
    obtain ⟨declared, -, hm⟩ := bind_eq_ok.1 hm
    obtain ⟨classes, -, hm⟩ := bind_eq_ok.1 hm
    obtain ⟨⟨⟩, -, hm⟩ := bind_eq_ok.1 hm
    cases hm
    rfl

end ModuleDecl

namespace Sample

/-- Classes among attributes. -/
def meters : Entries Json :=
  [("version", .number (.int 1)),
    ("Gauge", .object [("__parent__", .str "Device"), ("level", .number (.int 5))]),
    ("__doc__", .str "Meters"),
    ("Device", .object [("label", .str "d")]),
    ("tags", .array [])]

/-- A class and an attribute are both at fault. -/
def faultyMeters : Entries Json :=
  [("Gauge", .object [("1st", .null)]), ("last reading", .null)]

/-- Why a document is refused, if it is. -/
def refusal? (document : Json) : Option DocumentError :=
  match ModuleDecl.ofDocument "meters" "meters.json" "now" document with
  | .error e => some e
  | .ok _ => none

end Sample

/-- One document is read in both dialects, another refused in both for the
same of its two faults. -/
theorem ModuleDecl.meters_moved :
    Entries.find? Sample.meters "__classes__" = none
      ∧ (∃ m, ofDocument "meters" "meters.json" "now" (.object Sample.meters) = .ok m
        ∧ ofDocument "meters" "meters.json" "now" (.object (moved Sample.meters
            [("version", .number (.int 1))] [("__doc__", .str "Meters"), ("tags", .array [])]))
          = .ok { m with dialect := .explicit })
      ∧ ofDocument "meters" "meters.json" "now" (.object (moved Sample.faultyMeters []
          [("last reading", .null)]))
        = .error (.invalidIdentifier "last reading" .moduleAttributes) := by
  have hread : Sample.refusal? (.object Sample.meters) = none := by decide +kernel
  have hrefused : Sample.refusal? (.object Sample.faultyMeters)
      = some (.invalidIdentifier "last reading" .moduleAttributes) := by
    decide +kernel
  have hnone : Entries.find? Sample.meters "__classes__" = none := by decide
  have hrest : [("version", .number (.int 1))] ++ [("__doc__", .str "Meters"), ("tags", .array [])]
      = otherEntries Sample.meters := rfl
  have hfaultyRest : [] ++ [("last reading", .null)] = otherEntries Sample.faultyMeters := rfl
  refine ⟨hnone, ?_, ?_⟩
  · obtain ⟨hmoved, -⟩ := ofDocument_moved hnone hrest "meters" "meters.json" "now"
    unfold Sample.refusal? at hread
    split at hread
    case h_1 => cases hread
    case h_2 m hm =>
      rw [hm] at hmoved
      exact ⟨m, hm, hmoved⟩
  · obtain ⟨hmoved, -⟩ := ofDocument_moved (by decide) hfaultyRest "meters" "meters.json" "now"
    unfold Sample.refusal? at hrefused
    split at hrefused
    case h_1 e he =>
      cases hrefused
      rw [he] at hmoved
      exact hmoved
    case h_2 => cases hrefused

end LiveDoc
