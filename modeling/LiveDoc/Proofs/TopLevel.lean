/-
The top level of a document.

The two dialects read the top level entry by entry; what they find can
be said without reading. `classEntries` are the classes of a document
and `attributeEntries` its module attributes, both in the order of the
document. The entry-by-entry reading returns exactly these
(`readEntries_ok`), and it succeeds exactly when `__classes__`, if there
is one, holds objects only and every module attribute has an identifier
for a name (`exists_readEntries_iff`).

The names of a document's objects are distinct, which a reader
guarantees; without it a second `__classes__` would be read too.
-/
import LiveDoc.Declaration.Module
import LiveDoc.Proofs.Traversal

namespace LiveDoc.ModuleDecl

open Traversal

-- ==================================================== what is declared

/-- The classes of a document by name. -/
def classEntries (root : Entries Json) : Entries Json :=
  match root.find? classesKey with
  | some classes => classes.fields?.getD []
  | none => root.filter fun f => f.1 ≠ docKey ∧ f.2.isObject = true

/-- The module attributes of a document. -/
def attributeEntries (root : Entries Json) : Entries Json :=
  match root.find? classesKey with
  | some _ => root.filter fun f => f.1 ≠ docKey ∧ f.1 ≠ classesKey
  | none => root.filter fun f => f.1 ≠ docKey ∧ f.2.isObject = false

/-- The module attribute of an entry. -/
def attributeOf (field : String × Json) : AttributeDecl :=
  { name := field.1, default := field.2, owner := .ofModule }

-- ==================================================== one entry

/-- The classes that one entry declares. -/
def bodiesIn (dialect : Dialect) (field : String × Json) : Entries Json :=
  match dialect with
  | .explicit => if field.1 = classesKey then field.2.fields?.getD [] else []
  | .implicit => if field.2.isObject then [field] else []

/-- The entry is a module attribute. -/
def isAttribute (dialect : Dialect) (field : String × Json) : Bool :=
  match dialect with
  | .explicit => field.1 ≠ classesKey
  | .implicit => !field.2.isObject

theorem checkClassEntry_eq_ok {field field' : String × Json} :
    checkClassEntry field = .ok field' ↔ field.2.isObject = true ∧ field = field' := by
  unfold checkClassEntry
  by_cases h : field.2.isObject = true <;> simp [h]

/-- Entries that are all objects are read as they are. -/
theorem mapM_checkClassEntry_eq_ok {fields bodies : Entries Json} :
    fields.mapM checkClassEntry = .ok bodies
      ↔ (∀ b ∈ fields, b.2.isObject = true) ∧ bodies = fields := by
  constructor
  · intro h
    have hsame : bodies.map id = fields.map id :=
      map_eq_of_mapM h fun x y hxy => (checkClassEntry_eq_ok.1 hxy).2.symm
    refine ⟨?_, by simpa using hsame⟩
    intro b hb
    obtain ⟨b', -, hb'⟩ := exists_mem_of_mapM h hb
    exact (checkClassEntry_eq_ok.1 hb').1
  · intro h
    obtain ⟨h, rfl⟩ := h
    obtain ⟨bodies', h'⟩ := exists_mapM_eq_ok.2 fun b hb =>
      ⟨b, checkClassEntry_eq_ok.2 ⟨h b hb, rfl⟩⟩
    have hsame : bodies'.map id = bodies.map id :=
      map_eq_of_mapM h' fun x y hxy => (checkClassEntry_eq_ok.1 hxy).2.symm
    rw [List.map_id, List.map_id] at hsame
    rw [h', hsame]

theorem readAttribute_eq_ok {field : String × Json} {entry : Entry} :
    readAttribute field = .ok entry
      ↔ isIdentifier field.1 = true ∧ entry = .moduleAttribute (attributeOf field) := by
  unfold readAttribute
  by_cases h : isIdentifier field.1 = true
  · rw [if_pos h, Except.ok.injEq]
    exact ⟨fun heq => ⟨h, heq.symm⟩, fun heq => heq.2.symm⟩
  · rw [if_neg h]
    exact ⟨fun heq => (by cases heq), fun heq => absurd heq.1 h⟩

/-- An entry with classes is read as the classes in it, all of which must
be objects. -/
theorem readEntry_of_classes {dialect : Dialect} {field : String × Json}
    (hfield : isAttribute dialect field = false) {entry : Entry} :
    readEntry dialect field = .ok entry
      ↔ field.2.isObject = true ∧ (∀ b ∈ bodiesIn dialect field, b.2.isObject = true)
        ∧ entry = .classes (bodiesIn dialect field) := by
  cases dialect with
  | implicit =>
    have hobject : field.2.isObject = true := by simpa [isAttribute] using hfield
    have hread : readEntry .implicit field = .ok (.classes [field]) := by
      rw [readEntry, if_pos hobject]
    have hbodies : bodiesIn .implicit field = [field] := by
      rw [bodiesIn, if_pos hobject]
    rw [hread, hbodies, Except.ok.injEq]
    constructor
    · rintro rfl
      exact ⟨hobject, by simpa using hobject, rfl⟩
    · intro h
      obtain ⟨-, -, rfl⟩ := h
      rfl
  | explicit =>
    have hkey : field.1 = classesKey := by simpa [isAttribute] using hfield
    have hbodies : bodiesIn .explicit field = field.2.fields?.getD [] := by
      rw [bodiesIn, if_pos hkey]
    rw [hbodies, Json.isObject]
    cases hfields : field.2.fields? with
    -- `__classes__` holds the bodies, so it has to be an object itself
    | none =>
      have hread : readEntry .explicit field = .error .classesNotObject := by
        rw [readEntry, if_pos hkey, hfields]
      rw [hread]
      exact ⟨fun h => (by cases h), fun h => (by cases h.1)⟩
    | some bodies =>
      have hread : readEntry .explicit field = Entry.classes <$> bodies.mapM checkClassEntry := by
        rw [readEntry, if_pos hkey, hfields]
      rw [hread, Option.getD_some]
      constructor
      · intro h
        cases hm : bodies.mapM checkClassEntry with
        | error e =>
          rw [hm] at h
          cases h
        | ok bodies' =>
          rw [hm] at h
          cases h
          obtain ⟨hall, rfl⟩ := mapM_checkClassEntry_eq_ok.1 hm
          exact ⟨rfl, hall, rfl⟩
      · intro h
        obtain ⟨-, hall, rfl⟩ := h
        rw [mapM_checkClassEntry_eq_ok.2 ⟨hall, rfl⟩]
        rfl

/-- An entry without classes is read as a module attribute. -/
theorem readEntry_of_attribute {dialect : Dialect} {field : String × Json}
    (hfield : isAttribute dialect field = true) {entry : Entry} :
    readEntry dialect field = .ok entry
      ↔ isIdentifier field.1 = true ∧ entry = .moduleAttribute (attributeOf field) := by
  rw [← readAttribute_eq_ok]
  cases dialect with
  | implicit =>
    have hobject : ¬ field.2.isObject = true := by simpa [isAttribute] using hfield
    rw [readEntry, if_neg hobject]
  | explicit =>
    have hkey : ¬ field.1 = classesKey := by simpa [isAttribute] using hfield
    rw [readEntry, if_neg hkey]

/-- Module attributes hold no classes. -/
theorem bodiesIn_of_attribute {dialect : Dialect} {field : String × Json}
    (hfield : isAttribute dialect field = true) : bodiesIn dialect field = [] := by
  cases dialect with
  | implicit => simpa [isAttribute, bodiesIn] using hfield
  | explicit =>
    have hkey : ¬ field.1 = classesKey := by simpa [isAttribute] using hfield
    rw [bodiesIn, if_neg hkey]

-- ==================================================== all entries

/-- The entries of a document that its dialect reads. -/
def readFields (root : Entries Json) : Entries Json :=
  root.filter fun f => f.1 ≠ docKey

/-- What a list of entries is read as, entry by entry. -/
theorem readEntries_eq {dialect : Dialect} {fields : Entries Json} {entries : List Entry}
    (h : fields.mapM (readEntry dialect) = .ok entries) :
    classBodies entries = fields.flatMap (bodiesIn dialect)
      ∧ moduleAttributes entries
        = (fields.filter (isAttribute dialect)).map attributeOf := by
  have hall := mapM_eq_ok.1 h
  clear h
  induction hall with
  | nil => exact ⟨rfl, rfl⟩
  | @cons field entry fields entries hentry _ ih =>
    obtain ⟨hbodies, hattributes⟩ := ih
    cases hfield : isAttribute dialect field with
    | true =>
      obtain ⟨-, rfl⟩ := (readEntry_of_attribute hfield).1 hentry
      rw [List.flatMap_cons, bodiesIn_of_attribute hfield, List.filter_cons_of_pos hfield]
      exact ⟨hbodies, congrArg (attributeOf field :: ·) hattributes⟩
    | false =>
      obtain ⟨-, -, rfl⟩ := (readEntry_of_classes hfield).1 hentry
      rw [List.flatMap_cons, List.filter_cons_of_neg (by simp [hfield])]
      exact ⟨congrArg (bodiesIn dialect field ++ ·) hbodies, hattributes⟩

/-- Of distinct names at most one is `key`, so collecting what stands
under it is looking it up. -/
theorem flatMap_ite_key {root : Entries Json} (hroot : (Entries.keys root).Nodup) (key : String)
    (g : Json → Entries Json) :
    root.flatMap (fun f => if f.1 = key then g f.2 else [])
      = ((root.find? key).map g).getD [] := by
  induction root with
  | nil => rfl
  | cons f fs ih =>
    obtain ⟨k, j⟩ := f
    obtain ⟨hk, hfs⟩ := List.nodup_cons.1 hroot
    rw [List.flatMap_cons, ih hfs, Entries.find?]
    by_cases hkey : k = key
    · have hnone : Entries.find? fs key = none := by
        rw [Entries.find?_eq_none_iff, ← hkey]
        exact hk
      rw [hnone]
      simp [hkey]
    · simp [hkey]

theorem flatMap_ite_singleton {α : Type} (p : α → Bool) (xs : List α) :
    xs.flatMap (fun x => if p x then [x] else []) = xs.filter p := by
  induction xs with
  | nil => rfl
  | cons x xs ih =>
    rw [List.flatMap_cons, ih, List.filter_cons]
    split <;> rfl

/-- The classes found entry by entry are those of the document. -/
theorem flatMap_bodiesIn {root : Entries Json} (hroot : (Entries.keys root).Nodup) :
    (readFields root).flatMap (bodiesIn (dialectOf root)) = classEntries root := by
  unfold dialectOf classEntries
  cases hclasses : root.find? classesKey with
  | some classes =>
    have hkeys : (Entries.keys (readFields root)).Nodup :=
      hroot.sublist (List.Sublist.map _ List.filter_sublist)
    have hmem : (classesKey, classes) ∈ readFields root :=
      List.mem_filter.2 ⟨Entries.mem_of_find? hclasses, rfl⟩
    have hflat := flatMap_ite_key hkeys classesKey fun j => j.fields?.getD []
    rw [Entries.find?_of_mem hkeys hmem] at hflat
    exact hflat
  | none =>
    have hflat := flatMap_ite_singleton (fun f => f.2.isObject) (readFields root)
    refine hflat.trans ?_
    unfold readFields
    rw [List.filter_filter]
    exact List.filter_congr fun f _ => by simp [Bool.and_comm]

/-- The module attributes found entry by entry are those of the
document. -/
theorem filter_isAttribute (root : Entries Json) :
    (readFields root).filter (isAttribute (dialectOf root)) = attributeEntries root := by
  unfold dialectOf attributeEntries readFields
  rw [List.filter_filter]
  cases root.find? classesKey with
  | some classes => exact List.filter_congr fun f _ => by simp [isAttribute, Bool.and_comm]
  | none => exact List.filter_congr fun f _ => by simp [isAttribute, Bool.and_comm]

/-- The classes and the module attributes of a document, as they are
read. -/
theorem readEntries_ok {root : Entries Json} (hroot : (Entries.keys root).Nodup)
    {entries : List Entry} (h : (readFields root).mapM (readEntry (dialectOf root)) = .ok entries) :
    classBodies entries = classEntries root
      ∧ moduleAttributes entries = (attributeEntries root).map attributeOf := by
  obtain ⟨hbodies, hattributes⟩ := readEntries_eq h
  rw [flatMap_bodiesIn hroot] at hbodies
  rw [filter_isAttribute] at hattributes
  exact ⟨hbodies, hattributes⟩

/-- The top level can be read when `__classes__`, if there is one, holds
objects only, and every module attribute has an identifier for a name. -/
theorem exists_readEntries_iff {root : Entries Json} (hroot : (Entries.keys root).Nodup) :
    (∃ entries, (readFields root).mapM (readEntry (dialectOf root)) = .ok entries)
      ↔ (∀ classes, root.find? classesKey = some classes →
          ∃ bodies, classes = .object bodies ∧ ∀ b ∈ bodies, b.2.isObject = true)
        ∧ ∀ f ∈ attributeEntries root, isIdentifier f.1 = true := by
  rw [exists_mapM_eq_ok, ← filter_isAttribute]
  constructor
  · intro h
    constructor
    · intro classes hclasses
      have hdialect : dialectOf root = .explicit := by
        rw [dialectOf, hclasses]
        rfl
      obtain ⟨entry, hentry⟩ := h (classesKey, classes)
        (List.mem_filter.2 ⟨Entries.mem_of_find? hclasses, rfl⟩)
      rw [hdialect] at hentry
      obtain ⟨hobject, hbodies, -⟩ := (readEntry_of_classes rfl).1 hentry
      obtain ⟨bodies, rfl⟩ := Json.isObject_iff.1 hobject
      exact ⟨bodies, rfl, hbodies⟩
    · intro f hf
      obtain ⟨hread, hfield⟩ := List.mem_filter.1 hf
      obtain ⟨entry, hentry⟩ := h f hread
      exact ((readEntry_of_attribute hfield).1 hentry).1
  · intro h f hf
    obtain ⟨hclasses, hattributes⟩ := h
    cases hfield : isAttribute (dialectOf root) f with
    | true =>
      have hid := hattributes f (List.mem_filter.2 ⟨hf, hfield⟩)
      exact ⟨_, (readEntry_of_attribute hfield).2 ⟨hid, rfl⟩⟩
    | false =>
      suffices hall : f.2.isObject = true
          ∧ ∀ b ∈ bodiesIn (dialectOf root) f, b.2.isObject = true from
        ⟨_, (readEntry_of_classes hfield).2 ⟨hall.1, hall.2, rfl⟩⟩
      unfold dialectOf at hfield ⊢
      cases hfind : root.find? classesKey with
      | none =>
        rw [hfind] at hfield
        have hobject : f.2.isObject = true := by simpa [isAttribute] using hfield
        refine ⟨hobject, ?_⟩
        simp [bodiesIn, hobject]
      | some classes =>
        rw [hfind] at hfield
        have hkey : f.1 = classesKey := by simpa [isAttribute] using hfield
        obtain ⟨bodies, rfl, hbodies⟩ := hclasses classes hfind
        -- the names are distinct, so this entry is the one looked up
        have hmem : (classesKey, f.2) ∈ root := by
          rw [← hkey]
          exact (List.mem_filter.1 hf).1
        have hsame := Entries.find?_of_mem hroot hmem
        rw [hfind, Option.some.injEq] at hsame
        refine ⟨by rw [← hsame]; rfl, ?_⟩
        intro b hb
        have hin : bodiesIn .explicit f = bodies := by
          rw [bodiesIn, if_pos hkey, ← hsame]
          rfl
        exact hbodies b (hin ▸ hb)

end LiveDoc.ModuleDecl
