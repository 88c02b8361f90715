/-
Well-formed documents.

What a document must look like, said of the document alone: no reading,
no order of steps. `Constraints.WellFormed` is about one constraint entry,
`ClassDecl.WellFormed` about the body of one class, and
`ModuleDecl.WellFormed` about the top level together with what no single
class decides: parents are classes, no class is its own ancestor, and
templates use only names that a class or an ancestor declares.

The second half shows for entries and bodies that they are read exactly
when they are well formed (`Constraints.exists_ofEntry_iff`,
`ClassDecl.exists_readFrom_iff`); `Acceptance` does it for documents.
-/
import LiveDoc.Proofs.Reading

namespace LiveDoc

open Traversal

-- ==================================================== single values

/-- The value under a name, if there is one, is as told. -/
def Entries.Optional (es : Entries Json) (key : String) (p : Json → Prop) : Prop :=
  ∀ j, es.find? key = some j → p j

namespace Json

def IsBool (j : Json) : Prop := ∃ b, j = .bool b

def IsNumber (j : Json) : Prop := ∃ n, j = .number n

def IsString (j : Json) : Prop := ∃ s, j = .str s

def IsObject (j : Json) : Prop := ∃ fields, j = .object fields

/-- The document is a text that describes a template. -/
def IsTemplate (j : Json) : Prop := ∃ source t, j = .str source ∧ Template.parse source = .ok t

end Json

open Json (IsBool IsNumber IsString IsObject IsTemplate)

-- ==================================================== constraint entries

namespace Constraints

/-- The names of the builtin kinds. -/
def builtinNames : List String := ["bool", "str", "list", "int", "float", "dict"]

/-- A constraint entry among the given classes. -/
structure WellFormed (classNames : List String) (entry : Entries Json) : Prop where
  readOnly : entry.Optional "read_only" IsBool
  notNone : entry.Optional "not_none" IsBool
  kind : entry.Optional "type" fun j =>
    ∃ name, j = .str name ∧ (name ∈ classNames ∨ name ∈ builtinNames)
  min : entry.Optional "min" IsNumber
  max : entry.Optional "max" IsNumber

end Constraints

-- ==================================================== class bodies

namespace ClassDecl

/-- The names of the class attributes of a body. -/
def sharedKeys (body : Entries Json) : List String :=
  Entries.keys (((body.find? "__class_attributes__").bind Json.fields?).getD [])

/-- The names of the instance attributes of a body. -/
def ownKeys (body : Entries Json) : List String := (attributeFields body).keys

/-- The body of a class, among the given classes. -/
structure WellFormed (classNames : List String) (name : String) (body : Entries Json) : Prop where
  identifier : isIdentifier name = true
  notGeneric : name ≠ "object"
  parent : body.Optional "__parent__" IsString
  doc : body.Optional "__doc__" IsString
  shared : body.Optional "__class_attributes__" IsObject
  names : ∀ key ∈ sharedKeys body ++ ownKeys body,
    isIdentifier key = true ∧ key ≠ "class_name" ∧ key ≠ "module_name"
  disjoint : ∀ key ∈ ownKeys body, key ∉ sharedKeys body
  constraints : ∀ key ∈ ownKeys body, ∀ entries entry,
    body.find? "__constraints__" = some (.object entries) →
    Entries.find? entries key = some (.object entry) → entry ≠ [] →
    Constraints.WellFormed classNames entry
  repr : body.Optional "__repr__" IsTemplate
  str : body.Optional "__str__" IsTemplate

end ClassDecl

-- ==================================================== documents

namespace ModuleDecl

open Relation (TransGen ReflTransGen)

/-- Among the classes of a document, `child` names `parent` as its
parent. The generic base is no class. -/
def Extends (root : Entries Json) (child parent : String) : Prop :=
  ∃ body, (child, .object body) ∈ classEntries root
    ∧ Entries.find? body "__parent__" = some (.str parent) ∧ parent ≠ "object"

/-- A template of a class may use the name: every template may, or the
class or an ancestor declares an attribute of it. -/
def Visible (root : Entries Json) (className name : String) : Prop :=
  name = "class_name" ∨ name = "module_name"
    ∨ ∃ ancestor body, ReflTransGen (Extends root) className ancestor
      ∧ (ancestor, .object body) ∈ classEntries root
      ∧ name ∈ ClassDecl.sharedKeys body ++ ClassDecl.ownKeys body

/-- The top level of a document. -/
structure WellFormed (root : Entries Json) : Prop where
  doc : root.Optional "__doc__" IsString
  classes : root.Optional "__classes__" fun j =>
    ∃ bodies, j = .object bodies ∧ ∀ b ∈ bodies, b.2.IsObject
  attributes : ∀ f ∈ attributeEntries root, isIdentifier f.1 = true
  bodies : ∀ name body, (name, .object body) ∈ classEntries root →
    ClassDecl.WellFormed (classEntries root).keys name body
  parents : ∀ child parent, Extends root child parent → parent ∈ (classEntries root).keys
  acyclic : ∀ name, ¬ TransGen (Extends root) name name
  templates : ∀ name body, (name, .object body) ∈ classEntries root →
    ∀ key ∈ ["__repr__", "__str__"], ∀ source t, Entries.find? body key = some (.str source) →
      Template.parse source = .ok t → ∀ field ∈ t.fieldNames, Visible root name field

end ModuleDecl

-- ==================================================== reading entries

namespace Constraints

variable {entry : Entries Json} {classNames : List String}

/-- Left out, a flag is false; otherwise it has to be a truth value. -/
theorem exists_flag_iff {key : String} :
    (∃ b, flag entry key = .ok b) ↔ entry.Optional key IsBool := by
  unfold flag Entries.Optional IsBool
  cases entry.find? key with
  | none => simp
  | some j => cases j <;> simp

/-- A bound has to be a number, of whatever size. -/
theorem exists_bound?_iff {key : String} :
    (∃ b, bound? entry key = .ok b) ↔ entry.Optional key IsNumber := by
  unfold bound? Entries.Optional IsNumber
  cases entry.find? key with
  | none => simp
  | some j => cases j <;> simp

/-- There are no other builtin kinds. -/
theorem exists_builtin?_iff {name : String} :
    (∃ k, Kind.builtin? name = some k) ↔ name ∈ builtinNames := by
  unfold Kind.builtin?
  rw [← Option.isSome_iff_exists, List.find?_isSome]
  simp [Kind.name, builtinNames, eq_comm]

/-- A name stands for a kind when a class or a builtin kind has it. -/
theorem exists_resolve?_iff {name : String} :
    (∃ k, Kind.resolve? name classNames = some k) ↔ name ∈ classNames ∨ name ∈ builtinNames := by
  unfold Kind.resolve?
  rw [← exists_builtin?_iff]
  by_cases h : name ∈ classNames <;> simp [h]

/-- A type is named by a text: a class of the document or a builtin kind. -/
theorem exists_kind?_iff :
    (∃ k, kind? entry classNames = .ok k)
      ↔ entry.Optional "type" fun j =>
        ∃ name, j = .str name ∧ (name ∈ classNames ∨ name ∈ builtinNames) := by
  unfold kind? Entries.Optional
  cases entry.find? "type" with
  | none => simp
  | some j =>
    cases j with
    | str name =>
      simp only [Option.some.injEq, forall_eq', Json.str.injEq, exists_eq_left']
      rw [← exists_resolve?_iff]
      cases Kind.resolve? name classNames <;> simp
    | _ => simp

/-- The fields of an entry are read one after the other, but whether all can be
read does not depend on their order. -/
theorem exists_ofFields_iff :
    (∃ cs, ofFields classNames entry = .ok cs) ↔ WellFormed classNames entry := by
  unfold ofFields
  constructor
  · intro h
    obtain ⟨readOnly, hreadOnly, h⟩ := exists_bind_eq_ok.1 h
    obtain ⟨notNone, hnotNone, h⟩ := exists_bind_eq_ok.1 h
    obtain ⟨kind, hkind, h⟩ := exists_bind_eq_ok.1 h
    obtain ⟨min, hmin, h⟩ := exists_bind_eq_ok.1 h
    obtain ⟨max, hmax, h⟩ := exists_bind_eq_ok.1 h
    exact ⟨exists_flag_iff.1 ⟨_, hreadOnly⟩, exists_flag_iff.1 ⟨_, hnotNone⟩,
      exists_kind?_iff.1 ⟨_, hkind⟩, exists_bound?_iff.1 ⟨_, hmin⟩, exists_bound?_iff.1 ⟨_, hmax⟩⟩
  · intro h
    obtain ⟨readOnly, hreadOnly⟩ := exists_flag_iff.2 h.readOnly
    obtain ⟨notNone, hnotNone⟩ := exists_flag_iff.2 h.notNone
    obtain ⟨kind, hkind⟩ := exists_kind?_iff.2 h.kind
    obtain ⟨min, hmin⟩ := exists_bound?_iff.2 h.min
    obtain ⟨max, hmax⟩ := exists_bound?_iff.2 h.max
    rw [hreadOnly, ok_bind, hnotNone, ok_bind, hkind, ok_bind, hmin, ok_bind, hmax, ok_bind]
    exact ⟨_, rfl⟩

/-- An entry is read unless it is a non-empty object that is not well
formed. -/
theorem exists_ofEntry_iff {j : Json} :
    (∃ cs, ofEntry classNames j = .ok cs)
      ↔ ∀ entry, j = .object entry → entry ≠ [] → WellFormed classNames entry := by
  unfold ofEntry
  cases j with
  | object entry =>
    cases entry with
    | nil => simp
    | cons e es =>
      simp only [Json.object.injEq, forall_eq', ne_eq, reduceCtorEq, not_false_eq_true,
        forall_const]
      exact exists_ofFields_iff
  | _ => simp

end Constraints

-- ==================================================== reading bodies

namespace ClassDecl

variable {name : String} {body : Entries Json} {classNames : List String}

/-- An optional text may be left out but may not be anything else. -/
theorem exists_text?_iff {key : String} :
    (∃ t, text? body key name = .ok t) ↔ body.Optional key IsString := by
  unfold text? Entries.Optional IsString
  cases body.find? key with
  | none => simp
  | some j => cases j <;> simp

theorem text?_eq_some_iff {key s : String} :
    text? body key name = .ok (some s) ↔ body.find? key = some (.str s) := by
  unfold text?
  cases body.find? key with
  | none => simp
  | some j => cases j <;> simp

theorem text?_eq_none_iff {key : String} :
    text? body key name = .ok none ↔ body.find? key = none := by
  unfold text?
  cases body.find? key with
  | none => simp
  | some j => cases j <;> simp

/-- The generic base is read as no parent at all, so any text will do. -/
theorem exists_readBase_iff :
    (∃ b, readBase name body = .ok b) ↔ body.Optional "__parent__" IsString := by
  unfold readBase
  rw [exists_bind_eq_ok, ← exists_text?_iff]
  exact exists_congr fun t => ⟨And.left, fun h => ⟨h, _, rfl⟩⟩

/-- A class has the parent that its body names, unless that is the
generic base. -/
theorem readBase_eq_some_iff {p : String} :
    readBase name body = .ok (some p)
      ↔ body.find? "__parent__" = some (.str p) ∧ p ≠ "object" := by
  unfold readBase
  rw [bind_eq_ok]
  constructor
  · intro h
    obtain ⟨t, ht, h⟩ := h
    rw [pure_eq_ok] at h
    split at h
    case isTrue => cases h
    case isFalse hne =>
      rw [h] at ht hne
      refine ⟨text?_eq_some_iff.1 ht, ?_⟩
      rintro rfl
      exact hne rfl
  · intro h
    obtain ⟨hp, hne⟩ := h
    refine ⟨some p, text?_eq_some_iff.2 hp, ?_⟩
    rw [pure_eq_ok, if_neg]
    intro h
    exact hne (Option.some.inj h)

/-- A template is read when its source is a text that describes one. -/
theorem exists_readTemplate_iff {key : String} :
    (∃ t, readTemplate name key body = .ok t) ↔ body.Optional key IsTemplate := by
  unfold readTemplate
  rw [exists_bind_eq_ok]
  constructor
  · intro h j hj
    obtain ⟨text, htext, t, ht⟩ := h
    cases text with
    | none =>
      rw [text?_eq_none_iff, hj] at htext
      cases htext
    | some source =>
      rw [text?_eq_some_iff, hj] at htext
      cases htext
      obtain ⟨template, hparse, -⟩ := bind_eq_ok.1 ht
      exact ⟨source, template, rfl, mapError_eq_ok.1 hparse⟩
  · intro h
    cases hfind : body.find? key with
    | none => exact ⟨none, text?_eq_none_iff.2 hfind, none, rfl⟩
    | some j =>
      obtain ⟨source, t, rfl, hparse⟩ := h j hfind
      refine ⟨some source, text?_eq_some_iff.2 hfind, some t, ?_⟩
      exact bind_eq_ok.2 ⟨t, mapError_eq_ok.2 hparse, rfl⟩

/-- A template of a class is the one that its body describes. -/
theorem readTemplate_eq_some_iff {key : String} {t : Template} :
    readTemplate name key body = .ok (some t)
      ↔ ∃ source, body.find? key = some (.str source) ∧ Template.parse source = .ok t := by
  unfold readTemplate
  rw [bind_eq_ok]
  constructor
  · intro h
    obtain ⟨text, htext, ht⟩ := h
    cases text with
    | none => cases ht
    | some source =>
      obtain ⟨template, hparse, h⟩ := bind_eq_ok.1 ht
      cases h
      exact ⟨source, text?_eq_some_iff.1 htext, mapError_eq_ok.1 hparse⟩
  · intro h
    obtain ⟨source, hfind, hparse⟩ := h
    exact ⟨some source, text?_eq_some_iff.2 hfind, bind_eq_ok.2 ⟨t, mapError_eq_ok.2 hparse, rfl⟩⟩

/-- A name that an attribute of a class may have. -/
theorem checkAttributeName_iff {key : String} :
    checkAttributeName name key = .ok ()
      ↔ isIdentifier key = true ∧ key ≠ "class_name" ∧ key ≠ "module_name" := by
  rw [checkAttributeName_eq_ok]
  simp [templateNames]

/-- Class attributes may have any values; it is their names that are
checked. -/
theorem exists_readClassAttributes_iff :
    (∃ as, readClassAttributes name body = .ok as)
      ↔ body.Optional "__class_attributes__" IsObject
        ∧ ∀ key ∈ sharedKeys body, checkAttributeName name key = .ok () := by
  unfold readClassAttributes Entries.Optional IsObject sharedKeys
  cases body.find? "__class_attributes__" with
  | none => simp [Entries.keys]
  | some j =>
    cases j with
    | object fields =>
      dsimp only
      rw [exists_mapM_eq_ok]
      simp only [Option.some.injEq, forall_eq', Option.bind_some, Json.fields?, Option.getD_some,
        Entries.keys, List.forall_mem_map, Json.object.injEq, exists_eq', true_and]
      refine forall_congr' fun f => forall_congr' fun _ => ?_
      constructor
      · intro h
        obtain ⟨a, ha⟩ := h
        exact (readClassAttribute_eq_ok.1 ha).1
      · intro h
        exact ⟨_, readClassAttribute_eq_ok.2 ⟨h, rfl⟩⟩
    | _ => simp

/-- Class attributes have the names of the body. -/
theorem map_name_readClassAttributes {as : List AttributeDecl}
    (h : readClassAttributes name body = .ok as) :
    as.map AttributeDecl.name = sharedKeys body := by
  show _ = Entries.keys (sharedFields body)
  rw [← readClassAttributes_fields h, Entries.keys, List.map_map]
  rfl

variable (name) in
/-- The constraints of one attribute are read unless its entry is a
non-empty object that is not well formed. -/
theorem exists_readConstraints_iff {key : String} :
    (∃ cs, readConstraints name classNames (constraintEntries body) key = .ok cs)
      ↔ ∀ entries entry, body.find? "__constraints__" = some (.object entries) →
        Entries.find? entries key = some (.object entry) → entry ≠ [] →
        Constraints.WellFormed classNames entry := by
  have hread : ∀ entries, (∃ cs, readConstraints name classNames entries key = .ok cs)
      ↔ ∀ entry, Entries.find? entries key = some (.object entry) → entry ≠ [] →
        Constraints.WellFormed classNames entry := by
    intro entries
    unfold readConstraints
    cases Entries.find? entries key with
    | none => simp
    | some j =>
      dsimp only
      simp only [mapError_eq_ok, Constraints.exists_ofEntry_iff, Option.some.injEq]
  unfold constraintEntries
  rw [hread]
  cases body.find? "__constraints__" with
  | none => simp
  | some j =>
    cases j with
    | object fields =>
      constructor
      · intro h entries entry heq
        cases heq
        exact h entry
      · intro h entry
        exact h fields entry rfl
    | _ => simp [Json.fields?]

/-- The instance attributes are read when each has a name of its own and
constraints that are read. -/
theorem exists_own_iff {shared : List String} :
    (∃ as, (attributeFields body).mapM (readInstanceAttribute name classNames shared
        (constraintEntries body)) = .ok as)
      ↔ ∀ key ∈ ownKeys body, checkAttributeName name key = .ok () ∧ key ∉ shared
        ∧ ∀ entries entry, body.find? "__constraints__" = some (.object entries) →
          Entries.find? entries key = some (.object entry) → entry ≠ [] →
          Constraints.WellFormed classNames entry := by
  rw [exists_mapM_eq_ok]
  unfold ownKeys Entries.keys
  rw [List.forall_mem_map]
  refine forall_congr' fun f => forall_congr' fun _ => ?_
  rw [← exists_readConstraints_iff name]
  constructor
  · intro h
    obtain ⟨a, ha⟩ := h
    obtain ⟨hname, hshared, cs, hcs, -⟩ := readInstanceAttribute_eq_ok.1 ha
    exact ⟨hname, hshared, cs, hcs⟩
  · intro h
    obtain ⟨hname, hshared, cs, hcs⟩ := h
    exact ⟨_, readInstanceAttribute_eq_ok.2 ⟨hname, hshared, cs, hcs, rfl⟩⟩

/-- A body is read exactly when it is well formed. -/
theorem exists_readFrom_iff :
    (∃ c, ReadFrom name body classNames c) ↔ WellFormed classNames name body := by
  constructor
  · intro h
    obtain ⟨c, h⟩ := h
    obtain ⟨hshared, hsharedNames⟩ := exists_readClassAttributes_iff.1 ⟨_, h.shared⟩
    have hown := exists_own_iff.1 ⟨_, h.own⟩
    have hnames := map_name_readClassAttributes h.shared
    obtain ⟨t, ht, -⟩ := h.repr
    refine ⟨h.identifier, h.notGeneric, exists_readBase_iff.1 ⟨_, h.base⟩,
      exists_text?_iff.1 ⟨_, h.doc⟩, hshared, ?_, ?_, ?_, exists_readTemplate_iff.1 ⟨t, ht⟩,
      exists_readTemplate_iff.1 ⟨_, h.str⟩⟩
    · intro key hkey
      rcases List.mem_append.1 hkey with hkey | hkey
      · exact checkAttributeName_iff.1 (hsharedNames key hkey)
      · exact checkAttributeName_iff.1 (hown key hkey).1
    · intro key hkey
      rw [← hnames]
      exact (hown key hkey).2.1
    · intro key hkey
      exact (hown key hkey).2.2
  · intro h
    obtain ⟨base, hbase⟩ := exists_readBase_iff.2 h.parent
    obtain ⟨doc, hdoc⟩ := exists_text?_iff.2 h.doc
    obtain ⟨shared, hshared⟩ := exists_readClassAttributes_iff.2
      ⟨h.shared, fun key hkey => checkAttributeName_iff.2 (h.names key (List.mem_append_left _ hkey))⟩
    -- the own attributes are read against the names of the shared ones
    have hnames := map_name_readClassAttributes hshared
    obtain ⟨own, hown⟩ := exists_own_iff.2 fun key hkey =>
      ⟨checkAttributeName_iff.2 (h.names key (List.mem_append_right _ hkey)),
        hnames.symm ▸ h.disjoint key hkey, h.constraints key hkey⟩
    obtain ⟨repr, hrepr⟩ := exists_readTemplate_iff.2 h.repr
    obtain ⟨str, hstr⟩ := exists_readTemplate_iff.2 h.str
    exact ⟨{
        name, base, doc, classAttributes := shared, instanceAttributes := own
        repr := repr.getD (.ofNames (own.map AttributeDecl.name))
        inheritsRepr := repr.isNone && own.isEmpty
        str },
      h.identifier, h.notGeneric, rfl, hbase, hdoc, hshared, hown, ⟨repr, hrepr, rfl, rfl⟩, hstr⟩

/-- A class declares the names of its body. -/
theorem ReadFrom.declaredNames_eq {c : ClassDecl} (h : ReadFrom name body classNames c) :
    c.declaredNames = sharedKeys body ++ ownKeys body := by
  unfold declaredNames ownKeys
  rw [map_name_readClassAttributes h.shared, h.instanceNames]

end ClassDecl

end LiveDoc
