/-
What a module answers to a name.

A module has names from three places: a few under which it shows itself,
its attributes, and its classes. Linking keeps the last two apart, and what
is bound later goes to the attributes alone. So under every name but the
module's own there is the last value that was bound to it, else the
declared one, else the class (`Module.get_of_document`).

What the attributes of a linked module stand for is kept item by item
(`Program.linkItems_denotes`): a value stands for the constant of some item
of its name, and everything made for later items leaves it alone. The
classes come with their declarations (`Program.exists_chain_of_link`).

The module's own names come first whatever is declared. A document may
declare attributes under them all the same, and those cannot be read
(`Module.own_name_hides_attribute`).
-/
import LiveDoc.Proofs.Correspondence
import LiveDoc.Proofs.NominalKinds

namespace LiveDoc

open ModuleDecl (attributeEntries classEntries)
open Traversal

-- ==================================================== insertions

namespace Entries

/-- Among entries the value is the last under the name. -/
def Last {α : Type} (es : Entries α) (key : String) (v : α) : Prop :=
  ∃ earlier later, es = earlier ++ (key, v) :: later ∧ key ∉ keys later

end Entries

namespace Table

variable {α : Type} (t : Table α)

theorem insertAll_append (es fs : Entries α) :
    t.insertAll (es ++ fs) = (t.insertAll es).insertAll fs := List.foldl_append

/-- Of entries with one name the last is found. -/
theorem find?_insertAll_of_last {es : Entries α} {key : String} {v : α} (h : es.Last key v) :
    (t.insertAll es).find? key = some v := by
  obtain ⟨earlier, later, rfl, hlater⟩ := h
  rw [insertAll_append]
  show (((t.insertAll earlier).insert key v).insertAll later).find? key = some v
  rw [find?_insertAll_of_notMem hlater, find?_insert, if_pos rfl]

end Table

-- ==================================================== attributes of a linked module

namespace Program

variable {p : Program} {items : List Item} {moduleName : String} {b b' : Bindings} {h h' : Heap}

/-- The attributes bound stand for constants of the items. -/
def Bound (items : List Item) (b : Bindings) (h : Heap) : Prop :=
  ∀ key v, b.attributes.find? key = some v → ∃ k, .moduleAttribute key k ∈ items ∧ h.Denotes v k

theorem Bound.grow (hb : Bound items b h) (hext : h.Extends h') : Bound items b h' := by
  intro key v hv
  obtain ⟨k, hk, hdenotes⟩ := hb key v hv
  exact ⟨k, hk, hdenotes.mono hext⟩

theorem linkItems_denotes (hlink : linkItems moduleName items b h = .ok (b', h'))
    (hb : Bound items b h) : Bound items b' h' := by
  refine linkItems_keeps (P := Bound items) hlink hb ?_ ?_
  · intro name value b h hitem hb key v hv
    obtain ⟨hmade, -, hdenotes⟩ := value.materialize_made h
    rw [Table.find?_insert] at hv
    split at hv
    case isTrue hkey =>
      cases hv
      exact ⟨value, hkey ▸ hitem, hdenotes⟩
    case isFalse => exact hb.grow hmade.grown key v hv
  · intro d ancestors b h _ hb _ _
    exact hb.grow (Class.link_grown moduleName ancestors d h).kept

/-- A linked module has the file and the documentation of its program. -/
theorem state_of_link {document : Json} {s : ModuleState} (hs : p.link document h = .ok (s, h')) :
    s.file = p.file ∧ s.doc = p.doc := by
  obtain ⟨⟨b, h₁⟩, -, hstate⟩ := bind_eq_ok.1 hs
  cases hstate
  exact ⟨rfl, rfl⟩

/-- The attributes of a linked module stand for constants of its items. -/
theorem exists_denotes_of_link {document : Json} {s : ModuleState}
    (hs : p.link document h = .ok (s, h')) {key : String} {v : Value}
    (hv : s.attributes.find? key = some v) :
    ∃ k, .moduleAttribute key k ∈ p.items ∧ h'.Denotes v k := by
  obtain ⟨⟨b, h₁⟩, hlink, hstate⟩ := bind_eq_ok.1 hs
  cases hstate
  exact linkItems_denotes hlink (fun key v hnone => by cases hnone) key v hv

end Program

namespace ModuleDecl.ReadFrom

variable {name file time : String} {root : Entries Json} {d : ModuleDecl} {before after : Heap}
  {s : ModuleState}

/-- The attributes are bound under the names that the document gives
them. -/
theorem mem_attributes_iff (hread : d.ReadFrom name file time root)
    (hs : (Program.ofModule d).link (.object root) before = .ok (s, after)) {key : String} :
    key ∈ s.attributes.keys ↔ key ∈ (attributeEntries root).keys := by
  have hpicked : (Program.ofModule d).items.filterMap Program.Item.attributeName?
      = d.attributes.map AttributeDecl.name := by
    rw [Program.items_ofModule, List.filterMap_append, List.filterMap_map, List.filterMap_map]
    have hclasses : Program.Item.attributeName? ∘ Program.Item.ofClass = fun _ => none := rfl
    have hattributes : Program.Item.attributeName? ∘ Program.Item.ofAttribute
        = some ∘ AttributeDecl.name := rfl
    rw [hclasses, hattributes, List.filterMap_eq_map, List.filterMap_none, List.append_nil]
  rw [(Program.keys_of_link hs).1, hpicked, hread.map_name_attributes]

/-- They stand for the values that it gives. -/
theorem denotes_attribute (hread : d.ReadFrom name file time root)
    (hroot : (Entries.keys root).Nodup)
    (hs : (Program.ofModule d).link (.object root) before = .ok (s, after)) {key : String}
    {v : Value} (hv : s.attributes.find? key = some v) {j : Json}
    (hj : (attributeEntries root).find? key = some j) : after.Denotes v (.ofJson j) := by
  obtain ⟨k, hitem, hdenotes⟩ := Program.exists_denotes_of_link hs hv
  rw [Program.items_ofModule, List.mem_append] at hitem
  rcases hitem with hitem | hitem
  · obtain ⟨a, ha, heq⟩ := List.mem_map.1 hitem
    cases heq
    rw [hread.attributes] at ha
    obtain ⟨field, hfield, rfl⟩ := List.mem_map.1 ha
    have hnodup : (attributeEntries root).keys.Nodup := by
      rw [← hread.map_name_attributes]
      exact hread.attributes_nodup hroot
    have hfound : (attributeEntries root).find? field.1 = some field.2 :=
      Entries.find?_of_mem hnodup hfield
    obtain rfl : field.2 = j := Option.some.inj (hfound.symm.trans hj)
    exact hdenotes
  · obtain ⟨c, -, heq⟩ := List.mem_map.1 hitem
    cases heq

/-- The classes are bound under the names that the document gives them. -/
theorem mem_classes_iff (hread : d.ReadFrom name file time root)
    (hs : (Program.ofModule d).link (.object root) before = .ok (s, after)) {key : String} :
    key ∈ s.classes.keys ↔ key ∈ (classEntries root).keys := by
  rw [(Program.keys_of_link hs).2, Program.items_ofModule, Program.classNames_items]
  exact hread.classes.classNames_perm.mem_iff

/-- A class and an attribute of one document that links have different
names. -/
theorem notMem_attributes (hread : d.ReadFrom name file time root)
    (hdistinct : (Json.object root).DistinctKeys)
    (hs : (Program.ofModule d).link (.object root) before = .ok (s, after)) {key : String}
    (hkey : key ∈ s.classes.keys) : key ∉ s.attributes.keys := by
  rcases Program.link_ofModule (hread.attributes_nodup hdistinct.1)
    (hread.classNames_nodup hdistinct) hread.classes.parentsPrecede (.object root) before with
    ⟨hfree, -⟩ | ⟨_, _, _, -, -, -, herror⟩
  · rw [hread.mem_classes_iff hs] at hkey
    obtain ⟨c, hc, rfl⟩ := List.mem_map.1 (hread.classes.classNames_perm.symm.subset hkey)
    rw [hread.mem_attributes_iff hs, ← hread.map_name_attributes]
    exact hfree c hc
  · rw [hs] at herror
    cases herror

end ModuleDecl.ReadFrom

-- ==================================================== names of a module

namespace Module

/-- The names under which a module shows itself. -/
def ownNames : List String := ["__name__", "__file__", "__doc__"]

/-- Bind module attributes one after the other. -/
def setAll (m : Module) (sets : Entries Value) : Module :=
  sets.foldl (fun m e => m.set e.1 e.2) m

variable {m : Module} {n : String}

/-- What is bound goes to the attributes, and nothing else changes. -/
theorem setAll_eq (m : Module) (sets : Entries Value) :
    m.setAll sets
      = { m with state := { m.state with attributes := m.state.attributes.insertAll sets } } := by
  induction sets generalizing m with
  | nil => rfl
  | cons e es ih => exact ih (m.set e.1 e.2)

/-- Names other than the module's own are looked up among attributes, then
among classes. -/
theorem get_of_notMem (hn : n ∉ ownNames) :
    m.get n = match m.state.attributes.find? n, m.state.classes.find? n with
      | some v, _ => .ok v
      | none, some c => .ok (.cls c)
      | none, none => .error (.noSuchAttribute m.kindName n) := by
  simp only [ownNames, List.mem_cons, List.not_mem_nil, or_false, not_or] at hn
  exact (if_neg hn.1).trans ((if_neg hn.2.1).trans (if_neg hn.2.2))

/-- A module with the state that a document was linked to, and values bound
to names after that. Its own names give its name, file and documentation.
Under every other name it gives the last value that was bound, else what
the document declares: the value of an attribute, or the class. -/
theorem get_of_document {document : Json} (hdistinct : document.DistinctKeys)
    {name file time : String} {d : ModuleDecl}
    (hd : ModuleDecl.ofDocument name file time document = .ok d) {before after : Heap}
    (hs : (Program.ofModule d).link document before = .ok (m.state, after))
    (sets : Entries Value) :
    ∃ root, document = .object root
      ∧ (m.setAll sets).get "__name__" = .ok (.str m.name)
      ∧ (m.setAll sets).get "__file__" = .ok (.str file)
      ∧ (m.setAll sets).get "__doc__" = .ok (.str d.doc)
      ∧ ∀ n, n ∉ ownNames →
        (∀ v, sets.Last n v → (m.setAll sets).get n = .ok v)
        ∧ (n ∉ sets.keys →
            (∀ j, (attributeEntries root).find? n = some j →
              ∃ v, (m.setAll sets).get n = .ok v ∧ after.Denotes v (.ofJson j))
            ∧ (n ∈ (classEntries root).keys → ∃ body decl c,
                (classEntries root).find? n = some (.object body)
                ∧ ClassDecl.ReadFrom n body (classEntries root).keys decl
                ∧ Lineage.Chain d after decl c.lineage
                ∧ (m.setAll sets).get n = .ok (.cls c) ∧ m.getClass n = .ok c)
            ∧ (n ∉ (attributeEntries root).keys → n ∉ (classEntries root).keys →
                (m.setAll sets).get n = .error (.noSuchAttribute m.kindName n))) := by
  obtain ⟨root, rfl⟩ := ModuleDecl.exists_root_of_ofDocument hd
  have hread := (ModuleDecl.ofDocument_eq_ok hdistinct.1).1 hd
  obtain ⟨hfile, hdoc⟩ := Program.state_of_link hs
  rw [setAll_eq]
  refine ⟨root, rfl, rfl, ?_, ?_, fun n hn => ⟨fun v hv => ?_, fun hunset => ⟨fun j hj => ?_,
    fun hclass => ?_, fun hattribute hclass => ?_⟩⟩⟩
  · show Except.ok (Value.str m.state.file) = _
    rw [hfile, ← hread.file_eq]
    rfl
  · show Except.ok (Value.str m.state.doc) = _
    rw [hdoc]
    rfl
  · rw [get_of_notMem hn]
    dsimp only
    rw [Table.find?_insertAll_of_last _ hv]
  -- what was not bound later is looked up in what was linked
  all_goals rw [get_of_notMem hn]; dsimp only; rw [Table.find?_insertAll_of_notMem hunset]
  · have hmem : n ∈ (attributeEntries root).keys := by
      by_contra hmissing
      rw [Entries.find?_eq_none_iff.2 hmissing] at hj
      cases hj
    obtain ⟨v, hv⟩ := Table.exists_find?_iff.2 ((hread.mem_attributes_iff hs).2 hmem)
    rw [hv]
    exact ⟨v, rfl, hread.denotes_attribute hdistinct.1 hs hv hj⟩
  · have hbound := (hread.mem_classes_iff hs).2 hclass
    obtain ⟨c, hc⟩ := Table.exists_find?_iff.2 hbound
    have hfree := Table.find?_eq_none_iff.2 (hread.notMem_attributes hdistinct hs hbound)
    obtain ⟨decl, rfl, hchain⟩ := Program.exists_chain_of_link hs hc
    obtain ⟨body, hbody, hparts⟩ := hread.classes.exists_body hchain.mem
    have hnodup := (ModuleDecl.classEntries_distinct hdistinct).1
    refine ⟨body, decl, c, Entries.find?_of_mem hnodup hbody, hparts, hchain, ?_, ?_⟩
    · rw [hfree, hc]
    · unfold getClass
      rw [hc]
  · have hnone := Table.find?_eq_none_iff.2 (mt (hread.mem_attributes_iff hs).1 hattribute)
    have hnoClass := Table.find?_eq_none_iff.2 (mt (hread.mem_classes_iff hs).1 hclass)
    rw [hnone, hnoClass]
    rfl

namespace Sample

/-- A class and two attributes beside it. -/
def station : Json :=
  .object [("Gauge", .object []), ("levels", .array [.number (.int 5)]), ("unit", .str "bar")]

theorem distinctKeys_station : station.DistinctKeys := by
  simp [station, Json.DistinctKeys, Json.DistinctKeysFields, Json.DistinctKeysAll, Entries.keys]

/-- One of the attributes is bound anew, twice. -/
def units : Entries Value := [("unit", .str "mbar"), ("unit", .str "psi")]

end Sample

/-- The last unit counts, and the rest is as declared. -/
theorem station_names :
    ∃ d s after, Sample.linked? "m" Sample.station .empty = some (d, s, after)
      ∧ ((ofState "m" s).setAll Sample.units).get "unit" = .ok (.str "psi")
      ∧ (∃ v, ((ofState "m" s).setAll Sample.units).get "levels" = .ok v
          ∧ after.Denotes v (.list [.int 5]))
      ∧ ∃ c, ((ofState "m" s).setAll Sample.units).get "Gauge" = .ok (.cls c)
          ∧ c.name = "Gauge" := by
  have hcomputed : (Sample.linked? "m" Sample.station .empty).isSome = true := by decide +kernel
  obtain ⟨⟨d, s, after⟩, hlinked⟩ := Option.isSome_iff_exists.1 hcomputed
  obtain ⟨hd, hs⟩ := Sample.linked?_eq_some hlinked
  obtain ⟨root, hroot, -, -, -, hnames⟩ :=
    get_of_document (m := ofState "m" s) Sample.distinctKeys_station hd hs Sample.units
  cases hroot
  have hlast : Sample.units.Last "unit" (.str "psi") :=
    ⟨[("unit", .str "mbar")], [], rfl, List.not_mem_nil⟩
  obtain ⟨hattribute, -, -⟩ := (hnames "levels" (by decide)).2 (by decide)
  obtain ⟨-, hclass, -⟩ := (hnames "Gauge" (by decide)).2 (by decide)
  obtain ⟨_, decl, c, -, hparts, hchain, hget, -⟩ := hclass (by decide)
  refine ⟨d, s, after, hlinked, (hnames "unit" (by decide)).1 _ hlast,
    hattribute (.array [.number (.int 5)]) rfl, c, hget, ?_⟩
  have hdefinition : c.node.definition = .ofDecl decl := hchain.head
  rw [Class.name, ClassNode.name, hdefinition]
  exact hparts.name_eq

/-- An attribute with one of the module's own names. -/
def Sample.named : Json := .object [("__name__", .number (.int 1))]

/-- A document may declare an attribute under one of the module's own names,
and a value may be bound to it later. Neither is what the module gives. -/
theorem own_name_hides_attribute :
    ∃ d s after, Sample.linked? "m" Sample.named .empty = some (d, s, after)
      ∧ s.attributes.find? "__name__" = some (.int 1)
      ∧ (ofState "m" s).get "__name__" ≠ .ok (.int 1)
      ∧ ((ofState "m" s).set "__name__" (.int 2)).get "__name__" ≠ .ok (.int 2) := by
  have hcomputed : (Sample.linked? "m" Sample.named .empty).isSome = true := by decide +kernel
  obtain ⟨⟨d, s, after⟩, hlinked⟩ := Option.isSome_iff_exists.1 hcomputed
  obtain ⟨hd, hs⟩ := Sample.linked?_eq_some hlinked
  have hkeys : (Entries.keys [("__name__", Json.number (.int 1))]).Nodup := by decide
  have hread := (ModuleDecl.ofDocument_eq_ok hkeys).1 hd
  obtain ⟨v, hv⟩ := Table.exists_find?_iff.2 ((hread.mem_attributes_iff hs).2 List.mem_cons_self)
  have hdenotes : after.Denotes v (.int 1) := hread.denotes_attribute hkeys hs hv rfl
  cases hdenotes
  exact ⟨d, s, after, hlinked, hv, fun h => (by cases h), fun h => (by cases h)⟩

end Module

end LiveDoc
