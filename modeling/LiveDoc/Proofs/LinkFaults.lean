/-
Where linking fails.

Linking walks the items of a program once and stops at the first that it
cannot bind. Whether it can depends on the items before it and on nothing
else: the names that are bound are theirs, and so are the classes that may
be parents (`Bindings.Binds`). `Item.fault?` says of one item what is wrong
with it behind others; one step of linking finds just that
(`linkItems_cons`), so a run fails with the fault of the first item that has
one and succeeds when none has (`linkItems_outcome`). This holds of programs
written by hand as well.

In the program of a declared module attributes come first, under distinct
names, then the classes, parents first. So no parent is ever missing, and
the only fault left is a class with the name of an attribute
(`fault?_classDef`). Where every object at the top level is a class the two
are keys of one object and cannot meet; beside `__classes__` they can.
-/
import LiveDoc.Proofs.Acceptance
import LiveDoc.Proofs.Linking

namespace LiveDoc

open ClassDecl (ParentsPrecede)
open Traversal

-- ==================================================== names of items

namespace Program

/-- The name that an item gives to a module attribute. -/
def Item.attributeName? : Item → Option String
  | .moduleAttribute name _ => some name
  | .classDef _ => none

/-- The name that an item gives to a class. -/
def Item.className? : Item → Option String
  | .moduleAttribute _ _ => none
  | .classDef c => some c.name

/-- A name is that of a module attribute or of a class. -/
theorem mem_names_iff {items : List Item} {name : String} :
    name ∈ items.map Item.name
      ↔ name ∈ items.filterMap Item.attributeName? ∨ name ∈ items.filterMap Item.className? := by
  induction items with
  | nil => simp
  | cons item items ih =>
    cases item with
    | moduleAttribute key value =>
      simp [Item.name, Item.attributeName?, Item.className?, ih, or_assoc]
    | classDef c =>
      simp [Item.name, Item.attributeName?, Item.className?, ih, or_left_comm]

/-- What is wrong with an item behind others, if anything: its name is
taken, or its parent is no class before it. -/
def Item.fault? (before : List Item) : Item → Option LinkError
  | .moduleAttribute name _ =>
    if name ∈ before.map Item.name then some (.duplicateName name) else none
  | .classDef c =>
    if c.name ∈ before.map Item.name then some (.duplicateName c.name)
    else
      match c.base with
      | none => none
      | some base =>
        if base ∈ before.filterMap Item.className? then none
        else some (.unknownBase c.name base)

/-- None of the items has a fault, behind those before it. -/
def Faultless (before items : List Item) : Prop :=
  ∀ early item late, items = early ++ item :: late → item.fault? (before ++ early) = none

theorem faultless_nil (before : List Item) : Faultless before [] :=
  fun early item late h => absurd h.symm (by simp)

/-- The first item counts as one of those before the next. -/
theorem faultless_cons {before items : List Item} {item : Item} :
    Faultless before (item :: items)
      ↔ item.fault? before = none ∧ Faultless (before ++ [item]) items := by
  constructor
  · intro h
    refine ⟨by simpa using h [] item items rfl, ?_⟩
    rintro early item' late rfl
    simpa using h (item :: early) item' late rfl
  · intro h early item' late heq
    obtain ⟨hitem, hitems⟩ := h
    cases early with
    | nil =>
      cases heq
      simpa using hitem
    | cons first early =>
      cases heq
      simpa using hitems early item' late rfl

-- ==================================================== what is bound

end Program

open Program (Item Faultless)

/-- The bindings are those of the items. -/
structure Bindings.Binds (b : Bindings) (items : List Item) : Prop where
  attributes : b.attributes.keys = items.filterMap Item.attributeName?
  classes : b.classes.keys = items.filterMap Item.className?

namespace Bindings.Binds

variable {b : Bindings} {before : List Item}

theorem nil : Binds {} [] := ⟨rfl, rfl⟩

/-- The bindings take the names of the items before, and no others. -/
theorem contains_iff (hb : b.Binds before) {name : String} :
    b.contains name = true ↔ name ∈ before.map Item.name := by
  rw [Bindings.contains, Bool.or_eq_true, Table.contains_iff, Table.contains_iff, hb.attributes,
    hb.classes, Program.mem_names_iff]

/-- A class finds its parent exactly when a class before it has the
name. -/
theorem ancestors?_eq_none_iff (hb : b.Binds before) {base : String} :
    b.ancestors? (some base) = none ↔ base ∉ before.filterMap Item.className? := by
  rw [Bindings.ancestors?, Option.map_eq_none_iff, Table.find?_eq_none_iff, hb.classes]

/-- Binding one more attribute binds one more item, -/
theorem snoc_attribute (hb : b.Binds before) {name : String} {value : Constant} (v : Value)
    (hfree : name ∉ before.map Item.name) :
    Binds { b with attributes := b.attributes.insert name v }
      (before ++ [.moduleAttribute name value]) where
  attributes := by
    have hnot : name ∉ b.attributes.keys := by
      rw [hb.attributes]
      exact fun hmem => hfree (Program.mem_names_iff.2 (.inl hmem))
    rw [Table.keys_insert, if_neg hnot, hb.attributes, List.filterMap_append]
    rfl
  classes := by
    rw [hb.classes, List.filterMap_append]
    exact (List.append_nil _).symm

/-- and so does binding one more class. -/
theorem snoc_class (hb : b.Binds before) {d : Program.ClassDef} (live : Class)
    (hfree : d.name ∉ before.map Item.name) :
    Binds { b with classes := b.classes.insert d.name live } (before ++ [.classDef d]) where
  attributes := by
    rw [hb.attributes, List.filterMap_append]
    exact (List.append_nil _).symm
  classes := by
    have hnot : d.name ∉ b.classes.keys := by
      rw [hb.classes]
      exact fun hmem => hfree (Program.mem_names_iff.2 (.inr hmem))
    rw [Table.keys_insert, if_neg hnot, hb.classes, List.filterMap_append]
    rfl

end Bindings.Binds

-- ==================================================== linking

namespace Program

variable {before : List Item} {b : Bindings}

/-- One step: the fault of the item ends linking, and without one the item
is bound and linking goes on. -/
theorem linkItems_cons (moduleName : String) (hb : b.Binds before) (item : Item)
    (items : List Item) (h : Heap) :
    (∃ e, item.fault? before = some e ∧ linkItems moduleName (item :: items) b h = .error e)
      ∨ (item.fault? before = none ∧ ∃ b' h', b'.Binds (before ++ [item])
          ∧ linkItems moduleName (item :: items) b h = linkItems moduleName items b' h') := by
  cases item with
  | moduleAttribute name value =>
    rw [linkItems, Item.fault?]
    by_cases htaken : name ∈ before.map Item.name
    · exact .inl ⟨_, if_pos htaken, if_pos (hb.contains_iff.2 htaken)⟩
    · have hfree : ¬ b.contains name = true := mt hb.contains_iff.1 htaken
      exact .inr ⟨if_neg htaken, _, _, hb.snoc_attribute _ htaken, if_neg hfree⟩
  | classDef d =>
    rw [linkItems, Item.fault?]
    by_cases htaken : d.name ∈ before.map Item.name
    · exact .inl ⟨_, if_pos htaken, if_pos (hb.contains_iff.2 htaken)⟩
    · have hfree : ¬ b.contains d.name = true := mt hb.contains_iff.1 htaken
      rw [if_neg htaken, if_neg hfree]
      cases hbase : d.base with
      | none => exact .inr ⟨rfl, _, _, hb.snoc_class _ htaken, rfl⟩
      | some base =>
        cases hparent : b.ancestors? (some base) with
        | none =>
          have hunknown := hb.ancestors?_eq_none_iff.1 hparent
          exact .inl ⟨_, if_neg hunknown, rfl⟩
        | some ancestors =>
          -- a parent that is found was bound by an item before
          have hknown : base ∈ before.filterMap Item.className? := by
            by_contra hunknown
            rw [hb.ancestors?_eq_none_iff.2 hunknown] at hparent
            cases hparent
          exact .inr ⟨if_pos hknown, _, _, hb.snoc_class _ htaken, rfl⟩

/-- A run: it binds all items when none has a fault, and otherwise fails as
the first that has one. -/
theorem linkItems_outcome (moduleName : String) (hb : b.Binds before) (items : List Item)
    (h : Heap) :
    (Faultless before items ∧ ∃ b' h', b'.Binds (before ++ items)
        ∧ linkItems moduleName items b h = .ok (b', h'))
      ∨ ∃ early item late e, items = early ++ item :: late ∧ Faultless before early
          ∧ item.fault? (before ++ early) = some e
          ∧ linkItems moduleName items b h = .error e := by
  induction items generalizing before b h with
  | nil => exact .inl ⟨faultless_nil before, b, h, by simpa using hb, rfl⟩
  | cons item items ih =>
    rcases linkItems_cons moduleName hb item items h with ⟨e, hfault, hlink⟩ |
      ⟨hfault, b₁, h₁, hb₁, hlink⟩
    · exact .inr ⟨[], item, items, e, rfl, faultless_nil before, by simpa using hfault, hlink⟩
    · rw [hlink]
      rcases ih hb₁ h₁ with ⟨hrest, b', h', hb', hok⟩ |
        ⟨early, other, late, e, rfl, hearly, hother, herror⟩
      · exact .inl ⟨faultless_cons.2 ⟨hfault, hrest⟩, b', h', by simpa using hb', hok⟩
      · exact .inr ⟨item :: early, other, late, e, rfl, faultless_cons.2 ⟨hfault, hearly⟩,
          by simpa using hother, herror⟩

/-- Items are linked one after the other, so they may be linked in two
parts. -/
theorem linkItems_append (moduleName : String) (xs ys : List Item) (b : Bindings) (h : Heap) :
    linkItems moduleName (xs ++ ys) b h
      = (linkItems moduleName xs b h >>= fun r => linkItems moduleName ys r.1 r.2) := by
  induction xs generalizing b h with
  | nil => rfl
  | cons x xs ih =>
    cases x with
    | moduleAttribute name value =>
      rw [List.cons_append, linkItems, linkItems]
      split
      · rfl
      · exact ih _ _
    | classDef d =>
      rw [List.cons_append, linkItems, linkItems]
      split
      · rfl
      · split
        · rfl
        · exact ih _ _

end Program

-- ==================================================== declared modules

namespace Program

/-- The item of a module attribute. -/
def Item.ofAttribute (a : AttributeDecl) : Item :=
  .moduleAttribute a.name (Constant.ofJson a.default)

/-- The item of a declared class. -/
def Item.ofClass (c : ClassDecl) : Item := .classDef (.ofDecl c)

/-- Attributes come first in a program, then classes. -/
theorem items_ofModule (m : ModuleDecl) :
    (ofModule m).items = m.attributes.map Item.ofAttribute ++ m.classes.map Item.ofClass := rfl

theorem map_name_ofAttribute (as : List AttributeDecl) :
    (as.map Item.ofAttribute).map Item.name = as.map AttributeDecl.name := by
  rw [List.map_map]
  rfl

theorem map_name_ofClass (cs : List ClassDecl) :
    (cs.map Item.ofClass).map Item.name = cs.map ClassDecl.name := by
  rw [List.map_map]
  rfl

/-- What is picked of classes alone is picked of the classes of a module. -/
theorem filterMap_items {α : Type} (pick : Item → Option α) (f : ClassDecl → α)
    (hattribute : ∀ a, pick (.ofAttribute a) = none) (hclass : ∀ c, pick (.ofClass c) = some (f c))
    (as : List AttributeDecl) (cs : List ClassDecl) :
    (as.map Item.ofAttribute ++ cs.map Item.ofClass).filterMap pick = cs.map f := by
  have hnone : pick ∘ Item.ofAttribute = fun _ => none := funext hattribute
  have hsome : pick ∘ Item.ofClass = some ∘ f := funext hclass
  rw [List.filterMap_append, List.filterMap_map, List.filterMap_map, hnone, hsome,
    List.filterMap_eq_map, List.filterMap_eq_nil_iff.2 fun _ _ => rfl, List.nil_append]

/-- Attributes define no class. -/
theorem classNames_items (as : List AttributeDecl) (cs : List ClassDecl) :
    (as.map Item.ofAttribute ++ cs.map Item.ofClass).filterMap Item.className?
      = cs.map ClassDecl.name :=
  filterMap_items _ ClassDecl.name (fun _ => rfl) (fun _ => rfl) as cs

/-- The classes of the program are those of the module, in order. -/
theorem names_classes_ofModule (m : ModuleDecl) :
    (ofModule m).classes.map ClassDef.name = m.classes.map ClassDecl.name := by
  have hclasses : (ofModule m).classes = m.classes.map ClassDef.ofDecl :=
    filterMap_items _ ClassDef.ofDecl (fun _ => rfl) (fun _ => rfl) m.attributes m.classes
  rw [hclasses, List.map_map]
  rfl

/-- Module attributes under distinct names have no fault. -/
theorem faultless_attributes {as : List AttributeDecl} (has : (as.map AttributeDecl.name).Nodup) :
    Faultless [] (as.map Item.ofAttribute) := by
  intro early item late heq
  obtain ⟨before, rest, rfl, rfl, hrest⟩ := List.map_eq_append_iff.1 heq
  obtain ⟨a, after, rfl, rfl, -⟩ := List.map_eq_cons_iff.1 hrest
  have hfree : a.name ∉ before.map AttributeDecl.name := by
    rw [List.map_append, List.nodup_append] at has
    intro hmem
    exact has.2.2 _ hmem _ (List.mem_map_of_mem List.mem_cons_self) rfl
  rw [List.nil_append, Item.ofAttribute, Item.fault?, map_name_ofAttribute, if_neg hfree]

/-- A class behind the attributes and the classes before it: its parent is
among them, and its name is taken only by an attribute. -/
theorem fault?_classDef {as : List AttributeDecl} {classes before after : List ClassDecl}
    {c : ClassDecl} (hnames : (classes.map ClassDecl.name).Nodup) (horder : ParentsPrecede classes)
    (hsplit : classes = before ++ c :: after) :
    (Item.ofClass c).fault? (as.map Item.ofAttribute ++ before.map Item.ofClass)
      = if c.name ∈ as.map AttributeDecl.name then some (.duplicateName c.name) else none := by
  have hfree : c.name ∉ before.map ClassDecl.name := by
    rw [hsplit, List.map_append, List.nodup_append] at hnames
    intro hmem
    exact hnames.2.2 _ hmem _ (List.mem_map_of_mem List.mem_cons_self) rfl
  have htaken : c.name ∈ (as.map Item.ofAttribute ++ before.map Item.ofClass).map Item.name
      ↔ c.name ∈ as.map AttributeDecl.name := by
    rw [List.map_append, List.mem_append, map_name_ofAttribute, map_name_ofClass, or_iff_left hfree]
  have hparent : ∀ base, c.base = some base →
      base ∈ (as.map Item.ofAttribute ++ before.map Item.ofClass).filterMap Item.className? := by
    intro base hbase
    rw [classNames_items]
    exact horder before c after hsplit base hbase
  have hfault : (Item.ofClass c).fault? (as.map Item.ofAttribute ++ before.map Item.ofClass)
      = if c.name ∈ (as.map Item.ofAttribute ++ before.map Item.ofClass).map Item.name then
          some (.duplicateName c.name) else none := by
    rw [Item.ofClass, Item.fault?]
    refine if_congr Iff.rfl rfl ?_
    show (match c.base with | none => none | some base => _) = none
    cases hbase : c.base with
    | none => rfl
    | some base => exact if_pos (hparent base hbase)
  rw [hfault]
  exact if_congr htaken rfl rfl

/-- Linked items are all bound. -/
theorem keys_of_link {p : Program} {document : Json} {s : ModuleState} {h h' : Heap}
    (hs : p.link document h = .ok (s, h')) :
    s.attributes.keys = p.items.filterMap Item.attributeName?
      ∧ s.classes.keys = p.items.filterMap Item.className? := by
  obtain ⟨⟨b, h₁⟩, hlink, hstate⟩ := bind_eq_ok.1 hs
  cases hstate
  rcases linkItems_outcome p.name .nil p.items h with
    ⟨-, b', h', hb', hok⟩ | ⟨_, _, _, e, _, _, _, herror⟩
  · rw [hlink] at hok
    cases hok
    exact ⟨hb'.attributes, hb'.classes⟩
  · rw [hlink] at herror
    cases herror

/-- Classes without a fault have names of their own. -/
theorem notMem_of_faultless {as : List AttributeDecl} {classes before after : List ClassDecl}
    (hnames : (classes.map ClassDecl.name).Nodup) (horder : ParentsPrecede classes)
    (hsplit : classes = before ++ after)
    (hfaultless : Faultless (as.map Item.ofAttribute) (before.map Item.ofClass)) :
    ∀ d ∈ before, d.name ∉ as.map AttributeDecl.name := by
  intro d hd htaken
  obtain ⟨earlier, later, rfl⟩ := List.append_of_mem hd
  have hnone := hfaultless (earlier.map Item.ofClass) (.ofClass d) (later.map Item.ofClass) (by simp)
  rw [fault?_classDef hnames horder (hsplit.trans (List.append_assoc ..)), if_pos htaken] at hnone
  cases hnone

/-- A declared module links unless a class has the name of an attribute;
then linking fails at the first class that has. -/
theorem link_ofModule {m : ModuleDecl} (hattributes : (m.attributes.map AttributeDecl.name).Nodup)
    (hnames : m.classNames.Nodup) (horder : ParentsPrecede m.classes) (document : Json) (h : Heap) :
    ((∀ c ∈ m.classes, c.name ∉ m.attributes.map AttributeDecl.name)
        ∧ ∃ s h', (ofModule m).link document h = .ok (s, h'))
      ∨ ∃ before c after, m.classes = before ++ c :: after
          ∧ (∀ d ∈ before, d.name ∉ m.attributes.map AttributeDecl.name)
          ∧ c.name ∈ m.attributes.map AttributeDecl.name
          ∧ (ofModule m).link document h = .error (.duplicateName c.name) := by
  rcases linkItems_outcome m.name .nil (m.attributes.map Item.ofAttribute) h with
    ⟨-, b, h₁, hb, hok⟩ | ⟨early, item, late, e, heq, -, hfault, -⟩
  · -- the attributes are bound, and what is left of the run are the classes
    have hrun : linkItems m.name (ofModule m).items {} h
        = linkItems m.name (m.classes.map Item.ofClass) b h₁ := by
      rw [items_ofModule, linkItems_append, hok, ok_bind]
    rw [List.nil_append] at hb
    rcases linkItems_outcome m.name hb (m.classes.map Item.ofClass) h₁ with
      ⟨hfaultless, b', h', -, hlink⟩ | ⟨early, item, late, e, heq, hfaultless, hfault, hlink⟩
    · have hfree := notMem_of_faultless hnames horder (List.append_nil _).symm hfaultless
      exact .inl ⟨hfree, _, h', bind_eq_ok.2 ⟨(b', h'), hrun.trans hlink, rfl⟩⟩
    · obtain ⟨before, rest, hsplit, rfl, hrest⟩ := List.map_eq_append_iff.1 heq
      obtain ⟨c, after, rfl, rfl, -⟩ := List.map_eq_cons_iff.1 hrest
      have hfree := notMem_of_faultless hnames horder hsplit hfaultless
      rw [fault?_classDef hnames horder hsplit] at hfault
      obtain ⟨htaken, he⟩ := Option.ite_none_right_eq_some.1 hfault
      refine .inr ⟨before, c, after, hsplit, hfree, htaken, ?_⟩
      show (linkItems m.name (ofModule m).items {} h >>= _) = _
      rw [hrun.trans hlink, ← Option.some.inj he]
      rfl
  · rw [faultless_attributes hattributes early item late heq] at hfault
    cases hfault

-- ==================================================== documents

end Program

namespace ModuleDecl

/-- The keys of a document that stay module attributes beside
`__classes__`. -/
def keptKeys (root : Entries Json) : List String :=
  root.keys.filter fun key => key ≠ "__doc__" ∧ key ≠ "__classes__"

variable {root : Entries Json}

/-- In an explicit document all entries but the reserved ones are
attributes. -/
theorem keys_attributeEntries {classes : Json}
    (hclasses : Entries.find? root classesKey = some classes) :
    (attributeEntries root).keys = keptKeys root := by
  unfold attributeEntries keptKeys Entries.keys
  rw [hclasses, List.filter_map]
  rfl

/-- Without `__classes__` no class has the name of an attribute: both are
keys of one object. -/
theorem notMem_attributeEntries (hroot : (Entries.keys root).Nodup)
    (hclasses : Entries.find? root classesKey = none) {key : String}
    (hkey : key ∈ (classEntries root).keys) : key ∉ (attributeEntries root).keys := by
  unfold classEntries at hkey
  unfold attributeEntries
  rw [hclasses] at hkey ⊢
  intro hattribute
  obtain ⟨⟨_, j⟩, hj, rfl⟩ := List.mem_map.1 hkey
  obtain ⟨⟨_, j'⟩, hj', heq⟩ := List.mem_map.1 hattribute
  cases heq
  obtain ⟨hmem, hobject⟩ := List.mem_filter.1 hj
  obtain ⟨hmem', hnot⟩ := List.mem_filter.1 hj'
  have hsame := Entries.find?_of_mem hroot hmem
  rw [Entries.find?_of_mem hroot hmem'] at hsame
  cases hsame
  simp only [decide_eq_true_eq] at hobject hnot
  rw [hobject.2] at hnot
  cases hnot.2

variable {name file time : String} {m : ModuleDecl}

/-- Attributes are read in the order of their entries. -/
theorem ReadFrom.map_name_attributes (hread : m.ReadFrom name file time root) :
    m.attributes.map AttributeDecl.name = (attributeEntries root).keys := by
  rw [hread.attributes, List.map_map]
  rfl

/-- The names of a document are distinct, so no attribute clashes with another
one. -/
theorem ReadFrom.attributes_nodup (hread : m.ReadFrom name file time root)
    (hroot : (Entries.keys root).Nodup) : (m.attributes.map AttributeDecl.name).Nodup := by
  rw [hread.map_name_attributes]
  unfold attributeEntries
  split <;> exact hroot.sublist (List.Sublist.map _ List.filter_sublist)

/-- The names of a module declared with `__classes__`. -/
theorem ReadFrom.explicit_names (hread : m.ReadFrom name file time root)
    (hroot : (Entries.keys root).Nodup) {classes : Json}
    (hclasses : Entries.find? root "__classes__" = some classes) :
    ∃ bodies, classes = .object bodies ∧ m.classNames.Perm (Entries.keys bodies)
      ∧ m.attributes.map AttributeDecl.name = keptKeys root := by
  obtain ⟨bodies, rfl, -⟩ := ((exists_readEntries_iff hroot).1 hread.readable).1 classes hclasses
  have hentries : classEntries root = bodies := by
    unfold classEntries classesKey
    rw [hclasses]
    rfl
  refine ⟨bodies, rfl, ?_, ?_⟩
  · rw [← hentries]
    exact hread.classes.classNames_perm
  · rw [hread.map_name_attributes, keys_attributeEntries hclasses]

/-- Without it no class has the name of an attribute. -/
theorem ReadFrom.implicit_names (hread : m.ReadFrom name file time root)
    (hroot : (Entries.keys root).Nodup) (hclasses : Entries.find? root "__classes__" = none)
    {c : ClassDecl} (hc : c ∈ m.classes) : c.name ∉ m.attributes.map AttributeDecl.name := by
  rw [hread.map_name_attributes]
  apply notMem_attributeEntries hroot hclasses
  exact hread.classes.classNames_perm.subset (List.mem_map_of_mem hc)

end ModuleDecl

/-- Linking the program of a document never misses a parent. It fails
exactly when the document has `__classes__` and a class in it has the name
of a root key that is kept as a module attribute, and then at the first
such class of the program. So without `__classes__` it succeeds. -/
theorem Program.declared_links_unless_clash {document : Json} (hdistinct : document.DistinctKeys)
    {name file time : String} {m : ModuleDecl}
    (hm : ModuleDecl.ofDocument name file time document = .ok m) (before : Heap) :
    ∃ root, document = .object root
      ∧ (∀ className base,
          (ofModule m).link document before ≠ .error (.unknownBase className base))
      ∧ ((∃ key, (ofModule m).link document before = .error (.duplicateName key))
          ↔ ∃ bodies, Entries.find? root "__classes__" = some (.object bodies)
            ∧ ∃ key ∈ Entries.keys bodies, key ∈ ModuleDecl.keptKeys root)
      ∧ (∀ key, (ofModule m).link document before = .error (.duplicateName key) →
          ((ofModule m).classes.map ClassDef.name).find? (· ∈ ModuleDecl.keptKeys root) = some key)
      ∧ (Entries.find? root "__classes__" = none →
          ∃ s after, (ofModule m).link document before = .ok (s, after)) := by
  obtain ⟨root, rfl⟩ := ModuleDecl.exists_root_of_ofDocument hm
  have hread := (ModuleDecl.ofDocument_eq_ok hdistinct.1).1 hm
  refine ⟨root, rfl, ?_⟩
  have hlink := link_ofModule (hread.attributes_nodup hdistinct.1)
    (hread.classNames_nodup hdistinct) hread.classes.parentsPrecede (.object root) before
  cases hclasses : Entries.find? root "__classes__" with
  -- an implicit document has its classes and attributes in one object, so no two
  -- names clash
  | none =>
    rcases hlink with ⟨-, s, after, hok⟩ | ⟨earlier, c, later, hsplit, -, hclash, -⟩
    · rw [hok]
      refine ⟨fun _ _ h => (by cases h), ⟨fun ⟨_, h⟩ => (by cases h), fun ⟨_, h, _⟩ => (by cases h)⟩,
        fun _ h => (by cases h), fun _ => ⟨s, after, rfl⟩⟩
    · have hc : c ∈ m.classes := by
        rw [hsplit]
        simp
      exact absurd hclash (hread.implicit_names hdistinct.1 hclasses hc)
  | some classes =>
    obtain ⟨bodies, rfl, hperm, hattributes⟩ := hread.explicit_names hdistinct.1 hclasses
    rw [hattributes] at hlink
    rcases hlink with ⟨hfree, s, after, hok⟩ | ⟨earlier, c, later, hsplit, hearlier, hkept, herror⟩
    · rw [hok]
      refine ⟨fun _ _ h => (by cases h), ⟨fun ⟨_, h⟩ => (by cases h), ?_⟩, fun _ h => (by cases h),
        fun h => (by cases h)⟩
      rintro ⟨_, heq, key, hkey, hkept⟩
      cases heq
      obtain ⟨c, hc, rfl⟩ := List.mem_map.1 (hperm.symm.subset hkey)
      exact absurd hkept (hfree c hc)
    · rw [herror]
      have hc : c.name ∈ m.classNames := by
        unfold ModuleDecl.classNames
        rw [hsplit]
        simp
      -- classes are emitted parents first, and the first clash in that order is the one
      -- reported
      have hfirst : ((ofModule m).classes.map ClassDef.name).find?
          (· ∈ ModuleDecl.keptKeys root) = some c.name := by
        rw [names_classes_ofModule, hsplit, List.find?_eq_some_iff_append]
        refine ⟨decide_eq_true hkept, earlier.map ClassDecl.name, later.map ClassDecl.name,
          List.map_append, ?_⟩
        intro key hkey
        obtain ⟨d, hd, rfl⟩ := List.mem_map.1 hkey
        simpa using hearlier d hd
      refine ⟨fun _ _ h => (by cases h),
        ⟨fun _ => ⟨bodies, rfl, c.name, hperm.subset hc, hkept⟩, fun _ => ⟨_, rfl⟩⟩, ?_,
        fun h => (by cases h)⟩
      intro key hkey
      cases hkey
      exact hfirst

namespace Sample

/-- Two classes have the names of attributes. The one declared first is
emitted last, since it stands before its parent. -/
def clashing : Json :=
  .object [
    ("units", .object [("level", .str "bar")]),
    ("__classes__", .object [
      ("units", .object [("__parent__", .str "Device")]),
      ("Device", .object [("label", .str "d")]),
      ("Gauge", .object [])]),
    ("Gauge", .null)]

theorem distinctKeys_clashing : clashing.DistinctKeys := by
  simp [clashing, Json.DistinctKeys, Json.DistinctKeysFields, Entries.keys]

/-- What is wrong with the program of a document, if anything. -/
def linkFault? (document : Json) : Option LinkError :=
  match ModuleDecl.ofDocument "samples" "samples.json" "now" document with
  | .error _ => none
  | .ok m =>
    match (Program.ofModule m).link document .empty with
    | .error e => some e
    | .ok _ => none

end Sample

/-- The clash that is reported is the first in the order of the program. -/
theorem Program.clashing_reports_gauge :
    ∃ m, ModuleDecl.ofDocument "samples" "samples.json" "now" Sample.clashing = .ok m
      ∧ (ofModule m).link Sample.clashing .empty = .error (.duplicateName "Gauge")
      ∧ ∃ root, Sample.clashing = .object root
        ∧ ((ofModule m).classes.map ClassDef.name).find? (· ∈ ModuleDecl.keptKeys root)
          = some "Gauge" := by
  have hfault : Sample.linkFault? Sample.clashing = some (.duplicateName "Gauge") := by
    decide +kernel
  unfold Sample.linkFault? at hfault
  split at hfault
  case h_1 => cases hfault
  case h_2 m hm =>
    split at hfault
    case h_1 e hlink =>
      cases hfault
      obtain ⟨root, hroot, -, -, hfirst, -⟩ :=
        declared_links_unless_clash Sample.distinctKeys_clashing hm .empty
      exact ⟨m, hm, hlink, root, hroot, hfirst "Gauge" hlink⟩
    case h_2 => cases hfault

end LiveDoc
