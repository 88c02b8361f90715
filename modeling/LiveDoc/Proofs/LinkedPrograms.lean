/-
Which programs link, and to what.

Linking takes any list of items, also one that no document would give.
Attributes and classes share one namespace but only classes can be
parents, so an item goes wrong behind others in two ways
(`Item.Offends`), and a name that is taken counts before a parent that is
missing. A program links exactly when its names are distinct and every
parent is a class before its children (`Linkable`); otherwise it fails as
its first item that offends (`FirstOffence`).

What a program links to is read off the tables in the end. Their names are
those of the items, in order (`keys_of_link`); since each name stands for
one item, knowing that a class or a value comes from some item of its name
is knowing which (`Linkable.definition_unique`). That no class is its own
ancestor is nowhere checked. It follows from how classes are bound: all
that a class derives from stands in one table, each class under its name,
so two classes of one lineage with one name would be one class
(`AncestorClosed.nodup_lineage`).
-/
import LiveDoc.Proofs.ModuleNames

namespace LiveDoc

open Traversal

-- ==================================================== items that offend

namespace Program

/-- What is wrong with an item behind others: its name is taken; or its name
is free, and it is a class whose parent is no class before it. -/
inductive Item.Offends (before : List Item) : Item → LinkError → Prop
  | duplicate {item : Item} (taken : item.name ∈ before.map Item.name) :
      Offends before item (.duplicateName item.name)
  | orphan {c : ClassDef} {base : String} (free : c.name ∉ before.map Item.name)
      (parent : c.base = some base) (missing : ∀ d, .classDef d ∈ before → d.name ≠ base) :
      Offends before (.classDef c) (.unknownBase c.name base)

/-- The error of the first item that offends. -/
def FirstOffence (items : List Item) (e : LinkError) : Prop :=
  ∃ before item after, items = before ++ item :: after ∧ item.Offends before e
    ∧ ∀ early other late, before = early ++ other :: late → ∀ e', ¬ other.Offends early e'

/-- Names are distinct, and parents are classes before their children. -/
structure Linkable (items : List Item) : Prop where
  distinct : (items.map Item.name).Nodup
  parents : ∀ before c after, items = before ++ .classDef c :: after →
    ∀ base, c.base = some base → ∃ d, .classDef d ∈ before ∧ d.name = base

variable {items before : List Item}

/-- A name is that of a class when some item defines the class. -/
theorem mem_classNames_iff {name : String} :
    name ∈ items.filterMap Item.className? ↔ ∃ d, .classDef d ∈ items ∧ d.name = name := by
  rw [List.mem_filterMap]
  constructor
  · rintro ⟨item, hitem, hname⟩
    cases item with
    | moduleAttribute key value => cases hname
    | classDef d => exact ⟨d, hitem, Option.some.inj hname⟩
  · rintro ⟨d, hd, rfl⟩
    exact ⟨.classDef d, hd, rfl⟩

/-- Offending is having a fault. -/
theorem Item.offends_iff {item : Item} {e : LinkError} :
    item.Offends before e ↔ item.fault? before = some e := by
  constructor
  · intro h
    cases h with
    | duplicate htaken =>
      cases item with
      | moduleAttribute key value => exact if_pos htaken
      | classDef c => exact if_pos htaken
    | @orphan c base hfree hparent hmissing =>
      have hunknown : base ∉ before.filterMap Item.className? := by
        rw [mem_classNames_iff]
        rintro ⟨d, hd, hname⟩
        exact hmissing d hd hname
      rw [Item.fault?, if_neg hfree, hparent]
      exact if_neg hunknown
  · intro h
    cases item with
    | moduleAttribute key value =>
      obtain ⟨htaken, he⟩ := Option.ite_none_right_eq_some.1 h
      cases he
      exact .duplicate htaken
    | classDef c =>
      rw [Item.fault?] at h
      by_cases htaken : c.name ∈ before.map Item.name
      · rw [if_pos htaken] at h
        cases h
        exact .duplicate htaken
      · rw [if_neg htaken] at h
        cases hparent : c.base with
        | none =>
          rw [hparent] at h
          cases h
        | some base =>
          rw [hparent] at h
          obtain ⟨hunknown, he⟩ := Option.ite_none_left_eq_some.1 h
          cases he
          refine .orphan htaken hparent fun d hd hname => hunknown ?_
          exact mem_classNames_iff.2 ⟨d, hd, hname⟩

/-- Items have no fault exactly when none offends. -/
theorem faultless_iff_not_offends :
    Faultless [] items
      ↔ ∀ early item late, items = early ++ item :: late → ∀ e, ¬ item.Offends early e := by
  refine forall_congr' fun early => forall_congr' fun item => forall_congr' fun late =>
    imp_congr_right fun _ => ?_
  rw [List.nil_append, Option.eq_none_iff_forall_ne_some]
  exact forall_congr' fun e => not_congr Item.offends_iff.symm

/-- A list has no repetition exactly when nothing in it occurs before. -/
theorem nodup_map_name_iff :
    (items.map Item.name).Nodup
      ↔ ∀ before item after, items = before ++ item :: after →
        item.name ∉ before.map Item.name := by
  constructor
  · rintro h before item after rfl
    rw [List.map_append, List.nodup_append] at h
    exact fun htaken => h.2.2 _ htaken _ List.mem_cons_self rfl
  · intro h
    induction items using List.reverseRecOn with
    | nil => exact List.nodup_nil
    | append_singleton items last ih =>
      have hlast := h items last [] rfl
      have hitems := ih fun before item after heq =>
        h before item (after ++ [last]) (by rw [heq, List.append_assoc, List.cons_append])
      rw [List.map_append, List.nodup_append]
      refine ⟨hitems, List.nodup_singleton _, ?_⟩
      rintro name hname _ hmem rfl
      rw [List.map_singleton, List.mem_singleton] at hmem
      exact hlast (hmem ▸ hname)

/-- Seen as a whole, a program is linkable exactly when none of its items is at
fault among those before it. -/
theorem linkable_iff_faultless : Linkable items ↔ Faultless [] items := by
  rw [faultless_iff_not_offends]
  constructor
  · intro h early item late heq e hoffends
    cases hoffends with
    | duplicate htaken => exact nodup_map_name_iff.1 h.distinct early item late heq htaken
    | orphan hfree hparent hmissing =>
      obtain ⟨d, hd, hname⟩ := h.parents early _ late heq _ hparent
      exact hmissing d hd hname
  · intro h
    have hfree : ∀ before item after, items = before ++ item :: after →
        item.name ∉ before.map Item.name :=
      fun before item after heq htaken => h before item after heq _ (.duplicate htaken)
    refine ⟨nodup_map_name_iff.2 hfree, ?_⟩
    intro before c after heq base hparent
    by_contra hnone
    refine h before _ after heq _ (.orphan (hfree before _ after heq) hparent ?_)
    exact fun d hd hname => hnone ⟨d, hd, hname⟩

-- ==================================================== whether linking succeeds

variable {p : Program} {document : Json} {h h' : Heap} {s : ModuleState} {e : LinkError}

/-- Linking succeeds on linkable items and fails as the first offence. -/
theorem link_outcome (p : Program) (document : Json) (h : Heap) :
    (Linkable p.items ∧ ∃ s h', p.link document h = .ok (s, h'))
      ∨ ∃ e, FirstOffence p.items e ∧ p.link document h = .error e := by
  rcases linkItems_outcome p.name .nil p.items h with
    ⟨hfaultless, b, h', -, hok⟩ | ⟨before, item, after, e, heq, hfaultless, hfault, herror⟩
  · have hlink : p.link document h = .ok (_, h') := bind_eq_ok.2 ⟨(b, h'), hok, rfl⟩
    exact .inl ⟨linkable_iff_faultless.2 hfaultless, _, h', hlink⟩
  · refine .inr ⟨e, ⟨before, item, after, heq, Item.offends_iff.2 hfault, ?_⟩, ?_⟩
    · exact faultless_iff_not_offends.1 hfaultless
    · show (linkItems p.name p.items {} h >>= _) = _
      rw [herror]
      rfl

/-- Items with an offence cannot be linked. -/
theorem FirstOffence.not_linkable (he : FirstOffence items e) : ¬ Linkable items := by
  obtain ⟨before, item, after, heq, hoffends, -⟩ := he
  rw [linkable_iff_faultless, faultless_iff_not_offends]
  exact fun hnone => hnone before item after heq e hoffends

/-- What offends first stands no later than anything that offends. -/
theorem FirstOffence.eq_of_offends {early late rest : List Item} {item other : Item}
    {e' : LinkError} (heq : early ++ item :: late = before ++ other :: rest)
    (hbefore : ∀ early other late, before = early ++ other :: late → ∀ e, ¬ other.Offends early e)
    (hoffends : item.Offends early e) (hother : other.Offends before e')
    (hstart : early <+: before) : e = e' := by
  obtain ⟨between, rfl⟩ := hstart
  rw [List.append_assoc, List.append_cancel_left_eq] at heq
  cases between with
  | nil =>
    cases heq
    rw [List.append_nil] at hother
    rw [Item.offends_iff] at hoffends hother
    exact Option.some.inj (hoffends.symm.trans hother)
  | cons first between =>
    cases heq
    exact absurd hoffends (hbefore early item between rfl e)

/-- There is one first offence. -/
theorem FirstOffence.unique {e' : LinkError} (he : FirstOffence items e)
    (he' : FirstOffence items e') : e = e' := by
  obtain ⟨before, item, after, rfl, hoffends, hnone⟩ := he
  obtain ⟨before', item', after', heq, hoffends', hnone'⟩ := he'
  rcases List.prefix_or_prefix_of_prefix (List.prefix_append before _)
    (heq ▸ List.prefix_append before' _) with hstart | hstart
  · exact eq_of_offends heq hnone' hoffends hoffends' hstart
  · exact (eq_of_offends heq.symm hnone hoffends' hoffends hstart).symm

/-- Linking succeeds exactly for linkable programs, whatever is in the heap, -/
theorem link_ok_iff :
    (∃ s h', p.link document h = .ok (s, h')) ↔ Linkable p.items := by
  rcases link_outcome p document h with ⟨hlinkable, hok⟩ | ⟨e, he, herror⟩
  · exact iff_of_true hok hlinkable
  · refine iff_of_false ?_ he.not_linkable
    rintro ⟨s, h', hok⟩
    rw [herror] at hok
    cases hok

/-- and fails with what offends first. -/
theorem link_error_iff : p.link document h = .error e ↔ FirstOffence p.items e := by
  rcases link_outcome p document h with ⟨hlinkable, s, h', hok⟩ | ⟨e', he', herror⟩
  · rw [hok]
    exact iff_of_false (fun herror => by cases herror) fun he => he.not_linkable hlinkable
  · rw [herror]
    constructor
    · intro heq
      cases heq
      exact he'
    · exact fun he => congrArg Except.error (he'.unique he)

end Program

-- ==================================================== lineages

namespace AncestorClosed

variable {t : Table Class} {key : String} {c : Class}

/-- No two classes of a lineage have one name. Both would stand under it in
the table, and the lineage of one would be part of its own ancestors. -/
theorem nodup_lineage (ht : AncestorClosed t) (hc : t.find? key = some c) :
    (c.lineage.map ClassNode.name).Nodup := by
  have hsuffix : ∀ l : Lineage, l <:+ c.lineage → (l.map ClassNode.name).Nodup := by
    intro l
    induction l with
    | nil => exact fun _ => List.nodup_nil
    | cons n l ih =>
      intro hl
      refine List.nodup_cons.2 ⟨?_, ih ((List.suffix_cons n l).trans hl)⟩
      intro hname
      obtain ⟨m, hm, hsame⟩ := List.mem_map.1 hname
      obtain ⟨early, late, rfl⟩ := List.append_of_mem hm
      have hnear := (ht key c hc).2 ⟨n, early ++ m :: late⟩ hl
      have hfar := (ht key c hc).2 ⟨m, late⟩
        (((List.suffix_append early _).trans (List.suffix_cons n _)).trans hl)
      have hfound : t.find? n.name = some ⟨m, late⟩ := hsame ▸ hfar
      have heq := Option.some.inj (hnear.symm.trans hfound)
      injection heq with _ hlate
      have hlength := congrArg List.length hlate
      simp at hlength
      omega
  exact hsuffix c.lineage (List.suffix_refl _)

/-- The names of a lineage are names of the table. -/
theorem lineage_subset (ht : AncestorClosed t) (hc : t.find? key = some c) :
    c.lineage.map ClassNode.name ⊆ t.keys := by
  intro name hname
  obtain ⟨n, hn, rfl⟩ := List.mem_map.1 hname
  obtain ⟨early, late, hsplit⟩ := List.append_of_mem hn
  have hfound := (ht key c hc).2 ⟨n, late⟩ ⟨early, hsplit.symm⟩
  exact Table.exists_find?_iff.1 ⟨_, hfound⟩

end AncestorClosed

-- ==================================================== what items become

/-- The class is that of the definition: its parent is what stands under the
name of its base among the classes. -/
structure Class.BoundAs (c : Class) (module : String) (d : Program.ClassDef) (classes : Table Class) :
    Prop where
  definition : c.node.definition = d
  moduleName : c.moduleName = module
  root : d.base = none → c.parent? = none
  parent : ∀ base, d.base = some base → ∃ k, classes.find? base = some k ∧ c.parent? = some k

/-- The state holds what the items of a program become: values that stand
for the constants of its attributes and classes of its definitions, both in
order; and every lineage ends, without a name twice. -/
structure Program.Becomes (p : Program) (s : ModuleState) (h : Heap) : Prop where
  attributes : List.Forall₂ (fun e a => e.1 = a.1 ∧ h.Denotes e.2 a.2)
    s.attributes.entries p.attributes
  classes : List.Forall₂ (fun e d => e.1 = d.name ∧ e.2.BoundAs p.name d s.classes)
    s.classes.entries p.classes
  lineages : ∀ key c, s.classes.find? key = some c →
    (c.lineage.map ClassNode.name).Nodup ∧ c.lineage.length ≤ p.classes.length

namespace Program

variable {p : Program} {document : Json} {before after : Heap} {s : ModuleState}

/-- The bound classes are classes of items, each under its name. -/
def ClassesBound (module : String) (items : List Item) (classes : Table Class) : Prop :=
  ∀ key c, classes.find? key = some c →
    .classDef c.node.definition ∈ items ∧ c.BoundAs module c.node.definition classes

/-- One more class is bound, with the lineage of a parent that was bound
before. -/
theorem ClassesBound.insert {module : String} {items : List Item} {classes : Table Class}
    (hclasses : ClassesBound module items classes) {d : ClassDef} (hd : .classDef d ∈ items)
    (hfree : classes.find? d.name = none) {ancestors : Lineage}
    (hparent : (d.base = none ∧ ancestors = [])
      ∨ ∃ base parent, d.base = some base ∧ classes.find? base = some parent
        ∧ ancestors = parent.lineage) (h : Heap) :
    ClassesBound module items (classes.insert d.name (Class.link module ancestors d h).1) := by
  -- the name is free, so no class that is bound already is replaced
  have hold : ∀ (c : Class) key k, classes.find? key = some k →
      (classes.insert d.name c).find? key = some k :=
    fun c _ _ hk => Table.find?_insert_of_find? hk hfree c
  intro key c hc
  rw [Table.find?_insert] at hc
  split at hc
  case isTrue =>
    cases hc
    refine ⟨hd, rfl, rfl, ?_, ?_⟩
    · intro hroot
      rcases hparent with ⟨-, rfl⟩ | ⟨base, parent, hbase, -, -⟩
      · rfl
      · exact absurd (hroot.symm.trans hbase) (by simp)
    · intro base hbase
      rcases hparent with ⟨hroot, -⟩ | ⟨base', parent, hbase', hparent, rfl⟩
      · exact absurd (hroot.symm.trans hbase) (by simp)
      · obtain rfl : base' = base := Option.some.inj (hbase'.symm.trans hbase)
        exact ⟨parent, hold _ _ _ hparent, rfl⟩
  case isFalse =>
    obtain ⟨hitem, hbound⟩ := hclasses key c hc
    refine ⟨hitem, rfl, hbound.moduleName, hbound.root, ?_⟩
    intro base hbase
    obtain ⟨k, hk, hparent⟩ := hbound.parent base hbase
    exact ⟨k, hold _ _ _ hk, hparent⟩

/-- So all classes of a linked program are. -/
theorem classesBound_of_link (hs : p.link document before = .ok (s, after)) :
    ClassesBound p.name p.items s.classes := by
  obtain ⟨⟨b, h₁⟩, hlink, hstate⟩ := bind_eq_ok.1 hs
  cases hstate
  refine linkItems_keeps (P := fun b _ => ClassesBound p.name p.items b.classes) hlink
    (fun key c hnone => by cases hnone) (fun _ _ _ _ _ hb => hb) ?_
  intro d ancestors b h hd hb hfree hancestors
  refine hb.insert hd ?_ (Bindings.ancestors?_eq_some hancestors) h
  rw [Bindings.contains, Bool.or_eq_false_iff] at hfree
  exact Option.isNone_iff_eq_none.1 (Option.isSome_eq_false_iff.1 hfree.2)

-- ==================================================== in order

/-- Lists with the same names in order agree when what has one name
agrees. -/
theorem forall₂_of_names {α β : Type} {f : α → String} {g : β → String} {R : α → β → Prop}
    {xs : List α} {ys : List β} (hnames : xs.map f = ys.map g)
    (hR : ∀ x ∈ xs, ∀ y ∈ ys, f x = g y → R x y) : List.Forall₂ R xs ys := by
  induction xs generalizing ys with
  | nil =>
    cases ys with
    | nil => exact .nil
    | cons y ys => cases hnames
  | cons x xs ih =>
    cases ys with
    | nil => cases hnames
    | cons y ys =>
      obtain ⟨hname, hrest⟩ := List.cons_eq_cons.1 hnames
      refine .cons (hR x List.mem_cons_self y List.mem_cons_self hname) (ih hrest ?_)
      exact fun x hx y hy => hR x (List.mem_cons_of_mem _ hx) y (List.mem_cons_of_mem _ hy)

/-- The module attributes of a program are those of its items. -/
theorem mem_attributes {name : String} {k : Constant} :
    (name, k) ∈ p.attributes ↔ .moduleAttribute name k ∈ p.items := by
  unfold attributes
  rw [List.mem_filterMap]
  constructor
  · rintro ⟨item, hitem, heq⟩
    cases item with
    | moduleAttribute name' k' =>
      cases heq
      exact hitem
    | classDef d => cases heq
  · exact fun hitem => ⟨_, hitem, rfl⟩

/-- So are its classes. -/
theorem mem_classes {d : ClassDef} : d ∈ p.classes ↔ .classDef d ∈ p.items := by
  unfold classes
  rw [List.mem_filterMap]
  constructor
  · rintro ⟨item, hitem, heq⟩
    cases item with
    | moduleAttribute name k => cases heq
    | classDef d' =>
      cases heq
      exact hitem
  · exact fun hitem => ⟨_, hitem, rfl⟩

/-- They keep the order of the items. -/
theorem keys_attributes (p : Program) :
    p.attributes.map Prod.fst = p.items.filterMap Item.attributeName? := by
  unfold attributes
  rw [List.map_filterMap]
  refine List.filterMap_congr fun item _ => ?_
  cases item <;> rfl

theorem names_classes (p : Program) :
    p.classes.map ClassDef.name = p.items.filterMap Item.className? := by
  unfold classes
  rw [List.map_filterMap]
  refine List.filterMap_congr fun item _ => ?_
  cases item <;> rfl

/-- Items that link have names of their own. -/
theorem eq_of_name_eq (hs : p.link document before = .ok (s, after)) {x y : Item}
    (hx : x ∈ p.items) (hy : y ∈ p.items) (hname : x.name = y.name) : x = y :=
  List.inj_on_of_nodup_map (link_ok_iff.1 ⟨s, after, hs⟩).distinct hx hy hname

/-- What linking gives is what the program becomes. -/
theorem becomes_of_link (hs : p.link document before = .ok (s, after)) : p.Becomes s after := by
  obtain ⟨hattributes, hclasses⟩ := keys_of_link hs
  have hclosed := link_closed hs
  have hbound := classesBound_of_link hs
  refine ⟨?_, ?_, ?_⟩
  · refine forall₂_of_names (hattributes.trans (keys_attributes p).symm) ?_
    rintro ⟨key, v⟩ hv ⟨name, k⟩ hk (rfl : key = name)
    obtain ⟨k', hitem, hdenotes⟩ := exists_denotes_of_link hs (Table.find?_eq_some_iff.2 hv)
    cases eq_of_name_eq hs hitem (mem_attributes.1 hk) rfl
    exact ⟨rfl, hdenotes⟩
  · refine forall₂_of_names (hclasses.trans (names_classes p).symm) ?_
    rintro ⟨key, c⟩ hc d hd hname
    have hfound := Table.find?_eq_some_iff.2 hc
    obtain ⟨hitem, hc⟩ := hbound key c hfound
    have hsame : c.node.definition.name = d.name := (hclosed key c hfound).1.trans hname
    cases eq_of_name_eq hs hitem (mem_classes.1 hd) hsame
    exact ⟨hname, hc⟩
  · intro key c hc
    have hnodup := hclosed.nodup_lineage hc
    refine ⟨hnodup, ?_⟩
    have hlength := (hnodup.subperm (hclosed.lineage_subset hc)).length_le
    rw [hclasses, ← names_classes, List.length_map, List.length_map] at hlength
    exact hlength

/-- Linking any program succeeds exactly when the names of its items are
distinct and every parent is a class before its children. The state then
holds what the items become, in order: each class stands under its parent,
and no lineage has a name twice. Otherwise linking fails, as the first item
that offends. -/
theorem links_iff_linkable (p : Program) (document : Json) (h : Heap) :
    ((∃ s h', p.link document h = .ok (s, h')) ↔ Linkable p.items)
      ∧ (∀ s h', p.link document h = .ok (s, h') → p.Becomes s h')
      ∧ ∀ e, p.link document h = .error e ↔ FirstOffence p.items e :=
  ⟨link_ok_iff, fun _ _ => becomes_of_link, fun _ => link_error_iff⟩

end Program

namespace Sample

/-- A class without anything of its own. -/
def bareClass (name : String) (base : Option String) : Program.ClassDef where
  name := name
  base := base
  doc := none
  classAttributes := []
  params := none
  properties := []
  repr := .ofNames []
  inheritsRepr := true
  str := none

/-- A class of the given name whose base is a module attribute, behind a
class `K`. -/
def attributeAsBase (name : String) : Program where
  name := "m"
  file := "m.json"
  doc := ""
  items := [.classDef (bareClass "K" none), .moduleAttribute "a" .null,
    .classDef (bareClass name (some "a"))]

/-- The items before the last do not offend. -/
theorem not_offends_before_last (early : List Program.Item) (other : Program.Item)
    (late : List Program.Item)
    (heq : [.classDef (bareClass "K" none), .moduleAttribute "a" .null] = early ++ other :: late)
    (e : LinkError) : ¬ other.Offends early e := by
  have hfaultless : Program.Faultless []
      [.classDef (bareClass "K" none), .moduleAttribute "a" .null] :=
    Program.faultless_cons.2 ⟨rfl, Program.faultless_cons.2 ⟨rfl, Program.faultless_nil _⟩⟩
  exact Program.faultless_iff_not_offends.1 hfaultless early other late heq e

end Sample

/-- An attribute is no parent; but that the name is taken is reported
first. -/
theorem Program.taken_name_before_missing_parent :
    (Sample.attributeAsBase "L").link .null .empty = .error (.unknownBase "L" "a")
      ∧ (Sample.attributeAsBase "K").link .null .empty = .error (.duplicateName "K") := by
  constructor
  · refine ((links_iff_linkable _ _ _).2.2 _).2
      ⟨_, _, [], rfl, .orphan (by decide) rfl ?_, Sample.not_offends_before_last⟩
    intro d hd
    rcases List.mem_cons.1 hd with heq | hd
    · cases heq
      decide
    · cases List.mem_singleton.1 hd
  · exact ((links_iff_linkable _ _ _).2.2 _).2
      ⟨_, _, [], rfl, .duplicate (by decide), Sample.not_offends_before_last⟩

end LiveDoc
