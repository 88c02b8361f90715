/-
Instances can always be shown.

Templates are checked once, when a document is declared, and against
names alone: those that a class and its declared ancestors declare. They
are used much later, on an instance of the class or of any class that
inherits the template, and resolved through fields and through class
attributes that live in the heap.

`Lineage.Chain` connects the two levels. A lineage that was linked from a
declared class follows the declared parents one by one, and each of its
classes holds in the heap, under their declared names, the class
attributes of its declaration; linking one class after another builds
such chains (`Program.linkItems_chain`), and no step of the heap breaks
one (`ClassNode.Holds.steps`). So the declared ancestors of a class and the
classes along its lineage are the same (`Chain.exists_node`,
`Chain.exists_decl`), and a template inherited from any of them names
only what these declare.

What is declared for instances was filled in when the instance was made
(`Lineage.Filled`), and no table loses a name. The rest is recursion on
the segments of a template.
-/
import LiveDoc.Live.Text
import LiveDoc.Proofs.Acceptance
import LiveDoc.Proofs.Evolution

namespace LiveDoc

open ClassDecl (ParentIn)
open Relation (ReflTransGen)
open Template (Conversion Segment)
open Traversal

-- ==================================================== chains

/-- The class has its class attributes in the heap, under the names of its
definition. -/
def ClassNode.Holds (n : ClassNode) (h : Heap) : Prop :=
  ∃ t, h.objects[n.table]? = some (.attributes t)
    ∧ Entries.keys n.definition.classAttributes ⊆ t.keys

theorem ClassNode.Holds.grow {n : ClassNode} {h h' : Heap} (hn : n.Holds h)
    (hext : h.Extends h') : n.Holds h' := by
  obtain ⟨t, hplace, hnames⟩ := hn
  exact ⟨t, hext.getElem? hplace, hnames⟩

theorem ClassNode.Holds.steps {n : ClassNode} {h h' : Heap} (hn : n.Holds h)
    (hsteps : h.Steps h') : n.Holds h' := by
  obtain ⟨t, hplace, hnames⟩ := hn
  obtain ⟨hplace', hkept⟩ := Heap.Steps.attributes hsteps hplace
  exact ⟨_, hplace', List.Subset.trans hnames hkept⟩

/-- The lineage follows a declared class and its declared ancestors up to
the one without a parent. -/
inductive Lineage.Chain (m : ModuleDecl) (h : Heap) : ClassDecl → Lineage → Prop
  | root {d : ClassDecl} {n : ClassNode} (member : d ∈ m.classes)
      (definition : n.definition = .ofDecl d) (holds : n.Holds h) (base : d.base = none) :
      Chain m h d [n]
  | child {d p : ClassDecl} {n : ClassNode} {l : Lineage} (member : d ∈ m.classes)
      (definition : n.definition = .ofDecl d) (holds : n.Holds h) (base : d.base = some p.name)
      (parent : Chain m h p l) : Chain m h d (n :: l)

namespace Lineage.Chain

variable {m : ModuleDecl} {h h' : Heap} {d : ClassDecl} {l : Lineage}

/-- A chain lasts as long as the class attributes of its classes do. -/
theorem mono (hchain : Chain m h d l) (hkeep : ∀ n : ClassNode, n.Holds h → n.Holds h') :
    Chain m h' d l := by
  induction hchain with
  | root hd hn hholds hbase => exact .root hd hn (hkeep _ hholds) hbase
  | child hd hn hholds hbase _ ih => exact .child hd hn (hkeep _ hholds) hbase ih

theorem holds (hchain : Chain m h d l) : ∀ n ∈ l, n.Holds h := by
  induction hchain with
  | root _ _ hholds _ => exact List.forall_mem_singleton.2 hholds
  | child _ _ hholds _ _ ih => exact List.forall_mem_cons.2 ⟨hholds, ih⟩

/-- Every class along the lineage is a declared ancestor. -/
theorem exists_decl (hchain : Chain m h d l) {n : ClassNode} (hn : n ∈ l) :
    ∃ e ∈ m.classes, n.definition = .ofDecl e
      ∧ ReflTransGen (ParentIn m.classes) d.name e.name := by
  induction hchain with
  | @root d _ hd hdefinition _ _ =>
    rw [List.mem_singleton.1 hn]
    exact ⟨d, hd, hdefinition, .refl⟩
  | @child d p _ _ hd hdefinition _ hbase _ ih =>
    rcases List.mem_cons.1 hn with rfl | hn
    · exact ⟨d, hd, hdefinition, .refl⟩
    · obtain ⟨e, he, hn, hpath⟩ := ih hn
      exact ⟨e, he, hn, .head ⟨d, hd, rfl, hbase⟩ hpath⟩

/-- Every declared ancestor is a class along the lineage. -/
theorem exists_node (hnames : m.classNames.Nodup) (hchain : Chain m h d l) {e : ClassDecl}
    (he : e ∈ m.classes) (hpath : ReflTransGen (ParentIn m.classes) d.name e.name) :
    ∃ n ∈ l, n.definition = .ofDecl e ∧ n.Holds h := by
  induction hchain with
  | @root d n hd hdefinition hholds hbase =>
    rcases ReflTransGen.cases_head hpath with hsame | ⟨_, ⟨d', hd', hname, hparent⟩, -⟩
    · rw [← List.inj_on_of_nodup_map hnames hd he hsame]
      exact ⟨n, List.mem_singleton_self n, hdefinition, hholds⟩
    · rw [List.inj_on_of_nodup_map hnames hd' hd hname, hbase] at hparent
      cases hparent
  | @child d p n l hd hdefinition hholds hbase _ ih =>
    rcases ReflTransGen.cases_head hpath with hsame | ⟨_, ⟨d', hd', hname, hparent⟩, hrest⟩
    · rw [← List.inj_on_of_nodup_map hnames hd he hsame]
      exact ⟨n, List.mem_cons_self, hdefinition, hholds⟩
    · rw [List.inj_on_of_nodup_map hnames hd' hd hname, hbase] at hparent
      cases hparent
      obtain ⟨n', hn', hn'definition, hn'holds⟩ := ih hrest
      exact ⟨n', List.mem_cons_of_mem _ hn', hn'definition, hn'holds⟩

end Lineage.Chain

-- ==================================================== linking builds chains

namespace Program

variable {m : ModuleDecl}

/-- A class that has just been linked holds its class attributes. -/
theorem holds_link (moduleName : String) (ancestors : Lineage) (c : ClassDef) (h : Heap) :
    (Class.link moduleName ancestors c h).1.node.Holds (Class.link moduleName ancestors c h).2 := by
  refine ⟨.ofList (Constant.materializeEntries c.classAttributes h).1, ?_, ?_⟩
  · exact Heap.getElem?_alloc_self _ _
  · intro name hname
    rw [Table.mem_keys_ofList, Constant.keys_materializeEntries]
    exact hname

/-- Classes that are bound are linked under the names of declared classes,
each with the chain of its ancestors. -/
theorem linkItems_chain {moduleName : String} {items : List Item} {b b' : Bindings} {h h' : Heap}
    (hlink : linkItems moduleName items b h = .ok (b', h'))
    (hitems : ∀ c, .classDef c ∈ items → ∃ d ∈ m.classes, c = .ofDecl d)
    (hbound : ∀ key c, b.classes.find? key = some c →
      ∃ d, d.name = key ∧ Lineage.Chain m h d c.lineage) :
    ∀ key c, b'.classes.find? key = some c →
      ∃ d, d.name = key ∧ Lineage.Chain m h' d c.lineage := by
  -- whatever is made for an item, the chains there are stay
  have hlater : ∀ {b : Bindings} {h later : Heap}, h.Grown later →
      (∀ key c, b.classes.find? key = some c → ∃ d, d.name = key ∧ Lineage.Chain m h d c.lineage) →
      ∀ key c, b.classes.find? key = some c →
        ∃ d, d.name = key ∧ Lineage.Chain m later d c.lineage := by
    intro b h later hgrown hb key c hc
    obtain ⟨d, hname, hchain⟩ := hb key c hc
    exact ⟨d, hname, hchain.mono fun n hn => hn.grow hgrown.kept⟩
  refine linkItems_keeps (P := fun b h => ∀ key c, b.classes.find? key = some c →
    ∃ d, d.name = key ∧ Lineage.Chain m h d c.lineage) hlink hbound ?_ ?_
  · intro name value b h _ hb
    obtain ⟨hmade, -, -⟩ := value.materialize_made h
    exact hlater hmade.to_grown hb
  · intro c ancestors b h hc hb _ hancestors
    obtain ⟨d, hd, rfl⟩ := hitems c hc
    have hgrown := Class.link_grown moduleName ancestors (.ofDecl d) h
    have hholds := holds_link moduleName ancestors (.ofDecl d) h
    intro key c hc
    rw [Table.find?_insert] at hc
    split at hc
    case isFalse => exact hlater hgrown hb key c hc
    case isTrue hkey =>
      cases hc
      refine ⟨d, hkey, ?_⟩
      show Lineage.Chain m _ d
        ((Class.link moduleName ancestors (.ofDecl d) h).1.node :: ancestors)
      rcases Bindings.ancestors?_eq_some hancestors with
        ⟨hbase, rfl⟩ | ⟨base, parent, hbase, hparent, rfl⟩
      · exact .root hd rfl hholds hbase
      · obtain ⟨p, rfl, hchain⟩ := hlater hgrown hb base parent hparent
        exact .child hd rfl hholds hbase hchain

/-- The items of a declared module define its classes. -/
theorem exists_decl_of_item {c : ClassDef} (hc : .classDef c ∈ (Program.ofModule m).items) :
    ∃ d ∈ m.classes, c = .ofDecl d := by
  rcases List.mem_append.1 hc with hattribute | hclass
  · obtain ⟨a, -, ha⟩ := List.mem_map.1 hattribute
    cases ha
  · obtain ⟨d, hd, hdefinition⟩ := List.mem_map.1 hclass
    injection hdefinition with hdefinition
    exact ⟨d, hd, hdefinition.symm⟩

/-- Every class of a linked module has the chain of the declared class of
its name. -/
theorem exists_chain_of_link {document : Json} {s : ModuleState} {h h' : Heap}
    (hs : (ofModule m).link document h = .ok (s, h')) {key : String} {c : Class}
    (hc : s.classes.find? key = some c) : ∃ d, d.name = key ∧ Lineage.Chain m h' d c.lineage := by
  obtain ⟨⟨b, h₁⟩, hitems, hstate⟩ := bind_eq_ok.1 hs
  cases hstate
  exact linkItems_chain hitems (fun c hc => exists_decl_of_item hc)
    (fun key c hnone => (by cases hnone)) key c hc

end Program

namespace Class.LiveIn

variable {c : Class} {document : Json} {m : ModuleDecl} {h h' : Heap}

theorem exists_chain (hc : c.LiveIn document m h) : ∃ d, Lineage.Chain m h d c.lineage := by
  obtain ⟨before, after, s, key, hlink, hfind, hsteps⟩ := hc.linked
  obtain ⟨d, -, hchain⟩ := Program.exists_chain_of_link hlink hfind
  exact ⟨d, hchain.mono fun n hn => hn.steps hsteps⟩

end Class.LiveIn

-- ==================================================== what templates may name

/-- A class along the lineage declares the name, for its instances or for
itself, or every template may use it. -/
def Lineage.Offers (l : Lineage) (h : Heap) (name : String) : Prop :=
  (∃ n ∈ l, n.declares name = true) ∨ (∃ n ∈ l, name ∈ (h.table n.table).keys)
    ∨ name ∈ ClassDecl.templateNames

namespace Lineage.Chain

variable {m : ModuleDecl} {h : Heap} {d : ClassDecl} {l : Lineage}

/-- What a class makes visible to its templates, its lineage offers, and so
does every lineage that it stands in. -/
theorem offers {name file time : String} {root : Entries Json}
    (hroot : (Json.object root).DistinctKeys) (hread : m.ReadFrom name file time root)
    (hchain : Chain m h d l) {e : ClassDecl} (he : e ∈ m.classes)
    (hpath : ReflTransGen (ParentIn m.classes) d.name e.name) {attr : String}
    (hattr : attr ∈ m.visibleNames e) : l.Offers h attr := by
  have hnames := hread.classNames_nodup hroot
  rcases (ModuleDecl.mem_visibleNames_iff hread.classes.parentsPrecede hnames he).1 hattr with
    ⟨a, ha, hancestor, hdeclared⟩ | htemplate
  · obtain ⟨n, hn, hdefinition, t, hplace, hkeys⟩ :=
      exists_node hnames hchain ha (hpath.trans hancestor)
    have hdecl : n.DeclaredBy a := ⟨hdefinition, hread.attributeNames_nodup hroot ha⟩
    rcases List.mem_append.1 hdeclared with hshared | hown
    · have hclass : attr ∈ Entries.keys n.definition.classAttributes := by
        rw [hdefinition]
        show attr ∈ (a.classAttributes.map fun b =>
          (b.name, Constant.ofJson b.default)).map Prod.fst
        rw [List.map_map]
        exact hshared
      refine .inr (.inl ⟨n, hn, ?_⟩)
      rw [Heap.table_of_attributes hplace]
      exact hkeys hclass
    · refine .inl ⟨n, hn, ?_⟩
      rw [ClassNode.declares_iff, hdecl.paramNames]
      exact hown
  · exact .inr (.inr htemplate)

end Lineage.Chain

/-- The template is one of the two of the class. -/
def ClassNode.HasTemplate (n : ClassNode) (t : Template) : Prop :=
  n.definition.repr = t ∨ n.definition.str = some t

namespace Class

theorem reprTemplateFrom_mem (n : ClassNode) (l : Lineage) :
    ∃ o ∈ n :: l, o.HasTemplate (reprTemplateFrom n l) := by
  induction l generalizing n with
  | nil => exact ⟨n, List.mem_singleton_self n, .inl rfl⟩
  | cons o l ih =>
    rw [reprTemplateFrom]
    split
    case isTrue =>
      obtain ⟨o', ho', htemplate⟩ := ih o
      exact ⟨o', List.mem_cons_of_mem _ ho', htemplate⟩
    case isFalse => exact ⟨n, List.mem_cons_self, .inl rfl⟩

/-- Both templates of a class are those of a class along its lineage. -/
theorem template_mem (c : Class) (conversion : Conversion) :
    ∃ n ∈ c.lineage, n.HasTemplate (c.template conversion) := by
  cases conversion with
  | repr => exact reprTemplateFrom_mem c.node c.ancestors
  | str =>
    show ∃ n ∈ c.lineage, n.HasTemplate c.strTemplate
    unfold strTemplate
    cases hstr : c.lineage.strTemplate? with
    | none => exact reprTemplateFrom_mem c.node c.ancestors
    | some t =>
      obtain ⟨n, hn, ht⟩ := List.exists_of_findSome?_eq_some hstr
      exact ⟨n, hn, .inr ht⟩

/-- What the templates of a linked class name, its lineage offers as long
as the class attributes last. -/
theorem LiveIn.offers {c : Class} {document : Json} {m : ModuleDecl} {h now : Heap}
    (hc : c.LiveIn document m h) (hkeep : ∀ n : ClassNode, n.Holds h → n.Holds now)
    (conversion : Conversion) {attr : String} (hattr : attr ∈ (c.template conversion).fieldNames) :
    c.lineage.Offers now attr := by
  obtain ⟨d, hstart⟩ := hc.exists_chain
  have hchain := hstart.mono hkeep
  obtain ⟨name, file, time, hm⟩ := hc.declared
  have hdistinct := hc.distinct
  obtain ⟨root, rfl⟩ := ModuleDecl.exists_root_of_ofDocument hm
  have hread := (ModuleDecl.ofDocument_eq_ok hdistinct.1).1 hm
  obtain ⟨n, hn, htemplate⟩ := c.template_mem conversion
  obtain ⟨e, he, hdefinition, hpath⟩ := hchain.exists_decl hn
  refine hchain.offers hdistinct hread he hpath ?_
  obtain ⟨hrepr, hstr⟩ := ModuleDecl.checkTemplates_eq_ok.1 (hread.templates e he)
  unfold ClassNode.HasTemplate at htemplate
  rw [hdefinition] at htemplate
  rcases htemplate with ht | ht
  · rw [← ht] at hattr
    exact hrepr attr hattr
  · exact hstr _ ht attr hattr

end Class

-- ==================================================== resolving placeholders

/-- An instance whose fields are those that its lineage declares has what
its lineage offers. -/
theorem Instance.exists_placeholder {i : Instance} {h : Heap} {attr : String}
    (hfields : ∀ n ∈ i.ofClass.lineage, n.declares attr = true → attr ∈ (h.table i.fields).keys)
    (hoffers : i.ofClass.lineage.Offers h attr) : ∃ v, i.placeholder? h attr = some v := by
  have hattribute : (attr ∈ (h.table i.fields).keys ∨ ∃ n ∈ i.ofClass.lineage,
      attr ∈ (h.table n.table).keys) → ∃ v, i.attribute? h attr = some v := by
    intro hknown
    unfold attribute?
    cases hfield : (h.table i.fields).find? attr with
    | some v => exact ⟨v, rfl⟩
    | none =>
      rcases hknown with hmem | ⟨n, hn, hmem⟩
      · exact absurd hmem (Table.find?_eq_none_iff.1 hfield)
      · have hsome : ((h.table n.table).find? attr).isSome = true := by
          rw [Option.isSome_iff_ne_none]
          exact fun hnone => Table.find?_eq_none_iff.1 hnone hmem
        exact Option.isSome_iff_exists.1 (List.findSome?_isSome_iff.2 ⟨n, hn, hsome⟩)
  unfold placeholder?
  -- the two names that templates add come before attributes
  by_cases hclass : attr = "class_name"
  · exact ⟨_, if_pos hclass⟩
  by_cases hmodule : attr = "module_name"
  · rw [if_neg hclass]
    exact ⟨_, if_pos hmodule⟩
  rw [if_neg hclass, if_neg hmodule]
  rcases hoffers with ⟨n, hn, hdeclares⟩ | hshared | htemplate
  · exact hattribute (.inl (hfields n hn hdeclares))
  · exact hattribute (.inr hshared)
  · rcases List.mem_pair.1 htemplate with heq | heq
    · exact absurd heq hclass
    · exact absurd heq hmodule

/-- A template is rendered when all that it names is found. -/
theorem Template.exists_render {α : Type} (view : View α) {resolve : String → Option α}
    {t : Template} (hresolve : ∀ name ∈ t.fieldNames, ∃ v, resolve name = some v) :
    ∃ text, t.render view resolve = some text := by
  unfold render
  unfold fieldNames at hresolve
  generalize t.segments = segments at hresolve ⊢
  induction segments with
  | nil => exact ⟨"", rfl⟩
  | cons segment rest ih =>
    cases segment with
    | literal text =>
      obtain ⟨tail, htail⟩ := ih hresolve
      refine ⟨text ++ tail, ?_⟩
      rw [renderSegments, htail]
      rfl
    | field f =>
      obtain ⟨⟨v, hv⟩, hrest⟩ := List.forall_mem_cons.1 hresolve
      obtain ⟨tail, htail⟩ := ih hrest
      refine ⟨f.render view v ++ tail, ?_⟩
      rw [renderSegments, hv, htail]
      rfl

-- ==================================================== instances are shown

/-- Whatever has happened since an instance was made, every placeholder of
the templates of its class has a value. -/
theorem Class.LiveIn.exists_placeholder {document : Json} {m : ModuleDecl} {c : Class} {h : Heap}
    (hc : c.LiveIn document m h) {args : Arguments} {i : Instance} {made : Heap}
    (hi : c.instantiate args h = .ok (i, made)) {now : Heap} (hrun : made.Steps now)
    (conversion : Conversion) :
    ∀ name ∈ (c.template conversion).fieldNames, ∃ v, i.placeholder? now name = some v := by
  obtain ⟨rfl, fields, hplace, hfilled⟩ := Class.instantiate_ok hc.linkedFrom.lineage_declared hi
  have hext : h.Extends made := Class.instantiate_extends hi
  obtain ⟨-, hkept⟩ := hrun.fields hplace
  have hfields : ∀ n ∈ i.ofClass.lineage, ∀ attr, n.declares attr = true →
      attr ∈ (now.table i.fields).keys :=
    fun n hn attr hdeclares => hkept ((hfilled.names attr).2 ⟨n, hn, hdeclares⟩)
  intro name hname
  have hoffers := hc.offers (fun n hn => (hn.grow hext).steps hrun) conversion hname
  exact Instance.exists_placeholder (fun n hn => hfields n hn name) hoffers

/-- An instance of a linked class is shown through both templates of its
class, whatever has happened since it was made: every placeholder has a
value, so the template is rendered, and at whatever depth the text of the
instance is wanted, it is that of the template. -/
theorem Instance.shown_by_templates {document : Json} {m : ModuleDecl} {c : Class} {h : Heap}
    (hc : c.LiveIn document m h) {args : Arguments} {i : Instance} {made : Heap}
    (hi : c.instantiate args h = .ok (i, made)) {now : Heap} (hrun : made.Steps now)
    (conversion : Conversion) :
    (∀ name ∈ (c.template conversion).fieldNames, ∃ v, i.placeholder? now name = some v)
      ∧ (∃ text, i.render? now (c.template conversion) = some text)
      ∧ ∀ depth, ∃ text,
        (c.template conversion).render
            ⟨now.textWithin depth .str, now.textWithin depth .repr, Value.number?⟩
            (i.placeholder? now) = some text
          ∧ now.textWithin (depth + 1) conversion (.inst i) = text := by
  obtain ⟨rfl, -⟩ := Class.instantiate_ok hc.linkedFrom.lineage_declared hi
  have hresolve := hc.exists_placeholder hi hrun conversion
  refine ⟨hresolve, Template.exists_render _ hresolve, fun depth => ?_⟩
  obtain ⟨text, htext⟩ := Template.exists_render
    ⟨now.textWithin depth .str, now.textWithin depth .repr, Value.number?⟩ hresolve
  refine ⟨text, htext, ?_⟩
  rw [Heap.textWithin, htext]

namespace Sample

/-- A class that inherits both of its templates, which name an attribute of
its own kind and one of its instances. -/
def shapes : Json :=
  .object [
    ("Shape", .object [
      ("side", .number (.int 2)),
      ("__class_attributes__", .object [("unit", .str "mm")]),
      ("__repr__", .str "\x7bclass_name\x7d(\x7bside!r\x7d \x7bunit\x7d)"),
      ("__str__", .str "\x7bside\x7d\x7bunit\x7d of \x7bmodule_name\x7d")]),
    ("Box", .object [("__parent__", .str "Shape")])]

/-- A new instance, and the heap after an assignment to it and one to its
class. -/
def assigned? (c : Class) (h : Heap) : Option (Instance × Heap) :=
  match c.instantiate {} h with
  | .error _ => none
  | .ok (i, made) =>
    match i.setAttr made "side" (.int 9) with
    | .error _ => none
    | .ok h => some (i, c.setAttr h "unit" (.str "cm"))

theorem distinctKeys_shapes : shapes.DistinctKeys := by
  simp [shapes, Json.DistinctKeys, Json.DistinctKeysFields, Entries.keys]

/-- After both assignments the instance shows the new values. -/
theorem box_shown_by_templates :
    ∃ (m : ModuleDecl) (c : Class) (h : Heap) (i : Instance) (made now : Heap),
      c.LiveIn shapes m h ∧ c.instantiate {} h = .ok (i, made) ∧ made.Steps now
        ∧ (c.template .str).fieldNames = ["side", "unit", "module_name"]
        ∧ (∃ v, i.placeholder? now "unit" = some v)
        ∧ (Value.inst i).strText now = "9cm of samples"
        ∧ (c.template .str).render
            ⟨now.textWithin now.size .str, now.textWithin now.size .repr, Value.number?⟩
            (i.placeholder? now) = some "9cm of samples" := by
  obtain ⟨m, c, h, hc, -, hq⟩ := exists_liveIn_of_any distinctKeys_shapes "Box"
    (fun p => (p.1.template .str).fieldNames = ["side", "unit", "module_name"]
      ∧ (assigned? p.1 p.2).any fun r => (Value.inst r.1).strText r.2 = "9cm of samples"
        ∧ r.2.textWithin (r.2.size + 1) .str (.inst r.1) = "9cm of samples")
    (by decide +kernel)
  obtain ⟨hnames, htexts⟩ := of_decide_eq_true hq
  obtain ⟨⟨i, now⟩, hassigned, htexts⟩ := (Option.any_eq_true _ _).1 htexts
  obtain ⟨hstr, htext⟩ := of_decide_eq_true htexts
  unfold assigned? at hassigned
  split at hassigned
  case h_1 => cases hassigned
  case h_2 i₀ made hi =>
    split at hassigned
    case h_1 => cases hassigned
    case h_2 h₁ hset =>
      cases hassigned
      -- both assignments are made to places in their roles
      obtain ⟨-, fields, hplace, -⟩ := Class.instantiate_ok hc.linkedFrom.lineage_declared hi
      have hassign : made.Step h₁ := .assign hplace (fun r hr => (by cases hr)) hset
      obtain ⟨d, hchain⟩ := hc.exists_chain
      have hholds : c.node.Holds h₁ := ((hchain.holds c.node List.mem_cons_self).grow
        (Class.instantiate_extends hi)).steps (.single hassign)
      obtain ⟨own, hown, -⟩ := hholds
      have hshare : h₁.Step (c.setAttr h₁ "unit" (.str "cm")) :=
        .assignClass hown (fun r hr => (by cases hr))
      have hrun : made.Steps (c.setAttr h₁ "unit" (.str "cm")) :=
        (ReflTransGen.single hassign).tail hshare
      obtain ⟨hresolve, -, hdepth⟩ := Instance.shown_by_templates hc hi hrun .str
      obtain ⟨text, hrender, hshown⟩ := hdepth (c.setAttr h₁ "unit" (.str "cm")).size
      refine ⟨m, c, h, i, made, _, hc, hi, hrun, hnames, hresolve "unit" ?_, hstr, ?_⟩
      · rw [hnames]
        simp
      · rw [hrender, ← hshown, htext]

end Sample

end LiveDoc
