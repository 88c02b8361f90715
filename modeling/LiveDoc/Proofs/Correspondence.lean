/-
A live class tells what its document says.

There are three accounts of a class: the entry of the document, the
declared class, and the live class. Each of them has ancestors in a way of
its own. In the document one follows `__parent__` from entry to entry
(`ParentChain`); the declared class has the lineage that a bounded walk
collects; the live class was linked under the lineage of its parent.

The first two are compared entry by entry (`ReadClasses.exists_chain`), the
last two class by class (`Lineage.Chain.map_definition`). Both inductions
go along the declared parents, where a lineage is a class and the lineage of
its parent (`lineage_of_child`), so no bound of the walk shows. What a live
class tells of properties and parameters is then read off the parameters
along its lineage: their names are the free keys of the bodies along the
chain (`paramNames_eq`).
-/
import LiveDoc.Proofs.LinkFaults
import LiveDoc.Proofs.Rendering

namespace LiveDoc

open ClassDecl (ParentsPrecede)
open Traversal

-- ==================================================== following parents

namespace ClassDecl

/-- The body names no parent, or the generic base. -/
def IsRoot (body : Entries Json) : Prop :=
  body.find? "__parent__" = none ∨ body.find? "__parent__" = some (.str "object")

/-- A class without a parent does not name one, or names the generic base. -/
theorem readBase_eq_none_iff {name : String} {body : Entries Json} :
    readBase name body = .ok none ↔ IsRoot body := by
  unfold readBase IsRoot
  rw [bind_eq_ok]
  constructor
  · intro h
    obtain ⟨t, ht, h⟩ := h
    rw [pure_eq_ok] at h
    split at h
    case isTrue hgeneric =>
      rw [hgeneric] at ht
      exact .inr (text?_eq_some_iff.1 ht)
    case isFalse =>
      rw [h] at ht
      exact .inl (text?_eq_none_iff.1 ht)
  · rintro (hnone | hgeneric)
    · exact ⟨none, text?_eq_none_iff.2 hnone, rfl⟩
    · exact ⟨some "object", text?_eq_some_iff.2 hgeneric, rfl⟩

end ClassDecl

namespace ModuleDecl

/-- The entries of a document that following `__parent__` leads through,
from the class of a name to one that is a root. -/
inductive ParentChain (root : Entries Json) : String → List (String × Entries Json) → Prop
  | last {name : String} {body : Entries Json} (entry : (name, .object body) ∈ classEntries root)
      (isRoot : ClassDecl.IsRoot body) : ParentChain root name [(name, body)]
  | step {name parent : String} {body : Entries Json} {chain : List (String × Entries Json)}
      (entry : (name, .object body) ∈ classEntries root)
      (named : Entries.find? body "__parent__" = some (.str parent)) (notGeneric : parent ≠ "object")
      (rest : ParentChain root parent chain) : ParentChain root name ((name, body) :: chain)

variable {root : Entries Json} {m : ModuleDecl}

/-- Keys of an object are distinct, so a name stands for one body. -/
theorem body_unique (hkeys : (classEntries root).keys.Nodup) {name : String} {j j' : Json}
    (h : (name, j) ∈ classEntries root) (h' : (name, j') ∈ classEntries root) : j = j' := by
  have hfind := Entries.find?_of_mem hkeys h
  rw [Entries.find?_of_mem hkeys h'] at hfind
  exact (Option.some.inj hfind).symm

/-- There is no choice in following `__parent__`. -/
theorem ParentChain.unique (hkeys : (classEntries root).keys.Nodup) {name : String}
    {chain chain' : List (String × Entries Json)} (h : ParentChain root name chain)
    (h' : ParentChain root name chain') : chain = chain' := by
  -- a class where a chain may end names no parent but the generic one
  have hroot : ∀ {body : Entries Json} {parent : String}, ClassDecl.IsRoot body →
      Entries.find? body "__parent__" = some (.str parent) → parent = "object" := by
    rintro body parent (hnone | hgeneric) hnamed
    · cases hnone.symm.trans hnamed
    · cases hgeneric.symm.trans hnamed
      rfl
  induction h generalizing chain' with
  | last hentry hlast =>
    cases h' with
    | last hentry' _ =>
      cases body_unique hkeys hentry hentry'
      rfl
    | step hentry' hnamed hne _ =>
      cases body_unique hkeys hentry hentry'
      exact absurd (hroot hlast hnamed) hne
  | step hentry hnamed hne _ ih =>
    cases h' with
    | last hentry' hlast =>
      cases body_unique hkeys hentry hentry'
      exact absurd (hroot hlast hnamed) hne
    | step hentry' hnamed' _ hrest' =>
      cases body_unique hkeys hentry hentry'
      cases hnamed.symm.trans hnamed'
      rw [ih hrest']

/-- The lineage of a declared class was read from the entries along its
chain. -/
theorem ReadClasses.exists_chain (h : ReadClasses root m.classes) (hnames : m.classNames.Nodup)
    {c : ClassDecl} (hc : c ∈ m.classes) :
    ∃ chain, ParentChain root c.name chain
      ∧ List.Forall₂ (fun b d => ClassDecl.ReadFrom b.1 b.2 (classEntries root).keys d)
          chain (m.lineage c) := by
  have horder := h.parentsPrecede
  refine horder.induction hnames (P := fun c => ∃ chain, ParentChain root c.name chain
    ∧ List.Forall₂ (fun b d => ClassDecl.ReadFrom b.1 b.2 (classEntries root).keys d)
        chain (m.lineage c)) ?_ ?_ c hc
  · intro c hc hbase
    obtain ⟨body, hentry, hparts⟩ := h.exists_body hc
    have hreadBase := hparts.base
    rw [hbase, ClassDecl.readBase_eq_none_iff] at hreadBase
    refine ⟨[(c.name, body)], .last hentry hreadBase, ?_⟩
    rw [lineage_of_root hbase]
    exact .cons hparts .nil
  · intro c hc p hp hbase ih
    obtain ⟨body, hentry, hparts⟩ := h.exists_body hc
    have hreadBase := hparts.base
    rw [hbase, ClassDecl.readBase_eq_some_iff] at hreadBase
    obtain ⟨chain, hchain, hread⟩ := ih
    refine ⟨(c.name, body) :: chain, .step hentry hreadBase.1 hreadBase.2 hchain, ?_⟩
    rw [lineage_of_child horder hnames hc hp hbase]
    exact .cons hparts hread

/-- A lineage ends at a class without a parent. -/
theorem exists_last_lineage (horder : ParentsPrecede m.classes) (hnames : m.classNames.Nodup)
    {c : ClassDecl} (hc : c ∈ m.classes) :
    ∃ e, (m.lineage c).getLast? = some e ∧ e.base = none := by
  refine horder.induction hnames
    (P := fun c => ∃ e, (m.lineage c).getLast? = some e ∧ e.base = none) ?_ ?_ c hc
  · intro c _ hbase
    rw [lineage_of_root hbase]
    exact ⟨c, rfl, hbase⟩
  · intro c hc p hp hbase ih
    obtain ⟨e, he, hnone⟩ := ih
    refine ⟨e, ?_, hnone⟩
    rw [lineage_of_child horder hnames hc hp hbase, List.getLast?_cons, he]
    rfl

end ModuleDecl

-- ==================================================== declarations and live classes

namespace Lineage

variable {m : ModuleDecl} {h : Heap} {d : ClassDecl} {n : ClassNode} {l : Lineage}

theorem Chain.head (hchain : Chain m h d (n :: l)) : n.definition = .ofDecl d := by
  cases hchain with
  | root _ hn _ _ => exact hn
  | child _ hn _ _ _ => exact hn

theorem Chain.mem (hchain : Chain m h d l) : d ∈ m.classes := by
  cases hchain with
  | root hd _ _ _ => exact hd
  | child hd _ _ _ _ => exact hd

/-- A linked lineage defines the classes of the declared one. -/
theorem Chain.map_definition (horder : ParentsPrecede m.classes) (hnames : m.classNames.Nodup)
    (hchain : Chain m h d l) :
    l.map ClassNode.definition = (m.lineage d).map Program.ClassDef.ofDecl := by
  induction hchain with
  | root _ hn _ hbase =>
    rw [ModuleDecl.lineage_of_root hbase]
    simp [hn]
  | child hd hn _ hbase hparent ih =>
    rw [ModuleDecl.lineage_of_child horder hnames hd hparent.mem hbase, List.map_cons,
      List.map_cons, hn, ih]

end Lineage

namespace Program

theorem Param.constant_ofDecl (a : AttributeDecl) :
    (Param.ofDecl a).default.constant = Constant.ofJson a.default := by
  unfold Param.ofDecl
  cases a.hasMutableDefault <;> rfl

end Program

-- ==================================================== the three accounts

/-- A live class agrees with the declared class and with the entries of the
document along its chain, that of its own body first. -/
structure Class.Represents (c : Class) (m : ModuleDecl) (d : ClassDecl) (body : Entries Json)
    (chain : List (String × Entries Json)) : Prop where
  lineage : c.lineage.map ClassNode.name = (m.lineage d).map ClassDecl.name
  parents : (m.lineage d).map ClassDecl.name = chain.map Prod.fst
  /-- neither the bound nor a name already met ends the declared lineage -/
  ends : ∃ e, (m.lineage d).getLast? = some e ∧ e.base = none
  instanceAttributes : c.declaredInstanceAttributes
    = Entries.mapValues Constant.ofJson (ClassDecl.attributeFields body)
  classAttributes : c.declaredClassAttributes
    = Entries.mapValues Constant.ofJson (ClassDecl.sharedFields body)
  hasProperty : ∀ name, c.hasProperty name = true ↔ ∃ b ∈ chain, name ∈ ClassDecl.ownKeys b.2
  paramCount : c.paramCount = (chain.flatMap fun b => ClassDecl.ownKeys b.2).length

namespace Lineage

variable {m : ModuleDecl} {root : Entries Json} {d : ClassDecl} {l : Lineage}
  {chain : List (String × Entries Json)}

/-- The parameters along a lineage have the names of the free keys along the
chain. -/
theorem paramNames_eq
    (hdefinition : l.map ClassNode.definition = (m.lineage d).map Program.ClassDef.ofDecl)
    (hread : List.Forall₂ (fun b d => ClassDecl.ReadFrom b.1 b.2 (ModuleDecl.classEntries root).keys d)
      chain (m.lineage d)) :
    l.paramNames = chain.flatMap fun b => ClassDecl.ownKeys b.2 := by
  have hkeys : (m.lineage d).map (fun e => (Program.ClassDef.ofDecl e).paramNames)
      = chain.map fun b => ClassDecl.ownKeys b.2 := by
    refine map_eq_of_forall₂ (hread.imp fun b e he => ?_)
    rw [Program.paramNames_ofDecl]
    exact he.instanceNames
  calc l.paramNames
      = (l.map ClassNode.definition).flatMap Program.ClassDef.paramNames := by
        rw [List.flatMap_map]
        rfl
    _ = (m.lineage d).flatMap fun e => (Program.ClassDef.ofDecl e).paramNames := by
        rw [hdefinition, List.flatMap_map]
    _ = chain.flatMap fun b => ClassDecl.ownKeys b.2 := by
        rw [List.flatMap_def, hkeys, List.flatMap_def]

end Lineage

/-- A linked class represents the class that it was linked from. -/
theorem Class.represents_of_chain {root : Entries Json} (hroot : (Json.object root).DistinctKeys)
    {name file time : String} {m : ModuleDecl} (hread : m.ReadFrom name file time root)
    {c : Class} {h : Heap} {d : ClassDecl} (hlinked : Lineage.Chain m h d c.lineage)
    (hlineage : c.lineage.Declared) :
    ∃ body chain, (d.name, .object body) ∈ ModuleDecl.classEntries root
      ∧ ModuleDecl.ParentChain root d.name chain ∧ c.Represents m d body chain := by
  have hnames := hread.classNames_nodup hroot
  have horder := hread.classes.parentsPrecede
  have hd := hlinked.mem
  have hnode := hlinked.head
  obtain ⟨body, hentry, hparts⟩ := hread.classes.exists_body hd
  obtain ⟨chain, hchain, hall⟩ := hread.classes.exists_chain hnames hd
  have hdefinition := hlinked.map_definition horder hnames
  have hparams := Lineage.paramNames_eq hdefinition hall
  refine ⟨body, chain, hentry, hchain, ?_⟩
  constructor
  case lineage =>
    calc c.lineage.map ClassNode.name
        = (c.lineage.map ClassNode.definition).map Program.ClassDef.name := by
          rw [List.map_map]; rfl
      _ = (m.lineage d).map ClassDecl.name := by rw [hdefinition, List.map_map]; rfl
  case parents => exact map_eq_of_forall₂ (hall.imp fun b e he => he.name_eq)
  case ends => exact ModuleDecl.exists_last_lineage horder hnames hd
  case instanceAttributes =>
    unfold Class.declaredInstanceAttributes ClassNode.params
    rw [hnode, Program.params_ofDecl, List.map_map, ← hparts.instanceFields, Entries.mapValues,
      List.map_map]
    refine List.map_congr_left fun a _ => ?_
    show (a.name, (Program.Param.ofDecl a).default.constant) = _
    rw [Program.Param.constant_ofDecl]
    rfl
  case classAttributes =>
    unfold Class.declaredClassAttributes
    rw [hnode, ← ClassDecl.readClassAttributes_fields hparts.shared, Entries.mapValues, List.map_map]
    rfl
  case hasProperty =>
    intro attr
    unfold Class.hasProperty
    rw [Lineage.isSome_property?_iff hlineage, ← Lineage.mem_paramNames, hparams, List.mem_flatMap]
  case paramCount =>
    unfold Class.paramCount
    rw [← Lineage.length_paramNames, hparams]

/-- The classes of a linked document are its class entries, one each, and
every one of them agrees with the declared class of the name and with the
document: in its lineage, which is the chain that `__parent__` leads
through, in the attributes that it declares, and in the properties and
parameters that it has or inherits. -/
theorem Program.classes_represent_document {document : Json} (hdistinct : document.DistinctKeys)
    {name file time : String} {m : ModuleDecl}
    (hm : ModuleDecl.ofDocument name file time document = .ok m) {before after : Heap}
    {s : ModuleState} (hs : (ofModule m).link document before = .ok (s, after)) :
    ∃ root, document = .object root
      ∧ s.classes.keys.Perm (ModuleDecl.classEntries root).keys
      ∧ ∀ className j, (className, j) ∈ ModuleDecl.classEntries root →
          ∃ body c d chain, j = .object body
            ∧ s.classes.find? className = some c ∧ m.findClass? className = some d
            ∧ (∀ chain', ModuleDecl.ParentChain root className chain' ↔ chain' = chain)
            ∧ c.Represents m d body chain := by
  obtain ⟨root, rfl⟩ := ModuleDecl.exists_root_of_ofDocument hm
  have hread := (ModuleDecl.ofDocument_eq_ok hdistinct.1).1 hm
  have hkeys := (ModuleDecl.classEntries_distinct hdistinct).1
  have hnames := hread.classNames_nodup hdistinct
  have hbound : s.classes.keys.Perm (ModuleDecl.classEntries root).keys := by
    rw [(keys_of_link hs).2, items_ofModule, classNames_items]
    exact hread.classes.classNames_perm
  refine ⟨root, rfl, hbound, fun className j hj => ?_⟩
  have hkey : className ∈ s.classes.keys := hbound.symm.subset (List.mem_map_of_mem hj)
  obtain ⟨c, hc⟩ := Table.exists_find?_iff.2 hkey
  have hlinked : c.LinkedFrom (.object root) m :=
    ⟨hdistinct, ⟨name, file, time, hm⟩, before, after, s, className, hs, hc⟩
  obtain ⟨d, rfl, hchain⟩ := exists_chain_of_link hs hc
  obtain ⟨body, chain, hentry, hparents, hrepresents⟩ :=
    Class.represents_of_chain hdistinct hread hchain hlinked.lineage_declared
  refine ⟨body, c, d, chain, ModuleDecl.body_unique hkeys hj hentry, hc,
    ModuleDecl.findClass?_of_mem hnames hchain.mem, fun chain' => ⟨fun h => ?_, ?_⟩, hrepresents⟩
  · exact h.unique hkeys hparents
  · rintro rfl
    exact hparents

/-- The last class of the small document: it inherits from two others and
declares an attribute of the first again. -/
theorem Program.gauge_represents_document :
    ∃ m s after root body c d chain,
      ModuleDecl.ofDocument "devices" "devices.json" "now" Sample.document = .ok m
      ∧ (ofModule m).link Sample.document .empty = .ok (s, after)
      ∧ Sample.document = .object root
      ∧ s.classes.find? "Gauge" = some c
      ∧ ModuleDecl.ParentChain root "Gauge" chain
      ∧ chain.map Prod.fst = ["Gauge", "Sensor", "Device"]
      ∧ c.Represents m d body chain
      ∧ c.paramCount = 5 := by
  have hcomputed : (Sample.class? "Gauge").any (fun c =>
      c.lineage.map ClassNode.name = ["Gauge", "Sensor", "Device"] ∧ c.paramCount = 5) = true := by
    decide +kernel
  obtain ⟨c, hc, hq⟩ := (Option.any_eq_true _ _).1 hcomputed
  obtain ⟨hlineage, hcount⟩ := of_decide_eq_true hq
  unfold Sample.class? at hc
  split at hc
  case h_1 => cases hc
  case h_2 m hm =>
    split at hc
    case h_1 => cases hc
    case h_2 s after hs =>
      obtain ⟨root, hroot, -, hall⟩ :=
        classes_represent_document Sample.distinctKeys_document hm hs
      have hentry : ∃ j, Entries.find? (ModuleDecl.classEntries root) "Gauge" = some j := by
        rw [← Option.isSome_iff_exists]
        cases hroot
        decide +kernel
      obtain ⟨j, hj⟩ := hentry
      obtain ⟨body, c', d, chain, -, hc', -, hchain, hrepresents⟩ :=
        hall "Gauge" j (Entries.mem_of_find? hj)
      cases hc.symm.trans hc'
      have hnames := hrepresents.lineage.trans hrepresents.parents
      exact ⟨m, s, after, root, body, c, d, chain, hm, hs, hroot, hc, (hchain chain).2 rfl,
        hnames.symm.trans hlineage, hrepresents, hcount⟩

end LiveDoc
