/-
How the heap evolves.

Whatever a program does, the heap changes in few ways: new objects
appear, a list or a dict changes in place, an attribute of an instance or
of a class is assigned. `Heap.Step` is one such change, with no more said
of it than that nothing refers to a place that does not exist; the
operations that make values, instances and classes are steps of the first
kind, however much they make at once.

All steps but that one write a single object and keep its role, and what
has named entries loses none of them (`Object.Becomes`, `Step.grown_or_write`).
Two things about whole runs follow by induction: heaps stay closed
(`Reachable.closed`), and no table ever loses a name
(`Steps.becomes`).
-/
import LiveDoc.Live.Module
import LiveDoc.Proofs.Fields
import LiveDoc.Proofs.Phases
import Mathlib.Logic.Relation

namespace LiveDoc

open Relation (ReflTransGen)
open Traversal

-- ==================================================== steps

namespace Heap

/-- New objects have appeared. They refer only to places that exist. -/
structure Grown (h h' : Heap) : Prop where
  kept : h.Extends h'
  within : ∀ (r : Ref) (o : Object), h.size ≤ r → h'.objects[r]? = some o → o.Within h'.size

/-- What can happen to a heap. -/
inductive Step : Heap → Heap → Prop
  /-- new objects appear -/
  | grow {h h' : Heap} (grown : h.Grown h') : Step h h'
  /-- a list changes in place -/
  | setItems {h : Heap} {r : Ref} {old items : List Value}
      (place : h.objects[r]? = some (.list old)) (within : (Object.list items).Within h.size) :
      Step h (h.write r (.list items))
  /-- a dict changes in place -/
  | setEntries {h : Heap} {r : Ref} {old entries : Table Value}
      (place : h.objects[r]? = some (.table old)) (within : (Object.table entries).Within h.size) :
      Step h (h.write r (.table entries))
  /-- an assignment to an attribute of an instance is accepted -/
  | assign {h h' : Heap} {i : Instance} {attr : String} {v : Value} {fields : Table Value}
      (place : h.objects[i.fields]? = some (.fields fields)) (within : v.Within h.size)
      (accepted : i.setAttr h attr v = .ok h') : Step h h'
  /-- an attribute of a class is assigned -/
  | assignClass {h : Heap} {c : Class} {attr : String} {v : Value} {own : Table Value}
      (place : h.objects[c.node.table]? = some (.attributes own)) (within : v.Within h.size) :
      Step h (c.setAttr h attr v)

/-- Any number of steps. -/
abbrev Steps : Heap → Heap → Prop := ReflTransGen Step

/-- The heap comes about by steps from the empty one. -/
def Reachable (h : Heap) : Prop := empty.Steps h

variable {h h' h'' : Heap}

theorem Grown.refl (h : Heap) : h.Grown h where
  kept := .refl h
  within _ _ hle hr := absurd (lt_size_of_getElem? hr) (Nat.not_lt.2 hle)

/-- What came up first still refers only to places that exist when more has
come up. -/
theorem Grown.trans (h₁ : h.Grown h') (h₂ : h'.Grown h'') : h.Grown h'' where
  kept := h₁.kept.trans h₂.kept
  within r o hle hr := by
    rcases Nat.lt_or_ge r h'.size with hlt | hge
    · rw [h₂.kept.same r hlt] at hr
      exact (h₁.within r o hle hr).mono h₂.kept.size
    · exact h₂.within r o hge hr

/-- One more object may come up, if it refers only to what there is. -/
theorem Grown.alloc (hgrown : h.Grown h') {o : Object} (ho : o.Within h'.size) :
    h.Grown (h'.alloc o).2 where
  kept := hgrown.kept.trans (.alloc h' o)
  within r o' hle hr := by
    have hsize : h'.size ≤ (h'.alloc o).2.size := (Extends.alloc h' o).size
    rw [getElem?_alloc] at hr
    split at hr
    case isTrue =>
      cases hr
      exact ho.mono hsize
    case isFalse => exact (hgrown.within r o' hle hr).mono hsize

/-- What constants are made into refers only to itself. -/
theorem Made.to_grown (hmade : h.Made h') : h.Grown h' where
  kept := hmade.grown
  within r o hle hr := fun v hv => ((hmade.apart r o hle hr).2 v hv).within

/-- A closed heap that grows stays closed. -/
theorem Grown.closed (hgrown : h.Grown h') (hclosed : h.Closed) : h'.Closed := by
  intro r o hr
  rcases Nat.lt_or_ge r h.size with hlt | hge
  · rw [hgrown.kept.same r hlt] at hr
    exact (hclosed r o hr).mono hgrown.kept.size
  · exact hgrown.within r o hge hr

end Heap

-- ==================================================== what one step does

/-- What a place may come to hold: an object in the same role, and where
the names of a role matter, with at least the same names. -/
inductive Object.Becomes : Object → Object → Prop
  | list (vs vs' : List Value) : Becomes (.list vs) (.list vs')
  | table (t t' : Table Value) : Becomes (.table t) (.table t')
  | fields {t t' : Table Value} (names : t.keys ⊆ t'.keys) : Becomes (.fields t) (.fields t')
  | attributes {t t' : Table Value} (names : t.keys ⊆ t'.keys) :
      Becomes (.attributes t) (.attributes t')

theorem Object.Becomes.refl (o : Object) : o.Becomes o := by
  cases o with
  | list vs => exact .list vs vs
  | table t => exact .table t t
  | fields t => exact .fields (List.Subset.refl _)
  | attributes t => exact .attributes (List.Subset.refl _)

/-- Roles stay however often an object is replaced, and names that were never
lost are not lost at all. -/
theorem Object.Becomes.trans {o o' o'' : Object} (h₁ : o.Becomes o') (h₂ : o'.Becomes o'') :
    o.Becomes o'' := by
  cases h₁ with
  | list vs _ =>
    cases h₂ with
    | list _ vs'' => exact .list vs vs''
  | table t _ =>
    cases h₂ with
    | table _ t'' => exact .table t t''
  | fields hnames =>
    cases h₂ with
    | fields hnames' => exact .fields (List.Subset.trans hnames hnames')
  | attributes hnames =>
    cases h₂ with
    | attributes hnames' => exact .attributes (List.Subset.trans hnames hnames')

namespace Heap

variable {h h' : Heap}

/-- Inserting a value refers to no more than the table and the value did. -/
theorem within_insert {t : Table Value} {key : String} {v : Value} {n : Nat} (hv : v.Within n)
    (ht : (Object.table t).Within n) : (Object.table (t.insert key v)).Within n := by
  intro x hx
  obtain ⟨name, hname⟩ := hx
  rw [Table.find?_insert] at hname
  split at hname
  case isTrue =>
    cases hname
    exact hv
  case isFalse => exact ht x ⟨name, hname⟩

theorem table_of_attributes {r : Ref} {t : Table Value}
    (hr : h.objects[r]? = some (.attributes t)) : h.table r = t := by
  unfold table
  rw [hr]

/-- An entry may replace another but leaves no name out. -/
theorem keys_subset_insert (t : Table Value) (key : String) (v : Value) :
    t.keys ⊆ (t.insert key v).keys := fun _ hname => Table.mem_keys_insert.2 (.inr hname)

/-- A step makes the heap grow, or writes one object: one that the old
object may become and that refers only to what exists, if all did
before. -/
theorem Step.grown_or_write (hstep : h.Step h') :
    h.Grown h' ∨ ∃ r o o', h.objects[r]? = some o ∧ o.Becomes o' ∧ h' = h.write r o'
      ∧ (h.Closed → o'.Within h.size) := by
  cases hstep with
  | grow hgrown => exact .inl hgrown
  | setItems hplace hwithin => exact .inr ⟨_, _, _, hplace, .list _ _, rfl, fun _ => hwithin⟩
  | setEntries hplace hwithin => exact .inr ⟨_, _, _, hplace, .table _ _, rfl, fun _ => hwithin⟩
  | assign hplace hwithin haccepted =>
    obtain ⟨-, -, -, hwrite⟩ := Instance.setAttr_ok haccepted
    rw [table_of_fields hplace] at hwrite
    refine .inr ⟨_, _, _, hplace, .fields (keys_subset_insert _ _ _), hwrite, ?_⟩
    intro hclosed
    have hold := hclosed _ _ hplace
    exact within_insert hwithin hold
  | @assignClass c attr v own hplace hwithin =>
    have hwrite : c.setAttr h attr v = h.write c.node.table (.attributes (own.insert attr v)) := by
      unfold Class.setAttr
      rw [table_of_attributes hplace]
    refine .inr ⟨_, _, _, hplace, .attributes (keys_subset_insert _ _ _), hwrite, ?_⟩
    intro hclosed
    have hold := hclosed _ _ hplace
    exact within_insert hwithin hold

/-- Writing changes one place and no other. -/
theorem getElem?_write {r s : Ref} {o o' : Object} (hr : h.objects[r]? = some o) :
    (h.write r o').objects[s]? = if r = s then some o' else h.objects[s]? := by
  split
  case isTrue heq =>
    rw [← heq]
    exact getElem?_write_self h o' (lt_size_of_getElem? hr)
  case isFalse hne => exact getElem?_write_of_ne h o' hne

/-- No step makes an object refer to a place that does not exist. -/
theorem Step.closed (hstep : h.Step h') (hclosed : h.Closed) : h'.Closed := by
  rcases hstep.grown_or_write with hgrown | ⟨r, o, o', hr, -, rfl, hwithin⟩
  · exact hgrown.closed hclosed
  · intro s os hs
    rw [size_write]
    rw [getElem?_write hr] at hs
    split at hs
    case isTrue =>
      cases hs
      exact hwithin hclosed
    case isFalse => exact hclosed s os hs

/-- No step takes a place away or changes its role. -/
theorem Step.becomes (hstep : h.Step h') {s : Ref} {o : Object} (hs : h.objects[s]? = some o) :
    ∃ o', h'.objects[s]? = some o' ∧ o.Becomes o' := by
  rcases hstep.grown_or_write with hgrown | ⟨r, old, new, hr, hbecomes, rfl, -⟩
  · exact ⟨o, hgrown.kept.getElem? hs, .refl o⟩
  · rw [getElem?_write hr]
    split
    case isTrue heq =>
      rw [← heq, hr] at hs
      cases hs
      exact ⟨new, rfl, hbecomes⟩
    case isFalse => exact ⟨o, hs, .refl o⟩

-- ==================================================== what runs keep

/-- Reachable heaps are closed. -/
theorem Reachable.closed (hreach : h.Reachable) : h.Closed := by
  unfold Reachable at hreach
  induction hreach with
  | refl => exact closed_empty
  | tail _ hstep ih => exact hstep.closed ih

/-- No place changes its role, and no names are lost. -/
theorem Steps.becomes (hsteps : h.Steps h') {r : Ref} {o : Object} (hr : h.objects[r]? = some o) :
    ∃ o', h'.objects[r]? = some o' ∧ o.Becomes o' := by
  induction hsteps with
  | refl => exact ⟨o, hr, .refl o⟩
  | tail _ hstep ih =>
    obtain ⟨o₁, hr₁, hbecomes₁⟩ := ih
    obtain ⟨o₂, hr₂, hbecomes₂⟩ := hstep.becomes hr₁
    exact ⟨o₂, hr₂, hbecomes₁.trans hbecomes₂⟩

/-- Fields stay fields and keep their names. -/
theorem Steps.fields (hsteps : h.Steps h') {r : Ref} {t : Table Value}
    (hr : h.objects[r]? = some (.fields t)) :
    h'.objects[r]? = some (.fields (h'.table r)) ∧ t.keys ⊆ (h'.table r).keys := by
  obtain ⟨o, hr', hbecomes⟩ := hsteps.becomes hr
  cases hbecomes with
  | fields hnames =>
    rw [table_of_fields hr']
    exact ⟨hr', hnames⟩

/-- Class attributes stay class attributes and keep their names. -/
theorem Steps.attributes (hsteps : h.Steps h') {r : Ref} {t : Table Value}
    (hr : h.objects[r]? = some (.attributes t)) :
    h'.objects[r]? = some (.attributes (h'.table r)) ∧ t.keys ⊆ (h'.table r).keys := by
  obtain ⟨o, hr', hbecomes⟩ := hsteps.becomes hr
  cases hbecomes with
  | attributes hnames =>
    rw [table_of_attributes hr']
    exact ⟨hr', hnames⟩

end Heap

-- ==================================================== making things is a step

/-- Linking a class makes its class attributes. -/
theorem Class.link_grown (moduleName : String) (ancestors : Lineage) (c : Program.ClassDef)
    (h : Heap) : h.Grown (Class.link moduleName ancestors c h).2 := by
  obtain ⟨hmade, hvalues, -⟩ := Constant.materializeEntries_made c.classAttributes h
  refine hmade.to_grown.alloc ?_
  intro v hv
  obtain ⟨key, hkey⟩ := hv
  exact (hvalues (key, v) (Table.find?_ofList hkey)).within

/-- Linking only adds objects: the values of attributes, and tables for the
class attributes. -/
theorem Program.linkItems_grown {moduleName : String} {items : List Item} {b b' : Bindings}
    {h h' : Heap} (hlink : linkItems moduleName items b h = .ok (b', h')) : h.Grown h' := by
  refine linkItems_keeps (P := fun _ later => h.Grown later) hlink (.refl h) ?_ ?_
  · intro name value b later _ hgrown
    obtain ⟨hmade, -, -⟩ := value.materialize_made later
    exact hgrown.trans hmade.to_grown
  · intro d ancestors b later _ hgrown _ _
    exact hgrown.trans (Class.link_grown moduleName ancestors d later)

/-- Linking a program only makes new objects. -/
theorem Program.link_grown {p : Program} {document : Json} {h h' : Heap} {s : ModuleState}
    (hlink : p.link document h = .ok (s, h')) : h.Grown h' := by
  obtain ⟨⟨b, h₁⟩, hitems, hstate⟩ := bind_eq_ok.1 hlink
  cases hstate
  exact linkItems_grown hitems

/-- The arguments refer only to the first `n` places. -/
structure Arguments.Within (args : Arguments) (n : Nat) : Prop where
  positional : ∀ v ∈ args.positional, v.Within n
  keyword : ∀ e ∈ args.keyword.entries, e.2.Within n

namespace Class

variable {c : Class} {args : Arguments} {h made : Heap} {i : Instance}

/-- Making an instance only makes new objects. -/
theorem instantiate_extends (hi : c.instantiate args h = .ok (i, made)) : h.Extends made := by
  obtain ⟨ss, fields, done, -, hassign, -, rfl⟩ := instantiate_phases hi
  obtain ⟨hmade, -⟩ := Slot.assignEach_made hassign
  exact hmade.grown.trans (.alloc done _)

/-- Its fields have a new place. -/
theorem instantiate_apart (hi : c.instantiate args h = .ok (i, made)) : h.size ≤ i.fields := by
  obtain ⟨ss, fields, done, -, hassign, rfl, -⟩ := instantiate_phases hi
  obtain ⟨hmade, -⟩ := Slot.assignEach_made hassign
  exact hmade.grown.size

/-- Making an instance is a step. -/
theorem instantiate_step (hargs : args.Within h.size) (hi : c.instantiate args h = .ok (i, made)) :
    h.Step made := by
  obtain ⟨ss, fields, done, hss, hassign, -, rfl⟩ := instantiate_phases hi
  obtain ⟨hmade, hfields⟩ := Slot.assignEach_made hassign
  refine .grow (hmade.to_grown.alloc ?_)
  intro v hv
  obtain ⟨name, hname⟩ := hv
  rcases hfields name v hname with hnone | ⟨s, hs, hargument⟩ | hnew
  · cases hnone
  · have hpassed :=
      slots_arguments (P := fun v => v.Within h.size) hss hargs.positional hargs.keyword
    exact (hpassed s hs v hargument).mono hmade.grown.size
  · exact hnew.within

end Class

-- ==================================================== classes in use

/-- The class was linked from a document that declares the module, and the
heap has come about from there. -/
structure Class.LiveIn (c : Class) (document : Json) (m : ModuleDecl) (h : Heap) : Prop where
  distinct : document.DistinctKeys
  declared : ∃ name file time, ModuleDecl.ofDocument name file time document = .ok m
  linked : ∃ before after s key, (Program.ofModule m).link document before = .ok (s, after)
    ∧ s.classes.find? key = some c ∧ after.Steps h

/-- A class that lives in a heap was once linked, whatever happened since. -/
theorem Class.LiveIn.linkedFrom {c : Class} {document : Json} {m : ModuleDecl} {h : Heap}
    (hc : c.LiveIn document m h) : c.LinkedFrom document m := by
  obtain ⟨before, after, s, key, hlink, hfind, -⟩ := hc.linked
  exact ⟨hc.distinct, hc.declared, before, after, s, key, hlink, hfind⟩

namespace Sample

/-- A class of a document, linked into the empty heap, and the heap then. -/
def live? (document : Json) (key : String) : Option (Class × Heap) :=
  match ModuleDecl.ofDocument "samples" "samples.json" "now" document with
  | .error _ => none
  | .ok m =>
    match (Program.ofModule m).link document .empty with
    | .error _ => none
    | .ok (s, h) => (s.classes.find? key).map fun c => (c, h)

/-- What is computed of a class and its heap holds of a class that is live
in a reachable heap. -/
theorem exists_liveIn_of_any {document : Json} (hdistinct : document.DistinctKeys) (key : String)
    (q : Class × Heap → Bool) (hq : (live? document key).any q = true) :
    ∃ m c h, c.LiveIn document m h ∧ h.Reachable ∧ q (c, h) = true := by
  obtain ⟨⟨c, h⟩, hc, hqc⟩ := (Option.any_eq_true q _).1 hq
  unfold live? at hc
  split at hc
  case h_1 => cases hc
  case h_2 m hm =>
    split at hc
    case h_1 => cases hc
    case h_2 s h' hs =>
      obtain ⟨c', hfind, heq⟩ := Option.map_eq_some_iff.1 hc
      cases heq
      have hreach : h.Reachable := ReflTransGen.single (.grow (Program.link_grown hs))
      exact ⟨m, c, h, ⟨hdistinct, ⟨_, _, _, hm⟩, ⟨_, _, s, key, hs, hfind, .refl⟩⟩, hreach, hqc⟩

end Sample

end LiveDoc
