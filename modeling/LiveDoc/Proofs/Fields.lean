/-
What the fields of an instance keep.

Construction assigns root to leaf and checks each value with the class
whose parameter it is; an assignment later on is checked with the class
of the instance. Both come to the same: the last class that assigns a
field during construction is the nearest that declares it, and with no
declaration between, its checker is the one that the leaf resolves to
(`Lineage.Filled`). The induction is on the lineage.

From there `Instance.Kept` is the invariant of an instance in use: its
fields have the names and the order of construction, every field passes
the checker of the class, and read-only fields are those of construction.
One action keeps it (`Instance.Kept.perform`), hence any number does.
Lists and dicts may change in place meanwhile and new objects may appear;
a place never changes its role, so none of this reaches the fields.
-/
import LiveDoc.Live.Attribute
import LiveDoc.Proofs.Slots
import LiveDoc.Proofs.Validation

namespace LiveDoc

open Traversal

-- ==================================================== assigning slots

namespace Slot

/-- What assigning slots gives: the fields there were and those of the
slots, of which each value has passed the checker. -/
theorem assign_ok {l : Lineage} {slots : List Slot} {fields fields' : Table Value}
    {h h' : Heap} (hassign : assign l slots fields h = .ok (fields', h')) :
    (∀ a, a ∈ fields'.keys ↔ a ∈ slots.map Slot.name ∨ a ∈ fields.keys)
      ∧ ∀ a v, fields'.find? a = some v →
          (a ∈ slots.map Slot.name ∧ l.validate a v = .ok ())
          ∨ (a ∉ slots.map Slot.name ∧ fields.find? a = some v) := by
  induction slots generalizing fields h with
  | nil =>
    cases hassign
    exact ⟨fun a => by simp, fun a v hv => .inr ⟨by simp, hv⟩⟩
  | cons s ss ih =>
    rw [assign] at hassign
    split at hassign
    case h_1 => cases hassign
    case h_2 hvalid =>
      obtain ⟨hkeys, hvalues⟩ := ih hassign
      constructor
      · intro a
        rw [hkeys a, Table.mem_keys_insert, List.map_cons, List.mem_cons]
        exact or_left_comm.trans or_assoc.symm
      · intro a v hv
        rw [List.map_cons, List.mem_cons]
        -- a later slot of the name decides; without one this slot does, or the field
        -- stays
        rcases hvalues a v hv with ⟨hmem, hpass⟩ | ⟨hmem, hfind⟩
        · exact .inl ⟨.inr hmem, hpass⟩
        · rw [Table.find?_insert] at hfind
          by_cases hname : s.param.name = a
          · rw [if_pos hname] at hfind
            cases hfind
            rw [hname] at hvalid
            exact .inl ⟨.inl hname.symm, hvalid⟩
          · rw [if_neg hname] at hfind
            refine .inr ⟨?_, hfind⟩
            exact not_or.2 ⟨fun h => hname h.symm, hmem⟩

end Slot

-- ==================================================== construction

namespace Lineage

/-- The fields are those that a lineage declares, and all pass its
checkers. -/
structure Filled (l : Lineage) (fields : Table Value) : Prop where
  names : ∀ a, a ∈ fields.keys ↔ ∃ n ∈ l, n.declares a = true
  valid : ∀ a v, fields.find? a = some v → l.validate a v = .ok ()

theorem Filled.nil : Filled [] ∅ where
  names a := by
    constructor
    · intro h
      cases h
    · intro h
      obtain ⟨n, hn, -⟩ := h
      cases hn
  valid a v h := by cases h

end Lineage

theorem ClassNode.declares_of_params_none {n : ClassNode} (h : n.definition.params = none)
    (a : String) : n.declares a = false := by
  unfold ClassNode.declares ClassNode.params
  rw [h]
  rfl

/-- Construction fills the fields. -/
theorem Class.constructFields_filled {leaf : Class} {l : Lineage} (hl : l.Declared)
    {positional : List Value} {keyword : Entries Value} {h h' : Heap} {fields : Table Value}
    (hfields : constructFields leaf l positional keyword h = .ok (fields, h')) :
    l.Filled fields := by
  induction l generalizing positional keyword h fields h' with
  | nil =>
    obtain ⟨⟨⟩, -, hfields⟩ := bind_eq_ok.1 hfields
    cases hfields
    exact Lineage.Filled.nil
  | cons n l ih =>
    obtain ⟨⟨d, hn⟩, hl⟩ := hl.of_cons
    rw [constructFields] at hfields
    split at hfields
    -- a class without an initializer declares nothing, so the ancestors' fields are
    -- all
    case h_1 hparams =>
      have hnone := ClassNode.declares_of_params_none hparams
      obtain ⟨hnames, hvalid⟩ := ih hl hfields
      refine ⟨fun a => ?_, fun a v hv => ?_⟩
      · rw [hnames a, List.exists_mem_cons_iff, hnone a]
        simp
      · rw [Lineage.validate_cons_of_not hn (hnone a)]
        exact hvalid a v hv
    case h_2 params hparams =>
      obtain ⟨⟨slots, unbound⟩, hbind, hfields⟩ := bind_eq_ok.1 hfields
      obtain ⟨⟨inherited, h₁⟩, hinherited, hassign⟩ := bind_eq_ok.1 hfields
      obtain ⟨hnames, hvalid⟩ := ih hl hinherited
      obtain ⟨hkeys, hvalues⟩ := Slot.assign_ok hassign
      have hslots : ∀ a, a ∈ slots.map Slot.name ↔ n.declares a = true := by
        have hparam := Slot.map_param_bindKeywords hbind
        rw [Slot.map_param_ofPositional] at hparam
        intro a
        rw [ClassNode.declares_iff, ClassNode.params, hparams, Option.getD_some, ← hparam,
          List.map_map]
        rfl
      refine ⟨fun a => ?_, fun a v hv => ?_⟩
      · rw [hkeys a, hslots a, hnames a, List.exists_mem_cons_iff]
      · rcases hvalues a v hv with ⟨-, hpass⟩ | ⟨hmem, hfind⟩
        · exact hpass
        · -- the class does not declare the field, so the ancestors' check stands
          rw [hslots a, Bool.not_eq_true] at hmem
          rw [Lineage.validate_cons_of_not hn hmem]
          exact hvalid a v hfind

/-- A new instance has a place of its own, with the fields filled. -/
theorem Class.instantiate_ok {c : Class} (hl : c.lineage.Declared) {args : Arguments}
    {h h' : Heap} {i : Instance} (hi : c.instantiate args h = .ok (i, h')) :
    i.ofClass = c ∧ ∃ fields, h'.objects[i.fields]? = some (.fields fields)
      ∧ c.lineage.Filled fields := by
  obtain ⟨⟨fields, h₁⟩, hfields, hi⟩ := bind_eq_ok.1 hi
  cases hi
  refine ⟨rfl, fields, ?_, constructFields_filled hl hfields⟩
  have hnew := Heap.getElem?_alloc h₁ (.fields fields) h₁.size
  rw [if_pos rfl] at hnew
  exact hnew

-- ==================================================== the nearest declaration

namespace Lineage

/-- A lineage has a property exactly when a class of it declares the
attribute. -/
theorem isSome_property?_iff {l : Lineage} (hl : l.Declared) {attr : String} :
    (l.property? attr).isSome = true ↔ ∃ n ∈ l, n.declares attr = true := by
  unfold property?
  rw [List.findSome?_isSome_iff]
  refine exists_congr fun n => and_congr_right fun hn => ?_
  obtain ⟨d, hd⟩ := hl n hn
  rw [Option.isSome_iff_ne_none, ← Bool.not_eq_false (n.declares attr)]
  exact not_congr hd.property?_eq_none_iff

/-- The property of a lineage is that of the nearest declaration. -/
theorem property?_of_nearest {l : Lineage} (hl : l.Declared) {attr : String} {n : ClassNode}
    (hn : l.find? (fun n => n.declares attr) = some n) : l.property? attr = n.property? attr := by
  induction l with
  | nil => cases hn
  | cons m l ih =>
    obtain ⟨⟨d, hm⟩, hl⟩ := hl.of_cons
    unfold property?
    rw [List.findSome?_cons]
    cases hdeclares : m.declares attr with
    | true =>
      rw [List.find?_cons, hdeclares] at hn
      cases hn
      obtain ⟨p, hp, -⟩ := hm.checks_eq hdeclares
      rw [hp]
    | false =>
      rw [List.find?_cons, hdeclares] at hn
      rw [hm.property?_eq_none_iff.2 hdeclares]
      exact ih hl hn

end Lineage

-- ==================================================== use

/-- What may happen while an instance is in use. -/
inductive Action
  /-- an attribute of the instance is assigned to -/
  | assign (attr : String) (v : Value)
  /-- a list changes in place -/
  | setItems (r : Ref) (items : List Value)
  /-- a dict changes in place -/
  | setEntries (r : Ref) (entries : Table Value)
  /-- a new object appears -/
  | create (o : Object)

namespace Instance

/-- The heap after an action. A refused assignment leaves it alone, and
so does a change of what is no list or no dict. -/
def perform (i : Instance) (h : Heap) : Action → Heap
  | .assign attr v =>
    match i.setAttr h attr v with
    | .ok h' => h'
    | .error _ => h
  | .setItems r items =>
    match h.objects[r]? with
    | some (.list _) => h.write r (.list items)
    | _ => h
  | .setEntries r entries =>
    match h.objects[r]? with
    | some (.table _) => h.write r (.table entries)
    | _ => h
  | .create o => (h.alloc o).2

/-- The heap after actions in order. -/
def run (i : Instance) (h : Heap) (actions : List Action) : Heap :=
  actions.foldl i.perform h

/-- What is kept of an instance that had the fields `start` when it was
made. -/
structure Kept (i : Instance) (start : Table Value) (h : Heap) : Prop where
  place : h.objects[i.fields]? = some (.fields (h.table i.fields))
  names : (h.table i.fields).keys = start.keys
  valid : ∀ a v, (h.table i.fields).find? a = some v → i.ofClass.validate a v = .ok ()
  readOnly : ∀ a, i.ofClass.isReadOnly a = true →
    (h.table i.fields).find? a = start.find? a

variable {i : Instance} {start : Table Value} {h h' : Heap}

/-- An assignment that is accepted: the property exists, is not read only
and passes the value, and the heap changes in that one field. -/
theorem setAttr_ok {attr : String} {v : Value} (hset : i.setAttr h attr v = .ok h') :
    i.ofClass.hasProperty attr = true ∧ i.ofClass.isReadOnly attr = false
      ∧ i.ofClass.validate attr v = .ok ()
      ∧ h' = h.write i.fields (.fields ((h.table i.fields).insert attr v)) := by
  unfold setAttr at hset
  obtain ⟨hproperty, hset⟩ := ite_error_eq_ok.1 hset
  obtain ⟨hassignable, hset⟩ := ite_error_eq_ok.1 hset
  split at hset
  case h_1 => cases hset
  case h_2 hvalid =>
    cases hset
    exact ⟨by simpa using hproperty, by simpa using hassignable, hvalid, rfl⟩

/-- Whatever leaves the place of the fields alone keeps the instance. -/
theorem Kept.of_getElem?_eq (hi : i.Kept start h)
    (hsame : h'.objects[i.fields]? = h.objects[i.fields]?) : i.Kept start h' := by
  have hplace : h'.objects[i.fields]? = some (.fields (h.table i.fields)) := hsame.trans hi.place
  have htable : h'.table i.fields = h.table i.fields := Heap.table_of_fields hplace
  refine ⟨?_, ?_, ?_, ?_⟩
  · rw [htable]
    exact hplace
  · rw [htable]
    exact hi.names
  · rw [htable]
    exact hi.valid
  · rw [htable]
    exact hi.readOnly

/-- An accepted assignment keeps the instance: the property was filled
when the instance was made, so the field takes no new place. -/
theorem Kept.setAttr (hl : i.ofClass.lineage.Declared) (hstart : i.ofClass.lineage.Filled start)
    (hi : i.Kept start h) {attr : String} {v : Value} (hset : i.setAttr h attr v = .ok h') :
    i.Kept start h' := by
  obtain ⟨hproperty, hassignable, hvalid, rfl⟩ := setAttr_ok hset
  have hplace : (h.write i.fields (.fields ((h.table i.fields).insert attr v))).objects[i.fields]?
      = some (.fields ((h.table i.fields).insert attr v)) :=
    Heap.getElem?_write_self h _ (Heap.lt_size_of_getElem? hi.place)
  have htable := Heap.table_of_fields hplace
  refine ⟨?_, ?_, ?_, ?_⟩
  · rw [htable]
    exact hplace
  · -- only properties can be assigned, and all of them are fields already
    have hmem : attr ∈ (h.table i.fields).keys := by
      rw [hi.names, hstart.names attr]
      exact (Lineage.isSome_property?_iff hl).1 hproperty
    rw [htable, Table.keys_insert, if_pos hmem]
    exact hi.names
  · intro a w hw
    rw [htable, Table.find?_insert] at hw
    by_cases ha : attr = a
    · rw [if_pos ha] at hw
      cases hw
      rw [← ha]
      exact hvalid
    · rw [if_neg ha] at hw
      exact hi.valid a w hw
  · intro a hreadOnly
    have hne : attr ≠ a := by
      intro heq
      rw [heq, hreadOnly] at hassignable
      cases hassignable
    rw [htable, Table.find?_insert, if_neg hne]
    exact hi.readOnly a hreadOnly

/-- One action keeps the instance. -/
theorem Kept.perform (hl : i.ofClass.lineage.Declared) (hstart : i.ofClass.lineage.Filled start)
    (hi : i.Kept start h) (action : Action) : i.Kept start (i.perform h action) := by
  -- a place that is in another role is not that of the fields
  have hother : ∀ r o, h.objects[r]? = some o → (∀ t, o ≠ .fields t) → r ≠ i.fields := by
    intro r o hr ho heq
    rw [heq, hi.place] at hr
    cases hr
    exact ho _ rfl
  cases action with
  | assign attr v =>
    rw [Instance.perform]
    split
    case h_1 h' hset => exact hi.setAttr hl hstart hset
    case h_2 => exact hi
  | setItems r items =>
    rw [Instance.perform]
    split
    case h_1 old hr =>
      have hne : r ≠ i.fields := hother r _ hr (fun t ht => by cases ht)
      exact hi.of_getElem?_eq (Heap.getElem?_write_of_ne h _ hne)
    case h_2 => exact hi
  | setEntries r entries =>
    rw [Instance.perform]
    split
    case h_1 old hr =>
      have hne : r ≠ i.fields := hother r _ hr (fun t ht => by cases ht)
      exact hi.of_getElem?_eq (Heap.getElem?_write_of_ne h _ hne)
    case h_2 => exact hi
  | create o =>
    have hlt : i.fields < h.size := Heap.lt_size_of_getElem? hi.place
    have hne : i.fields ≠ h.size := Nat.ne_of_lt hlt
    refine hi.of_getElem?_eq ?_
    show (h.alloc o).2.objects[i.fields]? = h.objects[i.fields]?
    rw [Heap.getElem?_alloc, if_neg hne]

/-- Any number of actions keeps the instance. -/
theorem Kept.run (hl : i.ofClass.lineage.Declared) (hstart : i.ofClass.lineage.Filled start)
    (hi : i.Kept start h) (actions : List Action) : i.Kept start (i.run h actions) := by
  induction actions generalizing h with
  | nil => exact hi
  | cons action actions ih => exact ih (hi.perform hl hstart action)

/-- What a new instance keeps is what it was made with. -/
theorem kept_of_filled {fields : Table Value} (hplace : h.objects[i.fields]? = some (.fields fields))
    (hfilled : i.ofClass.lineage.Filled fields) : i.Kept fields h := by
  have htable : h.table i.fields = fields := Heap.table_of_fields hplace
  refine ⟨?_, ?_, ?_, ?_⟩
  · rw [htable]
    exact hplace
  · rw [htable]
  · rw [htable]
    exact hfilled.valid
  · rw [htable]
    exact fun a _ => rfl

end Instance

-- ==================================================== instances of linked classes

/-- An instance of a linked class in use, after any actions: its fields
have the names and the order of construction, each passes the checker of
the class, those whose nearest declaration is read only are those of
construction, and a refused assignment might as well not have been
tried. -/
theorem Instance.fields_after_run {document : Json} {m : ModuleDecl} {c : Class}
    (hc : c.LinkedFrom document m) {args : Arguments} {before made : Heap} {i : Instance}
    (hi : c.instantiate args before = .ok (i, made)) (actions : List Action) :
    ((i.run made actions).table i.fields).keys = (made.table i.fields).keys
      ∧ (∀ a v, ((i.run made actions).table i.fields).find? a = some v →
          c.validate a v = .ok ())
      ∧ (∀ a n p, c.lineage.find? (fun n => n.declares a) = some n → n.property? a = some p →
          p.readOnly = true →
          ((i.run made actions).table i.fields).find? a = (made.table i.fields).find? a)
      ∧ ∀ attr v e, i.setAttr (i.run made actions) attr v = .error e →
          i.run made (actions ++ [.assign attr v]) = i.run made actions := by
  have hl : c.lineage.Declared := hc.lineage_declared
  obtain ⟨rfl, fields, hplace, hfilled⟩ := Class.instantiate_ok hl hi
  have hkept := (Instance.kept_of_filled hplace hfilled).run hl hfilled actions
  rw [Heap.table_of_fields hplace]
  refine ⟨hkept.names, hkept.valid, ?_, ?_⟩
  · intro a n p hn hp hreadOnly
    apply hkept.readOnly
    unfold Class.isReadOnly
    rw [Lineage.property?_of_nearest hl hn, hp]
    exact hreadOnly
  · intro attr v e hrefused
    unfold Instance.run at hrefused ⊢
    rw [List.foldl_append, List.foldl_cons, List.foldl_nil, Instance.perform, hrefused]

/-- An instance in use: one assignment is accepted, two are refused, and
the list that it holds grows. -/
theorem Instance.gauge_fields_after_run :
    ∃ (m : ModuleDecl) (c : Class) (i : Instance) (made : Heap),
      c.LinkedFrom Sample.document m ∧ c.instantiate {} .empty = .ok (i, made)
      ∧ (made.table i.fields).keys = ["label", "level", "tags", "unit"]
      ∧ ∀ a v, ((i.run made [.assign "level" (.int 40), .assign "level" (.int 70),
          .assign "label" (.str "e"), .setItems 0 [.null]]).table i.fields).find? a = some v →
          c.validate a v = .ok () := by
  obtain ⟨m, c, hc, hnames⟩ := Sample.exists_linkedFrom_of_any "Gauge"
    (fun c =>
      match c.instantiate {} .empty with
      | .error _ => false
      | .ok (i, made) => (made.table i.fields).keys == ["label", "level", "tags", "unit"])
    (by decide +kernel)
  split at hnames
  case h_1 => cases hnames
  case h_2 i made hi =>
    have hkept := Instance.fields_after_run hc hi
      [.assign "level" (.int 40), .assign "level" (.int 70), .assign "label" (.str "e"),
        .setItems 0 [.null]]
    exact ⟨m, c, i, made, hc, hi, eq_of_beq hnames, hkept.2.1⟩

end LiveDoc
