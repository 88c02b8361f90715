/-
Operations on renamed values.

Whatever an operation does to values in one heap, it does to the renamed
values in a heap that corresponds: it fails alike, or its result is the
renamed result, and the heaps that are left correspond under the same
renaming. There is one equation for every reader and one relation
(`Corresponds`) for every operation that leaves another heap.

Two pieces are not a matter of unfolding. Construction places new objects,
slot by slot, and every slot in heaps that correspond only because the
slots before it kept them so (`Heap.Renamed.assignEach`, the induction on
slots). And a text is a walk that is cut short by a limit which depends on
the size of the heap. It is followed step by step
(`Heap.Renamed.textWithin_eq`); whether it ends at all is the same in both
heaps (`Heap.Renamed.ends_iff`), and if it does, the limit is not reached
in either.
-/
import LiveDoc.Proofs.Phases
import LiveDoc.Proofs.Renaming
import LiveDoc.Proofs.Walks

namespace LiveDoc

open Template (Conversion)
open Traversal

variable {ρ : Ref → Ref} {h h' : Heap}

-- ==================================================== attributes

namespace Heap.Renamed

/-- Class attributes, nearest class first. -/
theorem lineage_attribute?_eq (hr : h.Renamed ρ h') (l : Lineage) (attr : String) :
    Lineage.attribute? (l.map (ClassNode.renamed ρ)) h' attr
      = (l.attribute? h attr).map (Value.renamed ρ) := by
  induction l with
  | nil => rfl
  | cons n l ih =>
    unfold Lineage.attribute? at ih ⊢
    rw [List.map_cons, List.findSome?_cons, List.findSome?_cons, ih]
    have hown : (h'.table (n.renamed ρ).table).find? attr
        = ((h.table n.table).find? attr).map (Value.renamed ρ) := by
      show (h'.table (ρ n.table)).find? attr = _
      rw [hr.table_eq, Table.find?_map]
    rw [hown]
    cases (h.table n.table).find? attr <;> rfl

/-- Fields come before class attributes in both. -/
theorem instance_attribute?_eq (hr : h.Renamed ρ h') (i : Instance) (attr : String) :
    (i.renamed ρ).attribute? h' attr = (i.attribute? h attr).map (Value.renamed ρ) := by
  have hfield : (h'.table (i.renamed ρ).fields).find? attr
      = ((h.table i.fields).find? attr).map (Value.renamed ρ) := by
    show (h'.table (ρ i.fields)).find? attr = _
    rw [hr.table_eq, Table.find?_map]
  unfold Instance.attribute?
  rw [hfield]
  cases (h.table i.fields).find? attr with
  | none => exact hr.lineage_attribute?_eq i.ofClass.lineage attr
  | some v => rfl

/-- Reading an attribute of any value, refusals included. -/
theorem getAttr_eq (hr : h.Renamed ρ h') (v : Value) (attr : String) :
    (v.renamed ρ).getAttr h' attr = (v.getAttr h attr).map (Value.renamed ρ) := by
  cases v with
  | cls c =>
    have hclass : (c.renamed ρ).attribute? h' attr = (c.attribute? h attr).map (Value.renamed ρ) :=
      hr.lineage_attribute?_eq c.lineage attr
    show (c.renamed ρ).getAttr h' attr = (c.getAttr h attr).map _
    unfold Class.getAttr
    rw [hclass]
    cases c.attribute? h attr <;> rfl
  | inst i =>
    show (i.renamed ρ).getAttr h' attr = (i.getAttr h attr).map _
    unfold Instance.getAttr
    rw [hr.instance_attribute?_eq]
    cases i.attribute? h attr <;> rfl
  | _ => rfl

-- ==================================================== assignment

/-- A table with one more entry. -/
theorem insert_eq (hr : h.Renamed ρ h') (r : Ref) (attr : String) (x : Value) :
    (h'.table (ρ r)).insert attr (x.renamed ρ)
      = ((h.table r).insert attr x).map (Value.renamed ρ) := by
  rw [hr.table_eq, Table.insert_map]

/-- Class attributes are assigned without a check, so there is nothing to
fail. -/
theorem class_setAttr (hr : h.Renamed ρ h') (c : Class) (attr : String) (x : Value) :
    (c.setAttr h attr x).Renamed ρ ((c.renamed ρ).setAttr h' attr (x.renamed ρ)) := by
  have hwrite := hr.write c.node.table (.attributes ((h.table c.node.table).insert attr x))
  rw [Object.renamed, ← hr.insert_eq] at hwrite
  exact hwrite

/-- An instance refuses the same assignments for the same reasons, since
properties and checkers see no places. -/
theorem instance_setAttr (hr : h.Renamed ρ h') (i : Instance) (attr : String) (x : Value) :
    Corresponds (Heap.Renamed ρ) (i.setAttr h attr x)
      ((i.renamed ρ).setAttr h' attr (x.renamed ρ)) := by
  have hclass : (i.renamed ρ).ofClass = i.ofClass.renamed ρ := rfl
  have hvalid : (i.ofClass.renamed ρ).validate attr (x.renamed ρ) = i.ofClass.validate attr x :=
    i.ofClass.lineage.validate_renamed ρ attr x
  have hwrite := hr.write i.fields (.fields ((h.table i.fields).insert attr x))
  rw [Object.renamed, ← hr.insert_eq] at hwrite
  unfold Instance.setAttr
  rw [hclass, hvalid, Class.hasProperty_renamed, Class.isReadOnly_renamed]
  split
  · exact .error _
  split
  · exact .error _
  cases i.ofClass.validate attr x with
  | error e => exact .error _
  | ok u => exact .ok hwrite

/-- Assigning an attribute of any value. -/
theorem setAttr (hr : h.Renamed ρ h') (v : Value) (attr : String) (x : Value) :
    Corresponds (Heap.Renamed ρ) (v.setAttr h attr x)
      ((v.renamed ρ).setAttr h' attr (x.renamed ρ)) := by
  cases v with
  | cls c => exact .ok (hr.class_setAttr c attr x)
  | inst i => exact hr.instance_setAttr i attr x
  | _ => exact .error _

end Heap.Renamed

-- ==================================================== binding arguments

/-- The slot with its argument elsewhere. -/
def Slot.renamed (ρ : Ref → Ref) (s : Slot) : Slot :=
  ⟨s.param, s.argument.map (Value.renamed ρ)⟩

/-- The slot with its argument and its class elsewhere. -/
def LineageSlot.renamed (ρ : Ref → Ref) (s : LineageSlot) : LineageSlot :=
  ⟨s.declaring.map (ClassNode.renamed ρ), s.slot.renamed ρ⟩

section Binding

variable (ρ : Ref → Ref)

namespace Slot

/-- Positional arguments go to parameters in order, whatever they are. -/
theorem ofPositional_renamed (params : List Program.Param) (vs : List Value) :
    ofPositional params (vs.map (Value.renamed ρ))
      = (ofPositional params vs).map (Slot.renamed ρ) := by
  induction params generalizing vs with
  | nil => rfl
  | cons p ps ih =>
    cases vs with
    | nil => exact congrArg (Slot.mk p none :: ·) (ih [])
    | cons v vs => exact congrArg (Slot.mk p (some (v.renamed ρ)) :: ·) (ih vs)

/-- A keyword goes to the slot of its name. -/
theorem fill_renamed (name : String) (v : Value) (slots : List Slot) :
    fill name (v.renamed ρ) (slots.map (Slot.renamed ρ))
      = (fill name v slots).map (Slot.renamed ρ) := by
  induction slots with
  | nil => rfl
  | cons s ss ih =>
    show (if s.param.name = name then _ else _) = _
    rw [fill, ih]
    split <;> rfl

/-- Keywords find the same slots and are refused for the same ones; those left
over are the same too. -/
theorem bindKeywords_renamed (className : String) (slots : List Slot) (keyword : Entries Value) :
    bindKeywords className (slots.map (Slot.renamed ρ)) (keyword.mapValues (Value.renamed ρ))
      = (bindKeywords className slots keyword).map fun r =>
          (r.1.map (Slot.renamed ρ), Entries.mapValues (Value.renamed ρ) r.2) := by
  induction keyword generalizing slots with
  | nil => rfl
  | cons e rest ih =>
    obtain ⟨name, v⟩ := e
    have hfind : (slots.map (Slot.renamed ρ)).find? (fun s => s.param.name = name)
        = (slots.find? fun s => s.param.name = name).map (Slot.renamed ρ) := by
      rw [List.find?_map]
      rfl
    show bindKeywords className _ ((name, v.renamed ρ) :: Entries.mapValues (Value.renamed ρ) rest) = _
    rw [bindKeywords, bindKeywords, hfind, ih, fill_renamed, ih]
    generalize List.find? _ slots = found
    rcases found with _ | ⟨p, _ | w⟩
    · cases bindKeywords className slots rest <;> rfl
    · rfl
    · rfl

end Slot

namespace Class

/-- Leftovers are refused by their names and their number. -/
theorem refuseLeftovers_renamed (leaf : Class) (vs : List Value) (keyword : Entries Value) :
    refuseLeftovers (leaf.renamed ρ) (vs.map (Value.renamed ρ))
        (keyword.mapValues (Value.renamed ρ))
      = leaf.refuseLeftovers vs keyword := by
  have hcount : (leaf.renamed ρ).paramCount = leaf.paramCount :=
    leaf.lineage.paramCount_renamed ρ
  cases keyword with
  | cons e rest => rfl
  | nil =>
    cases vs with
    | nil => rfl
    | cons v vs =>
      show Except.error (CallError.tooManyArguments _ _ (_ + (v.renamed ρ :: vs.map _).length)) = _
      rw [hcount, List.length_cons, List.length_map]
      rfl

/-- Binding sees no places. -/
theorem slots_renamed (leaf : Class) (l : Lineage) (positional : List Value)
    (keyword : Entries Value) :
    (leaf.renamed ρ).slots (l.map (ClassNode.renamed ρ)) (positional.map (Value.renamed ρ))
        (keyword.mapValues (Value.renamed ρ))
      = (leaf.slots l positional keyword).map (List.map (LineageSlot.renamed ρ)) := by
  induction l generalizing positional keyword with
  | nil =>
    show ((leaf.renamed ρ).refuseLeftovers _ _ >>= _) = _
    rw [refuseLeftovers_renamed, slots]
    cases leaf.refuseLeftovers positional keyword <;> rfl
  | cons n l ih =>
    rw [List.map_cons, slots, slots,
      show (n.renamed ρ).definition = n.definition from rfl]
    cases n.definition.params with
    | none => exact ih positional keyword
    | some params =>
      dsimp only
      rw [Slot.ofPositional_renamed, show (leaf.renamed ρ).name = leaf.name from rfl,
        Slot.bindKeywords_renamed, ← List.map_drop]
      cases Slot.bindKeywords leaf.name (Slot.ofPositional params positional) keyword with
      | error e => rfl
      | ok bound =>
        obtain ⟨own, unbound⟩ := bound
        show ((leaf.renamed ρ).slots _ _ (Entries.mapValues _ unbound) >>= _)
          = (leaf.slots l _ unbound >>= _).map _
        rw [ih]
        cases leaf.slots l (positional.drop params.length) unbound with
        | error e => rfl
        | ok inherited =>
          refine congrArg Except.ok ?_
          show inherited.map _ ++ (own.map (Slot.renamed ρ)).map _ = (inherited ++ own.map _).map _
          rw [List.map_append, List.map_map, List.map_map]
          rfl

end Class

end Binding

-- ==================================================== construction

namespace Heap.Renamed

/-- What a slot assigns. -/
theorem slot_value (hr : h.Renamed ρ h') (s : Slot) :
    ((s.renamed ρ).value h').1 = (s.value h).1.renamed ρ
      ∧ (s.value h).2.Renamed ρ ((s.renamed ρ).value h').2 := by
  have hdefault : (s.renamed ρ).default? = s.default? := by
    obtain ⟨⟨name, _ | c⟩, _ | v⟩ := s
    · rfl
    · rfl
    · rfl
    · cases v <;> rfl
  rcases s.value_eq h with ⟨k, hk, hvalue⟩ | ⟨hnone, v, hargument, hvalue⟩
  · rw [hvalue, Slot.value_of_default? (hdefault.trans hk)]
    exact hr.materialize k
  · rcases (s.renamed ρ).value_eq h' with ⟨k, hk, -⟩ | ⟨-, w, hargument', hvalue'⟩
    · rw [hdefault, hnone] at hk
      cases hk
    · have hw : (s.renamed ρ).argument = some (v.renamed ρ) := by
        show s.argument.map _ = _
        rw [hargument]
        rfl
      rw [hw] at hargument'
      cases hargument'
      rw [hvalue, hvalue']
      exact ⟨rfl, hr⟩

/-- Assigning slots one after the other. -/
theorem assignEach (hr : h.Renamed ρ h') (ss : List LineageSlot) (fields : Table Value) :
    Corresponds (fun r r' => r'.1 = r.1.map (Value.renamed ρ) ∧ r.2.Renamed ρ r'.2)
      (Slot.assignEach ss fields h)
      (Slot.assignEach (ss.map (LineageSlot.renamed ρ)) (fields.map (Value.renamed ρ)) h') := by
  induction ss generalizing fields h h' with
  | nil => exact .ok ⟨rfl, hr⟩
  | cons s ss ih =>
    obtain ⟨hvalue, hmade⟩ := hr.slot_value s.slot
    have hvalid : (s.renamed ρ).declaring.validate s.slot.param.name ((s.slot.renamed ρ).value h').1
        = s.declaring.validate s.slot.param.name (s.slot.value h).1 := by
      rw [hvalue]
      exact s.declaring.validate_renamed ρ _ _
    have hrest := ih hmade (fields.insert s.slot.param.name (s.slot.value h).1)
    rw [← Table.insert_map, ← hvalue] at hrest
    rw [List.map_cons, Slot.assignEach, Slot.assignEach,
      show (s.renamed ρ).slot = s.slot.renamed ρ from rfl,
      show (s.slot.renamed ρ).param = s.slot.param from rfl, hvalid]
    cases s.declaring.validate s.slot.param.name (s.slot.value h).1 with
    | error e => exact .error _
    | ok u => exact hrest

/-- Construction. -/
theorem instantiate (hr : h.Renamed ρ h') (c : Class) (args : Arguments) :
    Corresponds (fun r r' => r'.1 = r.1.renamed ρ ∧ r.2.Renamed ρ r'.2)
      (c.instantiate args h) ((c.renamed ρ).instantiate (args.renamed ρ) h') := by
  have hslots : (c.renamed ρ).slots (c.renamed ρ).lineage (args.renamed ρ).positional
      (args.renamed ρ).keyword.entries
      = (c.slots c.lineage args.positional args.keyword.entries).map
          (List.map (LineageSlot.renamed ρ)) :=
    c.slots_renamed ρ c.lineage args.positional args.keyword.entries
  have hfields : Corresponds (fun r r' => r'.1 = r.1.map (Value.renamed ρ) ∧ r.2.Renamed ρ r'.2)
      (c.constructFields c.lineage args.positional args.keyword.entries h)
      ((c.renamed ρ).constructFields (c.renamed ρ).lineage (args.renamed ρ).positional
        (args.renamed ρ).keyword.entries h') := by
    rw [Class.constructFields_eq, Class.constructFields_eq, hslots]
    cases c.slots c.lineage args.positional args.keyword.entries with
    | error e => exact .error e
    | ok ss => exact hr.assignEach ss ∅
  refine hfields.bind fun made made' hmade => ?_
  obtain ⟨fields, done⟩ := made
  obtain ⟨fields', done'⟩ := made'
  obtain ⟨rfl, hdone⟩ := hmade
  obtain ⟨hplace, halloc⟩ := hdone.alloc (.fields fields)
  refine .ok ⟨?_, halloc⟩
  exact congrArg (Instance.mk (c.renamed ρ)) hplace.symm

/-- Only classes can be called. -/
theorem call (hr : h.Renamed ρ h') (v : Value) (args : Arguments) :
    Corresponds (fun r r' => r'.1 = r.1.renamed ρ ∧ r.2.Renamed ρ r'.2)
      (v.call args h) ((v.renamed ρ).call (args.renamed ρ) h') := by
  cases v with
  | cls c =>
    refine (hr.instantiate c args).bind fun made made' hmade => ?_
    exact .ok ⟨congrArg Value.inst hmade.1, hmade.2⟩
  | _ => exact .error _

-- ==================================================== texts

/-- What a template shows in place of a name. -/
theorem placeholder?_eq (hr : h.Renamed ρ h') (i : Instance) (name : String) :
    (i.renamed ρ).placeholder? h' name = (i.placeholder? h name).map (Value.renamed ρ) := by
  unfold Instance.placeholder?
  rw [hr.instance_attribute?_eq]
  split
  · rfl
  split <;> rfl

/-- A text, as deep as any number of steps go. -/
theorem textWithin_eq (hr : h.Renamed ρ h') (n : Nat) (conversion : Conversion) (v : Value) :
    h'.textWithin n conversion (v.renamed ρ) = h.textWithin n conversion v := by
  induction n generalizing conversion v with
  | zero =>
    cases v with
    | str s => cases conversion <;> rfl
    | _ => simp only [Value.renamed, textWithin] <;> rfl
  | succ n ih =>
    cases v with
    | list r => exact textWithin_list_congr (hr.items_eq r) fun v _ => ih .repr v
    | dict r =>
      have hentries := congrArg Table.entries (hr.table_eq r)
      exact textWithin_dict_congr hentries fun e _ => ih .repr e.2
    | inst i =>
      exact textWithin_inst_congr rfl (i.ofClass.template_renamed ρ conversion)
        (hr.placeholder?_eq i) (Value.number?_renamed ρ) fun p _ => ih p.1 p.2
    | str s => cases conversion <;> rfl
    | _ => simp only [Value.renamed, textWithin] <;> rfl

/-- A walk goes on to the renamed parts, in the same conversions. -/
theorem parts_eq (hr : h.Renamed ρ h') (conversion : Conversion) (v : Value) :
    h'.parts conversion (v.renamed ρ)
      = (h.parts conversion v).map fun p => (p.1, p.2.renamed ρ) := by
  cases v with
  | list r =>
    show (h'.items (ρ r)).map _ = ((h.items r).map _).map _
    rw [hr.items_eq, List.map_map, List.map_map]
    rfl
  | dict r =>
    show (h'.table (ρ r)).entries.map _ = ((h.table r).entries.map _).map _
    rw [hr.table_eq, List.map_map]
    show ((h.table r).entries.map _).map _ = _
    rw [List.map_map]
    rfl
  | inst i =>
    show (i.renamed ρ).asked h' ((i.renamed ρ).ofClass.template conversion).segments = _
    rw [show (i.renamed ρ).ofClass.template conversion = _ from
      i.ofClass.template_renamed ρ conversion]
    unfold parts Instance.asked
    rw [List.map_filterMap]
    refine List.filterMap_congr fun s _ => ?_
    cases s with
    | literal text => rfl
    | field f =>
      show ((i.renamed ρ).placeholder? h' f.name).map _ = ((i.placeholder? h f.name).map _).map _
      rw [hr.placeholder?_eq, Option.map_map, Option.map_map]
      rfl
  | _ => rfl

/-- Whether a walk ends does not depend on places. -/
theorem ends_iff (hr : h.Renamed ρ h') {n : Nat} {conversion : Conversion} {v : Value} :
    h'.Ends n conversion (v.renamed ρ) ↔ h.Ends n conversion v := by
  have hcomposite : ∀ w : Value, (w.renamed ρ).isComposite = w.isComposite := fun w => by
    cases w <;> rfl
  induction n generalizing conversion v with
  | zero => rw [ends_zero_iff, ends_zero_iff, hcomposite]
  | succ n ih =>
    rw [ends_succ_iff, ends_succ_iff, hcomposite, hr.parts_eq, List.forall_mem_map]
    exact or_congr Iff.rfl (forall_congr' fun p => imp_congr_right fun _ => ih)

end Heap.Renamed

/-- The text of a value, if showing it ends. -/
def Heap.text? (h : Heap) (conversion : Conversion) (v : Value) : Option String :=
  if h.Ends h.walkLimit conversion v then some (h.textWithin h.walkLimit conversion v) else none

/-- A walk that ends gives the text at any limit that it ends within, so the
limit does not show. -/
theorem Heap.text?_of_ends {n : Nat} {conversion : Conversion} {v : Value}
    (hends : h.Ends n conversion v) : h.text? conversion v = some (h.textWithin n conversion v) := by
  rw [text?, if_pos hends.walkLimit, hends.text_eq]

/-- Texts do not depend on places, and neither does whether there is one. -/
theorem Heap.Renamed.text?_eq (hr : h.Renamed ρ h') (conversion : Conversion) (v : Value) :
    h'.text? conversion (v.renamed ρ) = h.text? conversion v := by
  by_cases hends : h.Ends h.walkLimit conversion v
  · rw [text?_of_ends hends, text?_of_ends (hr.ends_iff.2 hends), hr.textWithin_eq]
  · have hends' : ¬ h'.Ends h'.walkLimit conversion (v.renamed ρ) := fun hends' =>
      hends (hr.ends_iff.1 hends').walkLimit
    rw [text?, text?, if_neg hends, if_neg hends']

end LiveDoc
