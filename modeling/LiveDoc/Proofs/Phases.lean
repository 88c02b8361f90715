/-
Construction has two phases.

Arguments are handed up the lineage, class by class, and fields are
assigned on the way back. Nothing is assigned before all arguments are
bound, so construction is: bind every slot of the lineage (`Class.slots`),
and then assign the slots, root to leaf (`Slot.assignEach`). This holds of
every class, those of programs written by hand included, and in this form
a construction is one run over a list, which can be cut at any slot.

Binding makes no objects, and what it binds is what was passed
(`Class.slots_arguments`). Assigning makes objects only where a default
stands in (`Slot.value_made`), each time cut off from all there was
(`Slot.assignEach_made`).
-/
import LiveDoc.Live.Construct
import LiveDoc.Proofs.Places
import LiveDoc.Proofs.Traversal

namespace LiveDoc

open Traversal

-- ==================================================== all slots of a lineage

/-- A slot, with the class it belongs to and that class's ancestors. -/
structure LineageSlot where
  declaring : Lineage
  slot : Slot

/-- Assign slots of any classes in order, each through the checker of its
own class. -/
def Slot.assignEach : List LineageSlot → Table Value → Heap →
    Except CallError (Table Value × Heap)
  | [], fields, h => .ok (fields, h)
  | s :: ss, fields, h =>
    match s.declaring.validate s.slot.param.name (s.slot.value h).1 with
    | .error e => .error (.invalid e)
    | .ok () =>
      assignEach ss (fields.insert s.slot.param.name (s.slot.value h).1) (s.slot.value h).2

/-- The slots that an instance of `leaf` assigns along a lineage, root to
leaf, with all arguments bound. -/
def Class.slots (leaf : Class) :
    Lineage → List Value → Entries Value → Except CallError (List LineageSlot)
  | [], positional, keyword => do
    refuseLeftovers leaf positional keyword
    return []
  | n :: l, positional, keyword =>
    match n.definition.params with
    | none => slots leaf l positional keyword
    | some params => do
      let (own, unbound) ←
        Slot.bindKeywords leaf.name (Slot.ofPositional params positional) keyword
      let inherited ← slots leaf l (positional.drop params.length) unbound
      return inherited ++ own.map (⟨n :: l, ·⟩)

namespace Slot

theorem assign_eq_assignEach (l : Lineage) (slots : List Slot) (fields : Table Value) (h : Heap) :
    assign l slots fields h = assignEach (slots.map (⟨l, ·⟩)) fields h := by
  induction slots generalizing fields h with
  | nil => rfl
  | cons s ss ih =>
    have hrest := ih (fields.insert s.param.name (s.value h).1) (s.value h).2
    rw [assign, hrest]
    exact rfl

theorem assignEach_append (ss ts : List LineageSlot) (fields : Table Value) (h : Heap) :
    assignEach (ss ++ ts) fields h
      = (assignEach ss fields h >>= fun r => assignEach ts r.1 r.2) := by
  induction ss generalizing fields h with
  | nil => rfl
  | cons s ss ih =>
    rw [List.cons_append, assignEach, assignEach]
    split
    · rfl
    · exact ih _ _

end Slot

/-- Construction binds all slots and then assigns them. -/
theorem Class.constructFields_eq (leaf : Class) (l : Lineage) (positional : List Value)
    (keyword : Entries Value) (h : Heap) :
    constructFields leaf l positional keyword h
      = (leaf.slots l positional keyword >>= fun ss => Slot.assignEach ss ∅ h) := by
  induction l generalizing positional keyword h with
  | nil =>
    unfold constructFields slots
    cases refuseLeftovers leaf positional keyword <;> rfl
  | cons n l ih =>
    rw [constructFields, slots]
    cases n.definition.params with
    | none => exact ih positional keyword h
    | some params =>
      dsimp only
      cases Slot.bindKeywords leaf.name (Slot.ofPositional params positional) keyword with
      | error e => rfl
      | ok bound =>
        obtain ⟨own, unbound⟩ := bound
        rw [ok_bind, ok_bind]
        dsimp only
        rw [ih]
        cases leaf.slots l (positional.drop params.length) unbound with
        | error e => rfl
        | ok inherited =>
          have hown : (fun r : Table Value × Heap => Slot.assign (n :: l) own r.1 r.2)
              = fun r => Slot.assignEach (own.map (⟨n :: l, ·⟩)) r.1 r.2 :=
            funext fun r => Slot.assign_eq_assignEach (n :: l) own r.1 r.2
          show (Slot.assignEach inherited ∅ h >>= fun r => Slot.assign (n :: l) own r.1 r.2)
            = Slot.assignEach (inherited ++ own.map (⟨n :: l, ·⟩)) ∅ h
          rw [Slot.assignEach_append, hown]

/-- A new instance: its slots bound, then assigned, then a place for the
fields. -/
theorem Class.instantiate_phases {c : Class} {args : Arguments} {h made : Heap} {i : Instance}
    (hi : c.instantiate args h = .ok (i, made)) :
    ∃ ss fields done, c.slots c.lineage args.positional args.keyword.entries = .ok ss
      ∧ Slot.assignEach ss ∅ h = .ok (fields, done)
      ∧ i = ⟨c, done.size⟩ ∧ made = (done.alloc (.fields fields)).2 := by
  obtain ⟨⟨fields, done⟩, hfields, hi⟩ := bind_eq_ok.1 hi
  cases hi
  rw [constructFields_eq] at hfields
  obtain ⟨ss, hss, hassign⟩ := bind_eq_ok.1 hfields
  exact ⟨ss, fields, done, hss, hassign, rfl, rfl⟩

/-- It has a place of its own, with fields. -/
theorem Class.instantiate_place {c : Class} {args : Arguments} {h made : Heap} {i : Instance}
    (hi : c.instantiate args h = .ok (i, made)) :
    i.ofClass = c ∧ ∃ fields, made.objects[i.fields]? = some (.fields fields) := by
  obtain ⟨ss, fields, done, -, -, rfl, rfl⟩ := instantiate_phases hi
  exact ⟨rfl, fields, Heap.getElem?_alloc_self done (.fields fields)⟩

-- ==================================================== what is bound

namespace Slot

theorem fill_arguments {P : Value → Prop} {slots : List Slot}
    (hslots : ∀ s ∈ slots, ∀ v, s.argument = some v → P v) (key : String) {v : Value} (hv : P v) :
    ∀ s ∈ fill key v slots, ∀ w, s.argument = some w → P w := by
  induction slots with
  | nil => exact hslots
  | cons s ss ih =>
    obtain ⟨hs, hss⟩ := List.forall_mem_cons.1 hslots
    rw [fill]
    split
    · refine List.forall_mem_cons.2 ⟨?_, hss⟩
      intro w hw
      cases hw
      exact hv
    · exact List.forall_mem_cons.2 ⟨hs, ih hss⟩

/-- Binding keywords binds and leaves over what was passed. -/
theorem bindKeywords_arguments {P : Value → Prop} {className : String} {slots slots' : List Slot}
    {keyword unbound : Entries Value}
    (hbind : bindKeywords className slots keyword = .ok (slots', unbound))
    (hslots : ∀ s ∈ slots, ∀ v, s.argument = some v → P v) (hkeyword : ∀ e ∈ keyword, P e.2) :
    (∀ s ∈ slots', ∀ v, s.argument = some v → P v) ∧ ∀ e ∈ unbound, P e.2 := by
  induction keyword generalizing slots unbound with
  | nil =>
    cases hbind
    exact ⟨hslots, hkeyword⟩
  | cons e es ih =>
    obtain ⟨key, v⟩ := e
    obtain ⟨hv, hes⟩ := List.forall_mem_cons.1 hkeyword
    rw [bindKeywords] at hbind
    split at hbind
    case h_1 =>
      split at hbind
      case h_1 => cases hbind
      case h_2 hrest =>
        cases hbind
        obtain ⟨hbound, hleft⟩ := ih hrest hslots hes
        exact ⟨hbound, List.forall_mem_cons.2 ⟨hv, hleft⟩⟩
    case h_2 => cases hbind
    case h_3 => exact ih hbind (fill_arguments hslots key hv) hes

theorem ofPositional_arguments {P : Value → Prop} {params : List Program.Param} {vs : List Value}
    (hvs : ∀ v ∈ vs, P v) : ∀ s ∈ ofPositional params vs, ∀ v, s.argument = some v → P v := by
  induction params generalizing vs with
  | nil =>
    intro s hs
    cases hs
  | cons p ps ih =>
    cases vs with
    | nil => exact List.forall_mem_cons.2 ⟨fun v hv => (by cases hv), ih hvs⟩
    | cons w ws =>
      obtain ⟨hw, hws⟩ := List.forall_mem_cons.1 hvs
      refine List.forall_mem_cons.2 ⟨?_, ih hws⟩
      intro v hv
      cases hv
      exact hw

end Slot

/-- What is bound along a lineage was passed. -/
theorem Class.slots_arguments {P : Value → Prop} {leaf : Class} {l : Lineage}
    {positional : List Value} {keyword : Entries Value} {ss : List LineageSlot}
    (hss : leaf.slots l positional keyword = .ok ss) (hpositional : ∀ v ∈ positional, P v)
    (hkeyword : ∀ e ∈ keyword, P e.2) : ∀ s ∈ ss, ∀ v, s.slot.argument = some v → P v := by
  induction l generalizing positional keyword ss with
  | nil =>
    obtain ⟨⟨⟩, -, hss⟩ := bind_eq_ok.1 hss
    cases hss
    intro s hs
    cases hs
  | cons n l ih =>
    rw [slots] at hss
    split at hss
    case h_1 => exact ih hss hpositional hkeyword
    case h_2 params _ =>
      obtain ⟨⟨own, unbound⟩, hbind, hss⟩ := bind_eq_ok.1 hss
      obtain ⟨inherited, hinherited, hss⟩ := bind_eq_ok.1 hss
      cases hss
      obtain ⟨hown, hleft⟩ :=
        Slot.bindKeywords_arguments hbind (Slot.ofPositional_arguments hpositional) hkeyword
      have hrest := ih hinherited (fun v hv => hpositional v (List.mem_of_mem_drop hv)) hleft
      intro s hs v hv
      rcases List.mem_append.1 hs with hs | hs
      · exact hrest s hs v hv
      · obtain ⟨s', hs', rfl⟩ := List.mem_map.1 hs
        exact hown s' hs' v hv

-- ==================================================== what is assigned

namespace Slot

variable {h h' : Heap}

/-- The default that is assigned, unless it is the argument. -/
def default? (s : Slot) : Option Constant :=
  match s.param.default, s.argument with
  | .fresh c, none => some c
  | .fresh c, some .null => some c
  | .value c, none => some c
  | _, some _ => none

/-- What is assigned is a new value of the default, or the argument. -/
theorem value_eq (s : Slot) (h : Heap) :
    (∃ k, s.default? = some k ∧ s.value h = k.materialize h)
      ∨ (s.default? = none ∧ ∃ v, s.argument = some v ∧ s.value h = (v, h)) := by
  unfold default? value
  obtain ⟨⟨name, _ | c⟩, _ | v⟩ := s
  · exact .inl ⟨_, rfl, rfl⟩
  · exact .inr ⟨rfl, v, rfl, rfl⟩
  · exact .inl ⟨c, rfl, rfl⟩
  · cases v with
    | null => exact .inl ⟨c, rfl, rfl⟩
    | _ => exact .inr ⟨rfl, _, rfl, rfl⟩

theorem value_of_default? {s : Slot} {k : Constant} (hk : s.default? = some k) (h : Heap) :
    s.value h = k.materialize h := by
  rcases s.value_eq h with ⟨k', hk', hvalue⟩ | ⟨hnone, -⟩
  · rw [hk] at hk'
    cases hk'
    exact hvalue
  · rw [hk] at hnone
    cases hnone

/-- Whatever is assigned is the argument, or new. -/
theorem value_made (s : Slot) (h : Heap) :
    h.Made (s.value h).2
      ∧ (s.argument = some (s.value h).1 ∨ (s.value h).1.Between h.size (s.value h).2.size) := by
  rcases s.value_eq h with ⟨k, -, hvalue⟩ | ⟨-, v, hargument, hvalue⟩
  · obtain ⟨hmade, hbetween, -⟩ := k.materialize_made h
    rw [hvalue]
    exact ⟨hmade, .inr hbetween⟩
  · rw [hvalue]
    exact ⟨.refl h, .inl hargument⟩

variable {ss : List LineageSlot} {fields fields' : Table Value}

/-- What assigning slots leaves in the fields was there before, is an
argument, or is new. -/
theorem assignEach_made (hassign : assignEach ss fields h = .ok (fields', h')) :
    h.Made h' ∧ ∀ name w, fields'.find? name = some w →
      fields.find? name = some w ∨ (∃ s ∈ ss, s.slot.argument = some w)
        ∨ w.Between h.size h'.size := by
  induction ss generalizing fields h with
  | nil =>
    cases hassign
    exact ⟨.refl _, fun name w hw => .inl hw⟩
  | cons s ss ih =>
    rw [assignEach] at hassign
    split at hassign
    case h_1 => cases hassign
    case h_2 =>
      obtain ⟨hfirst, hvalue⟩ := s.slot.value_made h
      obtain ⟨hrest, hfields⟩ := ih hassign
      refine ⟨hfirst.trans hrest, fun name w hw => ?_⟩
      rcases hfields name w hw with hold | ⟨s', hs', hargument⟩ | hnew
      · rw [Table.find?_insert] at hold
        split at hold
        case isFalse => exact .inl hold
        case isTrue =>
          cases hold
          rcases hvalue with hargument | hnew
          · exact .inr (.inl ⟨s, List.mem_cons_self, hargument⟩)
          · exact .inr (.inr (hnew.mono (Nat.le_refl _) hrest.grown.size))
      · exact .inr (.inl ⟨s', List.mem_cons_of_mem _ hs', hargument⟩)
      · exact .inr (.inr (hnew.mono hfirst.grown.size (Nat.le_refl _)))

/-- A field that is not assigned keeps its value. -/
theorem assignEach_other {name : String} (hassign : assignEach ss fields h = .ok (fields', h'))
    (hother : ∀ s ∈ ss, s.slot.param.name ≠ name) : fields'.find? name = fields.find? name := by
  induction ss generalizing fields h with
  | nil =>
    cases hassign
    rfl
  | cons s ss ih =>
    obtain ⟨hs, hother⟩ := List.forall_mem_cons.1 hother
    rw [assignEach] at hassign
    split at hassign
    case h_1 => cases hassign
    case h_2 => rw [ih hassign hother, Table.find?_insert, if_neg hs]

/-- A default among the slots parts what is made in three: what the slots
before it make, its own value, and what those after it make. If no later
slot has its name, its value stays, and any other field holds an argument
or comes from the first part or the last. -/
theorem assignEach_default {before after : List LineageSlot} {s : LineageSlot} {k : Constant}
    (hdefault : s.slot.default? = some k)
    (hafter : ∀ t ∈ after, t.slot.param.name ≠ s.slot.param.name)
    (hassign : assignEach (before ++ s :: after) ∅ h = .ok (fields', h')) :
    ∃ h₁, h.Made h₁ ∧ (k.materialize h₁).2.Made h'
      ∧ fields'.find? s.slot.param.name = some (k.materialize h₁).1
      ∧ ∀ other w, other ≠ s.slot.param.name → fields'.find? other = some w →
        (∃ t ∈ before ++ s :: after, t.slot.argument = some w) ∨ w.Between h.size h₁.size
          ∨ w.Between (k.materialize h₁).2.size h'.size := by
  rw [assignEach_append] at hassign
  obtain ⟨⟨fields₁, h₁⟩, hfirst, hassign⟩ := bind_eq_ok.1 hassign
  rw [assignEach] at hassign
  dsimp only at hassign
  rw [value_of_default? hdefault] at hassign
  split at hassign
  case h_1 => cases hassign
  case h_2 =>
    obtain ⟨hmade₁, hfields₁⟩ := assignEach_made hfirst
    obtain ⟨hmade₃, hfields₃⟩ := assignEach_made hassign
    refine ⟨h₁, hmade₁, hmade₃, ?_, ?_⟩
    · rw [assignEach_other hassign hafter, Table.find?_insert, if_pos rfl]
    · intro other w hother hw
      rcases hfields₃ other w hw with hold | ⟨t, ht, hargument⟩ | hnew
      · rw [Table.find?_insert, if_neg (Ne.symm hother)] at hold
        rcases hfields₁ other w hold with hnone | ⟨t, ht, hargument⟩ | hnew
        · cases hnone
        · exact .inl ⟨t, List.mem_append_left _ ht, hargument⟩
        · exact .inr (.inl hnew)
      · exact .inl ⟨t, List.mem_append_right _ (List.mem_cons_of_mem _ ht), hargument⟩
      · exact .inr (.inr hnew)

end Slot

end LiveDoc
