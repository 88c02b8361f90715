/-
The places of objects do not show.

Whoever works with values can follow references, and nothing else about
them: what stands where in a heap makes no difference. So let one heap
correspond to another under a renaming of references (`Heap.Renamed`):
every object of the first is found in the second, renamed and under the
renamed reference, and what is placed next in the one corresponds to what
is placed next in the other. The second heap may hold any number of other
objects.

The relation speaks of places that hold nothing as well, so that a
reference to nothing is renamed to a reference to nothing, and no
operation has to ask for references to exist. It outlives writes and new
objects (`Heap.Renamed.write`, `Heap.Renamed.alloc`), and also the making
of values: a constant makes the same objects behind any heap
(`Constant.materialize_behind`), and what is put behind both heaps
corresponds (`Heap.Renamed.behind`).

Templates, properties and checkers are no part of a heap. They are the
same for renamed classes and say the same of renamed values
(`Lineage.validate_renamed`).
-/
import LiveDoc.Live.Text
import LiveDoc.Proofs.Places
import LiveDoc.Proofs.Relocation
import LiveDoc.Proofs.Validation

namespace LiveDoc

open Template (Conversion)

-- ==================================================== renaming references

/-- The class with its class attributes elsewhere. -/
def ClassNode.renamed (ρ : Ref → Ref) (n : ClassNode) : ClassNode :=
  { n with table := ρ n.table }

/-- The class with all that it refers to elsewhere. -/
def Class.renamed (ρ : Ref → Ref) (c : Class) : Class :=
  ⟨c.node.renamed ρ, c.ancestors.map (ClassNode.renamed ρ)⟩

/-- The instance with all that it refers to elsewhere. -/
def Instance.renamed (ρ : Ref → Ref) (i : Instance) : Instance :=
  ⟨i.ofClass.renamed ρ, ρ i.fields⟩

/-- The value with all that it refers to elsewhere. -/
def Value.renamed (ρ : Ref → Ref) : Value → Value
  | .list r => .list (ρ r)
  | .dict r => .dict (ρ r)
  | .cls c => .cls (c.renamed ρ)
  | .inst i => .inst (i.renamed ρ)
  | v => v

/-- The object with all that it refers to elsewhere. -/
def Object.renamed (ρ : Ref → Ref) : Object → Object
  | .list vs => .list (vs.map (Value.renamed ρ))
  | .table t => .table (t.map (Value.renamed ρ))
  | .fields t => .fields (t.map (Value.renamed ρ))
  | .attributes t => .attributes (t.map (Value.renamed ρ))

/-- The arguments with all that they refer to elsewhere. -/
def Arguments.renamed (ρ : Ref → Ref) (args : Arguments) : Arguments :=
  ⟨args.positional.map (Value.renamed ρ), args.keyword.map (Value.renamed ρ)⟩

-- ==================================================== references that stay

section Fixed

variable {ρ : Ref → Ref} {n : Nat}

/-- Only the values that are found under a name count, so it is enough that
those stay. -/
theorem Table.map_eq_self {α : Type} {f : α → α} {t : Table α}
    (h : ∀ key value, t.find? key = some value → f value = value) : t.map f = t := by
  refine ext_entries ?_
  show t.entries.map (fun e => (e.1, f e.2)) = t.entries
  conv_rhs => rw [← List.map_id t.entries]
  refine List.map_congr_left fun e he => ?_
  rw [h e.1 e.2 (find?_eq_some_iff.2 he)]
  rfl

/-- A class refers to the tables of its lineage and to nothing else. -/
theorem Class.renamed_eq_self {c : Class} (hfixed : ∀ r < n, ρ r = r)
    (hc : (Value.cls c).Within n) : c.renamed ρ = c := by
  have hnode : ∀ m ∈ c.node :: c.ancestors, m.renamed ρ = m := by
    intro m hm
    have hm : ρ m.table = m.table := hfixed _ (hc _ (List.mem_map_of_mem hm))
    rw [ClassNode.renamed, hm]
  obtain ⟨hnode, hancestors⟩ := List.forall_mem_cons.1 hnode
  rw [renamed, hnode, List.map_congr_left hancestors, List.map_id']

/-- What refers only to places that stay, stays. -/
theorem Value.renamed_eq_self {v : Value} (hfixed : ∀ r < n, ρ r = r) (hv : v.Within n) :
    v.renamed ρ = v := by
  cases v with
  | list r => exact congrArg Value.list (hfixed r (hv r List.mem_cons_self))
  | dict r => exact congrArg Value.dict (hfixed r (hv r List.mem_cons_self))
  | cls c => exact congrArg Value.cls (c.renamed_eq_self hfixed hv)
  | inst i =>
    have hfields : ρ i.fields = i.fields := hfixed _ (hv _ List.mem_cons_self)
    have hclass : i.ofClass.renamed ρ = i.ofClass :=
      i.ofClass.renamed_eq_self hfixed fun r hr => hv r (List.mem_cons_of_mem _ hr)
    show Value.inst ⟨i.ofClass.renamed ρ, ρ i.fields⟩ = _
    rw [hfields, hclass]
  | _ => rfl

/-- An object stays when all that it holds does. -/
theorem Object.renamed_eq_self {o : Object} (hfixed : ∀ r < n, ρ r = r) (ho : o.Within n) :
    o.renamed ρ = o := by
  have hvalue : ∀ v, o.Holds v → v.renamed ρ = v := fun v hv => Value.renamed_eq_self hfixed (ho v hv)
  cases o with
  | list vs =>
    show Object.list (vs.map (Value.renamed ρ)) = _
    rw [List.map_congr_left hvalue, List.map_id']
  | table t => exact congrArg Object.table (Table.map_eq_self fun key v hv => hvalue v ⟨key, hv⟩)
  | fields t => exact congrArg Object.fields (Table.map_eq_self fun key v hv => hvalue v ⟨key, hv⟩)
  | attributes t =>
    exact congrArg Object.attributes (Table.map_eq_self fun key v hv => hvalue v ⟨key, hv⟩)

end Fixed

-- ==================================================== references further back

section Moved

variable {ρ : Ref → Ref} {n n' : Nat}

/-- Two heaps may have different sizes; what was put behind the one is renamed
to what would have been put behind the other. -/
theorem Class.renamed_moved (hnext : ∀ k, ρ (k + n) = k + n') (c : Class) :
    (c.moved n).renamed ρ = c.moved n' := by
  have hnode : ∀ m : ClassNode, (m.moved n).renamed ρ = m.moved n' := by
    intro m
    unfold ClassNode.renamed ClassNode.moved
    rw [hnext]
  show Class.mk ((c.node.moved n).renamed ρ) ((c.ancestors.map (ClassNode.moved n)).map _) = _
  rw [hnode, List.map_map]
  exact congrArg (Class.mk _) (List.map_congr_left fun m _ => hnode m)

/-- Put behind one heap and then renamed, or put behind the other. -/
theorem Value.renamed_moved (hnext : ∀ k, ρ (k + n) = k + n') (v : Value) :
    (v.moved n).renamed ρ = v.moved n' := by
  cases v with
  | list r => exact congrArg Value.list (hnext r)
  | dict r => exact congrArg Value.dict (hnext r)
  | cls c => exact congrArg Value.cls (c.renamed_moved hnext)
  | inst i =>
    show Value.inst ⟨(i.ofClass.moved n).renamed ρ, ρ (i.fields + n)⟩ = _
    rw [i.ofClass.renamed_moved hnext, hnext]
    rfl
  | _ => rfl

/-- The same of an object, item by item. -/
theorem Object.renamed_moved (hnext : ∀ k, ρ (k + n) = k + n') (o : Object) :
    (o.moved n).renamed ρ = o.moved n' := by
  have hlist : ∀ vs : List Value,
      (vs.map (Value.moved n)).map (Value.renamed ρ) = vs.map (Value.moved n') := by
    intro vs
    rw [List.map_map]
    exact List.map_congr_left fun v _ => v.renamed_moved hnext
  have htable : ∀ t : Table Value,
      (t.map (Value.moved n)).map (Value.renamed ρ) = t.map (Value.moved n') := by
    intro t
    apply Table.ext_entries
    show (t.entries.map _).map _ = t.entries.map _
    rw [List.map_map]
    exact List.map_congr_left fun e _ => congrArg (Prod.mk e.1) (e.2.renamed_moved hnext)
  cases o with
  | list vs => exact congrArg Object.list (hlist vs)
  | table t => exact congrArg Object.table (htable t)
  | fields t => exact congrArg Object.fields (htable t)
  | attributes t => exact congrArg Object.attributes (htable t)

end Moved

-- ==================================================== what has no places

section Blind

variable (ρ : Ref → Ref)

namespace Lineage

variable (l : Lineage)

/-- Renaming leaves the declarations alone. All that follows in this section
reads nothing else of a class. -/
theorem definitions_renamed :
    (l.map (ClassNode.renamed ρ)).map ClassNode.definition = l.map ClassNode.definition := by
  rw [List.map_map]
  rfl

theorem property?_renamed (attr : String) :
    property? (l.map (ClassNode.renamed ρ)) attr = l.property? attr := by
  unfold property?
  rw [List.findSome?_map]
  rfl

theorem hasName_renamed (name : String) :
    hasName (l.map (ClassNode.renamed ρ)) name = l.hasName name := by
  unfold hasName
  rw [List.any_map]
  rfl

theorem paramCount_renamed : paramCount (l.map (ClassNode.renamed ρ)) = l.paramCount := by
  induction l with
  | nil => rfl
  | cons n l ih =>
    rw [List.map_cons, paramCount, paramCount, ih]
    rfl

theorem strTemplate?_renamed : strTemplate? (l.map (ClassNode.renamed ρ)) = l.strTemplate? := by
  unfold strTemplate?
  rw [List.findSome?_map]
  rfl

end Lineage

namespace Class

variable (c : Class)

theorem lineage_renamed : (c.renamed ρ).lineage = c.lineage.map (ClassNode.renamed ρ) := rfl

/-- Which class it is whose template is inherited depends on the declarations
alone. -/
theorem reprTemplateFrom_renamed (n : ClassNode) (l : Lineage) :
    reprTemplateFrom (n.renamed ρ) (l.map (ClassNode.renamed ρ)) = reprTemplateFrom n l := by
  induction l generalizing n with
  | nil => rfl
  | cons m l ih =>
    rw [List.map_cons, reprTemplateFrom, reprTemplateFrom, ih]
    rfl

/-- Classes show instances by the same template. -/
theorem template_renamed (conversion : Conversion) :
    (c.renamed ρ).template conversion = c.template conversion := by
  have hrepr : (c.renamed ρ).reprTemplate = c.reprTemplate :=
    reprTemplateFrom_renamed ρ c.node c.ancestors
  cases conversion with
  | repr => exact hrepr
  | str =>
    show (c.renamed ρ).lineage.strTemplate?.getD (c.renamed ρ).reprTemplate = _
    rw [lineage_renamed, Lineage.strTemplate?_renamed, hrepr]
    rfl

/-- Classes are subclasses by name, and names stay. -/
theorem isSubclassOf_renamed (name : String) :
    (c.renamed ρ).isSubclassOf name = c.isSubclassOf name :=
  c.lineage.hasName_renamed ρ name

theorem hasProperty_renamed (attr : String) :
    (c.renamed ρ).hasProperty attr = c.hasProperty attr := by
  unfold hasProperty
  rw [lineage_renamed, Lineage.property?_renamed]

/-- What is read only is known from the property. -/
theorem isReadOnly_renamed (attr : String) :
    (c.renamed ρ).isReadOnly attr = c.isReadOnly attr := by
  unfold isReadOnly
  rw [lineage_renamed, Lineage.property?_renamed]

end Class

theorem Value.kindName_renamed (v : Value) : (v.renamed ρ).kindName = v.kindName := by
  cases v <;> rfl

theorem Value.number?_renamed (v : Value) : (v.renamed ρ).number? = v.number? := by
  cases v <;> rfl

/-- A checker asks a value for its kind, its number and the names of its class;
that is all it could tell two values apart by. -/
theorem Value.checkedAlike_renamed (v : Value) : v.CheckedAlike (v.renamed ρ) where
  null := by cases v <;> rfl
  collection := by cases v <;> rfl
  kindName := (v.kindName_renamed ρ).symm
  number := (v.number?_renamed ρ).symm
  accepted k := by
    cases v with
    | inst i =>
      cases k with
      | instanceOf name => exact (i.ofClass.isSubclassOf_renamed ρ name).symm
      | _ => rfl
    | _ => cases k <;> rfl
  excluded r := by
    cases v <;> cases r <;> rfl

/-- Checkers do not see places. -/
theorem Lineage.validate_renamed (l : Lineage) (attr : String) (v : Value) :
    validate attr (v.renamed ρ) (l.map (ClassNode.renamed ρ)) = l.validate attr v :=
  ((v.checkedAlike_renamed ρ).validate_eq (l.definitions_renamed ρ) attr).symm

end Blind

-- ==================================================== heaps that correspond

/-- Every object of `h` is found in `h'`, renamed and under the renamed
reference, and so is whatever is placed next. -/
structure Heap.Renamed (ρ : Ref → Ref) (h h' : Heap) : Prop where
  injective : Function.Injective ρ
  objects : ∀ r, h'.objects[ρ r]? = (h.objects[r]?).map (Object.renamed ρ)
  next : ∀ k, ρ (k + h.size) = k + h'.size

/-- Both fail alike, or both succeed with results that are related. -/
inductive Corresponds {ε α β : Type} (R : α → β → Prop) : Except ε α → Except ε β → Prop
  | error (e : ε) : Corresponds R (.error e) (.error e)
  | ok {a : α} {b : β} (related : R a b) : Corresponds R (.ok a) (.ok b)

/-- Two computations correspond when their first halves do and the second
halves take related results to related results. -/
theorem Corresponds.bind {ε α β γ δ : Type} {R : α → β → Prop} {S : γ → δ → Prop}
    {x : Except ε α} {y : Except ε β} {f : α → Except ε γ} {g : β → Except ε δ}
    (hxy : Corresponds R x y) (hfg : ∀ a b, R a b → Corresponds S (f a) (g b)) :
    Corresponds S (x >>= f) (y >>= g) := by
  cases hxy with
  | error e => exact .error e
  | ok hab => exact hfg _ _ hab

namespace Heap.Renamed

variable {ρ : Ref → Ref} {h h' : Heap}

/-- A list has the renamed items. -/
theorem items_eq (hr : h.Renamed ρ h') (r : Ref) :
    h'.items (ρ r) = (h.items r).map (Value.renamed ρ) := by
  unfold items
  rw [hr.objects]
  cases h.objects[r]? with
  | none => rfl
  | some o => cases o <;> rfl

/-- A dict, the fields of an instance and class attributes have renamed values
under the same names. -/
theorem table_eq (hr : h.Renamed ρ h') (r : Ref) :
    h'.table (ρ r) = (h.table r).map (Value.renamed ρ) := by
  unfold table
  rw [hr.objects]
  cases h.objects[r]? with
  | none => rfl
  | some o => cases o <;> rfl

/-- Places that exist correspond to places that exist. -/
theorem lt_iff (hr : h.Renamed ρ h') (r : Ref) : ρ r < h'.size ↔ r < h.size := by
  rw [← not_iff_not, Nat.not_lt, Nat.not_lt]
  show h'.objects.size ≤ ρ r ↔ h.objects.size ≤ r
  rw [← Array.getElem?_eq_none_iff, ← Array.getElem?_eq_none_iff, hr.objects,
    Option.map_eq_none_iff]

/-- New objects are placed at the end of both heaps, and the ends correspond.
So heaps of different sizes need no new renaming. -/
theorem alloc (hr : h.Renamed ρ h') (o : Object) :
    ρ (h.alloc o).1 = (h'.alloc (o.renamed ρ)).1
      ∧ (h.alloc o).2.Renamed ρ (h'.alloc (o.renamed ρ)).2 := by
  have hnew : ρ h.size = h'.size := by simpa using hr.next 0
  refine ⟨hnew, hr.injective, fun r => ?_, fun k => ?_⟩
  · rw [getElem?_alloc, getElem?_alloc, ← hnew, hr.objects]
    by_cases heq : r = h.size
    · rw [if_pos heq, if_pos (congrArg ρ heq)]
      rfl
    · rw [if_neg heq, if_neg fun hρ => heq (hr.injective hρ)]
  · have hshift : ∀ n : Nat, k + (n + 1) = k + 1 + n := fun n => (Nat.add_right_comm k 1 n).symm
    rw [size_alloc, size_alloc, hshift h.size, hshift h'.size]
    exact hr.next (k + 1)

/-- An object may be replaced in both. Here the renaming has to be injective,
lest the write reach another object of the second heap as well. -/
theorem write (hr : h.Renamed ρ h') (r : Ref) (o : Object) :
    (h.write r o).Renamed ρ (h'.write (ρ r) (o.renamed ρ)) := by
  refine ⟨hr.injective, fun s => ?_, fun k => ?_⟩
  · show (h'.objects.setIfInBounds (ρ r) _)[ρ s]? = ((h.objects.setIfInBounds r o)[s]?).map _
    rw [Array.getElem?_setIfInBounds, Array.getElem?_setIfInBounds]
    by_cases heq : r = s
    · have hiff : ρ r < h'.objects.size ↔ r < h.objects.size := hr.lt_iff r
      rw [if_pos heq, if_pos (congrArg ρ heq)]
      by_cases hlt : r < h.objects.size
      · rw [if_pos hlt, if_pos (hiff.2 hlt)]
        rfl
      · rw [if_neg hlt, if_neg (mt hiff.1 hlt)]
        rfl
    · rw [if_neg heq, if_neg fun hρ => heq (hr.injective hρ)]
      exact hr.objects s
  · rw [size_write, size_write]
    exact hr.next k

/-- What is put behind both keeps them in correspondence. -/
theorem behind (hr : h.Renamed ρ h') (e : Heap) : (e.behind h).Renamed ρ (e.behind h') := by
  have hplace : ∀ (g : Heap) (k : Nat),
      (e.behind g).objects[k + g.size]? = (e.objects[k]?).map (Object.moved g.size) := by
    intro g k
    show (g.objects ++ e.objects.map _)[k + g.objects.size]? = _
    rw [Array.getElem?_append_right (Nat.le_add_left _ _), Nat.add_sub_cancel, Array.getElem?_map]
  refine ⟨hr.injective, fun r => ?_, fun k => ?_⟩
  · rcases Nat.lt_or_ge r h.size with hlt | hge
    · show (h'.objects ++ _)[ρ r]? = ((h.objects ++ _)[r]?).map _
      rw [Array.getElem?_append_left hlt, Array.getElem?_append_left ((hr.lt_iff r).2 hlt)]
      exact hr.objects r
    · obtain ⟨k, rfl⟩ : ∃ k, r = k + h.size := ⟨r - h.size, (Nat.sub_add_cancel hge).symm⟩
      rw [hr.next, hplace, hplace, Option.map_map]
      exact congrArg (fun f => (e.objects[k]?).map f)
        (funext fun o => (o.renamed_moved hr.next).symm)
  · have hshift : ∀ n : Nat, k + (n + e.size) = k + e.size + n := fun n => by
      rw [← Nat.add_assoc, Nat.add_right_comm]
    rw [size_behind, size_behind, hshift h.size, hshift h'.size]
    exact hr.next (k + e.size)

/-- Making the value of a constant. -/
theorem materialize (hr : h.Renamed ρ h') (c : Constant) :
    (c.materialize h').1 = (c.materialize h).1.renamed ρ
      ∧ (c.materialize h).2.Renamed ρ (c.materialize h').2 := by
  have hmade := c.materialize_behind .empty h
  have hmade' := c.materialize_behind .empty h'
  rw [behind_empty] at hmade hmade'
  rw [hmade, hmade']
  exact ⟨(Value.renamed_moved hr.next _).symm, hr.behind _⟩

end Heap.Renamed

end LiveDoc
