/-
Class attributes through assignments.

A class attribute is looked up along a lineage and found at the first class
that has it; what a class has itself changes when it is assigned, and only
then. So a lookup is known from two things: what each class declared when
it was linked, and the log of assignments since (`AssignedBy`). A class has
the value that was assigned last, else the one it declared
(`ClassNode.Has`).

One assignment writes one table. That it is the table of one class only,
and not shared along some lineage, comes from linking, which gives every
class a new one (`TablesApart`); a class further down a lineage is met
again as a class of the module, since these are closed under ancestors. A
step adds one entry to the log and one to the table of one class
(`ClassNode.Keeps.insert`, `ClassNode.Keeps.other`), so tables agree with the
log after any run (`AssignedBy.exists_table`, the induction). Whatever else
happens to a heap leaves these tables alone (`AssignedBy.of_steps`).
-/
import LiveDoc.Proofs.LinkedPrograms

namespace LiveDoc

open Traversal

-- ==================================================== as declared

/-- The class has the class attributes that it declares, each with the value
of the constant that is given last. -/
def ClassNode.AsDeclared (n : ClassNode) (h : Heap) : Prop :=
  ∃ t, h.objects[n.table]? = some (.attributes t)
    ∧ (∀ name, name ∈ t.keys ↔ name ∈ Entries.keys n.definition.classAttributes)
    ∧ ∀ name v, t.find? name = some v →
      ∃ k, Entries.Last n.definition.classAttributes name k ∧ h.Denotes v k

theorem ClassNode.AsDeclared.grow {n : ClassNode} {h h' : Heap} (hn : n.AsDeclared h)
    (hext : h.Extends h') : n.AsDeclared h' := by
  obtain ⟨t, hplace, hnames, hvalues⟩ := hn
  refine ⟨t, hext.getElem? hplace, hnames, ?_⟩
  intro name v hv
  obtain ⟨k, hk, hdenotes⟩ := hvalues name v hv
  exact ⟨k, hk, hdenotes.mono hext⟩

theorem Entries.Last.cons {α : Type} {es : Entries α} {key : String} {v : α}
    (h : es.Last key v) (e : String × α) : Entries.Last (e :: es) key v := by
  obtain ⟨earlier, later, rfl, hlater⟩ := h
  exact ⟨e :: earlier, later, rfl, hlater⟩

/-- What is last under a name among values stands for what is last among
their constants. -/
theorem Heap.DenotesEntries.exists_last {h : Heap} {vs : Entries Value} {es : Entries Constant}
    (hes : h.DenotesEntries vs es) {key : String} (hkey : key ∈ Entries.keys es) :
    ∃ v k, vs.Last key v ∧ es.Last key k ∧ h.Denotes v k := by
  induction es generalizing vs with
  | nil => cases hkey
  | cons e es ih =>
    cases hes with
    | @cons name v vs k _ hfirst hrest =>
      by_cases hlater : key ∈ Entries.keys es
      · obtain ⟨v', k', hv', hk', hdenotes⟩ := ih hrest hlater
        exact ⟨v', k', hv'.cons _, hk'.cons _, hdenotes⟩
      · obtain rfl : key = name := (List.mem_cons.1 hkey).resolve_right hlater
        have hlater' : key ∉ Entries.keys vs := hrest.keys_eq ▸ hlater
        exact ⟨v, k, ⟨[], vs, rfl, hlater'⟩, ⟨[], es, rfl, hlater⟩, hfirst⟩

/-- A class that has just been linked is as declared. -/
theorem asDeclared_link (moduleName : String) (ancestors : Lineage) (d : Program.ClassDef)
    (h : Heap) : (Class.link moduleName ancestors d h).1.node.AsDeclared
      (Class.link moduleName ancestors d h).2 := by
  obtain ⟨hmade, -, hdenotes⟩ := Constant.materializeEntries_made d.classAttributes h
  have hnames : ∀ name, name ∈ (Table.ofList (Constant.materializeEntries d.classAttributes h).1).keys
      ↔ name ∈ Entries.keys d.classAttributes := by
    intro name
    rw [Table.mem_keys_ofList, Constant.keys_materializeEntries]
  refine ⟨_, Heap.getElem?_alloc_self _ _, hnames, ?_⟩
  intro name v hv
  have hname := (hnames name).1 (Table.exists_find?_iff.1 ⟨v, hv⟩)
  obtain ⟨v', k, hlast, hk, hvalue⟩ := hdenotes.exists_last hname
  obtain rfl : v' = v := Option.some.inj ((Table.find?_insertAll_of_last _ hlast).symm.trans hv)
  exact ⟨k, hk, hvalue.mono (.alloc _ _)⟩

-- ==================================================== tables of their own

/-- Bound classes are as declared, and no two share a table. -/
structure TablesApart (classes : Table Class) (h : Heap) : Prop where
  declared : ∀ key c, classes.find? key = some c → c.node.AsDeclared h
  apart : ∀ key c key' d, classes.find? key = some c → classes.find? key' = some d →
    c.node.table = d.node.table → c = d

namespace TablesApart

variable {classes : Table Class} {h h' : Heap}

theorem empty (h : Heap) : TablesApart ∅ h where
  declared _ _ hc := by cases hc
  apart _ _ _ _ hc := by cases hc

theorem grow (ht : TablesApart classes h) (hext : h.Extends h') : TablesApart classes h' where
  declared key c hc := (ht.declared key c hc).grow hext
  apart := ht.apart

/-- The tables of bound classes exist. -/
theorem lt_size (ht : TablesApart classes h) {key : String} {c : Class}
    (hc : classes.find? key = some c) : c.node.table < h.size := by
  obtain ⟨t, hplace, -⟩ := ht.declared key c hc
  exact Heap.lt_size_of_getElem? hplace

/-- A class that is linked has a table that no class had before. -/
theorem insert (ht : TablesApart classes h) (moduleName : String) (ancestors : Lineage)
    (d : Program.ClassDef) :
    TablesApart (classes.insert d.name (Class.link moduleName ancestors d h).1)
      (Class.link moduleName ancestors d h).2 := by
  have hgrown := Class.link_grown moduleName ancestors d h
  have hnew : h.size ≤ (Class.link moduleName ancestors d h).1.node.table :=
    (Constant.materializeEntries_made d.classAttributes h).1.grown.size
  generalize hlink : Class.link moduleName ancestors d h = linked at hgrown hnew
  -- the table of the class is made behind everything there is
  have hfresh : ∀ key c, classes.find? key = some c → c.node.table ≠ linked.1.node.table :=
    fun key c hc => Nat.ne_of_lt (Nat.lt_of_lt_of_le (ht.lt_size hc) hnew)
  constructor
  case declared =>
    intro key c hc
    rw [Table.find?_insert] at hc
    split at hc
    case isTrue =>
      cases hc
      rw [← hlink]
      exact asDeclared_link moduleName ancestors d h
    case isFalse => exact (ht.declared key c hc).grow hgrown.kept
  case apart =>
    intro key c key' c' hc hc' htable
    rw [Table.find?_insert] at hc hc'
    split at hc <;> split at hc'
    · cases hc
      cases hc'
      rfl
    · cases hc
      exact absurd htable.symm (hfresh key' c' hc')
    · cases hc'
      exact absurd htable (hfresh key c hc)
    · exact ht.apart key c key' c' hc hc' htable

end TablesApart

/-- Linking gives every class a table of its own. -/
theorem Program.link_apart {p : Program} {document : Json} {before after : Heap} {s : ModuleState}
    (hs : p.link document before = .ok (s, after)) : TablesApart s.classes after := by
  obtain ⟨⟨b, h₁⟩, hlink, hstate⟩ := bind_eq_ok.1 hs
  cases hstate
  refine linkItems_keeps (P := fun b h => TablesApart b.classes h) hlink (.empty before) ?_ ?_
  · intro name value b h _ hb
    obtain ⟨hmade, -⟩ := value.materialize_made h
    exact hb.grow hmade.grown
  · intro d ancestors b h _ hb _ _
    exact hb.insert p.name ancestors d

-- ==================================================== assignments and their log

/-- An assignment to a class attribute. -/
structure ClassAssignment where
  target : Class
  name : String
  value : Value

/-- Assignments on the classes of a module, with their log, the latest
first. Anything may happen in between that leaves the class attributes of
these classes as they are. -/
inductive AssignedBy (classes : Table Class) (start : Heap) : List ClassAssignment → Heap → Prop
  | start : AssignedBy classes start [] start
  | other {log : List ClassAssignment} {h h' : Heap} (run : AssignedBy classes start log h)
      (kept : ∀ key c, classes.find? key = some c →
        h'.objects[c.node.table]? = h.objects[c.node.table]?) : AssignedBy classes start log h'
  | assign {log : List ClassAssignment} {h : Heap} {key : String} {c : Class}
      (run : AssignedBy classes start log h) (bound : classes.find? key = some c)
      (name : String) (v : Value) : AssignedBy classes start (⟨c, name, v⟩ :: log) (c.setAttr h name v)

namespace ClassNode

/-- The class declares the name or has been assigned it. -/
def Holder (log : List ClassAssignment) (n : ClassNode) (name : String) : Prop :=
  name ∈ Entries.keys n.definition.classAttributes ∨ ∃ a ∈ log, a.target.node = n ∧ a.name = name

/-- The value that the class itself has under a name: the one that was
assigned last, else the one that it declared. -/
inductive Has (start : Heap) (log : List ClassAssignment) (n : ClassNode) (name : String) :
    Value → Prop
  | assigned {later earlier : List ClassAssignment} {c : Class} {v : Value}
      (split : log = later ++ ⟨c, name, v⟩ :: earlier) (target : c.node = n)
      (last : ∀ a ∈ later, a.target.node = n → a.name ≠ name) : Has start log n name v
  | declared {k : Constant} {v : Value} (unassigned : ∀ a ∈ log, a.target.node = n → a.name ≠ name)
      (constant : Entries.Last n.definition.classAttributes name k)
      (place : (start.table n.table).find? name = some v) (denotes : start.Denotes v k) :
      Has start log n name v

variable {start : Heap} {log : List ClassAssignment} {n : ClassNode} {name : String} {v : Value}
  {a : ClassAssignment}

theorem has_cons_self (htarget : a.target.node = n) (hname : a.name = name) :
    n.Has start (a :: log) name v ↔ v = a.value := by
  constructor
  · intro h
    cases h with
    | @assigned later _ _ _ hsplit _ hlast =>
      cases later with
      | nil =>
        cases hsplit
        rfl
      | cons b later =>
        cases hsplit
        exact absurd hname (hlast a List.mem_cons_self htarget)
    | declared hunassigned => exact absurd hname (hunassigned a List.mem_cons_self htarget)
  · rintro rfl
    obtain ⟨c, name', v⟩ := a
    cases hname
    exact .assigned rfl htarget (List.forall_mem_nil _)

theorem has_cons_other (hother : a.target.node = n → a.name ≠ name) :
    n.Has start (a :: log) name v ↔ n.Has start log name v := by
  constructor
  · intro h
    cases h with
    | @assigned later _ _ _ hsplit htarget hlast =>
      cases later with
      | nil =>
        cases hsplit
        exact absurd rfl (hother htarget)
      | cons b later =>
        cases hsplit
        exact .assigned rfl htarget fun b hb => hlast b (List.mem_cons_of_mem _ hb)
    | declared hunassigned hconstant hplace hdenotes =>
      exact .declared (fun b hb => hunassigned b (List.mem_cons_of_mem _ hb)) hconstant hplace
        hdenotes
  · intro h
    cases h with
    | assigned hsplit htarget hlast =>
      rw [hsplit]
      exact .assigned List.cons_append.symm htarget (List.forall_mem_cons.2 ⟨hother, hlast⟩)
    | declared hunassigned hconstant hplace hdenotes =>
      exact .declared (List.forall_mem_cons.2 ⟨hother, hunassigned⟩) hconstant hplace hdenotes

theorem holder_cons_iff :
    n.Holder (a :: log) name ↔ (a.target.node = n ∧ a.name = name) ∨ n.Holder log name := by
  unfold Holder
  rw [List.exists_mem_cons_iff]
  exact or_left_comm

end ClassNode

-- ==================================================== tables agree with the log

/-- The table has what the class has itself. -/
structure ClassNode.Keeps (start : Heap) (log : List ClassAssignment) (n : ClassNode)
    (t : Table Value) : Prop where
  values : ∀ name v, t.find? name = some v ↔ n.Has start log name v
  names : ∀ name, name ∈ t.keys ↔ n.Holder log name

namespace ClassNode.Keeps

variable {start : Heap} {log : List ClassAssignment} {n : ClassNode} {t : Table Value}
  {a : ClassAssignment}

/-- Without assignments it is the table of the class as declared. -/
theorem exists_of_asDeclared (hn : n.AsDeclared start) :
    ∃ t, start.objects[n.table]? = some (.attributes t) ∧ n.Keeps start [] t := by
  obtain ⟨t, hplace, hnames, hvalues⟩ := hn
  refine ⟨t, hplace, fun name v => ⟨fun hv => ?_, fun hv => ?_⟩, fun name => ?_⟩
  · obtain ⟨k, hk, hdenotes⟩ := hvalues name v hv
    refine .declared (List.forall_mem_nil _) hk ?_ hdenotes
    rw [Heap.table_of_attributes hplace, hv]
  · cases hv with
    | assigned hsplit => exact absurd hsplit.symm (by simp)
    | declared _ _ hfound _ =>
      rw [Heap.table_of_attributes hplace] at hfound
      exact hfound
  · unfold ClassNode.Holder
    rw [hnames]
    simp

/-- An assignment on the class is one entry more. -/
theorem insert (ht : n.Keeps start log t) (htarget : a.target.node = n) :
    n.Keeps start (a :: log) (t.insert a.name a.value) where
  values name v := by
    rw [Table.find?_insert]
    by_cases hname : a.name = name
    · rw [if_pos hname, has_cons_self htarget hname, Option.some.injEq]
      exact eq_comm
    · rw [if_neg hname, has_cons_other fun _ => hname]
      exact ht.values name v
  names name := by
    rw [Table.mem_keys_insert, holder_cons_iff, ht.names]
    exact or_congr_left ⟨fun h => ⟨htarget, h.symm⟩, fun h => h.2.symm⟩

/-- One on another class is none. -/
theorem other (ht : n.Keeps start log t) (hother : a.target.node ≠ n) :
    n.Keeps start (a :: log) t where
  values name v := by
    rw [has_cons_other fun heq => absurd heq hother]
    exact ht.values name v
  names name := by
    rw [holder_cons_iff, or_iff_right fun h => hother h.1]
    exact ht.names name

end ClassNode.Keeps

namespace AssignedBy

variable {classes : Table Class} {start now : Heap} {log : List ClassAssignment}

/-- A run keeps in the table of each class what the class has itself. -/
theorem exists_table (ht : TablesApart classes start) (hrun : AssignedBy classes start log now)
    {key : String} {c : Class} (hc : classes.find? key = some c) :
    ∃ t, now.objects[c.node.table]? = some (.attributes t) ∧ c.node.Keeps start log t := by
  induction hrun with
  | start => exact ClassNode.Keeps.exists_of_asDeclared (ht.declared key c hc)
  | other _ hkept ih =>
    obtain ⟨t, hplace, hown⟩ := ih
    exact ⟨t, (hkept key c hc).trans hplace, hown⟩
  | @assign log h key' c' _ hc' name v ih =>
    obtain ⟨t, hplace, hown⟩ := ih
    unfold Class.setAttr
    by_cases htable : c'.node.table = c.node.table
    · obtain rfl := ht.apart key' c' key c hc' hc htable
      refine ⟨t.insert name v, ?_, hown.insert rfl⟩
      rw [Heap.table_of_attributes hplace,
        Heap.getElem?_write_self h _ (Heap.lt_size_of_getElem? hplace)]
    · refine ⟨t, ?_, hown.other fun heq => htable (congrArg ClassNode.table heq)⟩
      rw [Heap.getElem?_write_of_ne h _ htable, hplace]

/-- What is written to a list, a dict or fields changes no class. -/
theorem kept_of_write (ht : TablesApart classes start) (hrun : AssignedBy classes start log now)
    {r : Ref} {old : Object} (hr : now.objects[r]? = some old) (hold : ∀ t, old ≠ .attributes t)
    (new : Object) {key : String} {c : Class} (hc : classes.find? key = some c) :
    (now.write r new).objects[c.node.table]? = now.objects[c.node.table]? := by
  obtain ⟨t, hplace, -⟩ := hrun.exists_table ht hc
  refine Heap.getElem?_write_of_ne now new ?_
  rintro rfl
  exact hold t (Option.some.inj (hr.symm.trans hplace))

/-- Whatever happens to the heap, the class attributes of the module change
by assignments on its classes alone. -/
theorem of_steps (ht : TablesApart classes start) (hsteps : start.Steps now) :
    ∃ log, AssignedBy classes start log now := by
  induction hsteps with
  | refl => exact ⟨[], .start⟩
  | tail _ hstep ih =>
    obtain ⟨log, hrun⟩ := ih
    cases hstep with
    | grow hgrown =>
      refine ⟨log, .other hrun fun key c hc => ?_⟩
      obtain ⟨t, hplace, -⟩ := hrun.exists_table ht hc
      rw [hgrown.kept.getElem? hplace, hplace]
    | setItems hplace =>
      exact ⟨log, .other hrun fun _ _ => hrun.kept_of_write ht hplace (fun _ h => by cases h) _⟩
    | setEntries hplace =>
      exact ⟨log, .other hrun fun _ _ => hrun.kept_of_write ht hplace (fun _ h => by cases h) _⟩
    | assign hplace _ haccepted =>
      obtain ⟨-, -, -, rfl⟩ := Instance.setAttr_ok haccepted
      exact ⟨log, .other hrun fun _ _ => hrun.kept_of_write ht hplace (fun _ h => by cases h) _⟩
    | @assignClass c attr v =>
      by_cases hmine : ∃ key k, classes.find? key = some k ∧ k.node.table = c.node.table
      · obtain ⟨key, k, hk, htable⟩ := hmine
        refine ⟨⟨k, attr, v⟩ :: log, ?_⟩
        unfold Class.setAttr
        rw [← htable]
        exact .assign hrun hk attr v
      · refine ⟨log, .other hrun fun key k hk => ?_⟩
        exact Heap.getElem?_write_of_ne _ _ fun htable => hmine ⟨key, k, hk, htable.symm⟩

end AssignedBy

-- ==================================================== lookups

namespace Lineage

variable {l : Lineage} {h : Heap} {name : String} {v : Value}

/-- A lookup gives the value of the first class that has one. -/
theorem attribute?_eq_some_iff :
    l.attribute? h name = some v ↔ ∃ near n far, l = near ++ n :: far
      ∧ (∀ m ∈ near, (h.table m.table).find? name = none)
      ∧ (h.table n.table).find? name = some v := by
  unfold attribute?
  rw [List.findSome?_eq_some_iff]
  constructor
  · rintro ⟨near, n, far, hsplit, hn, hnear⟩
    exact ⟨near, n, far, hsplit, hnear, hn⟩
  · rintro ⟨near, n, far, hsplit, hnear, hn⟩
    exact ⟨near, n, far, hsplit, hn, hnear⟩

theorem attribute?_eq_none_iff :
    l.attribute? h name = none ↔ ∀ n ∈ l, (h.table n.table).find? name = none :=
  List.findSome?_eq_none_iff

/-- A lookup is the same where it is the same in every class. -/
theorem attribute?_congr {h' : Heap}
    (hsame : ∀ n ∈ l, (h'.table n.table).find? name = (h.table n.table).find? name) :
    l.attribute? h' name = l.attribute? h name := by
  induction l with
  | nil => rfl
  | cons n l ih =>
    obtain ⟨hn, hl⟩ := List.forall_mem_cons.1 hsame
    have hrest : attribute? l h' name = attribute? l h name := ih hl
    unfold attribute? at hrest ⊢
    rw [List.findSome?_cons, List.findSome?_cons, hn, hrest]

theorem attribute?_append (l l' : Lineage) (h : Heap) (name : String) :
    attribute? (l ++ l') h name = (l.attribute? h name).or (l'.attribute? h name) :=
  List.findSome?_append

end Lineage

namespace Class

/-- An assignment changes what the class has under the name and nothing
else. -/
theorem find?_setAttr {c : Class} {h : Heap} {t : Table Value}
    (hplace : h.objects[c.node.table]? = some (.attributes t)) (name : String) (v : Value) (r : Ref)
    (other : String) :
    ((c.setAttr h name v).table r).find? other
      = if r = c.node.table ∧ other = name then some v else (h.table r).find? other := by
  unfold setAttr
  rw [Heap.table_of_attributes hplace]
  by_cases hr : r = c.node.table
  · have hwritten : (h.write c.node.table (.attributes (t.insert name v))).objects[c.node.table]?
        = some (.attributes (t.insert name v)) :=
      Heap.getElem?_write_self h _ (Heap.lt_size_of_getElem? hplace)
    rw [hr, Heap.table_of_attributes hwritten, Heap.table_of_attributes hplace, Table.find?_insert]
    exact if_congr (by rw [eq_comm, and_iff_right rfl]) rfl rfl
  · have hkept := Heap.getElem?_write_of_ne h (.attributes (t.insert name v)) (Ne.symm hr)
    rw [if_neg fun hboth => hr hboth.1]
    unfold Heap.table
    rw [hkept]

end Class

/-- Classes of a lineage are classes of the table, each with the end of the
lineage that starts at it. -/
theorem AncestorClosed.find?_suffix {t : Table Class} (ht : AncestorClosed t) {key : String}
    {c : Class} (hc : t.find? key = some c) {near far : Lineage} {n : ClassNode}
    (hsplit : c.lineage = near ++ n :: far) : t.find? n.name = some ⟨n, far⟩ :=
  (ht key c hc).2 ⟨n, far⟩ ⟨near, hsplit.symm⟩

namespace AssignedBy

variable {classes : Table Class} {start now : Heap} {log : List ClassAssignment} {key key' : String}
  {c d : Class} {n : ClassNode}

/-- What a class of the lineage has itself, after a run. -/
theorem own (hclosed : AncestorClosed classes) (ht : TablesApart classes start)
    (hrun : AssignedBy classes start log now) (hd : classes.find? key = some d)
    (hn : n ∈ d.lineage) (name : String) :
    (∀ v, (now.table n.table).find? name = some v ↔ n.Has start log name v)
      ∧ ((now.table n.table).find? name = none ↔ ¬ n.Holder log name) := by
  obtain ⟨near, far, hsplit⟩ := List.append_of_mem hn
  obtain ⟨t, hplace, hown⟩ := hrun.exists_table ht (hclosed.find?_suffix hd hsplit)
  have htable : now.table n.table = t := Heap.table_of_attributes hplace
  rw [htable]
  exact ⟨hown.values name, Table.find?_eq_none_iff.trans (not_congr (hown.names name))⟩

/-- A lineage that has the table of a class ends in that of the class. -/
theorem exists_near (hclosed : AncestorClosed classes) (ht : TablesApart classes start)
    (hc : classes.find? key = some c) (hd : classes.find? key' = some d) (hn : n ∈ d.lineage)
    (htable : n.table = c.node.table) : ∃ near, d.lineage = near ++ c.lineage := by
  obtain ⟨near, far, hsplit⟩ := List.append_of_mem hn
  have hfound := hclosed.find?_suffix hd hsplit
  obtain rfl : ⟨n, far⟩ = c := ht.apart _ _ _ _ hfound hc htable
  exact ⟨near, hsplit⟩

/-- The classes before it have other tables. -/
theorem table_ne_of_near (hclosed : AncestorClosed classes) (ht : TablesApart classes start)
    (hc : classes.find? key = some c) (hd : classes.find? key' = some d) {near : Lineage}
    (hsplit : d.lineage = near ++ c.lineage) : ∀ m ∈ near, m.table ≠ c.node.table := by
  intro m hm htable
  obtain ⟨early, late, rfl⟩ := List.append_of_mem hm
  rw [List.append_assoc, List.cons_append] at hsplit
  have hfound := hclosed.find?_suffix hd hsplit
  have hsame : ⟨m, late ++ c.lineage⟩ = c := ht.apart _ _ _ _ hfound hc htable
  have hlength := congrArg (fun k : Class => k.lineage.length) hsame
  simp [Class.lineage] at hlength
  omega

theorem attribute?_iff_nearest (hclosed : AncestorClosed classes) (ht : TablesApart classes start)
    (hrun : AssignedBy classes start log now) (hd : classes.find? key = some d) (name : String)
    (v : Value) :
    d.attribute? now name = some v ↔ ∃ near n far, d.lineage = near ++ n :: far
      ∧ (∀ m ∈ near, ¬ m.Holder log name) ∧ n.Has start log name v := by
  have hown : ∀ n ∈ d.lineage, _ := fun n hn => hrun.own hclosed ht hd hn name
  unfold Class.attribute?
  rw [Lineage.attribute?_eq_some_iff]
  refine exists_congr fun near => exists_congr fun n => exists_congr fun far =>
    and_congr_right fun hsplit => and_congr ?_ ?_
  · refine forall_congr' fun m => imp_congr_right fun hm => (hown m ?_).2
    rw [hsplit]
    exact List.mem_append_left _ hm
  · refine (hown n ?_).1 v
    rw [hsplit]
    exact List.mem_append_right _ List.mem_cons_self

theorem attribute?_none_iff (hclosed : AncestorClosed classes) (ht : TablesApart classes start)
    (hrun : AssignedBy classes start log now) (hd : classes.find? key = some d) (name : String) :
    d.attribute? now name = none ↔ ∀ n ∈ d.lineage, ¬ n.Holder log name := by
  unfold Class.attribute?
  rw [Lineage.attribute?_eq_none_iff]
  exact forall_congr' fun n => imp_congr_right fun hn => (hrun.own hclosed ht hd hn name).2

/-- Classes nearer than the one that is assigned find what they found. -/
theorem attribute?_near (hclosed : AncestorClosed classes) (ht : TablesApart classes start)
    (hrun : AssignedBy classes start log now) (hc : classes.find? key' = some c)
    (hd : classes.find? key = some d) {near : Lineage} (hsplit : d.lineage = near ++ c.lineage)
    (name other : String) (v : Value) :
    near.attribute? (c.setAttr now name v) other = near.attribute? now other := by
  obtain ⟨t, hplace, -⟩ := hrun.exists_table ht hc
  refine Lineage.attribute?_congr fun m hm => ?_
  have hne := table_ne_of_near hclosed ht hc hd hsplit m hm
  rw [Class.find?_setAttr hplace, if_neg fun hboth => hne hboth.1]

/-- A class without nearer holders of the name sees the assignment. -/
theorem attribute?_setAttr_self (hclosed : AncestorClosed classes) (ht : TablesApart classes start)
    (hrun : AssignedBy classes start log now) (hc : classes.find? key' = some c)
    (hd : classes.find? key = some d) {near : Lineage} (hsplit : d.lineage = near ++ c.lineage)
    {name : String} (hnear : ∀ m ∈ near, ¬ m.Holder log name) (v : Value) :
    d.attribute? (c.setAttr now name v) name = some v := by
  obtain ⟨t, hplace, -⟩ := hrun.exists_table ht hc
  have hnone : near.attribute? now name = none := by
    refine Lineage.attribute?_eq_none_iff.2 fun m hm => ?_
    refine (hrun.own hclosed ht hd ?_ name).2.2 (hnear m hm)
    rw [hsplit]
    exact List.mem_append_left _ hm
  have hfound : c.lineage.attribute? (c.setAttr now name v) name = some v := by
    refine Lineage.attribute?_eq_some_iff.2 ⟨[], c.node, c.ancestors, rfl, ?_, ?_⟩
    · exact fun _ hm => by cases hm
    · rw [Class.find?_setAttr hplace, if_pos ⟨rfl, rfl⟩]
  unfold Class.attribute?
  rw [hsplit, Lineage.attribute?_append, hrun.attribute?_near hclosed ht hc hd hsplit, hnone, hfound]
  rfl

/-- All other lookups are as before. -/
theorem attribute?_setAttr_other (hclosed : AncestorClosed classes) (ht : TablesApart classes start)
    (hrun : AssignedBy classes start log now) (hc : classes.find? key' = some c)
    (hd : classes.find? key = some d) {name other : String} (v : Value)
    (hshadowed : other = name → ∀ near, d.lineage = near ++ c.lineage →
      ∃ m ∈ near, m.Holder log name) :
    d.attribute? (c.setAttr now name v) other = d.attribute? now other := by
  obtain ⟨t, hplace, -⟩ := hrun.exists_table ht hc
  unfold Class.attribute?
  by_cases hmet : other = name ∧ ∃ n ∈ d.lineage, n.table = c.node.table
  · -- the lookup ends before it comes to the class
    obtain ⟨rfl, n, hn, htable⟩ := hmet
    obtain ⟨near, hsplit⟩ := exists_near hclosed ht hc hd hn htable
    obtain ⟨m, hm, hholder⟩ := hshadowed rfl near hsplit
    have hfound : near.attribute? now other ≠ none := by
      intro hnone
      refine (hrun.own hclosed ht hd ?_ other).2.1 (Lineage.attribute?_eq_none_iff.1 hnone m hm)
        hholder
      rw [hsplit]
      exact List.mem_append_left _ hm
    obtain ⟨w, hw⟩ := Option.ne_none_iff_exists'.1 hfound
    rw [hsplit, Lineage.attribute?_append, Lineage.attribute?_append,
      hrun.attribute?_near hclosed ht hc hd hsplit, hw]
    rfl
  · refine Lineage.attribute?_congr fun n hn => ?_
    rw [Class.find?_setAttr hplace, if_neg fun hboth => hmet ⟨hboth.2, n, hn, hboth.1⟩]

/-- Assignments on classes leave the fields of instances alone. -/
theorem fields_setAttr (ht : TablesApart classes start) (hrun : AssignedBy classes start log now)
    (hc : classes.find? key = some c) {r : Ref} {fields : Table Value}
    (hr : now.objects[r]? = some (.fields fields)) (name : String) (v : Value) :
    (c.setAttr now name v).objects[r]? = some (.fields fields) := by
  obtain ⟨t, hplace, -⟩ := hrun.exists_table ht hc
  have hne : c.node.table ≠ r := by
    rintro rfl
    rw [hr] at hplace
    cases hplace
  unfold Class.setAttr
  rw [Heap.getElem?_write_of_ne now _ hne, hr]

end AssignedBy

/-- An instance is asked for its field first. -/
theorem Instance.attribute?_eq_or {i : Instance} {h : Heap} {fields : Table Value}
    (hfields : h.objects[i.fields]? = some (.fields fields)) (name : String) :
    i.attribute? h name = (fields.find? name).or (i.ofClass.attribute? h name) := by
  unfold attribute?
  rw [Heap.table_of_fields hfields]
  cases fields.find? name <;> rfl

/-- The classes of a module after a run of assignments on them. A lookup
gives what the nearest class has that declares the name or has been
assigned it: the value assigned last, else the declared one. One more
assignment is seen by the class and by the classes below it that have no
nearer holder of the name; all other lookups are as before. Fields of
instances come first and are never touched. -/
theorem Class.lookups_after_assignments {p : Program} {document : Json} {before after : Heap}
    {s : ModuleState}
    (hs : p.link document before = .ok (s, after)) {log : List ClassAssignment} {now : Heap}
    (hrun : AssignedBy s.classes after log now) {key : String} {d : Class}
    (hd : s.classes.find? key = some d) :
    (∀ name v, d.attribute? now name = some v ↔ ∃ near n far, d.lineage = near ++ n :: far
        ∧ (∀ m ∈ near, ¬ m.Holder log name) ∧ n.Has after log name v)
      ∧ (∀ name, d.attribute? now name = none ↔ ∀ n ∈ d.lineage, ¬ n.Holder log name)
      ∧ (∀ key' c, s.classes.find? key' = some c → ∀ name v,
          (∀ near, d.lineage = near ++ c.lineage → (∀ m ∈ near, ¬ m.Holder log name) →
            d.attribute? (c.setAttr now name v) name = some v)
          ∧ ∀ other, (other = name → ∀ near, d.lineage = near ++ c.lineage →
              ∃ m ∈ near, m.Holder log name) →
            d.attribute? (c.setAttr now name v) other = d.attribute? now other)
      ∧ ∀ (i : Instance) fields, i.ofClass = d → now.objects[i.fields]? = some (.fields fields) →
          (∀ name, i.attribute? now name = (fields.find? name).or (d.attribute? now name))
          ∧ ∀ key' c, s.classes.find? key' = some c → ∀ name v other,
            i.attribute? (c.setAttr now name v) other
              = (fields.find? other).or (d.attribute? (c.setAttr now name v) other) := by
  have hclosed := Program.link_closed hs
  have ht := Program.link_apart hs
  refine ⟨hrun.attribute?_iff_nearest hclosed ht hd, hrun.attribute?_none_iff hclosed ht hd, ?_, ?_⟩
  · intro key' c hc name v
    exact ⟨fun near hsplit hnear => hrun.attribute?_setAttr_self hclosed ht hc hd hsplit hnear v,
      fun other hshadowed => hrun.attribute?_setAttr_other hclosed ht hc hd v hshadowed⟩
  · rintro i fields rfl hfields
    refine ⟨i.attribute?_eq_or hfields, fun key' c hc name v other => ?_⟩
    exact i.attribute?_eq_or (hrun.fields_setAttr ht hc hfields name v) other

namespace Sample

/-- A class with a unit, one below it, and one below that. -/
def lengths : Program where
  name := "m"
  file := "m.json"
  doc := ""
  items := [.classDef { bareClass "Length" none with classAttributes := [("unit", .str "mm")] },
    .classDef (bareClass "Side" (some "Length")), .classDef (bareClass "Edge" (some "Side"))]

end Sample

/-- The unit is assigned in the middle, then at the top, twice. The last
class sees what the middle one has. -/
theorem Class.nearest_assignment_wins :
    ∃ s after a b c, Sample.lengths.link .null .empty = .ok (s, after)
      ∧ s.classes.find? "Length" = some a ∧ s.classes.find? "Side" = some b
      ∧ s.classes.find? "Edge" = some c
      ∧ c.attribute? (a.setAttr (b.setAttr after "unit" (.str "cm")) "unit" (.str "m")) "unit"
        = some (.str "cm")
      ∧ c.attribute? (a.setAttr (a.setAttr (b.setAttr after "unit" (.str "cm")) "unit" (.str "m"))
          "unit" (.str "km")) "unit" = some (.str "cm") := by
  obtain ⟨s, after, a, b, c, hs, ha, hb, hc, hab, hac, hbc, hroot, hlineage, hnone⟩ :
      ∃ s after a b c, Sample.lengths.link .null .empty = .ok (s, after)
        ∧ s.classes.find? "Length" = some a ∧ s.classes.find? "Side" = some b
        ∧ s.classes.find? "Edge" = some c
        ∧ a.node.table ≠ b.node.table ∧ a.node.table ≠ c.node.table ∧ b.node.table ≠ c.node.table
        ∧ a.lineage = [a.node] ∧ c.lineage = [c.node, b.node] ++ [a.node]
        ∧ c.node.definition.classAttributes = [] :=
    ⟨_, _, _, _, _, rfl, rfl, rfl, rfl, by decide, by decide, by decide, rfl, rfl, rfl⟩
  refine ⟨s, after, a, b, c, hs, ha, hb, hc, ?_⟩
  have hrun : AssignedBy s.classes after [⟨a, "unit", .str "m"⟩, ⟨b, "unit", .str "cm"⟩]
      (a.setAttr (b.setAttr after "unit" (.str "cm")) "unit" (.str "m")) :=
    .assign (.assign .start hb _ _) ha _ _
  obtain ⟨hlookup, -, hframe, -⟩ := lookups_after_assignments hs hrun hc
  have hleaf : ¬ c.node.Holder [⟨a, "unit", .str "m"⟩, ⟨b, "unit", .str "cm"⟩] "unit" := by
    rw [ClassNode.holder_cons_iff, ClassNode.holder_cons_iff, ClassNode.Holder, hnone]
    rintro (⟨heq, -⟩ | ⟨heq, -⟩ | hkey | ⟨_, ha', -⟩)
    · exact hac (congrArg ClassNode.table heq)
    · exact hbc (congrArg ClassNode.table heq)
    · cases hkey
    · cases ha'
  have hcm : c.attribute? (a.setAttr (b.setAttr after "unit" (.str "cm")) "unit" (.str "m")) "unit"
      = some (.str "cm") := by
    refine (hlookup _ _).2 ⟨[c.node], b.node, [a.node], hlineage, ?_, ?_⟩
    · exact List.forall_mem_singleton.2 hleaf
    · refine .assigned List.singleton_append.symm rfl (List.forall_mem_singleton.2 ?_)
      exact fun heq => absurd (congrArg ClassNode.table heq) hab
  refine ⟨hcm, ((hframe "Length" a ha _ _).2 "unit" ?_).trans hcm⟩
  intro _ near hsplit
  rw [hlineage, hroot] at hsplit
  rw [← List.append_cancel_right hsplit]
  exact ⟨b.node, by simp, .inr ⟨⟨b, "unit", .str "cm"⟩, by simp, rfl, rfl⟩⟩

end LiveDoc
