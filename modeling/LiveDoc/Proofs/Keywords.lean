/-
Keywords are assignments.

Construction with keywords and construction without, followed by
assignments, are two ways to one state. Both make the same list of
assignments to fields, root to leaf, and differ in arguments alone
(`Lineage.bare_assignments`): a keyword is the argument of the last
assignment of its name (`Lineage.last?_argument`), since the class that
takes it is the first from the leaf that declares the name. So it is
checked where an assignment after construction is, from the leaf, for the
classes before that one do not declare the name
(`Lineage.argument_of_mem_assignments`); and whatever the ancestors have
put into the field it overwrites, in the place that the field has.

What remains is independent of arguments. Defaults were accepted without
keywords, and they are again: checkers see no places, so the new lists and
dicts of another call are the same to them (`Value.Alike`).
-/
import LiveDoc.Proofs.Assignments
import LiveDoc.Proofs.Fields

namespace LiveDoc

open Traversal

-- ==================================================== keywords along a lineage

namespace Lineage

variable {n : ClassNode} {l : Lineage} {keyword : Entries Value}

/-- A keyword is checked as an assignment from the leaf is: the classes
before the one that takes it do not declare its name. -/
theorem argument_of_mem_assignments (hl : l.Declared) {a : Assignment}
    (ha : a ∈ l.assignments [] keyword) {v : Value} (hv : a.argument = some v) :
    keyword.find? a.param.name = some v
      ∧ ∀ w, a.declaring.validate a.param.name w = l.validate a.param.name w := by
  induction l generalizing keyword with
  | nil => cases ha
  | cons n l ih =>
    obtain ⟨⟨d, hn⟩, hl⟩ := hl.of_cons
    rw [assignments_given_cons hn, List.drop_nil, List.zip_nil_right, List.nil_append,
      List.mem_append] at ha
    rcases ha with ha | ha
    · obtain ⟨hfind, hvalid⟩ := ih hl ha
      have hnot : n.declares a.param.name = false :=
        of_decide_eq_true (List.mem_filter.1 (Entries.mem_of_find? hfind)).2
      rw [find?_passedOn hnot] at hfind
      refine ⟨hfind, fun w => ?_⟩
      rw [hvalid w, validate_cons_of_not hn hnot]
    · obtain ⟨p, -, rfl⟩ := List.mem_map.1 ha
      exact ⟨hv, fun w => rfl⟩

/-- No keyword is null, so none asks for a default. -/
theorem proper_assignments (hl : l.Declared)
    (hvalues : ∀ name v, keyword.find? name = some v → v.isNull = false) :
    ∀ a ∈ l.assignments [] keyword, a.Proper := by
  intro a ha v hv
  obtain ⟨hfind, -⟩ := argument_of_mem_assignments hl ha hv
  exact hvalues _ v hfind

/-- Where the defaults are accepted, all is accepted when the keywords pass
the checker of the leaf. -/
theorem accepted_keyword_iff (hl : l.Declared)
    (hnames : ∀ name ∈ keyword.keys, ∃ n ∈ l, n.declares name = true)
    (hvalues : ∀ name v, keyword.find? name = some v → v.isNull = false)
    (hdefaults : ∀ a ∈ l.assignments [] [], a.Accepted) :
    (∀ a ∈ l.assignments [] keyword, a.Accepted)
      ↔ ∀ name v, keyword.find? name = some v → l.validate name v = .ok () := by
  have hproper := proper_assignments hl hvalues
  have haccepted : ∀ a ∈ l.assignments [] keyword, ∀ v, a.argument = some v →
      (a.Accepted ↔ l.validate a.param.name v = .ok ()) := by
    intro a ha v hv
    obtain ⟨-, hvalid⟩ := argument_of_mem_assignments hl ha hv
    rw [a.accepted_iff .empty, Assignment.value_of_argument (hproper a ha) hv, hvalid]
  constructor
  · intro hall name v hv
    have hname := hnames name (List.mem_map_of_mem (Entries.mem_of_find? hv))
    obtain ⟨a, hlast, hargument⟩ := exists_last? hl hname [] keyword
    rw [given_nil] at hargument
    obtain ⟨ha, rfl⟩ := Assignment.last?_some hlast
    exact (haccepted a ha v (hargument.trans hv)).1 (hall a ha)
  · intro hall a ha
    cases hargument : a.argument with
    | some v =>
      obtain ⟨hfind, -⟩ := argument_of_mem_assignments hl ha hargument
      exact (haccepted a ha v hargument).2 (hall _ v hfind)
    | none =>
      -- without an argument it is one of those made without keywords
      have hbare : a = a.bare := by
        unfold Assignment.bare
        rw [← hargument]
      apply hdefaults
      rw [← bare_assignments hl [] keyword, hbare]
      exact List.mem_map_of_mem ha

/-- With keywords for declared names and nothing else, construction makes
the assignments. -/
theorem outcome_keyword (leaf : Class) (given : Nat)
    (hnames : ∀ name ∈ keyword.keys, ∃ n ∈ l, n.declares name = true) (h : Heap) :
    l.outcome leaf given [] keyword h = Assignment.makeAll (l.assignments [] keyword) ∅ h := by
  have hconflicts : l.conflicts [] keyword = [] := by
    unfold conflicts conflictsAt
    simp
  unfold outcome
  rw [hconflicts, unknown_eq_nil_iff.2 hnames]
  simp

end Lineage

/-- An instance made with keywords: its fields are what the assignments
make of none. -/
theorem Class.instantiate_keyword {c : Class} (hl : c.lineage.Declared) {keyword : Table Value}
    (hnames : ∀ name ∈ keyword.keys, ∃ n ∈ c.lineage, n.declares name = true) (h : Heap) :
    c.instantiate { keyword } h
      = (Assignment.makeAll (c.lineage.assignments [] keyword.entries) ∅ h >>= fun r =>
          .ok (⟨c, r.2.size⟩, (r.2.alloc (.fields r.1)).2)) := by
  unfold instantiate
  rw [constructFields_eq_outcome c hl keyword.nodup,
    Lineage.outcome_keyword c _ hnames]
  rfl

/-- An instance made without arguments. -/
theorem Class.instantiate_nothing {c : Class} (hl : c.lineage.Declared) (h : Heap) :
    c.instantiate {} h
      = (Assignment.makeAll (c.lineage.assignments [] []) ∅ h >>= fun r =>
          .ok (⟨c, r.2.size⟩, (r.2.alloc (.fields r.1)).2)) :=
  @instantiate_keyword c hl ∅ (fun name hname => by cases hname) h

-- ==================================================== storing

namespace Instance

/-- Put a value into a field, whatever the checkers say. -/
def store (i : Instance) (h : Heap) (attr : String) (v : Value) : Heap :=
  h.write i.fields (.fields ((h.table i.fields).insert attr v))

/-- Put values into fields in order. -/
def storeAll (i : Instance) (h : Heap) (es : Entries Value) : Heap :=
  es.foldl (fun h e => i.store h e.1 e.2) h

/-- Assign attributes in order; the first that is refused ends it. -/
def setAttrs (i : Instance) : Heap → Entries Value → Except CallError Heap
  | h, [] => .ok h
  | h, (attr, v) :: es => i.setAttr h attr v >>= fun h => i.setAttrs h es

variable {i : Instance} {h now : Heap}

/-- Storing enters values into the table of the fields and leaves lists and
dicts alone. -/
theorem storeAll_place {t : Table Value} (hplace : h.objects[i.fields]? = some (.fields t))
    (es : Entries Value) :
    (i.storeAll h es).objects[i.fields]? = some (.fields (t.insertAll es))
      ∧ h.KeepsContainers (i.storeAll h es) := by
  induction es generalizing h t with
  | nil => exact ⟨hplace, fun _ _ _ hr => hr⟩
  | cons e es ih =>
    have hstored : (i.store h e.1 e.2).objects[i.fields]?
        = some (.fields (t.insert e.1 e.2)) := by
      unfold store
      rw [Heap.table_of_fields hplace]
      exact Heap.getElem?_write_self h _ (Heap.lt_size_of_getElem? hplace)
    obtain ⟨hrest, hkeep⟩ := ih hstored
    refine ⟨hrest, fun r o ho hr => hkeep r o ho ?_⟩
    have hne : i.fields ≠ r := by
      rintro rfl
      rw [hplace] at hr
      cases hr
      cases ho
    exact (Heap.getElem?_write_of_ne h _ hne).trans hr

theorem setAttr_eq_ok {attr : String} {v : Value} :
    i.setAttr h attr v = .ok now
      ↔ i.ofClass.hasProperty attr = true ∧ i.ofClass.isReadOnly attr = false
        ∧ i.ofClass.validate attr v = .ok () ∧ now = i.store h attr v := by
  constructor
  · exact setAttr_ok
  · rintro ⟨hproperty, hreadOnly, hvalid, rfl⟩
    unfold setAttr
    rw [hproperty, hreadOnly, hvalid]
    rfl

/-- Where all may be assigned to, assigning is storing what the checkers
accept. -/
theorem setAttrs_eq_ok {es : Entries Value}
    (hassignable : ∀ e ∈ es, i.ofClass.hasProperty e.1 = true ∧ i.ofClass.isReadOnly e.1 = false) :
    i.setAttrs h es = .ok now
      ↔ (∀ e ∈ es, i.ofClass.validate e.1 e.2 = .ok ()) ∧ now = i.storeAll h es := by
  induction es generalizing h with
  | nil => simp [setAttrs, storeAll, eq_comm]
  | cons e es ih =>
    obtain ⟨attr, v⟩ := e
    obtain ⟨⟨hproperty, hreadOnly⟩, hrest⟩ := List.forall_mem_cons.1 hassignable
    rw [setAttrs, bind_eq_ok, List.forall_mem_cons]
    constructor
    · intro hset
      obtain ⟨h₁, hfirst, hset⟩ := hset
      obtain ⟨-, -, hvalid, rfl⟩ := setAttr_eq_ok.1 hfirst
      obtain ⟨hvalids, rfl⟩ := (ih hrest).1 hset
      exact ⟨⟨hvalid, hvalids⟩, rfl⟩
    · rintro ⟨⟨hvalid, hvalids⟩, rfl⟩
      exact ⟨_, setAttr_eq_ok.2 ⟨hproperty, hreadOnly, hvalid, rfl⟩, (ih hrest).2 ⟨hvalids, rfl⟩⟩

/-- The fields of two instances, in a heap each, agree: they have the same
names in the same order, hold what was passed under a name that was, and
values of one constant elsewhere. -/
structure Agree (i j : Instance) (h h' : Heap) (passed : Table Value) : Prop where
  names : (h.table i.fields).keys = (h'.table j.fields).keys
  arguments : ∀ name v, passed.find? name = some v →
    (h.table i.fields).find? name = some v ∧ (h'.table j.fields).find? name = some v
  defaults : ∀ name ∈ (h.table i.fields).keys, passed.find? name = none →
    ∃ w w' k, (h.table i.fields).find? name = some w ∧ (h'.table j.fields).find? name = some w'
      ∧ h.Denotes w k ∧ h'.Denotes w' k

/-- Fields made without keywords agree, once these are stored, with fields
made with them. -/
theorem agree_storeAll {l : Lineage} (hl : l.Declared) {keyword : Table Value}
    (hnames : ∀ name ∈ keyword.keys, ∃ n ∈ l, n.declares name = true)
    (hvalues : ∀ name v, keyword.find? name = some v → v.isNull = false)
    {before before' done done' made made' : Heap} {fields fields' : Table Value}
    (hmake : Assignment.makeAll (l.assignments [] []) ∅ before = .ok (fields, done))
    (hmake' : Assignment.makeAll (l.assignments [] keyword.entries) ∅ before' = .ok (fields', done'))
    {i j : Instance} (hi : made.objects[i.fields]? = some (.fields fields))
    (hj : made'.objects[j.fields]? = some (.fields fields')) (hmade : done.Extends made)
    (hmade' : done'.Extends made') {es : Entries Value} (hes : es.Perm keyword.entries) :
    Agree i j (i.storeAll made es) made' keyword := by
  have hproper : ∀ a ∈ l.assignments [] [], a.Proper :=
    Lineage.proper_assignments hl fun name v hv => by cases hv
  have hproper' := Lineage.proper_assignments hl hvalues
  have hsame : (l.assignments [] []).map (fun a => a.param.name)
      = (l.assignments [] keyword.entries).map fun a => a.param.name := by
    rw [← Lineage.bare_assignments hl [] keyword.entries, List.map_map]
    rfl
  have hkeys : es.keys.Perm keyword.keys := hes.map Prod.fst
  have hknown : es.keys ⊆ fields.keys := by
    intro name hname
    rw [Assignment.makeAll_mem_keys hmake, Lineage.mem_names_assignments hl]
    exact hnames name (hkeys.subset hname)
  obtain ⟨hplace, hkeep⟩ := storeAll_place hi es
  constructor
  case names =>
    rw [Heap.table_of_fields hplace, Heap.table_of_fields hj,
      Table.keys_insertAll_of_subset hknown]
    exact Assignment.makeAll_keys hsame rfl hmake hmake'
  case arguments =>
    intro name v hv
    have hentry := Table.find?_eq_some_iff.1 hv
    rw [Heap.table_of_fields hplace, Heap.table_of_fields hj]
    refine ⟨Table.find?_insertAll_of_mem (hkeys.nodup_iff.2 keyword.nodup)
      (hes.symm.subset hentry), ?_⟩
    obtain ⟨a, ha, hargument⟩ :=
      Lineage.exists_last? hl (hnames name (List.mem_map_of_mem hentry)) [] keyword.entries
    rw [Lineage.given_nil] at hargument
    exact Assignment.find?_of_argument hmake' ha (hproper' a (Assignment.last?_some ha).1)
      (hargument.trans hv)
  case defaults =>
    intro name hname hnone
    rw [Heap.table_of_fields hplace, Table.keys_insertAll_of_subset hknown,
      Assignment.makeAll_mem_keys hmake, Lineage.mem_names_assignments hl] at hname
    obtain ⟨a, ha, hargument⟩ := Lineage.exists_last? hl hname [] keyword.entries
    rw [Lineage.given_nil] at hargument
    -- the same assignment is the last one of the name without keywords
    have hbare : Assignment.last? (l.assignments [] []) name = some a.bare := by
      rw [← Lineage.bare_assignments hl [] keyword.entries, Assignment.last?_bare, ha]
      rfl
    obtain ⟨w, hw, hyield⟩ := Assignment.exists_find?_of_default hmake hbare
      (hproper _ (Assignment.last?_some hbare).1) rfl
    obtain ⟨w', hw', hyield'⟩ := Assignment.exists_find?_of_default hmake' ha
      (hproper' a (Assignment.last?_some ha).1) (hargument.trans hnone)
    have hmissing : name ∉ es.keys := by
      intro hmem
      exact Table.find?_eq_none_iff.1 hnone (hkeys.subset hmem)
    refine ⟨w, w', a.param.default.constant, ?_, ?_, ?_, ?_⟩
    · rw [Heap.table_of_fields hplace, Table.find?_insertAll_of_notMem hmissing, hw]
    · rw [Heap.table_of_fields hj, hw']
    · exact (Heap.Denotes.mono hmade hyield).keep hkeep
    · exact Heap.Denotes.mono hmade' hyield'

end Instance

-- ==================================================== keywords and assignments

/-- Keywords do what assignments do. Where a class can be instantiated
without arguments, it can be with keywords for instance attributes that it
has or inherits and that are not null exactly when its checkers accept each
of them; then the fields agree with those of the instance made without,
after the keywords are stored in any order. If none of them is read only,
assigning them one by one succeeds in the same cases and comes to the
same. -/
theorem Class.keywords_as_assignments {document : Json} {m : ModuleDecl} {c : Class}
    (hc : c.LinkedFrom document m) {before made : Heap} {i : Instance}
    (hi : c.instantiate {} before = .ok (i, made)) {keyword : Table Value}
    (hnames : ∀ name ∈ keyword.keys, c.hasProperty name = true)
    (hvalues : ∀ name v, keyword.find? name = some v → v.isNull = false) (before' : Heap) :
    ((∃ r, c.instantiate { keyword } before' = .ok r)
        ↔ ∀ name v, keyword.find? name = some v → c.validate name v = .ok ())
      ∧ (∀ j made', c.instantiate { keyword } before' = .ok (j, made') →
          ∀ es, es.Perm keyword.entries → i.Agree j (i.storeAll made es) made' keyword)
      ∧ ((∀ name ∈ keyword.keys, c.isReadOnly name = false) →
          ∀ es, es.Perm keyword.entries → ∀ now, i.setAttrs made es = .ok now
            ↔ (∃ r, c.instantiate { keyword } before' = .ok r) ∧ now = i.storeAll made es) := by
  have hl := hc.lineage_declared
  have hdeclared : ∀ name ∈ keyword.keys, ∃ n ∈ c.lineage, n.declares name = true :=
    fun name hname => (Lineage.isSome_property?_iff hl).1 (hnames name hname)
  obtain ⟨⟨fields, done⟩, hmake, hplace⟩ :=
    bind_eq_ok.1 ((instantiate_nothing hl before).symm.trans hi)
  cases hplace
  have hdefaults := (Assignment.exists_makeAll_iff _ _ _).1 ⟨_, hmake⟩
  have hiff : (∃ r, c.instantiate { keyword } before' = .ok r)
      ↔ ∀ name v, keyword.find? name = some v → c.validate name v = .ok () := by
    rw [instantiate_keyword hl hdeclared, exists_bind_eq_ok]
    simp only [Except.ok.injEq, exists_eq', and_true]
    rw [Assignment.exists_makeAll_iff]
    exact Lineage.accepted_keyword_iff hl hdeclared hvalues hdefaults
  refine ⟨hiff, ?_, ?_⟩
  · intro j made' hj es hes
    rw [instantiate_keyword hl hdeclared] at hj
    obtain ⟨⟨fields', done'⟩, hmake', hplace'⟩ := bind_eq_ok.1 hj
    cases hplace'
    exact Instance.agree_storeAll hl hdeclared hvalues hmake hmake'
      (Heap.getElem?_alloc_self done _) (Heap.getElem?_alloc_self done' _)
      (.alloc done _) (.alloc done' _) hes
  · -- both accept when every value is valid; no assignment fails for another reason
    intro hassignable es hes now
    have hkeys : es.keys.Perm keyword.keys := hes.map Prod.fst
    rw [hiff, Instance.setAttrs_eq_ok]
    · refine and_congr_left fun _ => ⟨fun h name v hv => ?_, fun h e he => ?_⟩
      · exact h (name, v) (hes.symm.subset (Table.find?_eq_some_iff.1 hv))
      · exact h e.1 e.2 (Table.find?_eq_some_iff.2 (hes.subset he))
    · intro e he
      have hmem := hkeys.subset (List.mem_map_of_mem he)
      exact ⟨hnames _ hmem, hassignable _ hmem⟩

namespace Sample

/-- Keywords for a class that declares one of them again. -/
def readings : Table Value := .ofList [("level", .int 7), ("unit", .str "mbar")]

/-- The class can be instantiated, and the keywords may be assigned. -/
def takesReadings (c : Class) : Bool :=
  (c.instantiate {} .empty).isOk && readings.entries.all fun e =>
    c.hasProperty e.1 && !c.isReadOnly e.1 && !e.2.isNull && (c.validate e.1 e.2).isOk

end Sample

/-- Two keywords, and the same assigned in the other order. -/
theorem Class.gauge_keywords_as_assignments :
    ∃ (m : ModuleDecl) (c : Class) (i j : Instance) (made made' now : Heap),
      c.LinkedFrom Sample.document m ∧ c.instantiate {} .empty = .ok (i, made)
      ∧ c.instantiate { keyword := Sample.readings } made = .ok (j, made')
      ∧ i.setAttrs made [("unit", .str "mbar"), ("level", .int 7)] = .ok now
      ∧ i.Agree j now made' Sample.readings := by
  obtain ⟨m, c, hc, hq⟩ := Sample.exists_linkedFrom_of_any "Gauge" Sample.takesReadings
    (by decide +kernel)
  unfold Sample.takesReadings at hq
  rw [Bool.and_eq_true, List.all_eq_true] at hq
  obtain ⟨hplain, htakes⟩ := hq
  simp only [Bool.and_eq_true, Bool.not_eq_true'] at htakes
  have hnames : ∀ name ∈ Sample.readings.keys,
      c.hasProperty name = true ∧ c.isReadOnly name = false := by
    intro name hname
    obtain ⟨e, he, rfl⟩ := List.mem_map.1 hname
    exact (htakes e he).1.1
  have hvalues : ∀ name v, Sample.readings.find? name = some v → v.isNull = false :=
    fun name v hv => (htakes _ (Table.find?_eq_some_iff.1 hv)).1.2
  have hvalid : ∀ name v, Sample.readings.find? name = some v → c.validate name v = .ok () := by
    intro name v hv
    have hok := (htakes _ (Table.find?_eq_some_iff.1 hv)).2
    cases hvalidate : c.validate name v with
    | ok u => rfl
    | error e =>
      rw [hvalidate] at hok
      cases hok
  have hperm : [("unit", Value.str "mbar"), ("level", .int 7)].Perm Sample.readings.entries :=
    .swap _ _ _
  cases hi : c.instantiate {} .empty with
  | error e =>
    rw [hi] at hplain
    cases hplain
  | ok r =>
    obtain ⟨i, made⟩ := r
    obtain ⟨hiff, hagree, hassign⟩ :=
      keywords_as_assignments hc hi (fun name hname => (hnames name hname).1) hvalues made
    obtain ⟨⟨j, made'⟩, hj⟩ := hiff.2 hvalid
    have hset := (hassign (fun name hname => (hnames name hname).2) _ hperm _).2 ⟨⟨_, hj⟩, rfl⟩
    exact ⟨m, c, i, j, made, made', _, hc, hi, hj, hset, hagree j made' hj _ hperm⟩

end LiveDoc
