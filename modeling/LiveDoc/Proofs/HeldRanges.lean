/-
What instances hold in ranges.

A range refuses what is strictly outside. Of numbers that compare with its
ends that leaves those inside; a NaN compares with nothing, so it is refused
nowhere and inside nowhere (`Range.contains_iff`). The ends are no concern:
a document writes no NaN (`Bound.isNumber_ofNumber`).

What a check says of a value carries over to all that is held, at any time.
`Populated` is a run in which instances of any classes are made, and
attributes of those made before are assigned. Instances have places of their
own, so each event concerns the fields of one of them, and these stay as
their class declares and accepts them (`Populated.filled`, by induction on
the run). The checks of a class ask all classes of its lineage, and nothing
but null or a list or dict ends a checker before its last step
(`Check.inside_of_run`).
-/
import LiveDoc.Proofs.EntryMeaning
import LiveDoc.Proofs.Evolution
import LiveDoc.Proofs.IntegerRanges
import LiveDoc.Proofs.NominalKinds

namespace LiveDoc

open Traversal

-- ==================================================== what compares

theorem Binary64.compare?_eq_none_iff {x y : Binary64} :
    x.compare? y = none ↔ x = .nan ∨ y = .nan := by
  rcases x with _ | ⟨_ | _⟩ | _ <;> rcases y with _ | ⟨_ | _⟩ | _ <;> simp [compare?]

namespace Bound

/-- The bound is a number. -/
def IsNumber (b : Bound) : Prop := b.toBinary64 ≠ .nan

/-- The bounds of a document are numbers. -/
theorem isNumber_ofNumber (n : Json.Number) : (ofNumber n).IsNumber := by
  obtain ⟨y, hy, -⟩ := n.exists_nearestTo
  have hsame : (ofNumber n).toBinary64 = n.toBinary64 := by cases n <;> rfl
  rw [IsNumber, hsame, hy]
  exact fun h => by cases h

/-- A value compares with a number if it is one, and no NaN. -/
theorem compare?_ne_none_iff {b : Bound} (hb : b.IsNumber) (v : Value) :
    b.compare? v ≠ none ↔ v.IsNumeric ∧ v ≠ .float .nan := by
  -- of the doubles that numbers become, only a NaN does not compare
  have hdouble : ∀ {d : Binary64}, v.number? = some d → (∀ i j, v = .int i → b ≠ .int j) →
      (b.compare? v ≠ none ↔ d ≠ .nan) := by
    intro d hd hints
    rw [compare?_of_number hd hints, Ne, Binary64.compare?_eq_none_iff, or_iff_left hb]
  cases v with
  | bool t =>
    have hbits : (if t then 1 else 0 : Int).natAbs ≤ 2 ^ 64 := by split <;> omega
    obtain ⟨y, hy, -⟩ := Binary64.exists_nearestTo_ofInt hbits
    have hd : Value.number? (.bool t) = some (.finite y) := by rw [Value.number?, hy]
    rw [hdouble hd fun _ _ h => by cases h]
    exact iff_of_true (fun h => by cases h) ⟨.inl ⟨t, rfl⟩, fun h => by cases h⟩
  | int i =>
    refine iff_of_true ?_ ⟨.inr (.inl ⟨i, rfl⟩), fun h => by cases h⟩
    cases b with
    | int j => exact Option.some_ne_none _
    | float z =>
      obtain ⟨y, hy, -⟩ := Binary64.exists_nearestTo_ofInt64 i
      have hd : Value.number? (.int i) = some (.finite y) := by rw [Value.number?, hy]
      rw [hdouble hd fun _ _ _ h => by cases h]
      exact fun h => by cases h
  | float x =>
    have hnumeric : (Value.float x).IsNumeric := .inr (.inr ⟨x, rfl⟩)
    rw [hdouble rfl fun _ _ h => (by cases h), and_iff_right hnumeric, Ne, Ne, Value.float.injEq]
  | _ => exact iff_of_false (fun h => h rfl) fun h => by simp [Value.IsNumeric] at h

end Bound

namespace Value

/-- The value compares with the bound, and not as less. -/
def AtLeast (v : Value) (b : Bound) : Prop := ∃ o, b.compare? v = some o ∧ o ≠ .lt

/-- The value compares with the bound, and not as greater. -/
def AtMost (v : Value) (b : Bound) : Prop := ∃ o, b.compare? v = some o ∧ o ≠ .gt

theorem atLeast_iff {v : Value} {b : Bound} :
    v.AtLeast b ↔ b.compare? v ≠ none ∧ b.isAbove v = false := by
  unfold AtLeast Bound.isAbove
  cases b.compare? v <;> simp

theorem atMost_iff {v : Value} {b : Bound} :
    v.AtMost b ↔ b.compare? v ≠ none ∧ b.isBelow v = false := by
  unfold AtMost Bound.isBelow
  cases b.compare? v <;> simp

end Value

namespace Range

/-- The ends of a range that are given. -/
def ends : Range → List Bound
  | .between min max => [min, max]
  | .atLeast min => [min]
  | .atMost max => [max]

/-- The value compares with each end as the range asks for. -/
def Contains : Range → Value → Prop
  | .between min max, v => v.AtLeast min ∧ v.AtMost max
  | .atLeast min, v => v.AtLeast min
  | .atMost max, v => v.AtMost max

/-- What is not outside is inside, unless it is a NaN. -/
theorem contains_iff {r : Range} (hends : ∀ b ∈ r.ends, b.IsNumber) {v : Value}
    (hnumeric : v.IsNumeric) (hinside : r.excludes v = false) :
    r.Contains v ↔ v ≠ .float .nan := by
  have hcompares : ∀ b ∈ r.ends, b.compare? v ≠ none ↔ v ≠ .float .nan := by
    intro b hb
    rw [Bound.compare?_ne_none_iff (hends b hb), and_iff_right hnumeric]
  cases r with
  | between min max =>
    obtain ⟨hmin, hmax⟩ := Bool.or_eq_false_iff.1 hinside
    rw [Contains, Value.atLeast_iff, Value.atMost_iff, and_iff_left hmin, and_iff_left hmax,
      hcompares min (by simp [ends]), hcompares max (by simp [ends]), and_self]
  | atLeast min =>
    rw [Contains, Value.atLeast_iff, hcompares min (by simp [ends])]
    exact and_iff_left hinside
  | atMost max =>
    rw [Contains, Value.atMost_iff, hcompares max (by simp [ends])]
    exact and_iff_left hinside

end Range

-- ==================================================== ranges of a document

namespace Constraints

variable {classNames : List String} {cs : Constraints}

theorem HasRange.isNumber {fields : Entries Json} {r : Range} (h : HasRange fields r) :
    ∀ b ∈ r.ends, b.IsNumber := by
  have hbound : ∀ {key : String} {b : Bound}, HasBound fields key b → b.IsNumber := by
    rintro key b ⟨n, -, rfl⟩
    exact Bound.isNumber_ofNumber n
  cases h with
  | between hmin hmax =>
    intro b hb
    rcases List.mem_pair.1 hb with rfl | rfl
    · exact hbound hmin
    · exact hbound hmax
  | atLeast hmin _ => exact List.forall_mem_singleton.2 (hbound hmin)
  | atMost _ hmax => exact List.forall_mem_singleton.2 (hbound hmax)

/-- A range is read from the bounds of the entry. -/
theorem exists_hasRange {entry : Json} (h : ofEntry classNames entry = .ok cs) {r : Range}
    (hr : .range r ∈ cs) : ∃ fields, HasRange fields r := by
  rcases ofEntry_cases h with rfl | ⟨fields, -, hfields⟩
  · cases hr
  · obtain ⟨readOnly, notNull, kind, min, max, -, -, hmin, hmax, rfl⟩ := ofFields_eq_ok hfields
    exact ⟨fields, (ofEnds?_eq_some_iff hmin hmax r).1 (range_mem_assembled.1 hr)⟩

end Constraints

-- ==================================================== no step is skipped

namespace Check

variable {attr : String} {v : Value} {base : Except ValidationError Unit}

/-- Only null and lists and dicts can pass without having passed all
steps. -/
theorem inside_of_run {cs : List Check} (hnull : v.isNull = false)
    (hsingle : v.isCollection = false) (h : run attr v base cs = .ok ()) {r : Range}
    (hr : .inRange r ∈ cs) : v.number?.isNone = false ∧ r.excludes v = false := by
  induction cs with
  | nil => cases hr
  | cons c cs ih =>
    -- a check before the range refuses the value, or goes on to the rest of the list
    cases c with
    | delegateToBase =>
      rw [run_delegateToBase] at h
      obtain ⟨-, -, h⟩ := bind_eq_ok.1 h
      exact ih h (List.mem_of_ne_of_mem (fun h => by cases h) hr)
    | rejectNull =>
      rw [run, hnull] at h
      exact ih h (List.mem_of_ne_of_mem (fun h => by cases h) hr)
    | acceptNull =>
      rw [run, hnull] at h
      exact ih h (List.mem_of_ne_of_mem (fun h => by cases h) hr)
    | requireKind k =>
      rw [run] at h
      split at h
      case isTrue => exact ih h (List.mem_of_ne_of_mem (fun h => by cases h) hr)
      case isFalse => cases h
    | skipCollections =>
      rw [run, hsingle] at h
      exact ih h (List.mem_of_ne_of_mem (fun h => by cases h) hr)
    | inRange r' =>
      rw [run] at h
      obtain ⟨hnumber, h⟩ := ite_error_eq_ok.1 h
      obtain ⟨hinside, h⟩ := ite_error_eq_ok.1 h
      rcases List.mem_cons.1 hr with heq | hmem
      · cases heq
        exact ⟨Bool.eq_false_iff.2 hnumber, Bool.eq_false_iff.2 hinside⟩
      · exact ih h hmem

end Check

-- ==================================================== what a class lets in

/-- What a class lets in passes the own steps of every class of its lineage
that declares the attribute. -/
theorem Lineage.run_of_validate {l : Lineage} (hl : l.Declared) {n : ClassNode} (hn : n ∈ l)
    {d : ClassDecl} (hdeclared : n.DeclaredBy d) {a : AttributeDecl} (ha : a ∈ d.instanceAttributes)
    {v : Value} (hvalid : l.validate a.name v = .ok ()) :
    Check.run a.name v (.ok ()) a.constraints.ownChecks = .ok () := by
  rw [validate_eq_forM hl, forM_eq_ok] at hvalid
  have hdeclarer : n ∈ l.declarers a.name :=
    List.mem_reverse.2 (List.mem_filter.2 ⟨hn, hdeclared.declares_of_mem ha⟩)
  have hverdict := hvalid n hdeclarer
  unfold ClassNode.verdict at hverdict
  rw [hdeclared.ownChecks_eq ha] at hverdict
  exact hverdict

section Ranges

variable {document : Json} {m : ModuleDecl} {c : Class} {n : ClassNode} {d : ClassDecl}
  {a : AttributeDecl} {r : Range}

/-- What a class lets in for an attribute with a range, and is neither null
nor a list or dict, is a number in the range or a NaN. -/
theorem Class.contains_of_validate (hc : c.LinkedFrom document m) (hn : n ∈ c.lineage)
    (hd : d ∈ m.classes) (hdefinition : n.definition = .ofDecl d) (ha : a ∈ d.instanceAttributes)
    (hr : .range r ∈ a.constraints) {v : Value} (hvalid : c.validate a.name v = .ok ())
    (hnull : v ≠ .null) (hsingle : ¬ v.IsContainer) :
    v.IsNumeric ∧ (r.Contains v ↔ v ≠ .float .nan) := by
  obtain ⟨name, file, time, hm⟩ := hc.declared
  obtain ⟨root, rfl⟩ := ModuleDecl.exists_root_of_ofDocument hm
  have hread := (ModuleDecl.ofDocument_eq_ok hc.distinct.1).1 hm
  have hdeclared := hc.declaredBy hd hdefinition
  have hrun := Lineage.run_of_validate hc.lineage_declared hn hdeclared ha hvalid
  have hstep : .inRange r ∈ a.constraints.ownChecks :=
    List.mem_flatMap.2 ⟨.range r, hr, by simp [Constraint.checks]⟩
  have hnull' : v.isNull = false := Bool.eq_false_iff.2 (mt Value.isNull_iff.1 hnull)
  have hsingle' : v.isCollection = false := Bool.eq_false_iff.2 (mt Value.isCollection_iff.1 hsingle)
  obtain ⟨hnumber, hinside⟩ := Check.inside_of_run hnull' hsingle' hrun hstep
  have hnumeric : v.IsNumeric := by
    by_contra hnone
    rw [Value.isNone_number?_iff.2 hnone] at hnumber
    cases hnumber
  have hends : ∀ b ∈ r.ends, b.IsNumber := by
    rcases hread.constraints_of_attribute hd ha with hnone | ⟨entry, hentry⟩
    · rw [hnone] at hr
      cases hr
    · obtain ⟨fields, hrange⟩ := Constraints.exists_hasRange hentry hr
      exact hrange.isNumber
  exact ⟨hnumeric, Range.contains_iff hends hnumeric hinside⟩

end Ranges

-- ==================================================== runs

/-- The instances that a run has made, and the heap after it. Whatever else
happens leaves their fields alone. -/
inductive Populated : List Instance → Heap → Prop
  | start (h : Heap) : Populated [] h
  /-- an instance of some class is made -/
  | make {is : List Instance} {h h' : Heap} {c : Class} {args : Arguments} {i : Instance}
      (before : Populated is h) (made : c.instantiate args h = .ok (i, h')) : Populated (i :: is) h'
  /-- an assignment to an attribute of an instance is accepted -/
  | assign {is : List Instance} {h h' : Heap} {i : Instance} {attr : String} {v : Value}
      (before : Populated is h) (mem : i ∈ is) (accepted : i.setAttr h attr v = .ok h') :
      Populated is h'
  /-- something else happens -/
  | elsewhere {is : List Instance} {h h' : Heap} (before : Populated is h)
      (same : ∀ i ∈ is, h'.objects[i.fields]? = h.objects[i.fields]?) : Populated is h'

/-- The instance has a place with its fields, which are as its class declares
and accepts them. -/
structure Instance.FilledIn (i : Instance) (h : Heap) : Prop where
  place : h.objects[i.fields]? = some (.fields (h.table i.fields))
  filled : i.ofClass.lineage.Declared → i.ofClass.lineage.Filled (h.table i.fields)

namespace Instance.FilledIn

variable {i : Instance} {h h' : Heap}

theorem of_getElem?_eq (hi : i.FilledIn h)
    (hsame : h'.objects[i.fields]? = h.objects[i.fields]?) : i.FilledIn h' := by
  have hplace := hsame.trans hi.place
  have htable : h'.table i.fields = h.table i.fields := Heap.table_of_fields hplace
  constructor
  · rw [htable]
    exact hplace
  · rw [htable]
    exact hi.filled

/-- A new instance is filled. -/
theorem of_instantiate {c : Class} {args : Arguments} (hi : c.instantiate args h = .ok (i, h')) :
    i.FilledIn h' := by
  obtain ⟨rfl, fields, hplace⟩ := Class.instantiate_place hi
  have htable : h'.table i.fields = fields := Heap.table_of_fields hplace
  constructor
  · rw [htable]
    exact hplace
  · intro hl
    obtain ⟨-, fields', hplace', hfilled⟩ := Class.instantiate_ok hl hi
    cases hplace.symm.trans hplace'
    rw [htable]
    exact hfilled

/-- An accepted assignment keeps the fields filled. -/
theorem setAttr (hi : i.FilledIn h) {attr : String} {v : Value}
    (hset : i.setAttr h attr v = .ok h') : i.FilledIn h' := by
  obtain ⟨-, -, -, hwrite⟩ := setAttr_ok hset
  have hplace : h'.objects[i.fields]? = some (.fields ((h.table i.fields).insert attr v)) := by
    rw [hwrite]
    exact Heap.getElem?_write_self h _ (Heap.lt_size_of_getElem? hi.place)
  constructor
  · rw [Heap.table_of_fields hplace]
    exact hplace
  · intro hl
    have hfilled := hi.filled hl
    have hkept := (kept_of_filled hi.place hfilled).setAttr hl hfilled hset
    refine ⟨fun a => ?_, hkept.valid⟩
    rw [hkept.names]
    exact hfilled.names a

end Instance.FilledIn

namespace Populated

variable {is : List Instance} {h : Heap}

/-- The instances of a run have different places, and stay filled. -/
theorem filledIn (hrun : Populated is h) :
    (is.map Instance.fields).Nodup ∧ ∀ i ∈ is, i.FilledIn h := by
  induction hrun with
  | start h => exact ⟨List.nodup_nil, fun i hi => by cases hi⟩
  | @make is h h' c args i before made ih =>
    have hext := Class.instantiate_extends made
    refine ⟨List.nodup_cons.2 ⟨fun hmem => ?_, ih.1⟩,
      List.forall_mem_cons.2 ⟨.of_instantiate made, ?_⟩⟩
    · obtain ⟨j, hj, heq⟩ := List.mem_map.1 hmem
      have hlt := Heap.lt_size_of_getElem? (ih.2 j hj).place
      rw [heq] at hlt
      exact absurd hlt (Nat.not_lt.2 (Class.instantiate_apart made))
    · intro j hj
      have hlt := Heap.lt_size_of_getElem? (ih.2 j hj).place
      exact (ih.2 j hj).of_getElem?_eq (hext.same j.fields hlt)
  | @assign is h h' i attr v before mem accepted ih =>
    refine ⟨ih.1, fun j hj => ?_⟩
    by_cases hsame : i.fields = j.fields
    · rw [← List.inj_on_of_nodup_map ih.1 mem hj hsame]
      exact (ih.2 i mem).setAttr accepted
    · obtain ⟨-, -, -, rfl⟩ := Instance.setAttr_ok accepted
      exact (ih.2 j hj).of_getElem?_eq (Heap.getElem?_write_of_ne h _ hsame)
  | elsewhere before same ih =>
    exact ⟨ih.1, fun i hi => (ih.2 i hi).of_getElem?_eq (same i hi)⟩

end Populated

/-- At any time in a run, what an instance holds for an attribute with a
range, here or in an ancestor of its class, and is neither null nor a list
or dict, is a number in the range, or a NaN. -/
theorem Instance.holds_within_range {document : Json} {m : ModuleDecl} {is : List Instance}
    {now : Heap} (hrun : Populated is now) {i : Instance} (hi : i ∈ is)
    (hc : i.ofClass.LinkedFrom document m) {n : ClassNode} (hn : n ∈ i.ofClass.lineage)
    {d : ClassDecl} (hd : d ∈ m.classes) (hdefinition : n.definition = .ofDecl d)
    {a : AttributeDecl} (ha : a ∈ d.instanceAttributes) {r : Range}
    (hr : .range r ∈ a.constraints) {v : Value} (hheld : i.attribute? now a.name = some v)
    (hnull : v ≠ .null) (hsingle : ¬ v.IsContainer) :
    v.IsNumeric ∧ (r.Contains v ↔ v ≠ .float .nan) := by
  have hfilled := (hrun.filledIn.2 i hi).filled hc.lineage_declared
  have hdeclares := (hc.declaredBy hd hdefinition).declares_of_mem ha
  obtain ⟨w, hw⟩ := Table.exists_find?_iff.2 ((hfilled.names a.name).2 ⟨n, hn, hdeclares⟩)
  have hv : (now.table i.fields).find? a.name = some v := by
    unfold attribute? at hheld
    rw [hw] at hheld
    exact hw.trans hheld
  exact Class.contains_of_validate hc hn hd hdefinition ha hr (hfilled.valid _ _ hv) hnull hsingle

-- ==================================================== a level

/-- What an accepted assignment has assigned is held. -/
theorem Instance.attribute?_of_setAttr {i : Instance} {h h' : Heap} {attr : String} {v : Value}
    (hi : i.FilledIn h) (hset : i.setAttr h attr v = .ok h') : i.attribute? h' attr = some v := by
  obtain ⟨-, -, -, rfl⟩ := setAttr_ok hset
  have hplace := Heap.getElem?_write_self h (.fields ((h.table i.fields).insert attr v))
    (Heap.lt_size_of_getElem? hi.place)
  have hfound : ((h.table i.fields).insert attr v).find? attr = some v := by
    rw [Table.find?_insert, if_pos rfl]
  unfold attribute?
  rw [Heap.table_of_fields hplace, hfound]

namespace Sample

/-- A gauge is made and its level assigned. -/
def leveled? (v : Value) : Option (ModuleDecl × Instance × Heap) :=
  (linked? "devices" document .empty).bind fun linked =>
    (linked.2.1.classes.find? "Gauge").bind fun gauge =>
      match gauge.instantiate {} linked.2.2 with
      | .error _ => none
      | .ok (i, made) =>
        match i.setAttr made "level" v with
        | .error _ => none
        | .ok now => some (linked.1, i, now)

theorem leveled?_eq_some {v : Value} {m : ModuleDecl} {i : Instance} {now : Heap}
    (hlevel : leveled? v = some (m, i, now)) :
    i.ofClass.LinkedFrom document m ∧ Populated [i] now
      ∧ i.attribute? now "level" = some v := by
  obtain ⟨⟨m', s, h⟩, hlinked, hlevel⟩ := Option.bind_eq_some_iff.1 hlevel
  obtain ⟨gauge, hgauge, hlevel⟩ := Option.bind_eq_some_iff.1 hlevel
  obtain ⟨hm, hs⟩ := linked?_eq_some hlinked
  dsimp only at hlevel
  split at hlevel
  case h_1 => cases hlevel
  case h_2 i' made hmade =>
    split at hlevel
    case h_1 => cases hlevel
    case h_2 now' hset =>
      cases hlevel
      have hnew : Populated [i] made := .make (.start h) hmade
      obtain ⟨rfl, -⟩ := Class.instantiate_place hmade
      exact ⟨⟨distinctKeys_document, ⟨_, _, _, hm⟩, _, _, s, "Gauge", hs, hgauge⟩,
        .assign hnew List.mem_cons_self hset,
        Instance.attribute?_of_setAttr (.of_instantiate hmade) hset⟩

/-- The instance has devices among its ancestors, and the module declares
that their levels lie between 0 and 100. -/
def isLevelDevice (m : ModuleDecl) (i : Instance) : Bool :=
  i.ofClass.lineage.any (fun n => n.name = "Device")
    && m.classes.all fun d => d.name ≠ "Device" ∨ d.instanceAttributes.any fun a =>
      a.name = "level" ∧ .range (.between (.int 0) (.int 100)) ∈ a.constraints

theorem exists_level_range {m : ModuleDecl} {i : Instance} (hc : i.ofClass.LinkedFrom document m)
    (hdevice : isLevelDevice m i = true) :
    ∃ n ∈ i.ofClass.lineage, ∃ d ∈ m.classes, n.definition = .ofDecl d
      ∧ ∃ a ∈ d.instanceAttributes, a.name = "level"
        ∧ .range (.between (.int 0) (.int 100)) ∈ a.constraints := by
  obtain ⟨hlineage, hdeclared⟩ := Bool.and_eq_true_iff.1 hdevice
  obtain ⟨n, hn, hname⟩ := List.any_eq_true.1 hlineage
  obtain ⟨d, hd, hnode⟩ := hc.exists_declaredBy n hn
  have hdname : d.name = "Device" := by
    rw [← of_decide_eq_true hname, ClassNode.name, hnode.definition]
    rfl
  rcases of_decide_eq_true (List.all_eq_true.1 hdeclared d hd) with hother | hattribute
  · exact absurd hdname hother
  · obtain ⟨a, ha, hrange⟩ := List.any_eq_true.1 hattribute
    exact ⟨n, hn, d, hd, hnode.definition, a, ha, of_decide_eq_true hrange⟩

end Sample

/-- A level that was assigned is in the range that an ancestor declares. -/
theorem Instance.gauge_holds_within_range :
    ∃ m i now, Sample.leveled? (.int 40) = some (m, i, now)
      ∧ i.attribute? now "level" = some (.int 40)
      ∧ (Range.between (.int 0) (.int 100)).Contains (.int 40) := by
  have hcomputed : (Sample.leveled? (.int 40)).any (fun r => Sample.isLevelDevice r.1 r.2.1)
      = true := by
    decide +kernel
  obtain ⟨⟨m, i, now⟩, hlevel, hdevice⟩ := (Option.any_eq_true _ _).1 hcomputed
  obtain ⟨hc, hrun, hheld⟩ := Sample.leveled?_eq_some hlevel
  obtain ⟨n, hn, d, hd, hdefinition, a, ha, haname, hr⟩ := Sample.exists_level_range hc hdevice
  have hheld' : i.attribute? now a.name = some (.int 40) := by rw [haname, hheld]
  have hsingle : ¬ (Value.int 40).IsContainer := by simp [Value.IsContainer]
  obtain ⟨-, hcontains⟩ := Instance.holds_within_range hrun List.mem_cons_self hc hn hd hdefinition
    ha hr hheld' (fun h => by cases h) hsingle
  exact ⟨m, i, now, hlevel, hheld, hcontains.2 fun h => by cases h⟩

/-- A level that is a NaN is held, though it is in no range. -/
theorem Instance.gauge_holds_nan :
    ∃ m i now, Sample.leveled? (.float .nan) = some (m, i, now)
      ∧ i.ofClass.LinkedFrom Sample.document m ∧ Populated [i] now
      ∧ i.attribute? now "level" = some (.float .nan)
      ∧ (∃ n ∈ i.ofClass.lineage, ∃ d ∈ m.classes, n.definition = .ofDecl d
        ∧ ∃ a ∈ d.instanceAttributes, a.name = "level"
          ∧ .range (.between (.int 0) (.int 100)) ∈ a.constraints)
      ∧ ¬ (Range.between (.int 0) (.int 100)).Contains (.float .nan) := by
  have hcomputed : (Sample.leveled? (.float .nan)).any (fun r => Sample.isLevelDevice r.1 r.2.1)
      = true := by
    decide +kernel
  obtain ⟨⟨m, i, now⟩, hlevel, hdevice⟩ := (Option.any_eq_true _ _).1 hcomputed
  obtain ⟨hc, hrun, hheld⟩ := Sample.leveled?_eq_some hlevel
  refine ⟨m, i, now, hlevel, hc, hrun, hheld, Sample.exists_level_range hc hdevice, ?_⟩
  rintro ⟨⟨o, ho, -⟩, -⟩
  cases ho

end LiveDoc
