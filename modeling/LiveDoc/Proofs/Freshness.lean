/-
Defaults are not shared.

A field that falls back on its default gets a value of its own: the lists
and dicts in it, at any depth, were made for this field of this instance.
The argument is about regions of the heap. Construction makes one
assignment after another, and each default takes the places between the
sizes of the heap before and after it. What is in such a region refers
only to the region (`Heap.Made`), what is older refers only to what is
older (`Heap.Closed`), and what the later assignments make refers only to
what they make. So no path leads into the region but from the field
(`Instance.Owns`).

Nothing is said so far of what happens later. Lists and dicts are edited
in place (`Heap.Edit`), and an edit changes no object but its target, so
what is not led to by a path to a target stays as it is, the paths
included (`Heap.SameFrom.of_edits`). Pushing into the containers of a
field therefore reaches nothing that is older, and pushing into
containers that are older or come from elsewhere does not reach the
field. A container from elsewhere that is itself pushed into a field
remains that of where it comes from.
-/
import LiveDoc.Proofs.Evolution

namespace LiveDoc

open Relation (ReflTransGen)
open Traversal

-- ==================================================== paths

namespace Heap

variable {h h' : Heap}

/-- The object at the first place refers to the second. -/
def Edge (h : Heap) (r s : Ref) : Prop :=
  ∃ o v, h.objects[r]? = some o ∧ o.Holds v ∧ s ∈ v.places

/-- A path leads from the value to the place. -/
def Reaches (h : Heap) (v : Value) (r : Ref) : Prop := ∃ s ∈ v.places, ReflTransGen h.Edge s r

/-- Paths stay where the value refers to and no reference leaves. -/
theorem Reaches.mem {v : Value} {r : Ref} (hreach : h.Reaches v r) {S : Ref → Prop}
    (hv : ∀ s ∈ v.places, S s) (hedge : ∀ s t, S s → h.Edge s t → S t) : S r := by
  obtain ⟨s, hs, hpath⟩ := hreach
  induction hpath with
  | refl => exact hv s hs
  | tail _ hlast ih => exact hedge _ _ ih hlast

theorem Reaches.tail {v : Value} {r s : Ref} (hreach : h.Reaches v r) (hedge : h.Edge r s) :
    h.Reaches v s := by
  obtain ⟨t, ht, hpath⟩ := hreach
  exact ⟨t, ht, hpath.tail hedge⟩

/-- What a closed heap refers to stays in it when the heap grows. -/
theorem Closed.edge (hclosed : h.Closed) (hext : h.Extends h') {r s : Ref} (hr : r < h.size)
    (hedge : h'.Edge r s) : s < h.size := by
  obtain ⟨o, v, ho, hv, hs⟩ := hedge
  rw [hext.same r hr] at ho
  exact hclosed r o ho v hv s hs

/-- What was made refers to what was made with it. -/
theorem Made.edge {later : Heap} (hmade : h.Made h') (hext : h'.Extends later) {r s : Ref}
    (hr : h.size ≤ r ∧ r < h'.size) (hedge : later.Edge r s) : h.size ≤ s ∧ s < h'.size := by
  obtain ⟨o, v, ho, hv, hs⟩ := hedge
  rw [hext.same r hr.2] at ho
  exact (hmade.apart r o hr.1 ho).2 v hv s hs

/-- Nothing that is older leads to what is new. -/
theorem Closed.reaches (hclosed : h.Closed) (hext : h.Extends h') {v : Value}
    (hv : v.Within h.size) {r : Ref} (hreach : h'.Reaches v r) : r < h.size :=
  hreach.mem (S := fun r => r < h.size) hv fun _ _ hr hedge => hclosed.edge hext hr hedge

/-- What was made leads only to what was made with it. -/
theorem Made.reaches {later : Heap} (hmade : h.Made h') (hext : h'.Extends later) {v : Value}
    (hv : v.Between h.size h'.size) {r : Ref} (hreach : later.Reaches v r) :
    h.size ≤ r ∧ r < h'.size :=
  hreach.mem (S := fun r => h.size ≤ r ∧ r < h'.size) hv
    fun _ _ hr hedge => hmade.edge hext hr hedge

/-- It is made of containers. -/
theorem Made.exists_container {later : Heap} (hmade : h.Made h') (hext : h'.Extends later) {r : Ref}
    (hr : h.size ≤ r ∧ r < h'.size) :
    ∃ o, later.objects[r]? = some o ∧ o.isContainer = true := by
  have hlt : r < h'.objects.size := hr.2
  have ho : h'.objects[r]? = some h'.objects[r] := Array.getElem?_eq_getElem hlt
  exact ⟨_, hext.getElem? ho, (hmade.apart r _ hr.1 ho).1⟩

-- ==================================================== what stays the same

/-- What paths lead to from a value is the same in both heaps, and so are
the paths. -/
structure SameFrom (h h' : Heap) (v : Value) : Prop where
  reaches : ∀ r, h'.Reaches v r ↔ h.Reaches v r
  objects : ∀ r, h.Reaches v r → h'.objects[r]? = h.objects[r]?

theorem SameFrom.of_objects {v : Value}
    (hobjects : ∀ r, h.Reaches v r → h'.objects[r]? = h.objects[r]?) : h.SameFrom h' v := by
  refine ⟨fun r => ⟨fun hreach => ?_, fun hreach => ?_⟩, hobjects⟩
  · refine hreach.mem (S := h.Reaches v) (fun s hs => ⟨s, hs, .refl⟩) ?_
    intro s t hs hedge
    obtain ⟨o, w, ho, hw, ht⟩ := hedge
    rw [hobjects s hs] at ho
    exact hs.tail ⟨o, w, ho, hw, ht⟩
  · obtain ⟨s, hs, hpath⟩ := hreach
    have hboth : h.Reaches v r ∧ h'.Reaches v r := by
      induction hpath with
      | refl => exact ⟨⟨s, hs, .refl⟩, s, hs, .refl⟩
      | tail _ hlast ih =>
        obtain ⟨hold, hnew⟩ := ih
        refine ⟨hold.tail hlast, hnew.tail ?_⟩
        obtain ⟨o, w, ho, hw, ht⟩ := hlast
        exact ⟨o, w, (hobjects _ hold).trans ho, hw, ht⟩
    exact hboth.2

-- ==================================================== edits in place

/-- A list or a dict at a place that is allowed is edited, or new objects
appear. -/
inductive Edit (allowed : Ref → Prop) : Heap → Heap → Prop
  | grow {h h' : Heap} (grown : h.Grown h') : Edit allowed h h'
  | push {h : Heap} {r : Ref} {items : List Value} {v : Value} (target : allowed r)
      (place : h.objects[r]? = some (.list items)) (within : v.Within h.size) :
      Edit allowed h (h.write r (.list (items ++ [v])))
  | insert {h : Heap} {r : Ref} {entries : Table Value} {key : String} {v : Value}
      (target : allowed r) (place : h.objects[r]? = some (.table entries))
      (within : v.Within h.size) :
      Edit allowed h (h.write r (.table (entries.insert key v)))

/-- Any number of edits. -/
abbrev Edits (allowed : Ref → Prop) : Heap → Heap → Prop := ReflTransGen (Edit allowed)

variable {allowed : Ref → Prop}

/-- An edit is a step. -/
theorem Edit.step (hedit : Edit allowed h h') (hclosed : h.Closed) : h.Step h' := by
  cases hedit with
  | grow hgrown => exact .grow hgrown
  | push _ hplace hwithin =>
    refine .setItems hplace ?_
    intro x hx
    rcases List.mem_append.1 hx with hold | hnew
    · exact hclosed _ _ hplace x hold
    · rw [List.mem_singleton.1 hnew]
      exact hwithin
  | insert _ hplace hwithin =>
    exact .setEntries hplace (within_insert hwithin (hclosed _ _ hplace))

/-- An edit leaves what is no target as it is. -/
theorem Edit.same (hedit : Edit allowed h h') {r : Ref} (hr : r < h.size) (hnot : ¬ allowed r) :
    r < h'.size ∧ h'.objects[r]? = h.objects[r]? := by
  have hne : ∀ s, allowed s → s ≠ r := fun s hs heq => hnot (heq ▸ hs)
  cases hedit with
  | grow hgrown => exact ⟨Nat.lt_of_lt_of_le hr hgrown.kept.size, hgrown.kept.same r hr⟩
  | push htarget _ _ =>
    rw [size_write]
    exact ⟨hr, getElem?_write_of_ne h _ (hne _ htarget)⟩
  | insert htarget _ _ =>
    rw [size_write]
    exact ⟨hr, getElem?_write_of_ne h _ (hne _ htarget)⟩

theorem Edits.reachable (hedits : Edits allowed h h') (hreach : h.Reachable) : h'.Reachable := by
  induction hedits with
  | refl => exact hreach
  | tail _ hedit ih => exact ReflTransGen.tail ih (hedit.step ih.closed)

theorem Edits.same (hedits : Edits allowed h h') {r : Ref} (hr : r < h.size) (hnot : ¬ allowed r) :
    r < h'.size ∧ h'.objects[r]? = h.objects[r]? := by
  induction hedits with
  | refl => exact ⟨hr, rfl⟩
  | tail _ hedit ih =>
    obtain ⟨hlt, hsame⟩ := ih
    obtain ⟨hlt', hsame'⟩ := hedit.same hlt hnot
    exact ⟨hlt', hsame'.trans hsame⟩

/-- What is no list and no dict is no target. -/
theorem Edits.fields (hedits : Edits allowed h h') {r : Ref} {t : Table Value}
    (hr : h.objects[r]? = some (.fields t)) : h'.objects[r]? = some (.fields t) := by
  induction hedits with
  | refl => exact hr
  | @tail h₁ h₂ _ hedit ih =>
    have hne : ∀ s o, h₁.objects[s]? = some o → o.isContainer = true → s ≠ r := by
      intro s o hs ho heq
      rw [heq, ih] at hs
      cases hs
      cases ho
    cases hedit with
    | grow hgrown => exact hgrown.kept.getElem? ih
    | push _ hplace _ => exact (getElem?_write_of_ne h₁ _ (hne _ _ hplace rfl)).trans ih
    | insert _ hplace _ => exact (getElem?_write_of_ne h₁ _ (hne _ _ hplace rfl)).trans ih

/-- A value stays the same when no path leads from it to a target. -/
theorem SameFrom.of_edits (hedits : Edits allowed h h') {v : Value}
    (hv : ∀ r, h.Reaches v r → r < h.size ∧ ¬ allowed r) : h.SameFrom h' v := by
  refine .of_objects fun r hr => ?_
  obtain ⟨hlt, hnot⟩ := hv r hr
  exact (hedits.same hlt hnot).2

end Heap

-- ==================================================== fields that fall back

/-- The default that a field falls back on: that of the last slot of the
name, if its argument does not stand instead. -/
def Class.default? (c : Class) (args : Arguments) (name : String) : Option Constant :=
  match c.slots c.lineage args.positional args.keyword.entries with
  | .error _ => none
  | .ok ss => (ss.reverse.find? fun s => s.slot.param.name = name).bind fun s => s.slot.default?

/-- A default splits the slots at the one that makes it. -/
theorem Class.exists_split {c : Class} {args : Arguments} {name : String} {k : Constant}
    (hk : c.default? args name = some k) {ss : List LineageSlot}
    (hss : c.slots c.lineage args.positional args.keyword.entries = .ok ss) :
    ∃ before s after, ss = before ++ s :: after ∧ s.slot.param.name = name
      ∧ s.slot.default? = some k ∧ ∀ t ∈ after, t.slot.param.name ≠ name := by
  unfold default? at hk
  rw [hss] at hk
  obtain ⟨s, hfind, hdefault⟩ := Option.bind_eq_some_iff.1 hk
  obtain ⟨hname, later, earlier, hsplit, hlater⟩ := List.find?_eq_some_iff_append.1 hfind
  refine ⟨earlier.reverse, s, later.reverse, ?_, by simpa using hname, hdefault, ?_⟩
  · have hreverse := congrArg List.reverse hsplit
    rw [List.reverse_reverse, List.reverse_append, List.reverse_cons, List.append_assoc] at hreverse
    exact hreverse
  · intro t ht
    have hnot := hlater t (List.mem_reverse.1 ht)
    simpa using hnot

-- ==================================================== fields with values of their own

/-- The field holds a value that was made for it: the value of a constant,
of lists and dicts that are newer than the heap before, and to which no
path leads from what was there before or from another field. -/
structure Instance.Owns (i : Instance) (before made : Heap) (name : String) (k : Constant)
    (v : Value) : Prop where
  field : (made.table i.fields).find? name = some v
  denotes : made.Denotes v k
  fresh : ∀ r, made.Reaches v r → before.size ≤ r ∧ r < made.size
  containers : ∀ r, made.Reaches v r → ∃ o, made.objects[r]? = some o ∧ o.isContainer = true
  older : ∀ w : Value, w.Within before.size → ∀ r, made.Reaches v r → ¬ made.Reaches w r
  others : ∀ other w, other ≠ name → (made.table i.fields).find? other = some w →
    ∀ r, made.Reaches v r → ¬ made.Reaches w r

/-- A field that falls back on its default owns its value. -/
theorem Instance.exists_owns {c : Class} {h : Heap} (hclosed : h.Closed) {args : Arguments}
    (hargs : args.Within h.size) {i : Instance} {made : Heap}
    (hi : c.instantiate args h = .ok (i, made)) {name : String} {k : Constant}
    (hk : c.default? args name = some k) : ∃ v, i.Owns h made name k v := by
  obtain ⟨ss, fields, done, hss, hassign, rfl, rfl⟩ := Class.instantiate_phases hi
  obtain ⟨before, s, after, rfl, rfl, hdefault, hafter⟩ := Class.exists_split hk hss
  have hpassed :=
    Class.slots_arguments (P := fun v => v.Within h.size) hss hargs.positional hargs.keyword
  -- the heap grows in three parts, and the default is the second
  obtain ⟨h₁, hmade₁, hmade₃, hfield, hothers⟩ := Slot.assignEach_default hdefault hafter hassign
  obtain ⟨hmade₂, hbetween, hdenotes⟩ := k.materialize_made h₁
  have hplaced := Heap.Extends.alloc done (.fields fields)
  have hext₂ := hmade₃.grown.trans hplaced
  have hext₁ := hmade₂.grown.trans hext₂
  have hext := hmade₁.grown.trans hext₁
  have hclosed₁ := hmade₁.to_grown.closed hclosed
  have htable : (done.alloc (.fields fields)).2.table done.size = fields :=
    Heap.table_of_fields (Heap.getElem?_alloc_self done (.fields fields))
  have hregion := fun r => hmade₂.reaches hext₂ hbetween (r := r)
  refine ⟨(k.materialize h₁).1, htable.symm ▸ hfield, hdenotes.mono hext₂, ?_, ?_, ?_, ?_⟩
  · intro r hr
    obtain ⟨hlow, hhigh⟩ := hregion r hr
    exact ⟨Nat.le_trans hmade₁.grown.size hlow, Nat.lt_of_lt_of_le hhigh hext₂.size⟩
  · exact fun r hr => hmade₂.exists_container hext₂ (hregion r hr)
  · intro w hw r hr hreach
    have hold := hclosed.reaches hext hw hreach
    have hnew := Nat.le_trans hmade₁.grown.size (hregion r hr).1
    exact absurd hold (Nat.not_lt.2 hnew)
  · intro other w hother hfind r hr hreach
    rw [htable] at hfind
    obtain ⟨hlow, hhigh⟩ := hregion r hr
    have hbefore : ¬ w.Within h₁.size := fun hw =>
      absurd (hclosed₁.reaches hext₁ hw hreach) (Nat.not_lt.2 hlow)
    rcases hothers other w hother hfind with ⟨t, ht, hargument⟩ | hearlier | hlater
    · exact hbefore ((hpassed t ht w hargument).mono hmade₁.grown.size)
    · exact hbefore hearlier.within
    · have hle := (hmade₃.reaches hplaced hlater hreach).1
      exact absurd hhigh (Nat.not_lt.2 hle)

-- ==================================================== defaults are not shared

/-- A path leads to the place through a field that fell back on its
default. -/
def Instance.DefaultReaches (i : Instance) (args : Arguments) (made : Heap) (r : Ref) : Prop :=
  ∃ name k v, i.ofClass.default? args name = some k
    ∧ (made.table i.fields).find? name = some v ∧ made.Reaches v r

/-- Defaults are not shared. Whatever a new instance falls back on is its
own: new containers, reached neither from anything older nor through
another field. So pushing into the containers that its defaults brought,
and into any that are made later, leaves all that is older as it was, and
later instances still get the declared defaults, as values of their own;
and pushing into any other containers leaves the fields that fell back on
defaults as they were. -/
theorem Instance.defaults_unshared {c : Class} {h : Heap} (hreach : h.Reachable) {args : Arguments}
    (hargs : args.Within h.size) {i : Instance} {made : Heap}
    (hi : c.instantiate args h = .ok (i, made)) :
    (∀ name k, c.default? args name = some k → ∃ v, i.Owns h made name k v)
      ∧ (∀ now, Heap.Edits (fun r => i.DefaultReaches args made r ∨ made.size ≤ r) made now →
        (∀ w : Value, w.Within h.size → made.SameFrom now w)
        ∧ ∀ (c' : Class) (args' : Arguments) (i' : Instance) (made' : Heap),
          args'.Within now.size → c'.instantiate args' now = .ok (i', made') →
          ∀ name k, c'.default? args' name = some k → ∃ v, i'.Owns now made' name k v)
      ∧ ∀ name k v, c.default? args name = some k →
        (made.table i.fields).find? name = some v →
        ∀ now, Heap.Edits (fun r => ¬ made.Reaches v r) made now →
          (now.table i.fields).find? name = some v ∧ made.SameFrom now v := by
  have hclosed := hreach.closed
  have hext : h.Extends made := Class.instantiate_extends hi
  have hmade : made.Reachable := ReflTransGen.tail hreach (Class.instantiate_step hargs hi)
  obtain ⟨rfl, fields, hplace⟩ := Class.instantiate_place hi
  have howns : ∀ name k v, i.ofClass.default? args name = some k →
      (made.table i.fields).find? name = some v → i.Owns h made name k v := by
    intro name k v hk hv
    obtain ⟨v', hv'⟩ := exists_owns hclosed hargs hi hk
    have heq := hv'.field
    rw [hv] at heq
    cases heq
    exact hv'
  refine ⟨fun name k hk => exists_owns hclosed hargs hi hk, ?_, ?_⟩
  · intro now hedits
    constructor
    · intro w hw
      refine .of_edits hedits fun r hr => ?_
      have hlt : r < h.size := hclosed.reaches hext hw hr
      refine ⟨Nat.lt_of_lt_of_le hlt hext.size, ?_⟩
      -- an older value reaches only old places, and what may be edited is new
      intro hallowed
      rcases hallowed with ⟨name, k, v, hk, hv, hreached⟩ | hlater
      · exact absurd hlt (Nat.not_lt.2 ((howns name k v hk hv).fresh r hreached).1)
      · exact absurd hlt (Nat.not_lt.2 (Nat.le_trans hext.size hlater))
    · intro c' args' i' made' hargs' hi' name k hk
      exact exists_owns (hedits.reachable hmade).closed hargs' hi' hk
  · intro name k v hk hv now hedits
    constructor
    -- edits are of lists and dicts, so the fields are as they were
    · rw [Heap.table_of_fields (hedits.fields hplace), ← Heap.table_of_fields hplace]
      exact hv
    · refine .of_edits hedits fun r hr => ?_
      exact ⟨((howns name k v hk hv).fresh r hr).2, fun hnot => hnot hr⟩

namespace Sample

/-- A class that declares an attribute of its parent again, with containers
in containers. -/
def racks : Json :=
  .object [
    ("Rack", .object [("slots", .array []), ("label", .str "r")]),
    ("Bay", .object [
      ("__parent__", .str "Rack"),
      ("slots", .array [.array [], .object [("top", .array [])]])])]

theorem distinctKeys_racks : racks.DistinctKeys := by
  simp [racks, Json.DistinctKeys, Json.DistinctKeysFields, Json.DistinctKeysAll, Entries.keys]

/-- Null asks for the default. -/
def nullSlots : Arguments := { keyword := .ofList [("slots", .null)] }

theorem nullSlots_within (n : Nat) : nullSlots.Within n where
  positional v hv := by cases hv
  keyword e he := by
    have hmem : e ∈ [("slots", Value.null)] := he
    rw [List.mem_singleton.1 hmem]
    intro r hr
    cases hr

/-- The default of an attribute, if it is a list. -/
def listDefault? (c : Class) (args : Arguments) (name : String) : Option (List Constant) :=
  match c.default? args name with
  | some (.list cs) => some cs
  | _ => none

/-- The default of the class is new for the instance, and pushing into it
leaves the class alone. -/
theorem bay_slots_unshared :
    ∃ (m : ModuleDecl) (c : Class) (h : Heap) (i : Instance) (made : Heap) (k : Constant) (r : Ref)
        (items : List Value),
      c.LinkedFrom racks m ∧ h.Reachable ∧ nullSlots.Within h.size
        ∧ c.instantiate nullSlots h = .ok (i, made)
        ∧ c.default? nullSlots "slots" = some k
        ∧ k.text = "[[], \x7b\"top\": []\x7d]"
        ∧ i.Owns h made "slots" k (.list r)
        ∧ made.objects[r]? = some (.list items)
        ∧ made.SameFrom (made.write r (.list (items ++ [.int 7]))) (.cls c) := by
  obtain ⟨m, c, h, hc, hreach, hq⟩ := exists_liveIn_of_any distinctKeys_racks "Bay"
    (fun p => (p.1.instantiate nullSlots p.2).isOk
      ∧ (listDefault? p.1 nullSlots "slots").map (fun cs => (Constant.list cs).text)
        = some "[[], \x7b\"top\": []\x7d]"
      ∧ (Value.cls p.1).places.all (· < p.2.size))
    (by decide +kernel)
  obtain ⟨hok, htext, hplaces⟩ := of_decide_eq_true hq
  cases hi : c.instantiate nullSlots h with
  | error e =>
    rw [hi] at hok
    cases hok
  | ok made? =>
    obtain ⟨i, made⟩ := made?
    obtain ⟨cs, hcs, hlist⟩ := Option.map_eq_some_iff.1 htext
    have hk : c.default? nullSlots "slots" = some (.list cs) := by
      unfold listDefault? at hcs
      split at hcs
      case h_1 cs' hdefault =>
        cases hcs
        exact hdefault
      case h_2 => cases hcs
    obtain ⟨howns, hothers, -⟩ :=
      Instance.defaults_unshared hreach (nullSlots_within h.size) hi
    obtain ⟨v, hv⟩ := howns "slots" (.list cs) hk
    cases v with
    | list r =>
      have hplace : ∃ items, made.objects[r]? = some (.list items) := by
        cases hv.denotes with
        | list hplace _ => exact ⟨_, hplace⟩
      obtain ⟨items, hitems⟩ := hplace
      obtain ⟨hclass, -⟩ := Class.instantiate_place hi
      have hdefault : i.DefaultReaches nullSlots made r := by
        refine ⟨"slots", .list cs, .list r, ?_, hv.field, r, List.mem_singleton_self r, .refl⟩
        rw [hclass]
        exact hk
      -- the list of the instance is its own, so something may be pushed into it
      have hedit : Heap.Edit (fun r => i.DefaultReaches nullSlots made r ∨ made.size ≤ r) made
          (made.write r (.list (items ++ [.int 7]))) :=
        .push (.inl hdefault) hitems (fun s hs => (by cases hs))
      have hsame := (hothers _ (.single hedit)).1 (.cls c) ?_
      · exact ⟨m, c, h, i, made, .list cs, r, items, hc.linkedFrom, hreach, nullSlots_within h.size,
          hi, hk, hlist, hv, hitems, hsame⟩
      · intro s hs
        exact of_decide_eq_true (List.all_eq_true.1 hplaces s hs)
    | _ => cases hv.denotes

end Sample

end LiveDoc
