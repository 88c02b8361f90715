/-
Objects that repeat no name.

Reading classes and attributes relies on it that no object of a document
repeats a name (`Json.DistinctKeys`). The type does not insist on it, but
every document that comes out of a text has it: a name that is repeated
keeps its first place and takes its last value, so no field list ever
holds it twice.

The invariant `Reader.Distinct` says this of the reader in the middle of
a text: of the containers still open and of what is complete in them.
Every token keeps it (`Reader.Distinct.step`), so it holds when the
document is complete (`distinctKeys_of_parse?`).
-/
import LiveDoc.Json.Reader

namespace LiveDoc.Json

-- ==================================================== parts of a document

/-- Fields have distinct keys inside when each of them has. -/
theorem distinctKeysFields_iff {fields : Entries Json} :
    DistinctKeysFields fields ↔ ∀ f ∈ fields, f.2.DistinctKeys := by
  induction fields with
  | nil => exact ⟨fun _ _ h => (by cases h), fun _ => trivial⟩
  | cons e es ih =>
    rw [List.forall_mem_cons, ← ih]
    exact Iff.rfl

theorem distinctKeysAll_iff {items : List Json} :
    DistinctKeysAll items ↔ ∀ j ∈ items, j.DistinctKeys := by
  induction items with
  | nil => exact ⟨fun _ _ h => (by cases h), fun _ => trivial⟩
  | cons j js ih =>
    rw [List.forall_mem_cons, ← ih]
    exact Iff.rfl

/-- The parts of an object with distinct names have them too. -/
theorem DistinctKeys.of_find? {fields : Entries Json} (h : (Json.object fields).DistinctKeys)
    {key : String} {j : Json} (hj : fields.find? key = some j) : j.DistinctKeys :=
  distinctKeysFields_iff.1 h.2 _ (Entries.mem_of_find? hj)

/-- A field put into an object replaces the one of its name. -/
theorem DistinctKeys.put {fields : Entries Json} (h : (Json.object fields).DistinctKeys)
    (key : String) {v : Json} (hv : v.DistinctKeys) :
    (Json.object (Entries.put fields key v)).DistinctKeys := by
  refine ⟨Entries.nodup_keys_put h.1 key v, ?_⟩
  have hfields := h.2
  clear h
  induction fields with
  | nil => exact ⟨hv, trivial⟩
  | cons e es ih =>
    obtain ⟨k, j⟩ := e
    obtain ⟨hj, hes⟩ := hfields
    rw [Entries.put]
    split
    · exact ⟨hv, hes⟩
    · exact ⟨hj, ih hes⟩

-- ==================================================== the reader

/-- What has been read of an open container has distinct names. -/
def Frame.Distinct : Frame → Prop
  | .array items => DistinctKeysAll items
  | .object fields _ => (Json.object fields).DistinctKeys

namespace Reader

/-- All that has been read so far has distinct names. -/
def Distinct : Reader → Prop
  | .value stack => ∀ f ∈ stack, f.Distinct
  | .arrayStart stack => ∀ f ∈ stack, f.Distinct
  | .afterItem items stack => DistinctKeysAll items ∧ ∀ f ∈ stack, f.Distinct
  | .objectStart stack => ∀ f ∈ stack, f.Distinct
  | .name fields stack => (Json.object fields).DistinctKeys ∧ ∀ f ∈ stack, f.Distinct
  | .colon fields _ stack => (Json.object fields).DistinctKeys ∧ ∀ f ∈ stack, f.Distinct
  | .afterField fields stack => (Json.object fields).DistinctKeys ∧ ∀ f ∈ stack, f.Distinct
  | .finished document => document.DistinctKeys

/-- A value that is complete goes into the innermost container that is open,
where it replaces the value of its name. -/
theorem distinct_deliver {v : Json} (hv : v.DistinctKeys) {stack : List Frame}
    (hstack : ∀ f ∈ stack, f.Distinct) : (deliver v stack).Distinct := by
  cases stack with
  | nil => exact hv
  | cons f stack =>
    obtain ⟨hf, hrest⟩ := List.forall_mem_cons.1 hstack
    cases f with
    | array items => exact ⟨⟨hv, hf⟩, hrest⟩
    | object fields key => exact ⟨DistinctKeys.put hf key hv, hrest⟩

/-- A value that begins opens an empty container or is complete at once. -/
theorem distinct_beginValue {stack : List Frame} (hstack : ∀ f ∈ stack, f.Distinct) {t : Token}
    {r : Reader} (h : beginValue stack t = some r) : r.Distinct := by
  cases t with
  | null =>
    cases h
    exact distinct_deliver (v := .null) trivial hstack
  | bool b =>
    cases h
    exact distinct_deliver (v := .bool b) trivial hstack
  | number n =>
    cases h
    exact distinct_deliver (v := .number n) trivial hstack
  | str s =>
    cases h
    exact distinct_deliver (v := .str s) trivial hstack
  | openArray =>
    rw [beginValue] at h
    split at h
    · cases h
      exact hstack
    · cases h
  | openObject =>
    rw [beginValue] at h
    split at h
    · cases h
      exact hstack
    · cases h
  | _ => cases h

/-- A token keeps names distinct. -/
theorem Distinct.step {r r' : Reader} {t : Token} (hr : r.Distinct) (h : step r t = some r') :
    r'.Distinct := by
  have hempty : (Json.object []).DistinctKeys := ⟨List.nodup_nil, trivial⟩
  -- only where a container ends or begins is there anything to show
  unfold Reader.step at h
  split at h
  case h_1 => exact distinct_beginValue hr h
  case h_2 =>
    cases h
    exact distinct_deliver (v := .array []) trivial hr
  case h_3 =>
    have harray : (Frame.array []).Distinct := trivial
    exact distinct_beginValue (List.forall_mem_cons.2 ⟨harray, hr⟩) h
  case h_4 =>
    cases h
    exact List.forall_mem_cons.2 hr
  case h_5 items _ =>
    cases h
    have hitems : (Json.array items.reverse).DistinctKeys :=
      distinctKeysAll_iff.2 fun j hj => distinctKeysAll_iff.1 hr.1 j (List.mem_reverse.1 hj)
    exact distinct_deliver hitems hr.2
  case h_6 =>
    cases h
    exact distinct_deliver hempty hr
  case h_7 =>
    cases h
    exact ⟨hempty, hr⟩
  case h_8 =>
    cases h
    exact hr
  case h_9 =>
    cases h
    exact List.forall_mem_cons.2 hr
  case h_10 =>
    cases h
    exact hr
  case h_11 =>
    cases h
    exact distinct_deliver hr.1 hr.2
  case h_12 => cases h

/-- So reading on keeps names distinct. -/
theorem Distinct.run {r r' : Reader} {ts : List Token} (hr : r.Distinct)
    (h : run r ts = some r') : r'.Distinct := by
  induction ts generalizing r with
  | nil =>
    cases h
    exact hr
  | cons t ts ih =>
    obtain ⟨r₁, hstep, hrun⟩ := Option.bind_eq_some_iff.1 h
    exact ih (hr.step hstep) hrun

end Reader

/-- No object of a document that was read repeats a name. -/
theorem distinctKeys_of_parse? {text : String} {j : Json} (h : parse? text = some j) :
    j.DistinctKeys := by
  obtain ⟨ts, -, h⟩ := Option.bind_eq_some_iff.1 h
  obtain ⟨r, hrun, hdone⟩ := Option.bind_eq_some_iff.1 h
  have hstart : Reader.Distinct (.value []) := fun f hf => (by cases hf)
  have hr := hstart.run hrun
  cases r with
  | finished document =>
    cases hdone
    exact hr
  | _ => cases hdone

end LiveDoc.Json
