/-
How deep showing a value goes.

The text of a value is made of texts of others: of the items of a list, of
the values of a dict, of what the placeholders of a template stand for, in
one conversion or the other (`Heap.parts`). Showing a value is a walk along
parts, and it may have no end, since a list can hold itself. `Heap.Ends`
says that it ends within a number of steps.

A walk that ends within some steps needs no more: the text is the same
however many more there are (`Ends.textWithin_eq`). And it ends within the
steps that a text is made with (`Ends.walkLimit`), so the text of a value
is the same as with any number of steps that suffices (`Ends.text_eq`).

The second is a matter of counting. What ends within `n + 1` steps and not
within `n` has a part that needs exactly one less, and so on down; that
makes `n` values that the heap stores, each under one conversion and no two
of them alike, since they need different numbers of steps
(`Ends.exists_nodup`). There are only twice as many as stored values.
-/
import LiveDoc.Live.Text
import Mathlib.Data.List.Perm.Subperm

namespace LiveDoc

open Template (Conversion Segment)

-- ==================================================== rendering

namespace Template

variable {α β : Type}

/-- A placeholder shows two values alike when the conversion that it asks
for does, and both are the same number. -/
theorem Field.render_congr (f : Field) {view : View α} {view' : View β} {v : α} {w : β}
    (hnumber : view.number v = view'.number w)
    (hstr : f.conversion = .str → view.str v = view'.str w)
    (hrepr : f.conversion = .repr → view.repr v = view'.repr w) :
    f.render view v = f.render view' w := by
  unfold render
  cases hconversion : f.conversion with
  | str => simp only [hnumber, hstr hconversion]
  | repr => simp only [hrepr hconversion]

/-- Segments are rendered alike when their placeholders are. -/
theorem renderSegments_congr {view : View α} {view' : View β} {resolve : String → Option α}
    {resolve' : String → Option β} {segments : List Segment}
    (h : ∀ f, .field f ∈ segments →
      (resolve f.name).map (f.render view) = (resolve' f.name).map (f.render view')) :
    renderSegments view resolve segments = renderSegments view' resolve' segments := by
  induction segments with
  | nil => rfl
  | cons s rest ih =>
    have hrest := ih fun f hf => h f (List.mem_cons_of_mem s hf)
    cases s with
    | literal text => rw [renderSegments, renderSegments, hrest]
    | field f =>
      have hfirst := h f List.mem_cons_self
      rw [renderSegments, renderSegments, hrest]
      cases hv : resolve f.name with
      | none =>
        rw [hv, Option.map_none, eq_comm, Option.map_eq_none_iff] at hfirst
        rw [hfirst]
        rfl
      | some v =>
        rw [hv, Option.map_some, eq_comm, Option.map_eq_some_iff] at hfirst
        obtain ⟨w, hw, hrender⟩ := hfirst
        show (renderSegments view' resolve' rest).bind (fun tail => some (f.render view v ++ tail))
          = (resolve' f.name).bind fun w =>
            (renderSegments view' resolve' rest).bind fun tail => some (f.render view' w ++ tail)
        rw [hw, Option.bind_some, hrender]

end Template

-- ==================================================== parts

/-- The text of the value is made of texts of others. -/
def Value.isComposite : Value → Bool
  | .list _ => true
  | .dict _ => true
  | .inst _ => true
  | _ => false

/-- What the placeholders of segments ask for. -/
def Instance.asked (i : Instance) (h : Heap) (segments : List Segment) :
    List (Conversion × Value) :=
  segments.filterMap fun
    | .literal _ => none
    | .field f => (i.placeholder? h f.name).map fun v => (f.conversion, v)

namespace Heap

/-- The texts that the text of a value is made of. -/
def parts (h : Heap) (conversion : Conversion) : Value → List (Conversion × Value)
  | .list r => (h.items r).map fun v => (.repr, v)
  | .dict r => (h.table r).entries.map fun e => (.repr, e.2)
  | .inst i => i.asked h (i.ofClass.template conversion).segments
  | _ => []

/-- Showing the value ends within a number of steps. -/
inductive Ends (h : Heap) : Nat → Conversion → Value → Prop
  | single {n : Nat} {conversion : Conversion} {v : Value} (plain : v.isComposite = false) :
      Ends h n conversion v
  | composite {n : Nat} {conversion : Conversion} {v : Value}
      (parts : ∀ p ∈ h.parts conversion v, Ends h n p.1 p.2) : Ends h (n + 1) conversion v

variable {h : Heap} {n m : Nat} {conversion : Conversion} {v : Value}

theorem Ends.mono (hends : h.Ends n conversion v) (hle : n ≤ m) : h.Ends m conversion v := by
  induction hends generalizing m with
  | single hplain => exact .single hplain
  | composite _ ih =>
    obtain ⟨m, rfl⟩ : ∃ k, m = k + 1 := ⟨m - 1, by omega⟩
    exact .composite fun p hp => ih p hp (by omega)

theorem ends_zero_iff : h.Ends 0 conversion v ↔ v.isComposite = false := by
  constructor
  · intro hends
    cases hends with
    | single hplain => exact hplain
  · exact .single

theorem ends_succ_iff :
    h.Ends (n + 1) conversion v
      ↔ v.isComposite = false ∨ ∀ p ∈ h.parts conversion v, h.Ends n p.1 p.2 := by
  constructor
  · intro hends
    cases hends with
    | single hplain => exact .inl hplain
    | composite hparts => exact .inr hparts
  · rintro (hplain | hparts)
    · exact .single hplain
    · exact .composite hparts

instance decidableEnds (h : Heap) :
    (n : Nat) → (conversion : Conversion) → (v : Value) → Decidable (h.Ends n conversion v)
  | 0, _, _ => decidable_of_iff _ ends_zero_iff.symm
  | n + 1, _, _ =>
    have := fun p : Conversion × Value => decidableEnds h n p.1 p.2
    decidable_of_iff _ ends_succ_iff.symm

/-- What is not made of others is shown without steps. -/
theorem textWithin_of_single (hplain : v.isComposite = false) (m n : Nat) :
    h.textWithin m conversion v = h.textWithin n conversion v := by
  cases v with
  | list r => cases hplain
  | dict r => cases hplain
  | inst i => cases hplain
  | str s => cases conversion <;> simp only [textWithin]
  | _ => simp only [textWithin]

-- ==================================================== texts of parts

section Congr

variable {h' : Heap} {f : Value → Value}

/-- Lists are shown alike when their items are. -/
theorem textWithin_list_congr {r r' : Ref} (hitems : h'.items r' = (h.items r).map f)
    (hparts : ∀ v ∈ h.items r, h'.textWithin m .repr (f v) = h.textWithin n .repr v) :
    h'.textWithin (m + 1) conversion (.list r') = h.textWithin (n + 1) conversion (.list r) := by
  have htexts : (h'.items r').map (h'.textWithin m .repr)
      = (h.items r).map (h.textWithin n .repr) := by
    rw [hitems, List.map_map]
    exact List.map_congr_left hparts
  rw [textWithin, textWithin, htexts]

/-- Dicts are shown alike when they have the same names in the same order,
and their values are. -/
theorem textWithin_dict_congr {r r' : Ref}
    (hentries : (h'.table r').entries = (h.table r).entries.mapValues f)
    (hparts : ∀ e ∈ (h.table r).entries,
      h'.textWithin m .repr (f e.2) = h.textWithin n .repr e.2) :
    h'.textWithin (m + 1) conversion (.dict r') = h.textWithin (n + 1) conversion (.dict r) := by
  have htexts : (h'.table r').entries.map (fun e =>
        Quoted.quote e.1 ++ ": " ++ h'.textWithin m .repr e.2)
      = (h.table r).entries.map fun e =>
        Quoted.quote e.1 ++ ": " ++ h.textWithin n .repr e.2 := by
    rw [hentries, Entries.mapValues, List.map_map]
    exact List.map_congr_left fun e he => congrArg (Quoted.quote e.1 ++ ": " ++ ·) (hparts e he)
  rw [textWithin, textWithin, htexts]

/-- Instances are shown alike when their classes have the same name and
template, and what its placeholders stand for is. -/
theorem textWithin_inst_congr {i i' : Instance} (hname : i'.ofClass.name = i.ofClass.name)
    (htemplate : i'.ofClass.template conversion = i.ofClass.template conversion)
    (hresolve : ∀ name, i'.placeholder? h' name = (i.placeholder? h name).map f)
    (hnumber : ∀ v, (f v).number? = v.number?)
    (hparts : ∀ p ∈ h.parts conversion (.inst i),
      h'.textWithin m p.1 (f p.2) = h.textWithin n p.1 p.2) :
    h'.textWithin (m + 1) conversion (.inst i') = h.textWithin (n + 1) conversion (.inst i) := by
  have hrender : (i.ofClass.template conversion).render
        ⟨h'.textWithin m .str, h'.textWithin m .repr, Value.number?⟩ (i'.placeholder? h')
      = (i.ofClass.template conversion).render
        ⟨h.textWithin n .str, h.textWithin n .repr, Value.number?⟩ (i.placeholder? h) := by
    refine Template.renderSegments_congr fun field hfield => ?_
    rw [hresolve, Option.map_map]
    cases hv : i.placeholder? h field.name with
    | none => rfl
    | some v =>
      have hasked : (field.conversion, v) ∈ h.parts conversion (.inst i) :=
        List.mem_filterMap.2 ⟨.field field, hfield, by simp [hv]⟩
      have hpart := hparts _ hasked
      refine congrArg some (field.render_congr (hnumber v) ?_ ?_)
      · intro hstr
        rw [hstr] at hpart
        exact hpart
      · intro hrepr
        rw [hrepr] at hpart
        exact hpart
  rw [textWithin, textWithin, htemplate, hrender, hname]

end Congr

/-- A text does not change with more steps than the walk needs. -/
theorem Ends.textWithin_eq (hends : h.Ends n conversion v) (hle : n ≤ m) :
    h.textWithin m conversion v = h.textWithin n conversion v := by
  induction hends generalizing m with
  | single hplain => exact textWithin_of_single hplain m _
  | @composite n conversion v _ ih =>
    obtain ⟨m, rfl⟩ : ∃ k, m = k + 1 := ⟨m - 1, by omega⟩
    have hparts : ∀ p ∈ h.parts conversion v, h.textWithin m p.1 p.2 = h.textWithin n p.1 p.2 :=
      fun p hp => ih p hp (by omega)
    cases v with
    | list r =>
      refine textWithin_list_congr (f := id) (List.map_id _).symm fun v hv => ?_
      exact hparts (.repr, v) (List.mem_map_of_mem hv)
    | dict r =>
      refine textWithin_dict_congr (f := id) (List.map_id _).symm fun e he => ?_
      exact hparts (.repr, e.2) (List.mem_map_of_mem (f := fun e => (Conversion.repr, e.2)) he)
    | inst i =>
      refine textWithin_inst_congr (f := id) rfl rfl (fun name => ?_) (fun v => rfl) hparts
      exact Option.map_id'.symm
    | _ => exact textWithin_of_single rfl _ _

-- ==================================================== what is stored

theorem mem_values {r : Ref} {o : Object} (hr : h.objects[r]? = some o) {v : Value}
    (hv : v ∈ o.values) : v ∈ h.values := by
  have hmem : o ∈ h.objects.toList := List.mem_of_getElem? (by simpa using hr)
  exact List.mem_flatMap.2 ⟨o, hmem, hv⟩

theorem mem_values_of_items {r : Ref} (hv : v ∈ h.items r) : v ∈ h.values := by
  unfold items at hv
  split at hv
  case h_1 vs hr => exact mem_values hr hv
  case h_2 => cases hv

theorem mem_values_of_table {r : Ref} {e : String × Value} (he : e ∈ (h.table r).entries) :
    e.2 ∈ h.values := by
  unfold table at he
  split at he
  case h_1 t hr => exact mem_values hr (List.mem_map_of_mem he)
  case h_2 t hr => exact mem_values hr (List.mem_map_of_mem he)
  case h_3 t hr => exact mem_values hr (List.mem_map_of_mem he)
  case h_4 => cases he

/-- The attributes of an instance are stored. -/
theorem mem_values_of_attribute? {i : Instance} {name : String}
    (hv : i.attribute? h name = some v) : v ∈ h.values := by
  unfold Instance.attribute? at hv
  split at hv
  case h_1 w hw =>
    cases hv
    exact mem_values_of_table (Table.find?_eq_some_iff.1 hw)
  case h_2 =>
    obtain ⟨n, -, hn⟩ := List.exists_of_findSome?_eq_some hv
    exact mem_values_of_table (Table.find?_eq_some_iff.1 hn)

/-- Parts that are made of others again are stored. -/
theorem mem_values_of_parts {p : Conversion × Value} (hp : p ∈ h.parts conversion v)
    (hcomposite : p.2.isComposite = true) : p.2 ∈ h.values := by
  cases v with
  | list r =>
    obtain ⟨w, hw, rfl⟩ := List.mem_map.1 hp
    exact mem_values_of_items hw
  | dict r =>
    obtain ⟨e, he, rfl⟩ := List.mem_map.1 hp
    exact mem_values_of_table he
  | inst i =>
    obtain ⟨s, -, hs⟩ := List.mem_filterMap.1 hp
    cases s with
    | literal text => cases hs
    | field f =>
      obtain ⟨w, hw, rfl⟩ := Option.map_eq_some_iff.1 hs
      unfold Instance.placeholder? at hw
      split at hw
      · cases hw
        cases hcomposite
      · split at hw
        · cases hw
          cases hcomposite
        · exact mem_values_of_attribute? hw
  | _ => cases hp

-- ==================================================== the limit

/-- What needs one step more than `n + 1` has a part that needs exactly
`n + 1`. -/
theorem Ends.exists_part (hends : h.Ends (n + 2) conversion v)
    (hmore : ¬ h.Ends (n + 1) conversion v) :
    ∃ p ∈ h.parts conversion v, h.Ends (n + 1) p.1 p.2 ∧ ¬ h.Ends n p.1 p.2 := by
  cases hends with
  | single hplain => exact absurd (.single hplain) hmore
  | composite hparts =>
    by_contra hnone
    push Not at hnone
    exact hmore (.composite fun p hp => hnone p hp (hparts p hp))

/-- What needs `n + 1` steps has `n` different stored values below it, each
in one conversion. -/
theorem Ends.exists_nodup (hends : h.Ends (n + 1) conversion v) (hmore : ¬ h.Ends n conversion v) :
    ∃ ps : List (Conversion × Value), ps.length = n ∧ ps.Nodup
      ∧ ∀ p ∈ ps, p.2 ∈ h.values ∧ h.Ends n p.1 p.2 := by
  induction n generalizing conversion v with
  | zero => exact ⟨[], rfl, List.nodup_nil, fun p hp => by cases hp⟩
  | succ n ih =>
    obtain ⟨p, hp, hpart, hpmore⟩ := hends.exists_part hmore
    obtain ⟨ps, hlength, hnodup, hps⟩ := ih hpart hpmore
    have hcomposite : p.2.isComposite = true := by
      by_contra hplain
      exact hpmore (.single (Bool.eq_false_iff.2 hplain))
    refine ⟨p :: ps, congrArg (· + 1) hlength, List.nodup_cons.2 ⟨?_, hnodup⟩, ?_⟩
    · intro hmem
      exact hpmore (hps p hmem).2
    · refine List.forall_mem_cons.2 ⟨⟨mem_values_of_parts hp hcomposite, hpart⟩, fun q hq => ?_⟩
      exact ⟨(hps q hq).1, (hps q hq).2.mono (Nat.le_succ n)⟩

/-- A walk that ends, ends within the limit. -/
theorem Ends.walkLimit (hends : h.Ends n conversion v) : h.Ends h.walkLimit conversion v := by
  induction n with
  | zero => exact hends.mono (Nat.zero_le _)
  | succ n ih =>
    by_cases hless : h.Ends n conversion v
    · exact ih hless
    obtain ⟨ps, hlength, hnodup, hps⟩ := hends.exists_nodup hless
    have hsubset : ps ⊆ h.values.map (Conversion.str, ·) ++ h.values.map (Conversion.repr, ·) := by
      intro p hp
      obtain ⟨c, w⟩ := p
      have hw : w ∈ h.values := (hps _ hp).1
      cases c <;> simp [hw]
    have hcount := (List.subperm_of_subset hnodup hsubset).length_le
    refine hends.mono ?_
    rw [List.length_append, List.length_map, List.length_map] at hcount
    unfold Heap.walkLimit
    omega

/-- The text of a value is the one with any number of steps that
suffices. -/
theorem Ends.text_eq (hends : h.Ends n conversion v) :
    h.textWithin h.walkLimit conversion v = h.textWithin n conversion v := by
  have hlimit := hends.walkLimit.textWithin_eq (Nat.le_max_left h.walkLimit n)
  have hsteps := hends.textWithin_eq (Nat.le_max_right h.walkLimit n)
  exact hlimit.symm.trans hsteps

end Heap

end LiveDoc
