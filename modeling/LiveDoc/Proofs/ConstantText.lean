/-
What is listed is what is shown.

A listing writes the constants of a program, and a running module shows the
values that were made of them. The two texts come from two walks, one
through the constant and one through the heap, and they agree as long as no
dict of the constant repeats a name (`Constant.DistinctKeys`): a dict of
values keeps one entry for each name, a dict constant all that were written.

It is enough that the value stands for the constant in whatever heap it is
shown (`Heap.Denotes`). The walk through the value needs as many steps as
lists and dicts nest, and writes the text of the constant
(`Heap.shows_of_denotes`, by induction on the constant). Then all that is to
be found is which constant a value stands for: that of the item for an
attribute of a module, the last one of its name for a class attribute, and
for a field that falls back on its default that of the parameter
(`Class.exists_default`).
-/
import LiveDoc.Proofs.Freshness
import LiveDoc.Proofs.JsonForms
import LiveDoc.Proofs.RoundTrip
import LiveDoc.Proofs.SharedAttributes

namespace LiveDoc

open Traversal

-- ==================================================== constants

namespace Constant

mutual

/-- No dict of the constant, at any depth, repeats a name. -/
def DistinctKeys : Constant → Prop
  | .list items => DistinctKeysAll items
  | .dict entries => (Entries.keys entries).Nodup ∧ DistinctKeysEntries entries
  | _ => True

/-- So it is in a list of constants. -/
def DistinctKeysAll : List Constant → Prop
  | [] => True
  | c :: cs => DistinctKeys c ∧ DistinctKeysAll cs

/-- So it is under every name. -/
def DistinctKeysEntries : List (String × Constant) → Prop
  | [] => True
  | (_, c) :: es => DistinctKeys c ∧ DistinctKeysEntries es

end

mutual

/-- The constant of a document repeats no name where the document does
not. -/
theorem distinctKeys_ofJson : (j : Json) → j.DistinctKeys → (ofJson j).DistinctKeys
  | .null, _ => trivial
  | .bool _, _ => trivial
  | .number n, _ => by cases n <;> trivial
  | .str _, _ => trivial
  | .array items, hitems => distinctKeysAll_ofJsonAll items hitems
  | .object fields, hfields =>
    ⟨(Heap.keys_ofJsonFields fields).symm ▸ hfields.1,
      distinctKeysEntries_ofJsonFields fields hfields.2⟩

theorem distinctKeysAll_ofJsonAll : (js : List Json) → Json.DistinctKeysAll js →
    DistinctKeysAll (ofJsonAll js)
  | [], _ => trivial
  | j :: js, hjs => ⟨distinctKeys_ofJson j hjs.1, distinctKeysAll_ofJsonAll js hjs.2⟩

theorem distinctKeysEntries_ofJsonFields : (fs : Entries Json) → Json.DistinctKeysFields fs →
    DistinctKeysEntries (ofJsonFields fs)
  | [], _ => trivial
  | (_, j) :: fs, hfs => ⟨distinctKeys_ofJson j hfs.1, distinctKeysEntries_ofJsonFields fs hfs.2⟩

end

end Constant

-- ==================================================== the walk through a value

namespace Heap

variable {h : Heap} {n : Nat} {v : Value} {c : Constant}

/-- Showing the value exactly ends within a number of steps, and shows the
constant. -/
structure Shows (h : Heap) (n : Nat) (v : Value) (c : Constant) : Prop where
  ends : h.Ends n .repr v
  text : h.textWithin n .repr v = c.text

theorem Shows.reprText_eq (hv : h.Shows n v c) : v.reprText h = c.text :=
  hv.ends.text_eq.trans hv.text

/-- A list shows a list when its items show the items. -/
theorem Shows.list {r : Ref} {cs : List Constant}
    (hitems : List.Forall₂ (h.Shows n) (h.items r) cs) : h.Shows (n + 1) (.list r) (.list cs) where
  ends := by
    refine .composite fun p hp => ?_
    obtain ⟨v, hv, rfl⟩ := List.mem_map.1 hp
    obtain ⟨c, -, hshows⟩ := exists_mem_of_forall₂ hitems hv
    exact hshows.ends
  text := by
    have htexts : cs.map Constant.text = (h.items r).map (h.textWithin n .repr) :=
      map_eq_of_forall₂ (hitems.imp fun _ _ hshows => hshows.text.symm)
    rw [textWithin, Constant.text_list, htexts]

/-- A dict shows a dict when its entries have the names of the entries, in
order, and show what is under them. -/
theorem Shows.dict {r : Ref} {es : Entries Constant}
    (hentries : List.Forall₂ (fun e f => e.1 = f.1 ∧ h.Shows n e.2 f.2) (h.table r).entries es) :
    h.Shows (n + 1) (.dict r) (.dict es) where
  ends := by
    refine .composite fun p hp => ?_
    obtain ⟨e, he, rfl⟩ := List.mem_map.1 hp
    obtain ⟨f, -, -, hshows⟩ := exists_mem_of_forall₂ hentries he
    exact hshows.ends
  text := by
    have htexts : es.map Constant.entryText = (h.table r).entries.map fun e =>
        Quoted.quote e.1 ++ ": " ++ h.textWithin n .repr e.2 := by
      refine map_eq_of_forall₂ (hentries.imp fun e f hef => ?_)
      rw [Constant.entryText, hef.1, hef.2.text]
    rw [textWithin, Constant.text_dict, htexts]

mutual

/-- The value of a constant shows it, in as many steps as lists and dicts
nest. -/
theorem shows_of_denotes : (c : Constant) → c.DistinctKeys → (v : Value) → h.Denotes v c →
    (n : Nat) → h.Nests n v → h.Shows n v c
  | .null, _, _, .null, n, _ => ⟨.single rfl, by rw [textWithin, Constant.text]⟩
  | .bool _, _, _, .bool _, n, _ => ⟨.single rfl, by rw [textWithin, Constant.text]⟩
  | .int _, _, _, .int _, n, _ => ⟨.single rfl, by rw [textWithin, Constant.text]⟩
  | .float _, _, _, .float _, n, _ => ⟨.single rfl, by rw [textWithin, Constant.text]⟩
  | .str _, _, _, .str _, n, _ => ⟨.single rfl, by rw [textWithin, Constant.text]⟩
  | .list cs, hdistinct, .list _, hv, n + 1, hnests =>
    .list (showsItems_of_denotes cs hdistinct _ hv.items n hnests)
  | .dict es, hdistinct, .dict r, hv, n + 1, hnests => by
    have hvalues : ∀ e ∈ (h.table r).entries, h.Nests n e.2 :=
      fun e he => hnests e.2 (List.mem_map_of_mem he)
    exact .dict (showsEntries_of_denotes es hdistinct.2 _ (hv.entries hdistinct.1) n hvalues)

theorem showsItems_of_denotes : (cs : List Constant) → Constant.DistinctKeysAll cs →
    (vs : List Value) → h.DenotesAll vs cs → (n : Nat) → (∀ w ∈ vs, h.Nests n w) →
    List.Forall₂ (h.Shows n) vs cs
  | [], _, _, .nil, _, _ => .nil
  | c :: cs, hdistinct, _, .cons hfirst hrest, n, hnests => by
    obtain ⟨hv, hvs⟩ := List.forall_mem_cons.1 hnests
    exact .cons (shows_of_denotes c hdistinct.1 _ hfirst n hv)
      (showsItems_of_denotes cs hdistinct.2 _ hrest n hvs)

theorem showsEntries_of_denotes : (es : Entries Constant) → Constant.DistinctKeysEntries es →
    (vs : Entries Value) → h.DenotesEntries vs es → (n : Nat) → (∀ e ∈ vs, h.Nests n e.2) →
    List.Forall₂ (fun e f => e.1 = f.1 ∧ h.Shows n e.2 f.2) vs es
  | [], _, _, .nil, _, _ => .nil
  | (_, c) :: es, hdistinct, _, .cons hfirst hrest, n, hnests => by
    obtain ⟨hv, hvs⟩ := List.forall_mem_cons.1 hnests
    exact .cons ⟨rfl, shows_of_denotes c hdistinct.1 _ hfirst n hv⟩
      (showsEntries_of_denotes es hdistinct.2 _ hrest n hvs)

end

/-- The exact text of the value of a constant is the constant's. -/
theorem Denotes.reprText_eq (hv : h.Denotes v c) (hc : c.DistinctKeys) :
    v.reprText h = c.text := by
  obtain ⟨n, hn⟩ := hv.exists_nests
  exact (shows_of_denotes c hc v hv n hn).reprText_eq

end Heap

-- ==================================================== class attributes

/-- The last under a name is one. -/
theorem Entries.Last.unique {α : Type} {es : Entries α} {key : String} {v w : α}
    (hv : es.Last key v) (hw : es.Last key w) : v = w := by
  have hfound := Table.find?_insertAll_of_last ∅ hv
  rw [Table.find?_insertAll_of_last ∅ hw] at hfound
  exact (Option.some.inj hfound).symm

/-- A class that is as declared has the value of the last constant under a
name. -/
theorem ClassNode.AsDeclared.exists_denotes {n : ClassNode} {h : Heap} (hn : n.AsDeclared h)
    {name : String} {k : Constant} (hk : Entries.Last n.definition.classAttributes name k) :
    ∃ v, (h.table n.table).find? name = some v ∧ h.Denotes v k := by
  obtain ⟨t, hplace, hnames, hvalues⟩ := hn
  have hname : name ∈ t.keys := by
    obtain ⟨earlier, later, heq, -⟩ := hk
    rw [hnames, heq]
    simp [Entries.keys]
  obtain ⟨v, hv⟩ := Table.exists_find?_iff.2 hname
  obtain ⟨k', hk', hdenotes⟩ := hvalues name v hv
  refine ⟨v, ?_, hk.unique hk' ▸ hdenotes⟩
  unfold Heap.table
  rw [hplace]
  exact hv

-- ==================================================== defaults

/-- A default that is assigned is that of the parameter. -/
theorem Slot.constant_of_default? {s : Slot} {k : Constant} (hk : s.default? = some k) :
    s.param.default.constant = k := by
  unfold default? at hk
  split at hk
  case h_1 c hdefault _ =>
    cases hk
    rw [hdefault]
    rfl
  case h_2 c hdefault _ =>
    cases hk
    rw [hdefault]
    rfl
  case h_3 c hdefault _ =>
    cases hk
    rw [hdefault]
    rfl
  case h_4 => cases hk

/-- The slots of a lineage are for its parameters. -/
theorem Class.slots_params {leaf : Class} {l : Lineage} {positional : List Value}
    {keyword : Entries Value} {ss : List LineageSlot}
    (hss : leaf.slots l positional keyword = .ok ss) :
    ∀ s ∈ ss, ∃ n ∈ l, s.slot.param ∈ n.params := by
  induction l generalizing positional keyword ss with
  | nil =>
    obtain ⟨⟨⟩, -, hss⟩ := bind_eq_ok.1 hss
    cases hss
    intro s hs
    cases hs
  | cons n l ih =>
    rw [slots] at hss
    split at hss
    case h_1 =>
      intro s hs
      obtain ⟨m, hm, hparam⟩ := ih hss s hs
      exact ⟨m, List.mem_cons_of_mem n hm, hparam⟩
    case h_2 params hparams =>
      obtain ⟨⟨own, unbound⟩, hbind, hss⟩ := bind_eq_ok.1 hss
      obtain ⟨inherited, hinherited, hss⟩ := bind_eq_ok.1 hss
      cases hss
      intro s hs
      rcases List.mem_append.1 hs with hs | hs
      · obtain ⟨m, hm, hparam⟩ := ih hinherited s hs
        exact ⟨m, List.mem_cons_of_mem n hm, hparam⟩
      · obtain ⟨s', hs', rfl⟩ := List.mem_map.1 hs
        refine ⟨n, List.mem_cons_self, ?_⟩
        have hown := Slot.map_param_bindKeywords hbind
        rw [Slot.map_param_ofPositional] at hown
        rw [ClassNode.params, hparams, Option.getD_some, ← hown]
        exact List.mem_map_of_mem hs'

/-- A field that falls back on a default has the value of the constant that
a parameter of the lineage gives. -/
theorem Class.exists_default {c : Class} {args : Arguments} {h made : Heap} {i : Instance}
    (hi : c.instantiate args h = .ok (i, made)) {name : String} {k : Constant}
    (hk : c.default? args name = some k) :
    (∃ n ∈ c.lineage, ∃ p ∈ n.params, p.name = name ∧ p.default.constant = k)
      ∧ ∃ v, (made.table i.fields).find? name = some v ∧ made.Denotes v k := by
  obtain ⟨ss, fields, done, hss, hassign, rfl, rfl⟩ := Class.instantiate_phases hi
  obtain ⟨before, s, after, rfl, rfl, hdefault, hafter⟩ := Class.exists_split hk hss
  obtain ⟨n, hn, hparam⟩ := slots_params hss s (by simp)
  obtain ⟨h₁, -, hmade, hfield, -⟩ := Slot.assignEach_default hdefault hafter hassign
  obtain ⟨-, -, hdenotes⟩ := k.materialize_made h₁
  have hplaced := Heap.Extends.alloc done (.fields fields)
  refine ⟨⟨n, hn, _, hparam, rfl, Slot.constant_of_default? hdefault⟩, _, ?_,
    hdenotes.mono (hmade.grown.trans hplaced)⟩
  rw [Heap.table_of_fields (Heap.getElem?_alloc_self done (.fields fields))]
  exact hfield

-- ==================================================== listings and live modules

/-- The text of a constant that repeats no name in a dict, as it is listed,
is the exact text of its value, wherever it is made. So it is that of the
attributes of a linked module, of the class attributes of its classes and of
the fields of instances that fall back on a default, as long as lists and
dicts stay as they are; and a document reads in a listing as its value does. -/
theorem Constant.listed_as_shown :
    (∀ (k : Constant) (h : Heap), k.DistinctKeys →
        (k.materialize h).1.reprText (k.materialize h).2 = k.text)
      ∧ (∀ (p : Program) document before s after, p.link document before = .ok (s, after) →
        ∀ later, after.KeepsContainers later →
          List.Forall₂ (fun e a => e.1 = a.1 ∧ (a.2.DistinctKeys → e.2.reprText later = a.2.text))
              s.attributes.entries p.attributes
            ∧ List.Forall₂ (fun e d => e.1 = d.name ∧ e.2.node.definition = d
                ∧ ∀ name k, Entries.Last d.classAttributes name k →
                  ∃ v, e.2.attribute? after name = some v
                    ∧ (k.DistinctKeys → v.reprText later = k.text))
              s.classes.entries p.classes)
      ∧ (∀ (c : Class) args h i made, c.instantiate args h = .ok (i, made) →
        ∀ later, made.KeepsContainers later → ∀ name k, c.default? args name = some k →
          (∃ n ∈ c.lineage, ∃ p ∈ n.params, p.name = name ∧ p.default.constant = k)
            ∧ ∃ v, i.attribute? made name = some v
              ∧ (k.DistinctKeys → v.reprText later = k.text))
      ∧ ∀ (j : Json) (h : Heap), j.DistinctKeys →
        (Value.ofJson j h).1.reprText (Value.ofJson j h).2 = (Constant.ofJson j).text := by
  have hmade : ∀ (k : Constant) (h : Heap), k.DistinctKeys →
      (k.materialize h).1.reprText (k.materialize h).2 = k.text := by
    intro k h hk
    obtain ⟨-, -, hdenotes⟩ := k.materialize_made h
    exact hdenotes.reprText_eq hk
  refine ⟨hmade, ?_, ?_, fun j h hj => hmade _ h (distinctKeys_ofJson j hj)⟩
  · intro p document before s after hs later hkeep
    have hbecomes := Program.becomes_of_link hs
    have hdeclared : ∀ e ∈ s.classes.entries, e.2.node.AsDeclared after := fun e he =>
      (Program.link_apart hs).declared e.1 e.2 (Table.find?_eq_some_iff.2 he)
    have hclasses := (List.forall₂_and_left _ _).2 ⟨hdeclared, hbecomes.classes⟩
    refine ⟨hbecomes.attributes.imp fun e a hea => ?_, hclasses.imp fun e d hed => ?_⟩
    · exact ⟨hea.1, fun hk => (hea.2.keep hkeep).reprText_eq hk⟩
    · obtain ⟨he, hname, hbound⟩ := hed
      refine ⟨hname, hbound.definition, fun name k hk => ?_⟩
      -- the class itself has the attribute, so the lookup goes no further
      obtain ⟨v, hv, hdenotes⟩ := he.exists_denotes (hbound.definition.symm ▸ hk)
      refine ⟨v, ?_, fun hdistinct => (hdenotes.keep hkeep).reprText_eq hdistinct⟩
      rw [Class.attribute?, Class.lineage, Lineage.attribute?, List.findSome?_cons, hv]
  · intro c args h i made hi later hkeep name k hk
    obtain ⟨hparam, v, hv, hdenotes⟩ := Class.exists_default hi hk
    refine ⟨hparam, v, ?_, fun hdistinct => (hdenotes.keep hkeep).reprText_eq hdistinct⟩
    rw [Instance.attribute?, hv]

namespace Sample

/-- An attribute, a class attribute and a default, each of more than one
part. -/
def gauges : Program where
  name := "m"
  file := "m.json"
  doc := ""
  items := [
    .moduleAttribute "origin"
      (.dict [("x", .float (.ofInt 2)), ("tags", .list []), ("more", .dict [])]),
    .classDef { bareClass "Gauge" none with
      classAttributes := [("limits", .list [.int 0, .null])]
      params := some [⟨"marks", .fresh (.list [.str "a\"", .bool true])⟩] }]

end Sample

/-- The three are shown as they are listed. -/
theorem Constant.gauges_listed_as_shown :
    ∃ s after c i made, Sample.gauges.link .null .empty = .ok (s, after)
      ∧ s.classes.find? "Gauge" = some c ∧ c.instantiate {} after = .ok (i, made)
      ∧ (∃ e ∈ s.attributes.entries, e.1 = "origin"
        ∧ e.2.reprText after = "\x7b\"x\": 2.0, \"tags\": [], \"more\": \x7b\x7d\x7d")
      ∧ (∃ v, c.attribute? after "limits" = some v ∧ v.reprText after = "[0, null]")
      ∧ ∃ v, i.attribute? made "marks" = some v ∧ v.reprText made = "[\"a\\\"\", true]" := by
  obtain ⟨-, hlinked, hmade, -⟩ := listed_as_shown
  obtain ⟨s, after, c, i, made, hs, hc, hi, hdefault, hdefinition⟩ :
      ∃ s after c i made, Sample.gauges.link .null .empty = .ok (s, after)
        ∧ s.classes.find? "Gauge" = some c ∧ c.instantiate {} after = .ok (i, made)
        ∧ c.default? {} "marks" = some (.list [.str "a\"", .bool true])
        ∧ c.node.definition.classAttributes = [("limits", .list [.int 0, .null])] :=
    ⟨_, _, _, _, _, rfl, rfl, rfl, rfl, rfl⟩
  obtain ⟨hattributes, hclasses⟩ :=
    hlinked _ _ _ s after hs after (Heap.Extends.refl after).keepsContainers
  refine ⟨s, after, c, i, made, hs, hc, hi, ?_, ?_, ?_⟩
  · obtain ⟨e, he, hname, htext⟩ := exists_of_mem_forall₂ hattributes
      (y := ("origin", .dict [("x", .float (.ofInt 2)), ("tags", .list []), ("more", .dict [])]))
      List.mem_cons_self
    refine ⟨e, he, hname, (htext ?_).trans (by decide +kernel)⟩
    simp [DistinctKeys, DistinctKeysEntries, DistinctKeysAll, Entries.keys]
  · obtain ⟨_, -, -, rfl, hvalues⟩ :=
      exists_mem_of_forall₂ hclasses (Table.find?_eq_some_iff.1 hc)
    obtain ⟨v, hv, htext⟩ := hvalues "limits" (.list [.int 0, .null])
      ⟨[], [], hdefinition, by simp [Entries.keys]⟩
    refine ⟨v, hv, (htext ?_).trans (by decide +kernel)⟩
    simp [DistinctKeys, DistinctKeysAll]
  · obtain ⟨-, v, hv, htext⟩ :=
      hmade c _ _ i made hi made (Heap.Extends.refl made).keepsContainers "marks" _ hdefault
    refine ⟨v, hv, (htext ?_).trans (by decide +kernel)⟩
    simp [DistinctKeys, DistinctKeysAll]

end LiveDoc
