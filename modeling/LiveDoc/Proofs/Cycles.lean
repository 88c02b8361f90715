/-
The class at which a cycle is reported.

A run that puts parents first gets stuck at the classes whose line of parents
never ends: those on a cycle, and all that descend from them
(`leadsToCycle_of_stuck`). A class that was placed has a line that ends, for
its parents stand before it (`not_leadsToCycle_of_placed`). The waiting list
keeps the order of declaration, and its first class is named. So what is named
is the first class declared among those that lead to a cycle; it need not be
on one (`ModuleDecl.class_below_cycle`).

Only the order of parents reports cycles. No other part of reading a document
does, whatever is wrong with it (`ofBody_ne_cycle`), so all this holds of the
documents themselves.
-/
import LiveDoc.Proofs.DeclarationOrder
import LiveDoc.Proofs.Dialects

namespace LiveDoc

open Relation (TransGen ReflTransGen)
open Traversal

-- ==================================================== lines without an end

/-- The line of parents of a name comes to a name that is its own ancestor. -/
def LeadsToCycle (parent : String → String → Prop) (name : String) : Prop :=
  ∃ looped, ReflTransGen parent name looped ∧ TransGen parent looped looped

namespace LeadsToCycle

variable {parent : String → String → Prop} {a b : String}

/-- A name that leads to a cycle has a parent that does. -/
theorem exists_parent (h : LeadsToCycle parent a) :
    ∃ b, parent a b ∧ LeadsToCycle parent b := by
  obtain ⟨looped, hreach, hloop⟩ := h
  rcases hreach.cases_head with rfl | ⟨b, hb, hreach⟩
  · obtain ⟨b, hb, hback⟩ := TransGen.head'_iff.1 hloop
    exact ⟨b, hb, a, hback, hloop⟩
  · exact ⟨b, hb, looped, hreach, hloop⟩

theorem of_cycle (h : TransGen parent a a) : LeadsToCycle parent a := ⟨a, .refl, h⟩

end LeadsToCycle

namespace ClassDecl

variable {cs placed stuck : List ClassDecl} {c : ClassDecl}

/-- Only a class can have a parent, so what leads to a cycle is a class. -/
theorem LeadsToCycle.mem_names {className : String}
    (h : LeadsToCycle (ParentIn cs) className) : className ∈ cs.map name := by
  obtain ⟨_, ⟨c, hc, rfl, -⟩, -⟩ := h.exists_parent
  exact List.mem_map_of_mem hc

/-- Where parents come first, every line ends. -/
theorem not_leadsToCycle_of_placed (hcs : (cs.map name).Nodup) (hsub : placed ⊆ cs)
    (hplaced : (placed.map name).Nodup) (horder : ParentsPrecede placed) :
    ∀ p ∈ placed, ¬ LeadsToCycle (ParentIn cs) p.name := by
  -- the only parent of a name is the one that its class declares
  have hbase : ∀ {p : ClassDecl} {b : String}, p ∈ placed → ParentIn cs p.name b →
      p.base = some b := by
    rintro p b hp ⟨d, hd, hname, hbase⟩
    cases List.inj_on_of_nodup_map hcs hd (hsub hp) hname
    exact hbase
  refine horder.induction hplaced (fun c hc hroot hleads => ?_) fun c hc p _ hchild ih hleads => ?_
  · obtain ⟨b, hb, -⟩ := hleads.exists_parent
    cases hroot.symm.trans (hbase hc hb)
  · obtain ⟨b, hb, hleads⟩ := hleads.exists_parent
    cases hchild.symm.trans (hbase hc hb)
    exact ih hleads

/-- Classes whose parents are all among them lead to cycles. -/
theorem leadsToCycle_of_stuck (hsub : stuck ⊆ cs)
    (hclosed : ∀ d ∈ stuck, ∃ parent, d.base = some parent ∧ parent ∈ stuck.map name) :
    ∀ d ∈ stuck, LeadsToCycle (ParentIn cs) d.name := by
  classical
  intro d hd
  -- the classes on the line of this one are closed as well, so it comes to their cycle
  let line := stuck.filter fun x => ReflTransGen (ParentIn cs) d.name x.name
  have hline : ∀ {x}, x ∈ line ↔ x ∈ stuck ∧ ReflTransGen (ParentIn cs) d.name x.name := by
    intro x
    rw [List.mem_filter, decide_eq_true_eq]
  have hlinesub : line ⊆ cs := fun x hx => hsub (hline.1 hx).1
  have hcycle : ¬ Acyclic line := by
    refine exists_transGen_of_closed (List.Subset.refl _)
      (List.ne_nil_of_mem (hline.2 ⟨hd, .refl⟩)) fun x hx => ?_
    obtain ⟨hstuck, hreach⟩ := hline.1 hx
    obtain ⟨parent, hbase, hparent⟩ := hclosed x hstuck
    obtain ⟨y, hy, rfl⟩ := List.mem_map.1 hparent
    have hstep : ParentIn cs x.name y.name := ⟨x, hsub hstuck, rfl, hbase⟩
    exact ⟨y.name, hbase, List.mem_map_of_mem (hline.2 ⟨hy, hreach.tail hstep⟩)⟩
  obtain ⟨looped, hloop⟩ := not_forall_not.1 hcycle
  obtain ⟨_, ⟨x, hx, rfl, -⟩, -⟩ := TransGen.head'_iff.1 hloop
  exact ⟨x.name, (hline.1 hx).2, TransGen.mono (fun _ _ h => h.mono hlinesub) _ _ hloop⟩

-- ==================================================== the class that is named

/-- A run that gets stuck names the first class that leads to a cycle. -/
theorem Stuck.first (hcs : (cs.map name).Nodup) (hknown : ParentsKnown cs)
    (h : Stuck [] cs placed (c :: stuck)) :
    LeadsToCycle (ParentIn cs) c.name
      ∧ ∀ b, LeadsToCycle (ParentIn cs) b → place cs c.name ≤ place cs b := by
  have hperm : (placed ++ c :: stuck).Perm cs := h.perm
  have hnames := (hperm.map name).nodup_iff.2 hcs
  rw [List.map_append] at hnames
  refine ⟨leadsToCycle_of_stuck h.sublist.subset (h.closed hknown) c List.mem_cons_self,
    fun b hb => ?_⟩
  obtain ⟨d, hd, rfl⟩ := List.mem_map.1 (LeadsToCycle.mem_names hb)
  rcases List.mem_append.1 (hperm.symm.subset hd) with hplaced | hstuck
  · have hsub : placed ⊆ cs := fun p hp => hperm.subset (List.mem_append_left _ hp)
    exact absurd hb (not_leadsToCycle_of_placed hcs hsub hnames.of_append_left
      (h.ordered parentsPrecede_nil) d hplaced)
  · have hpairs := (pairwise_place hcs).sublist h.sublist
    rcases List.mem_cons.1 hstuck with rfl | hstuck
    · exact Nat.le_refl _
    · exact Nat.le_of_lt ((List.pairwise_cons.1 hpairs).1 d hstuck)

/-- A class that is reported for a cycle leads to one, and unless it is its own
parent, it is the first class that does. -/
theorem parentsFirst_cycle (hcs : (cs.map name).Nodup) {className : String}
    (h : parentsFirst cs = .error (.inheritanceCycle className)) :
    LeadsToCycle (ParentIn cs) className
      ∧ (ParentIn cs className className
        ∨ ∀ b, LeadsToCycle (ParentIn cs) b → place cs className ≤ place cs b) := by
  unfold parentsFirst at h
  cases hcheck : cs.forM (checkParent (cs.map name)) with
  | error e =>
    rw [hcheck, error_bind] at h
    cases h
    obtain ⟨before, c, after, rfl, -, hc⟩ := forM_eq_error.1 hcheck
    cases checkParent_eq_error.1 hc with
    | itself hbase =>
      have hself : ParentIn (before ++ c :: after) c.name c.name :=
        ⟨c, List.mem_append_right _ List.mem_cons_self, rfl, hbase⟩
      exact ⟨.of_cycle (.single hself), .inl hself⟩
  | ok u =>
    rw [hcheck, ok_bind] at h
    obtain ⟨placed, c, stuck, hstuck, he⟩ := placeAll_stuck h
    cases he
    have hknown : ParentsKnown cs := fun c hc parent hparent =>
      (checkParent_eq_ok.1 (forM_eq_ok.1 hcheck c hc) parent hparent).2
    obtain ⟨hleads, hfirst⟩ := hstuck.first hcs hknown
    exact ⟨hleads, .inr hfirst⟩

-- ==================================================== other faults

variable {className : String} {classNames shared : List String} {entries body : Entries Json}

-- Every piece that is read has errors of its own; reading one after the other
-- adds none (`bind_ne_error`, `mapM_ne_error`).

theorem text?_ne_cycle (key owner : String) :
    text? body key owner ≠ .error (.inheritanceCycle className) := by
  unfold text?
  split <;> exact fun h => (by cases h)

theorem checkAttributeName_ne_cycle (owner key : String) :
    checkAttributeName owner key ≠ .error (.inheritanceCycle className) := by
  unfold checkAttributeName
  split
  · exact fun h => (by cases h)
  · split <;> exact fun h => (by cases h)

theorem readClassAttribute_ne_cycle (owner : String) (field : String × Json) :
    readClassAttribute owner field ≠ .error (.inheritanceCycle className) :=
  bind_ne_error (checkAttributeName_ne_cycle owner field.1) fun _ h => (by cases h)

/-- The errors of class attributes are of their own kinds, -/
theorem readClassAttributes_ne_cycle (owner : String) :
    readClassAttributes owner body ≠ .error (.inheritanceCycle className) := by
  unfold readClassAttributes
  split
  case h_1 => exact fun h => (by cases h)
  case h_2 fields _ => exact mapM_ne_error (readClassAttribute_ne_cycle owner) fields
  case h_3 => exact fun h => (by cases h)

/-- those of instance attributes and their constraints as well, -/
theorem readInstanceAttribute_ne_cycle (owner : String) (field : String × Json) :
    readInstanceAttribute owner classNames shared entries field
      ≠ .error (.inheritanceCycle className) := by
  refine bind_ne_error (checkAttributeName_ne_cycle owner field.1) fun _ => ?_
  split
  · exact fun h => (by cases h)
  · refine bind_ne_error ?_ fun _ h => (by cases h)
    unfold readConstraints
    split
    · exact fun h => (by cases h)
    · exact mapError_ne_error fun _ h => (by cases h)

/-- and so are those of templates. -/
theorem readTemplate_ne_cycle (owner key : String) :
    readTemplate owner key body ≠ .error (.inheritanceCycle className) := by
  refine bind_ne_error (text?_ne_cycle key owner) fun source => ?_
  cases source with
  | none => exact fun h => (by cases h)
  | some source =>
    exact bind_ne_error (mapError_ne_error fun _ h => (by cases h)) fun _ h => (by cases h)

/-- Nothing that is wrong with one class is reported as a cycle. -/
theorem ofBody_ne_cycle (owner : String) (document : Json) :
    ofBody owner document classNames ≠ .error (.inheritanceCycle className) := by
  unfold ofBody
  split
  · split
    · exact fun h => (by cases h)
    · exact bind_ne_error (bind_ne_error (text?_ne_cycle _ owner) fun _ h => (by cases h)) fun _ =>
        bind_ne_error (text?_ne_cycle _ owner) fun _ =>
        bind_ne_error (readClassAttributes_ne_cycle owner) fun _ =>
        bind_ne_error (mapM_ne_error (readInstanceAttribute_ne_cycle owner) _) fun _ =>
        bind_ne_error (readTemplate_ne_cycle owner _) fun _ =>
        bind_ne_error (readTemplate_ne_cycle owner _) fun _ h => (by cases h)
  · exact fun h => (by cases h)

end ClassDecl

-- ==================================================== documents

namespace ModuleDecl

open ClassDecl (ParentIn)

variable {name file time className : String} {root : Entries Json}

theorem readDoc_ne_cycle : readDoc name file time root ≠ .error (.inheritanceCycle className) := by
  unfold readDoc
  split <;> exact fun h => (by cases h)

/-- A top-level entry is refused for what it is, not for what it refers to. -/
theorem readEntry_ne_cycle (dialect : Dialect) (field : String × Json) :
    readEntry dialect field ≠ .error (.inheritanceCycle className) := by
  have hattribute : readAttribute field ≠ .error (.inheritanceCycle className) := by
    unfold readAttribute
    split <;> exact fun h => (by cases h)
  have hbody : ∀ f, checkClassEntry f ≠ .error (.inheritanceCycle className) := by
    intro f
    unfold checkClassEntry
    split <;> exact fun h => (by cases h)
  unfold readEntry
  split
  case h_1 =>
    split
    case isTrue =>
      split
      case h_1 => exact fun h => (by cases h)
      case h_2 bodies _ =>
        rw [map_eq_pure_bind]
        exact bind_ne_error (mapM_ne_error hbody bodies) fun _ h => (by cases h)
    case isFalse => exact hattribute
  case h_2 =>
    split
    case isTrue => exact fun h => (by cases h)
    case isFalse => exact hattribute

/-- When templates are checked the order of parents is settled. -/
theorem checkTemplates_ne_cycle (m : ModuleDecl) (c : ClassDecl) :
    m.checkTemplates c ≠ .error (.inheritanceCycle className) := by
  have hcheck : ∀ visible owner method t,
      checkTemplate visible owner method t ≠ .error (.inheritanceCycle className) := by
    intro visible owner method t
    unfold checkTemplate
    split <;> exact fun h => (by cases h)
  refine bind_ne_error (hcheck _ _ _ _) fun _ => ?_
  cases c.str with
  | none => exact fun h => (by cases h)
  | some t => exact hcheck _ _ _ t

/-- A cycle is reported of the classes that were read. -/
theorem exists_declared_of_cycle (hroot : (Entries.keys root).Nodup)
    (h : ofDocument name file time (.object root) = .error (.inheritanceCycle className)) :
    ∃ declared, (classEntries root).mapM
        (fun b => ClassDecl.ofBody b.1 b.2 (classEntries root).keys) = .ok declared
      ∧ ClassDecl.parentsFirst declared = .error (.inheritanceCycle className) := by
  unfold ofDocument at h
  dsimp only [Json.fields?] at h
  obtain ⟨doc, -, h⟩ := exists_of_bind_eq_error h readDoc_ne_cycle
  obtain ⟨entries, hentries, h⟩ :=
    exists_of_bind_eq_error h (mapM_ne_error (readEntry_ne_cycle _) _)
  obtain ⟨hbodies, -⟩ := readEntries_ok hroot hentries
  rw [hbodies] at h
  obtain ⟨declared, hdeclared, h⟩ :=
    exists_of_bind_eq_error h (mapM_ne_error (fun _ => ClassDecl.ofBody_ne_cycle _ _) _)
  refine ⟨declared, hdeclared, ?_⟩
  cases hordered : ClassDecl.parentsFirst declared with
  | error e =>
    rw [hordered, error_bind] at h
    exact congrArg Except.error (Except.error.inj h)
  | ok classes =>
    rw [hordered, ok_bind] at h
    refine absurd h (bind_ne_error (fun hchecks => ?_) fun _ h => (by cases h))
    obtain ⟨_, c, _, -, -, hc⟩ := forM_eq_error.1 hchecks
    exact checkTemplates_ne_cycle _ c hc

/-- Only objects have cycles. -/
theorem exists_root_of_cycle {document : Json}
    (h : ofDocument name file time document = .error (.inheritanceCycle className)) :
    ∃ root, document = .object root := by
  cases hroot : document.fields? with
  | none =>
    unfold ofDocument at h
    rw [hroot] at h
    cases h
  | some root => exact ⟨root, Json.fields?_eq_some_iff.1 hroot⟩

/-- A class at which a cycle is reported leads to one: its line of parents
never ends. Unless it is its own parent, it is the first class of the document
of which that is so. It is on a cycle itself exactly if it is its own parent,
or every class that only leads to a cycle is declared behind one that is on
a cycle. -/
theorem cycle_reported_at {document : Json} (hdistinct : document.DistinctKeys)
    (h : ofDocument name file time document = .error (.inheritanceCycle className)) :
    ∃ root, document = .object root ∧ LeadsToCycle (Extends root) className
      ∧ (Extends root className className ∨ ∀ other, LeadsToCycle (Extends root) other →
          (classEntries root).keys.idxOf className ≤ (classEntries root).keys.idxOf other)
      ∧ (TransGen (Extends root) className className
        ↔ Extends root className className ∨ ∀ other, LeadsToCycle (Extends root) other →
          ¬ TransGen (Extends root) other other → ∃ looped, TransGen (Extends root) looped looped
            ∧ (classEntries root).keys.idxOf looped < (classEntries root).keys.idxOf other) := by
  obtain ⟨root, rfl⟩ := exists_root_of_cycle h
  obtain ⟨declared, hdeclared, hordered⟩ := exists_declared_of_cycle hdistinct.1 h
  have hkeys := map_name_declared hdeclared
  have hnames : (declared.map ClassDecl.name).Nodup :=
    hkeys ▸ (classEntries_distinct hdistinct).1
  have hrelation : ParentIn declared = Extends root := by
    funext child parent
    exact propext (parentIn_iff_extends hdeclared)
  obtain ⟨hleads, hfirst⟩ := ClassDecl.parentsFirst_cycle hnames hordered
  unfold ClassDecl.place at hfirst
  rw [hrelation, hkeys] at hfirst
  rw [hrelation] at hleads
  have hmem : ∀ {other}, LeadsToCycle (Extends root) other → other ∈ (classEntries root).keys := by
    intro other hother
    rw [← hrelation] at hother
    rw [← hkeys]
    exact ClassDecl.LeadsToCycle.mem_names hother
  refine ⟨root, rfl, hleads, hfirst, fun hloop => ?_, fun hdeclaredBehind => ?_⟩
  · refine hfirst.imp_right fun hfirst other hother hnot => ⟨className, hloop, ?_⟩
    -- two classes do not stand at one place
    refine lt_of_le_of_ne (hfirst other hother) fun hplace => hnot ?_
    rwa [← (List.idxOf_inj (hmem hleads)).1 hplace]
  · rcases hdeclaredBehind with hself | hbehind
    · exact .single hself
    · by_contra hnot
      obtain ⟨looped, hloop, hlt⟩ := hbehind className hleads hnot
      rcases hfirst with hself | hfirst
      · exact hnot (.single hself)
      · exact absurd (hfirst looped (.of_cycle hloop)) (Nat.not_le.2 hlt)

end ModuleDecl

namespace Sample

/-- Two classes that are each other's parent, and a child of one, declared
first. -/
def belowCycle : Entries Json :=
  [("Leaf", .object [("__parent__", .str "Left")]),
    ("Left", .object [("__parent__", .str "Right")]),
    ("Right", .object [("__parent__", .str "Left")])]

/-- The same, with the child declared last. -/
def behindCycle : Entries Json :=
  [("Left", .object [("__parent__", .str "Right")]),
    ("Right", .object [("__parent__", .str "Left")]),
    ("Leaf", .object [("__parent__", .str "Left")])]

/-- No name is given twice in the example. -/
theorem distinctKeys_behindCycle : (Json.object behindCycle).DistinctKeys := by
  simp [behindCycle, Json.DistinctKeys, Json.DistinctKeysFields, Entries.keys]

theorem ofDocument_of_refusal? {document : Json} {e : DocumentError}
    (h : refusal? document = some e) :
    ModuleDecl.ofDocument "meters" "meters.json" "now" document = .error e := by
  unfold refusal? at h
  split at h
  case h_1 e' he =>
    cases h
    exact he
  case h_2 => cases h

end Sample

/-- Behind the cycle the child is not reported. -/
theorem ModuleDecl.cycle_reported_at_left :
    ofDocument "meters" "meters.json" "now" (.object Sample.behindCycle)
        = .error (.inheritanceCycle "Left")
      ∧ LeadsToCycle (Extends Sample.behindCycle) "Left"
      ∧ ∀ other, LeadsToCycle (Extends Sample.behindCycle) other →
          (classEntries Sample.behindCycle).keys.idxOf "Left"
            ≤ (classEntries Sample.behindCycle).keys.idxOf other := by
  have hcomputed : Sample.refusal? (.object Sample.behindCycle)
      = some (.inheritanceCycle "Left") := by decide +kernel
  have hrefused := Sample.ofDocument_of_refusal? hcomputed
  obtain ⟨_, hroot, hleads, hfirst, -⟩ :=
    cycle_reported_at Sample.distinctKeys_behindCycle hrefused
  cases hroot
  refine ⟨hrefused, hleads, hfirst.resolve_left ?_⟩
  rintro ⟨body, hbody, hparent, -⟩
  have hentries : classEntries Sample.behindCycle = Sample.behindCycle := rfl
  rw [hentries] at hbody
  have hother : ∀ f ∈ Sample.behindCycle, f.1 = "Left" → ∀ body, f.2 = .object body →
      Entries.find? body "__parent__" ≠ some (.str "Left") := by
    simp [Sample.behindCycle, Entries.find?]
  exact hother _ hbody rfl body rfl hparent

/-- The class at which a cycle is reported need not be on one. -/
theorem ModuleDecl.class_below_cycle :
    ofDocument "meters" "meters.json" "now" (.object Sample.belowCycle)
        = .error (.inheritanceCycle "Leaf")
      ∧ TransGen (Extends Sample.belowCycle) "Left" "Left"
      ∧ ¬ TransGen (Extends Sample.belowCycle) "Leaf" "Leaf" := by
  have hcomputed : Sample.refusal? (.object Sample.belowCycle)
      = some (.inheritanceCycle "Leaf") := by decide +kernel
  have hentries : classEntries Sample.belowCycle = Sample.belowCycle := rfl
  have hleft : Extends Sample.belowCycle "Left" "Right" := by
    refine ⟨[("__parent__", .str "Right")], ?_, rfl, by decide⟩
    rw [hentries]
    exact List.mem_cons_of_mem _ List.mem_cons_self
  have hright : Extends Sample.belowCycle "Right" "Left" := by
    refine ⟨[("__parent__", .str "Left")], ?_, rfl, by decide⟩
    rw [hentries]
    exact List.mem_cons_of_mem _ (List.mem_cons_of_mem _ List.mem_cons_self)
  refine ⟨Sample.ofDocument_of_refusal? hcomputed, .tail (.single hleft) hright, fun hloop => ?_⟩
  -- no class has the child for a parent
  obtain ⟨child, -, body, hbody, hparent, -⟩ := TransGen.tail'_iff.1 hloop
  rw [hentries] at hbody
  have hnone : ∀ f ∈ Sample.belowCycle, ∀ body, f.2 = .object body →
      Entries.find? body "__parent__" ≠ some (.str "Leaf") := by
    simp [Sample.belowCycle, Entries.find?]
  exact hnone _ hbody body rfl hparent

end LiveDoc
