/-
The lineage of a declared class is its ancestry.

The walk from a class to its ancestors is bounded by the number of
classes and stops before a name that it has met. Where parents come first
neither bound is ever felt (`Unbounded`): the places of the names met go
down (`ParentsPrecede.idxOf_lt`), so a parent is never one of them, and the
place of a class is less than the number of classes. So a lineage is the
class and the lineage of its parent (`lineage_of_child`), without any
bound; it holds exactly the classes that parents lead to
(`mem_lineage_iff`), and the names that templates may use are those that
these declare (`mem_visibleNames_iff`). All inductions are on the place of
a class (`ParentsPrecede.induction`).
-/
import LiveDoc.Declaration.Module
import LiveDoc.Proofs.ParentOrder

namespace LiveDoc.ModuleDecl

open ClassDecl (ParentIn ParentsPrecede)
open Relation (ReflTransGen)

variable {m : ModuleDecl}

-- ==================================================== finding a class

/-- What is found under a name is a class of that name. -/
theorem findClass?_some {name : String} {c : ClassDecl} (h : m.findClass? name = some c) :
    c ∈ m.classes ∧ c.name = name := by
  unfold findClass? at h
  exact ⟨List.mem_of_find?_eq_some h, by simpa using List.find?_some h⟩

/-- Class names are distinct, so every class is found under its own. -/
theorem findClass?_of_mem (hnames : m.classNames.Nodup) {c : ClassDecl} (hc : c ∈ m.classes) :
    m.findClass? c.name = some c := by
  cases h : m.findClass? c.name with
  | none =>
    unfold findClass? at h
    exact absurd (decide_eq_true rfl) (List.find?_eq_none.1 h c hc)
  | some d =>
    obtain ⟨hd, hname⟩ := findClass?_some h
    rw [List.inj_on_of_nodup_map hnames hd hc hname]

-- ==================================================== the walk

/-- The walk feels neither of its bounds: it has a step left for every
place before the class, and has met no name that stands there. -/
structure Unbounded (m : ModuleDecl) (steps : Nat) (met : List String) (c : ClassDecl) : Prop where
  steps : m.classNames.idxOf c.name ≤ steps
  met : ∀ name ∈ met, m.classNames.idxOf c.name ≤ m.classNames.idxOf name

/-- As many steps as there are classes are enough, as long as no class has been
met. -/
theorem Unbounded.start (m : ModuleDecl) (c : ClassDecl) :
    Unbounded m m.classes.length [] c where
  steps := by
    have hle := List.idxOf_le_length (a := c.name) (l := m.classNames)
    unfold classNames at hle ⊢
    rw [List.length_map] at hle
    exact hle
  met name hname := by cases hname

/-- A class without a parent is where a lineage ends, whatever steps are
left. -/
theorem lineageFrom_of_root {c : ClassDecl} (hc : c.base = none) (steps : Nat)
    (met : List String) : m.lineageFrom steps met c = [c] := by
  cases steps with
  | zero => rfl
  | succ steps => rw [lineageFrom, hc, Option.bind_none]

/-- One step: the walk goes on at the parent, and feels no bound there
either. -/
theorem Unbounded.parent (horder : ParentsPrecede m.classes) (hnames : m.classNames.Nodup)
    {steps : Nat} {met : List String} {c p : ClassDecl} (hwalk : Unbounded m steps met c)
    (hc : c ∈ m.classes) (hp : p ∈ m.classes) (hbase : c.base = some p.name) :
    ∃ steps', m.lineageFrom steps met c = c :: m.lineageFrom steps' (c.name :: met) p
      ∧ Unbounded m steps' (c.name :: met) p := by
  obtain ⟨hsteps, hmet⟩ := hwalk
  have hlt : m.classNames.idxOf p.name < m.classNames.idxOf c.name :=
    horder.idxOf_lt hnames ⟨c, hc, rfl, hbase⟩
  -- names already met stand no earlier than the class, its parent does
  have hmet' : ∀ name ∈ c.name :: met, m.classNames.idxOf p.name < m.classNames.idxOf name := by
    intro name hname
    rcases List.mem_cons.1 hname with rfl | hname
    · exact hlt
    · exact Nat.lt_of_lt_of_le hlt (hmet name hname)
  have hfresh : p.name ∉ c.name :: met := fun hmem => Nat.lt_irrefl _ (hmet' _ hmem)
  cases steps with
  | zero => omega
  | succ steps' =>
    refine ⟨steps', ?_, by omega, fun name hname => Nat.le_of_lt (hmet' name hname)⟩
    rw [lineageFrom, hbase, Option.bind_some, findClass?_of_mem hnames hp]
    exact if_neg hfresh

/-- Walks that feel no bound collect the same classes. -/
theorem Unbounded.lineageFrom_eq (horder : ParentsPrecede m.classes) (hnames : m.classNames.Nodup)
    {c : ClassDecl} (hc : c ∈ m.classes) :
    ∀ {steps steps' met met'}, Unbounded m steps met c → Unbounded m steps' met' c →
      m.lineageFrom steps met c = m.lineageFrom steps' met' c := by
  refine horder.induction hnames (P := fun c => ∀ {steps steps' met met'},
    Unbounded m steps met c → Unbounded m steps' met' c →
      m.lineageFrom steps met c = m.lineageFrom steps' met' c) ?_ ?_ c hc
  · intro c _ hbase steps steps' met met' _ _
    rw [lineageFrom_of_root hbase, lineageFrom_of_root hbase]
  · intro c hc p hp hbase ih steps steps' met met' hwalk hwalk'
    obtain ⟨_, heq, hparent⟩ := hwalk.parent horder hnames hc hp hbase
    obtain ⟨_, heq', hparent'⟩ := hwalk'.parent horder hnames hc hp hbase
    rw [heq, heq', ih hparent hparent']

-- ==================================================== the lineage

theorem lineage_of_root {c : ClassDecl} (hbase : c.base = none) : m.lineage c = [c] :=
  lineageFrom_of_root hbase _ _

/-- The lineage of a class is the class and the lineage of its parent. -/
theorem lineage_of_child (horder : ParentsPrecede m.classes) (hnames : m.classNames.Nodup)
    {c p : ClassDecl} (hc : c ∈ m.classes) (hp : p ∈ m.classes) (hbase : c.base = some p.name) :
    m.lineage c = c :: m.lineage p := by
  obtain ⟨_, heq, hparent⟩ := (Unbounded.start m c).parent horder hnames hc hp hbase
  unfold lineage
  rw [heq, hparent.lineageFrom_eq horder hnames hp (.start m p)]

/-- The lineage of a class holds the classes that parents lead to. -/
theorem mem_lineage_iff (horder : ParentsPrecede m.classes) (hnames : m.classNames.Nodup)
    {c d : ClassDecl} (hc : c ∈ m.classes) :
    d ∈ m.lineage c ↔ d ∈ m.classes ∧ ReflTransGen (ParentIn m.classes) c.name d.name := by
  have hsame : ∀ {c d : ClassDecl}, c ∈ m.classes → d ∈ m.classes → c.name = d.name → c = d :=
    fun hc hd hname => List.inj_on_of_nodup_map hnames hc hd hname
  -- a class comes after its parent, so the induction is along the order of the list
  refine horder.induction hnames (P := fun c => d ∈ m.lineage c
    ↔ d ∈ m.classes ∧ ReflTransGen (ParentIn m.classes) c.name d.name) ?_ ?_ c hc
  · intro c hc hbase
    rw [lineage_of_root hbase, List.mem_singleton]
    constructor
    · rintro rfl
      exact ⟨hc, .refl⟩
    · intro h
      obtain ⟨hd, hpath⟩ := h
      rcases ReflTransGen.cases_head hpath with hname | ⟨_, ⟨c', hc', hname, hparent⟩, -⟩
      · exact (hsame hc hd hname).symm
      · rw [hsame hc' hc hname, hbase] at hparent
        cases hparent
  · intro c hc p hp hbase ih
    rw [lineage_of_child horder hnames hc hp hbase, List.mem_cons, ih]
    constructor
    · rintro (rfl | ⟨hd, hpath⟩)
      · exact ⟨hc, .refl⟩
      · exact ⟨hd, .head ⟨c, hc, rfl, hbase⟩ hpath⟩
    · intro h
      obtain ⟨hd, hpath⟩ := h
      rcases ReflTransGen.cases_head hpath with hname | ⟨_, ⟨c', hc', hname, hparent⟩, hrest⟩
      · exact .inl (hsame hc hd hname).symm
      · rw [hsame hc' hc hname, hbase] at hparent
        cases hparent
        exact .inr ⟨hd, hrest⟩

/-- Templates may use what a class and its ancestors declare. -/
theorem mem_visibleNames_iff (horder : ParentsPrecede m.classes) (hnames : m.classNames.Nodup)
    {c : ClassDecl} (hc : c ∈ m.classes) {name : String} :
    name ∈ m.visibleNames c
      ↔ (∃ d ∈ m.classes, ReflTransGen (ParentIn m.classes) c.name d.name
          ∧ name ∈ d.declaredNames)
        ∨ name ∈ ClassDecl.templateNames := by
  unfold visibleNames
  rw [List.mem_append, List.mem_flatMap]
  refine or_congr_left (exists_congr fun d => ?_)
  rw [mem_lineage_iff horder hnames hc, and_assoc]

-- ==================================================== templates

/-- A template is accepted when every name in it is visible. -/
theorem checkTemplate_eq_ok {visible : List String} {className method : String} {t : Template} :
    checkTemplate visible className method t = .ok () ↔ ∀ name ∈ t.fieldNames, name ∈ visible := by
  unfold checkTemplate
  cases h : t.fieldNames.find? fun n => n ∉ visible with
  | none =>
    rw [List.find?_eq_none] at h
    simpa using h
  | some name =>
    have hmem := List.mem_of_find?_eq_some h
    have hnot : name ∉ visible := by simpa using List.find?_some h
    simp only [reduceCtorEq, false_iff]
    exact fun hall => hnot (hall name hmem)

/-- The templates of a class pass when all that they name is visible. -/
theorem checkTemplates_eq_ok {c : ClassDecl} :
    m.checkTemplates c = .ok ()
      ↔ (∀ name ∈ c.repr.fieldNames, name ∈ m.visibleNames c)
        ∧ ∀ t, c.str = some t → ∀ name ∈ t.fieldNames, name ∈ m.visibleNames c := by
  unfold checkTemplates
  constructor
  · intro h
    obtain ⟨⟨⟩, hrepr, h⟩ := Traversal.bind_eq_ok.1 h
    refine ⟨checkTemplate_eq_ok.1 hrepr, ?_⟩
    intro t ht
    rw [ht] at h
    exact checkTemplate_eq_ok.1 h
  · intro h
    obtain ⟨hrepr, hstr⟩ := h
    refine Traversal.bind_eq_ok.2 ⟨(), checkTemplate_eq_ok.2 hrepr, ?_⟩
    cases hc : c.str with
    | none => rfl
    | some t => exact checkTemplate_eq_ok.2 (hstr t hc)

end LiveDoc.ModuleDecl
