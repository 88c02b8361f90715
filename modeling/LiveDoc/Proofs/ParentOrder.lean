/-
What putting parents first achieves.

A pass only moves classes from the waiting list to the placed one, so
together the two lists always hold the same classes (`pass_perm`), and a
class is placed only behind its parent, so the placed list is always in
order (`ParentsPrecede`). Both survive every pass and give what a
successful run returns: the same classes, parents first.

A run that fails stops at classes none of which can be placed. Their
parents are classes of the document, hence stuck as well, and following
parents among finitely many classes comes back to where it was. So a run
over known parents fails only where a class is its own ancestor
(`exists_parentsFirst_iff`), which is the one thing an order with parents
first rules out.
-/
import LiveDoc.Declaration.Order
import LiveDoc.Proofs.Traversal
import Mathlib.Data.Fintype.Card
import Mathlib.Data.Fintype.EquivFin
import Mathlib.Logic.Relation
import Mathlib.Order.WellFounded

namespace LiveDoc.ClassDecl

open Relation (TransGen ReflTransGen)

-- ==================================================== the relation

/-- Among the given classes, `child` names one whose parent is
`parent`. -/
def ParentIn (classes : List ClassDecl) (child parent : String) : Prop :=
  ∃ c ∈ classes, c.name = child ∧ c.base = some parent

/-- No class is its own ancestor. -/
def Acyclic (classes : List ClassDecl) : Prop :=
  ∀ name, ¬ TransGen (ParentIn classes) name name

/-- Every parent is a class. -/
def ParentsKnown (classes : List ClassDecl) : Prop :=
  ∀ c ∈ classes, ∀ parent, c.base = some parent → parent ∈ classes.map name

/-- Every class stands behind its parent. -/
def ParentsPrecede (classes : List ClassDecl) : Prop :=
  ∀ before c after, classes = before ++ c :: after →
    ∀ parent, c.base = some parent → parent ∈ before.map name

theorem ParentIn.mono {cs ds : List ClassDecl} (h : cs ⊆ ds) {a b : String}
    (hab : ParentIn cs a b) : ParentIn ds a b := by
  obtain ⟨c, hc, hname, hbase⟩ := hab
  exact ⟨c, h hc, hname, hbase⟩

theorem Acyclic.mono {cs ds : List ClassDecl} (h : cs ⊆ ds) (hds : Acyclic ds) : Acyclic cs :=
  fun name hname => hds name (TransGen.mono (fun _ _ hab => ParentIn.mono h hab) name name hname)

theorem isReady_iff {placed : List ClassDecl} {c : ClassDecl} :
    isReady placed c = true ↔ ∀ parent, c.base = some parent → parent ∈ placed.map name := by
  unfold isReady
  cases c.base with
  | none => simp
  | some p => simp [List.mem_map]

-- ==================================================== the order

theorem parentsPrecede_nil : ParentsPrecede [] := by
  intro before c after h
  exact absurd h.symm (by simp)

/-- A class that is ready may be placed. -/
theorem ParentsPrecede.snoc {placed : List ClassDecl} (h : ParentsPrecede placed) {c : ClassDecl}
    (hc : isReady placed c = true) : ParentsPrecede (placed ++ [c]) := by
  intro before d after heq parent hparent
  rcases List.eq_nil_or_concat after with rfl | ⟨after', z, rfl⟩
  · obtain ⟨rfl, hcd⟩ := List.append_inj' heq rfl
    cases hcd
    exact isReady_iff.1 hc parent hparent
  · have heq' : placed ++ [c] = (before ++ d :: after') ++ [z] := by
      rw [heq]
      simp
    obtain ⟨hplaced, -⟩ := List.append_inj' heq' rfl
    exact h before d after' hplaced parent hparent

/-- A parent stands at a smaller place than its children. -/
theorem ParentsPrecede.idxOf_lt {cs : List ClassDecl} (h : ParentsPrecede cs)
    (hcs : (cs.map name).Nodup) {child parent : String} (hp : ParentIn cs child parent) :
    (cs.map name).idxOf parent < (cs.map name).idxOf child := by
  obtain ⟨c, hc, rfl, hbase⟩ := hp
  obtain ⟨before, after, rfl⟩ := List.append_of_mem hc
  have hparent : parent ∈ before.map name := h before c after rfl parent hbase
  have hchild : c.name ∉ before.map name := by
    intro hmem
    rw [List.map_append, List.nodup_append] at hcs
    exact hcs.2.2 _ hmem _ (List.mem_map_of_mem List.mem_cons_self) rfl
  rw [List.map_append, List.idxOf_append_of_mem hparent, List.idxOf_append_of_notMem hchild]
  have := List.idxOf_lt_length_of_mem hparent
  omega

/-- Where parents come first no class is its own ancestor. -/
theorem ParentsPrecede.acyclic {cs : List ClassDecl} (h : ParentsPrecede cs)
    (hcs : (cs.map name).Nodup) : Acyclic cs := by
  have hlt : ∀ {a b : String}, TransGen (ParentIn cs) a b →
      (cs.map name).idxOf b < (cs.map name).idxOf a := by
    intro a b hab
    induction hab with
    | single hp => exact h.idxOf_lt hcs hp
    | tail _ hp ih => exact (h.idxOf_lt hcs hp).trans ih
  exact fun a ha => absurd (hlt ha) (Nat.lt_irrefl _)

/-- Where parents come first every parent is a class. -/
theorem ParentsPrecede.parentsKnown {cs : List ClassDecl} (h : ParentsPrecede cs) :
    ParentsKnown cs := by
  intro c hc parent hparent
  obtain ⟨before, after, rfl⟩ := List.append_of_mem hc
  have hmem := h before c after rfl parent hparent
  rw [List.map_append]
  exact List.mem_append_left _ hmem

/-- What holds of a class as soon as it holds of its parent holds of every
class, where parents come first. -/
theorem ParentsPrecede.induction {cs : List ClassDecl} (h : ParentsPrecede cs)
    (hcs : (cs.map name).Nodup) {P : ClassDecl → Prop}
    (root : ∀ c ∈ cs, c.base = none → P c)
    (child : ∀ c ∈ cs, ∀ p ∈ cs, c.base = some p.name → P p → P c) : ∀ c ∈ cs, P c := by
  intro c hc
  -- the place of the parent is smaller
  induction hplace : (cs.map name).idxOf c.name using Nat.strong_induction_on generalizing c with
  | _ place ih =>
    cases hbase : c.base with
    | none => exact root c hc hbase
    | some parent =>
      obtain ⟨p, hp, rfl⟩ := List.mem_map.1 (h.parentsKnown c hc parent hbase)
      have hlt := h.idxOf_lt hcs ⟨c, hc, rfl, hbase⟩
      rw [hplace] at hlt
      exact child c hc p hp hbase (ih _ hlt p hp rfl)

-- ==================================================== one pass

/-- A pass loses no class and makes up none. -/
theorem pass_perm (placed cs : List ClassDecl) :
    ((pass placed cs).1 ++ (pass placed cs).2).Perm (placed ++ cs) := by
  induction cs generalizing placed with
  | nil => exact List.Perm.refl _
  | cons c cs ih =>
    rw [pass]
    split
    · have h := ih (placed ++ [c])
      rw [List.append_assoc] at h
      exact h
    · have hswap : ((pass placed cs).1 ++ c :: (pass placed cs).2).Perm
          (c :: ((pass placed cs).1 ++ (pass placed cs).2)) := List.perm_middle
      exact hswap.trans (((ih placed).cons c).trans List.perm_middle.symm)

/-- A pass keeps parents first. -/
theorem pass_parentsPrecede {placed : List ClassDecl} (h : ParentsPrecede placed)
    (cs : List ClassDecl) : ParentsPrecede (pass placed cs).1 := by
  induction cs generalizing placed with
  | nil => exact h
  | cons c cs ih =>
    rw [pass]
    split
    case isTrue hc => exact ih (h.snoc hc)
    case isFalse => exact ih h

/-- What waits after a pass waits in the order in which it waited before. -/
theorem pass_sublist (placed cs : List ClassDecl) : (pass placed cs).2.Sublist cs := by
  induction cs generalizing placed with
  | nil => exact .slnil
  | cons c cs ih =>
    rw [pass]
    split
    · exact (ih (placed ++ [c])).cons c
    · exact (ih placed).cons_cons c

/-- A pass that places nothing leaves all as it was: no class was
ready. -/
theorem pass_eq_of_length {placed cs : List ClassDecl}
    (h : cs.length ≤ (pass placed cs).2.length) :
    pass placed cs = (placed, cs) ∧ ∀ c ∈ cs, isReady placed c = false := by
  induction cs with
  | nil => exact ⟨rfl, fun _ hc => (by cases hc)⟩
  | cons c cs ih =>
    rw [pass] at h ⊢
    split at h
    case isTrue =>
      have hle := (pass_sublist (placed ++ [c]) cs).length_le
      simp only [List.length_cons] at h
      omega
    case isFalse hc =>
      obtain ⟨hpass, hready⟩ := ih (Nat.le_of_succ_le_succ h)
      rw [if_neg hc, hpass]
      exact ⟨rfl, List.forall_mem_cons.2 ⟨by simpa using hc, hready⟩⟩

-- ==================================================== all passes

/-- What a run that places all classes returns. -/
theorem placeAll_ok {placed waiting classes : List ClassDecl}
    (h : placeAll placed waiting = .ok classes) (hplaced : ParentsPrecede placed) :
    classes.Perm (placed ++ waiting) ∧ ParentsPrecede classes := by
  induction placed, waiting using placeAll.induct with
  | case1 placed waiting placed' hpass =>
    rw [placeAll, hpass] at h
    cases h
    have hperm := pass_perm placed waiting
    have horder := pass_parentsPrecede hplaced waiting
    rw [hpass] at hperm horder
    exact ⟨by simpa using hperm, horder⟩
  | case2 placed waiting placed' c cs hpass hlt ih =>
    rw [placeAll, hpass] at h
    simp only [if_pos hlt] at h
    have hperm := pass_perm placed waiting
    have horder := pass_parentsPrecede hplaced waiting
    rw [hpass] at hperm horder
    obtain ⟨hclasses, hresult⟩ := ih h horder
    exact ⟨hclasses.trans hperm, hresult⟩
  | case3 placed waiting placed' c cs hpass hle =>
    rw [placeAll, hpass] at h
    simp only [if_neg hle] at h
    cases h

/-- Where a run that fails stops: some classes are placed, parents first, and
the others wait, in the order in which they stood; none of those is ready. -/
structure Stuck (placed waiting placed' stuck : List ClassDecl) : Prop where
  perm : (placed' ++ stuck).Perm (placed ++ waiting)
  ordered : ParentsPrecede placed → ParentsPrecede placed'
  sublist : stuck.Sublist waiting
  waits : ∀ d ∈ stuck, isReady placed' d = false

/-- A run that fails names the first of the classes that still wait. -/
theorem placeAll_stuck {placed waiting : List ClassDecl} {e : DocumentError}
    (h : placeAll placed waiting = .error e) :
    ∃ placed' c stuck, Stuck placed waiting placed' (c :: stuck)
      ∧ e = .inheritanceCycle c.name := by
  induction placed, waiting using placeAll.induct with
  | case1 placed waiting placed' hpass =>
    rw [placeAll, hpass] at h
    cases h
  | case2 placed waiting placed' c cs hpass hlt ih =>
    rw [placeAll, hpass] at h
    simp only [if_pos hlt] at h
    obtain ⟨placed'', d, stuck, hstuck, he⟩ := ih h
    have hperm := pass_perm placed waiting
    have horder : ParentsPrecede placed → ParentsPrecede (pass placed waiting).1 :=
      fun hplaced => pass_parentsPrecede hplaced waiting
    have hsublist := pass_sublist placed waiting
    rw [hpass] at hperm horder hsublist
    exact ⟨placed'', d, stuck, ⟨hstuck.perm.trans hperm, hstuck.ordered ∘ horder,
      hstuck.sublist.trans hsublist, hstuck.waits⟩, he⟩
  | case3 placed waiting placed' c cs hpass hle =>
    rw [placeAll, hpass] at h
    simp only [if_neg hle] at h
    cases h
    -- a pass that leaves as many waiting has placed none of them
    have hlen : waiting.length ≤ (pass placed waiting).2.length := by
      rw [hpass]
      exact Nat.le_of_not_lt hle
    obtain ⟨heq, hready⟩ := pass_eq_of_length hlen
    rw [heq] at hpass
    cases hpass
    exact ⟨placed, c, cs, ⟨List.Perm.refl _, id, List.Sublist.refl _, hready⟩, rfl⟩

/-- What is stuck has its parents among what is stuck. -/
theorem Stuck.closed {placed waiting placed' stuck : List ClassDecl}
    (h : Stuck placed waiting placed' stuck) (hknown : ParentsKnown (placed ++ waiting)) :
    ∀ d ∈ stuck, ∃ parent, d.base = some parent ∧ parent ∈ stuck.map name := by
  intro d hd
  have hwaits := h.waits d hd
  rw [← Bool.not_eq_true, isReady_iff] at hwaits
  push Not at hwaits
  obtain ⟨parent, hbase, hplaced⟩ := hwaits
  refine ⟨parent, hbase, ?_⟩
  have hmem := hknown d (h.perm.subset (List.mem_append_right _ hd)) parent hbase
  have hmem := (h.perm.map name).symm.subset hmem
  rw [List.map_append] at hmem
  exact (List.mem_append.1 hmem).resolve_left hplaced

theorem placeAll_error {placed waiting : List ClassDecl} {e : DocumentError}
    (h : placeAll placed waiting = .error e) :
    ∃ placed' c stuck, (placed' ++ c :: stuck).Perm (placed ++ waiting)
      ∧ (∀ d ∈ c :: stuck, isReady placed' d = false) ∧ e = .inheritanceCycle c.name := by
  obtain ⟨placed', c, stuck, hstuck, he⟩ := placeAll_stuck h
  exact ⟨placed', c, stuck, hstuck.perm, hstuck.waits, he⟩

/-- Classes whose parents are all among them hold a cycle. -/
theorem exists_transGen_of_closed {cs stuck : List ClassDecl} (hsub : stuck ⊆ cs)
    (hne : stuck ≠ []) (hclosed : ∀ c ∈ stuck, ∃ parent, c.base = some parent
      ∧ parent ∈ stuck.map name) : ¬ Acyclic cs := by
  intro hacyclic
  -- the descent to parents among the stuck names is well founded
  let descends (b a : {a // a ∈ stuck.map name}) : Prop := TransGen (ParentIn cs) a.1 b.1
  have htrans : IsTrans _ descends := ⟨fun _ _ _ hab hbc => hbc.trans hab⟩
  have hirrefl : Std.Irrefl descends := ⟨fun a ha => hacyclic a.1 ha⟩
  have hwf : WellFounded descends := Finite.wellFounded_of_trans_of_irrefl _
  obtain ⟨c, hc⟩ := List.exists_mem_of_ne_nil _ hne
  have hname : c.name ∈ stuck.map name := List.mem_map_of_mem hc
  obtain ⟨least, -, hleast⟩ := hwf.has_min Set.univ ⟨⟨c.name, hname⟩, trivial⟩
  obtain ⟨d, hd, hdname⟩ := List.mem_map.1 least.2
  obtain ⟨parent, hbase, hparent⟩ := hclosed d hd
  exact hleast ⟨parent, hparent⟩ trivial (.single ⟨d, hsub hd, hdname, hbase⟩)

-- ==================================================== parents first

theorem checkParent_eq_ok {names : List String} {c : ClassDecl} :
    checkParent names c = .ok ()
      ↔ ∀ parent, c.base = some parent → parent ≠ c.name ∧ parent ∈ names := by
  unfold checkParent
  cases c.base with
  | none => simp
  | some p =>
    by_cases hself : p = c.name <;> by_cases hknown : p ∈ names <;> simp [hself, hknown]

/-- No parent is refused where all are classes and none is its own child. -/
theorem forM_checkParent {cs : List ClassDecl} (hknown : ParentsKnown cs) (hacyclic : Acyclic cs) :
    cs.forM (checkParent (cs.map name)) = .ok () := by
  rw [Traversal.forM_eq_ok]
  intro c hc
  rw [checkParent_eq_ok]
  intro parent hparent
  refine ⟨?_, hknown c hc parent hparent⟩
  rintro rfl
  exact hacyclic c.name (.single ⟨c, hc, rfl, hparent⟩)

/-- What is returned: the same classes, parents first. -/
theorem parentsFirst_ok {cs classes : List ClassDecl} (h : parentsFirst cs = .ok classes) :
    classes.Perm cs ∧ ParentsPrecede classes := by
  obtain ⟨-, -, h⟩ := Traversal.bind_eq_ok.1 h
  simpa using placeAll_ok h parentsPrecede_nil

/-- Classes with distinct names have an order with parents first exactly
when every parent is a class and no class is its own ancestor, and then
one is found. -/
theorem exists_parentsFirst_iff {cs : List ClassDecl} (hcs : (cs.map name).Nodup) :
    (∃ classes, parentsFirst cs = .ok classes) ↔ ParentsKnown cs ∧ Acyclic cs := by
  constructor
  · intro h
    obtain ⟨classes, h⟩ := h
    obtain ⟨hperm, horder⟩ := parentsFirst_ok h
    have hnames : (classes.map name).Perm (cs.map name) := hperm.map name
    refine ⟨?_, (horder.acyclic (hnames.nodup_iff.2 hcs)).mono hperm.symm.subset⟩
    intro c hc parent hparent
    exact hnames.subset (horder.parentsKnown c (hperm.symm.subset hc) parent hparent)
  · intro h
    obtain ⟨hknown, hacyclic⟩ := h
    show ∃ classes, (cs.forM (checkParent (cs.map name)) >>= fun _ => placeAll [] cs) = .ok classes
    rw [forM_checkParent hknown hacyclic, Traversal.ok_bind]
    cases hrun : placeAll [] cs with
    | ok classes => exact ⟨classes, rfl⟩
    | error e =>
      obtain ⟨placed, c, stuck, hstuck, -⟩ := placeAll_stuck hrun
      exact absurd hacyclic (exists_transGen_of_closed hstuck.sublist.subset (by simp)
        (hstuck.closed hknown))

end LiveDoc.ClassDecl
