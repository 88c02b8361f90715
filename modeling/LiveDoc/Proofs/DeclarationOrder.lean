/-
What putting parents first leaves of the order of declaration.

A pass walks the waiting classes in the order of declaration, and places a
class when its parent has been placed, in an earlier pass or earlier in the
same one. So a class declared behind its parent is placed in the pass of
the parent, and one declared ahead of it in the next pass. How many passes
a class waits is therefore counted along its line: once for each class,
itself or an ancestor, that is declared ahead of its parent (`Delay`).

What is returned are the passes one after the other, each of them a part of
the declaration in its order (`parentsFirst_eq_rounds`). That settles the
place of any two classes: the smaller delay comes first, and between equal
delays the order of declaration decides (`place_lt_iff`).

For two children of one parent the delays differ only if the parent is
declared between them. Then the one declared behind the parent comes first,
although it was declared later; in all other cases siblings keep their
order (`sibling_place_lt_iff`).
-/
import LiveDoc.Proofs.LinkFaults
import LiveDoc.Proofs.ParentsFirst

namespace LiveDoc

open Traversal

namespace ClassDecl

variable {cs classes : List ClassDecl} {a b c p : ClassDecl}

-- ==================================================== places

/-- The place of a class name among classes. -/
def place (cs : List ClassDecl) (className : String) : Nat := (cs.map name).idxOf className

/-- Names are distinct, so a class is found at its place. -/
theorem place_getElem (hcs : (cs.map name).Nodup) (i : Nat) (hi : i < cs.length) :
    place cs cs[i].name = i := by
  have h := hcs.idxOf_getElem i (by rwa [List.length_map])
  rwa [List.getElem_map] at h

theorem place_inj (ha : a ∈ cs) {className : String} :
    place cs a.name = place cs className ↔ a.name = className :=
  List.idxOf_inj (List.mem_map_of_mem ha)

/-- Places are in the order of the list. -/
theorem pairwise_place (hcs : (cs.map name).Nodup) :
    cs.Pairwise fun a b => place cs a.name < place cs b.name := by
  rw [List.pairwise_iff_getElem]
  intro i j hi hj hij
  rw [place_getElem hcs, place_getElem hcs]
  exact hij

/-- What holds along the list holds of classes at places in that order. -/
theorem rel_of_place_lt {R : ClassDecl → ClassDecl → Prop} (hcs : (cs.map name).Nodup)
    (hpairs : cs.Pairwise R) (ha : a ∈ cs) (hb : b ∈ cs)
    (hlt : place cs a.name < place cs b.name) : R a b := by
  obtain ⟨i, hi, rfl⟩ := List.getElem_of_mem ha
  obtain ⟨j, hj, rfl⟩ := List.getElem_of_mem hb
  rw [place_getElem hcs, place_getElem hcs] at hlt
  exact List.pairwise_iff_getElem.1 hpairs i j hi hj hlt

/-- The classes before one are those at smaller places. -/
theorem mem_before_iff (hcs : (cs.map name).Nodup) {before after : List ClassDecl}
    (hsplit : cs = before ++ c :: after) (hp : p ∈ cs) :
    p ∈ before ↔ place cs p.name < place cs c.name := by
  have hpairs := pairwise_place hcs
  rw [hsplit] at hp
  -- only the list is split here, the places are those in the whole of it
  generalize place cs = at_ at hpairs ⊢
  rw [hsplit, List.pairwise_append, List.pairwise_cons] at hpairs
  obtain ⟨-, ⟨hafter, -⟩, hbefore⟩ := hpairs
  constructor
  · intro hmem
    exact hbefore p hmem c List.mem_cons_self
  · intro hlt
    rcases List.mem_append.1 hp with hmem | hmem
    · exact hmem
    · rcases List.mem_cons.1 hmem with rfl | hmem
      · exact absurd hlt (Nat.lt_irrefl _)
      · exact absurd hlt (Nat.lt_asymm (hafter p hmem))

-- ==================================================== delays

/-- The number of passes that a class waits: those that its parent waits,
and one more unless it is declared behind the parent. -/
inductive Delay (cs : List ClassDecl) : ClassDecl → Nat → Prop
  | generic {c : ClassDecl} (mem : c ∈ cs) (base : c.base = none) : Delay cs c 0
  | child {c p : ClassDecl} {n : Nat} (mem : c ∈ cs) (base : c.base = some p.name)
      (parent : Delay cs p n) :
      Delay cs c (if place cs p.name < place cs c.name then n else n + 1)

theorem Delay.mem {n : Nat} (h : Delay cs c n) : c ∈ cs := by
  cases h with
  | generic hc _ => exact hc
  | child hc _ _ => exact hc

/-- A class has one parent, so its delay is settled. -/
theorem Delay.unique (hcs : (cs.map name).Nodup) {m n : Nat} (hm : Delay cs c m)
    (hn : Delay cs c n) : m = n := by
  induction hm generalizing n with
  | generic _ hbase =>
    cases hn with
    | generic _ _ => rfl
    | child _ hbase' _ => cases hbase.symm.trans hbase'
  | child _ hbase hp ih =>
    cases hn with
    | generic _ hbase' => cases hbase.symm.trans hbase'
    | child _ hbase' hp' =>
      have hname := Option.some.inj (hbase.symm.trans hbase')
      cases List.inj_on_of_nodup_map hcs hp.mem hp'.mem hname
      rw [ih hp']

/-- Classes that can be put in order have delays. -/
theorem exists_delay (h : parentsFirst cs = .ok classes) (hcs : (cs.map name).Nodup) :
    ∃ delay : ClassDecl → Nat, ∀ c ∈ cs, Delay cs c (delay c) := by
  obtain ⟨hperm, horder⟩ := parentsFirst_ok h
  have hnames : (classes.map name).Nodup := (hperm.map name).nodup_iff.2 hcs
  have hall : ∀ c ∈ classes, ∃ n, Delay cs c n := by
    refine horder.induction hnames (P := fun c => ∃ n, Delay cs c n) ?_ ?_
    · intro c hc hbase
      exact ⟨0, .generic (hperm.subset hc) hbase⟩
    · intro c hc p _ hbase hp
      obtain ⟨n, hn⟩ := hp
      exact ⟨_, .child (hperm.subset hc) hbase hn⟩
  choose! delay hdelay using fun c hc => hall c (hperm.symm.subset hc)
  exact ⟨delay, hdelay⟩

-- ==================================================== rounds

/-- The classes of delays below `k`, by delay, each part in the order of
declaration. -/
def rounds (cs : List ClassDecl) (delay : ClassDecl → Nat) (k : Nat) : List ClassDecl :=
  (List.range k).flatMap fun j => cs.filter fun c => delay c = j

variable {delay : ClassDecl → Nat} {k : Nat}

theorem mem_rounds : c ∈ rounds cs delay k ↔ c ∈ cs ∧ delay c < k := by
  simp [rounds, and_comm]

/-- A round adds the classes that are delayed by as many. -/
theorem rounds_succ (cs : List ClassDecl) (delay : ClassDecl → Nat) (k : Nat) :
    rounds cs delay (k + 1) = rounds cs delay k ++ cs.filter fun c => delay c = k := by
  unfold rounds
  rw [List.range_succ, List.flatMap_append, List.flatMap_singleton]

/-- In round `k`, when the classes before it have been walked, a class can
be placed if it is of this round or an earlier one. -/
theorem isReady_rounds (hcs : (cs.map name).Nodup) (hdelay : ∀ c ∈ cs, Delay cs c (delay c))
    {before after : List ClassDecl} (hsplit : cs = before ++ c :: after) (k : Nat) :
    isReady (rounds cs delay k ++ before.filter fun d => delay d = k) c = true
      ↔ delay c ≤ k := by
  have hc : c ∈ cs := hsplit ▸ List.mem_append_right _ List.mem_cons_self
  have hc' := hdelay c hc
  rw [isReady_iff]
  generalize delay c = n at hc'
  cases hc' with
  | generic _ hbase => simp [hbase]
  | @child _ p n _ hbase hp =>
    have hn : n = delay p := hp.unique hcs (hdelay p hp.mem)
    -- the parent is placed: in an earlier round, or earlier in this one
    have hplaced : p.name ∈ (rounds cs delay k ++ before.filter fun d => delay d = k).map name
        ↔ delay p < k ∨ place cs p.name < place cs c.name ∧ delay p = k := by
      rw [← mem_before_iff hcs hsplit hp.mem]
      constructor
      · intro hmem
        obtain ⟨q, hq, hname⟩ := List.mem_map.1 hmem
        rw [List.mem_append, mem_rounds, List.mem_filter, decide_eq_true_eq] at hq
        have hqcs : q ∈ cs := by
          rcases hq with hq | hq
          · exact hq.1
          · exact hsplit ▸ List.mem_append_left _ hq.1
        cases List.inj_on_of_nodup_map hcs hqcs hp.mem hname
        exact hq.imp_left And.right
      · intro hearly
        refine List.mem_map_of_mem ?_
        rw [List.mem_append, mem_rounds, List.mem_filter, decide_eq_true_eq]
        exact hearly.imp_left fun hlt => ⟨hp.mem, hlt⟩
    have hready : (∀ parent, c.base = some parent →
          parent ∈ (rounds cs delay k ++ before.filter fun d => delay d = k).map name)
        ↔ p.name ∈ (rounds cs delay k ++ before.filter fun d => delay d = k).map name := by
      rw [hbase]
      simp
    rw [hready, hplaced, hn]
    split <;> omega

/-- The rest of a pass places the rest of a round. -/
theorem pass_after (hcs : (cs.map name).Nodup) (hdelay : ∀ c ∈ cs, Delay cs c (delay c))
    (k : Nat) {before after : List ClassDecl} (hsplit : cs = before ++ after) :
    pass (rounds cs delay k ++ before.filter fun c => delay c = k)
        (after.filter fun c => k ≤ delay c)
      = (rounds cs delay (k + 1), after.filter fun c => k + 1 ≤ delay c) := by
  induction after generalizing before with
  | nil =>
    rw [List.append_nil] at hsplit
    rw [rounds_succ, hsplit]
    rfl
  | cons c after ih =>
    have hsnoc : cs = before ++ [c] ++ after := by simp [hsplit]
    have hrest := ih hsnoc
    have hready := isReady_rounds hcs hdelay hsplit k
    rw [List.filter_append] at hrest
    rcases Nat.lt_trichotomy (delay c) k with hlt | heq | hgt
    · -- placed in an earlier round
      rw [List.filter_cons_of_neg (by simpa using hlt),
        List.filter_cons_of_neg (by simpa using Nat.lt_succ_of_lt hlt), ← hrest,
        List.filter_cons_of_neg (by simpa using Nat.ne_of_lt hlt), List.filter_nil,
        List.append_nil]
    · -- placed now: its parent is there
      rw [List.filter_cons_of_pos (by simp [heq]), List.filter_cons_of_neg (by simp [heq]), pass,
        if_pos (hready.2 (Nat.le_of_eq heq)), ← hrest, List.filter_cons_of_pos (by simp [heq]),
        List.filter_nil, List.append_assoc]
    · -- left for a later round: its parent is not there yet
      rw [List.filter_cons_of_pos (by simpa using Nat.le_of_lt hgt),
        List.filter_cons_of_pos (by simpa using Nat.succ_le_of_lt hgt), pass,
        if_neg (mt hready.1 (Nat.not_le_of_lt hgt))]
      rw [List.filter_cons_of_neg (by simpa using Nat.ne_of_gt hgt), List.filter_nil,
        List.append_nil] at hrest
      rw [hrest]

/-- A pass places one round. -/
theorem pass_rounds (hcs : (cs.map name).Nodup) (hdelay : ∀ c ∈ cs, Delay cs c (delay c))
    (k : Nat) :
    pass (rounds cs delay k) (cs.filter fun c => k ≤ delay c)
      = (rounds cs delay (k + 1), cs.filter fun c => k + 1 ≤ delay c) := by
  have h := pass_after hcs hdelay k (List.nil_append cs).symm
  rwa [List.filter_nil, List.append_nil] at h

/-- What is placed in all passes are rounds. -/
theorem placeAll_rounds (hcs : (cs.map name).Nodup) (hdelay : ∀ c ∈ cs, Delay cs c (delay c))
    {k : Nat} (h : placeAll (rounds cs delay k) (cs.filter fun c => k ≤ delay c) = .ok classes) :
    ∃ k', classes = rounds cs delay k' := by
  generalize hplaced : rounds cs delay k = placed at h
  generalize hwaiting : (cs.filter fun c => k ≤ delay c) = waiting at h
  induction placed, waiting using placeAll.induct generalizing k with
  | case1 placed waiting placed' hpass =>
    have hround := pass_rounds hcs hdelay k
    rw [hplaced, hwaiting, hpass] at hround
    rw [placeAll, hpass] at h
    cases h
    exact ⟨k + 1, congrArg Prod.fst hround⟩
  | case2 placed waiting placed' c rest hpass hlt ih =>
    have hround := pass_rounds hcs hdelay k
    rw [hplaced, hwaiting, hpass] at hround
    rw [placeAll, hpass] at h
    simp only [if_pos hlt] at h
    obtain ⟨hplaced', hwaiting'⟩ := Prod.mk.inj hround
    exact ih hplaced'.symm hwaiting'.symm h
  | case3 placed waiting placed' c rest hpass hle =>
    rw [placeAll, hpass] at h
    simp only [if_neg hle] at h
    cases h

/-- Putting parents first is walking the declaration round by round. -/
theorem parentsFirst_eq_rounds (h : parentsFirst cs = .ok classes) (hcs : (cs.map name).Nodup) :
    ∃ delay k, (∀ c ∈ cs, Delay cs c (delay c)) ∧ classes = rounds cs delay k := by
  obtain ⟨delay, hdelay⟩ := exists_delay h hcs
  obtain ⟨-, -, hplaced⟩ := bind_eq_ok.1 h
  have hall : (cs.filter fun c => 0 ≤ delay c) = cs := by simp
  rw [← hall] at hplaced
  obtain ⟨k, hk⟩ := placeAll_rounds (k := 0) hcs hdelay hplaced
  exact ⟨delay, k, hdelay, hk⟩

/-- Rounds are sorted by delay, then by the order of declaration. -/
theorem pairwise_rounds (hcs : (cs.map name).Nodup) (delay : ClassDecl → Nat) (k : Nat) :
    (rounds cs delay k).Pairwise fun a b =>
      delay a < delay b ∨ delay a = delay b ∧ place cs a.name < place cs b.name := by
  induction k with
  | zero => exact .nil
  | succ k ih =>
    rw [rounds_succ, List.pairwise_append]
    refine ⟨ih, ?_, ?_⟩
    · refine ((pairwise_place hcs).filter _).imp_of_mem fun ha hb hlt => ?_
      rw [List.mem_filter, decide_eq_true_eq] at ha hb
      exact .inr ⟨ha.2.trans hb.2.symm, hlt⟩
    · intro a ha b hb
      rw [mem_rounds] at ha
      rw [List.mem_filter, decide_eq_true_eq] at hb
      exact .inl (hb.2 ▸ ha.2)

-- ==================================================== two classes

/-- Of two classes the one with the smaller delay comes first, and with
equal delays the one declared first. -/
theorem place_lt_iff (h : parentsFirst cs = .ok classes) (hcs : (cs.map name).Nodup) {m n : Nat}
    (ha : Delay cs a m) (hb : Delay cs b n) :
    place classes a.name < place classes b.name
      ↔ m < n ∨ m = n ∧ place cs a.name < place cs b.name := by
  have hperm := (parentsFirst_ok h).1
  have hnames : (classes.map name).Nodup := (hperm.map name).nodup_iff.2 hcs
  have hamem := hperm.symm.subset ha.mem
  have hbmem := hperm.symm.subset hb.mem
  obtain ⟨delay, k, hdelay, rfl⟩ := parentsFirst_eq_rounds h hcs
  rw [ha.unique hcs (hdelay a ha.mem), hb.unique hcs (hdelay b hb.mem)]
  have hpairs := pairwise_rounds hcs delay k
  constructor
  · intro hlt
    exact rel_of_place_lt hnames hpairs hamem hbmem hlt
  · intro hfirst
    by_contra hnot
    rcases Nat.lt_or_eq_of_le (Nat.le_of_not_lt hnot) with hgt | heq
    · have hsecond := rel_of_place_lt hnames hpairs hbmem hamem hgt
      omega
    · have hname := (place_inj hbmem).1 heq
      cases List.inj_on_of_nodup_map hnames hbmem hamem hname
      omega

/-- Two classes with the same parent keep their order unless the parent is
declared between them. -/
theorem sibling_place_lt_iff (h : parentsFirst cs = .ok classes) (hcs : (cs.map name).Nodup)
    (ha : a ∈ cs) (hb : b ∈ cs) (hbase : a.base = b.base)
    (hlt : place cs a.name < place cs b.name) :
    place classes a.name < place classes b.name
      ↔ ∀ parent, a.base = some parent →
          ¬ (place cs a.name < place cs parent ∧ place cs parent < place cs b.name) := by
  obtain ⟨delay, hdelay⟩ := exists_delay h hcs
  rw [place_lt_iff h hcs (hdelay a ha) (hdelay b hb)]
  have ha' := hdelay a ha
  have hb' := hdelay b hb
  generalize delay a = m at ha'
  generalize delay b = n at hb'
  cases ha' with
  | generic _ hnone =>
    cases hb' with
    | generic _ _ => simp [hnone, hlt]
    | child _ hsome _ => cases hnone.symm.trans (hbase.trans hsome)
  | @child _ p j _ hsome hp =>
    cases hb' with
    | generic _ hnone => cases hsome.symm.trans (hbase.trans hnone)
    | @child _ p' j' _ hsome' hp' =>
      have hname := Option.some.inj (hsome.symm.trans (hbase.trans hsome'))
      cases List.inj_on_of_nodup_map hcs hp.mem hp'.mem hname
      cases hp.unique hcs hp'
      -- no class is its own parent, so the parent stands at another place
      obtain ⟨⟨⟩, hcheck, -⟩ := bind_eq_ok.1 h
      have hother := (checkParent_eq_ok.1 (forM_eq_ok.1 hcheck a ha) _ hsome).1
      have hplace := mt (place_inj hp.mem).1 hother
      have hparent : (∀ parent, a.base = some parent →
            ¬ (place cs a.name < place cs parent ∧ place cs parent < place cs b.name))
          ↔ ¬ (place cs a.name < place cs p.name ∧ place cs p.name < place cs b.name) := by
        rw [hsome]
        simp
      rw [hparent]
      split <;> split <;> omega

end ClassDecl

-- ==================================================== documents

/-- The classes of a module stand in its program, and in what that is linked
to, as they stand in the module. Of two classes with the same parent, or
without one, the one declared first in the document comes first there as
well, unless the parent is declared between them. -/
theorem ModuleDecl.siblings_in_order {document : Json} (hdistinct : document.DistinctKeys)
    {name file time : String} {m : ModuleDecl}
    (hm : ofDocument name file time document = .ok m) :
    ∃ root, document = .object root
      ∧ (Program.ofModule m).classes.map Program.ClassDef.name = m.classNames
      ∧ (∀ before after s, (Program.ofModule m).link document before = .ok (s, after) →
          s.classes.keys = m.classNames)
      ∧ ∀ a ∈ m.classes, ∀ b ∈ m.classes, a.base = b.base →
          (classEntries root).keys.idxOf a.name < (classEntries root).keys.idxOf b.name →
          (m.classNames.idxOf a.name < m.classNames.idxOf b.name
            ↔ ∀ parent, a.base = some parent →
                ¬ ((classEntries root).keys.idxOf a.name < (classEntries root).keys.idxOf parent
                  ∧ (classEntries root).keys.idxOf parent
                    < (classEntries root).keys.idxOf b.name)) := by
  obtain ⟨root, rfl⟩ := exists_root_of_ofDocument hm
  obtain ⟨declared, hdeclared, hordered⟩ := ((ofDocument_eq_ok hdistinct.1).1 hm).classes
  have hkeys := map_name_declared hdeclared
  have hnames : (declared.map ClassDecl.name).Nodup :=
    hkeys ▸ (classEntries_distinct hdistinct).1
  have hperm := (ClassDecl.parentsFirst_ok hordered).1
  refine ⟨root, rfl, Program.names_classes_ofModule m, fun before after s hs => ?_,
    fun a ha b hb hbase hlt => ?_⟩
  · rw [(Program.keys_of_link hs).2, Program.items_ofModule, Program.classNames_items]
    rfl
  · rw [← hkeys] at hlt ⊢
    exact ClassDecl.sibling_place_lt_iff hordered hnames (hperm.subset ha) (hperm.subset hb)
      hbase hlt

namespace Sample

/-- Three children of one class, one of them declared ahead of it. -/
def siblings : Entries Json :=
  [("Left", .object [("__parent__", .str "Base")]), ("Base", .object []),
    ("Right", .object [("__parent__", .str "Base")]),
    ("Last", .object [("__parent__", .str "Base")])]

theorem distinctKeys_siblings : (Json.object siblings).DistinctKeys := by
  simp [siblings, Json.DistinctKeys, Json.DistinctKeysFields, Entries.keys]

/-- The module of the siblings has the two classes, with one parent. -/
def areSiblings (m : ModuleDecl) (first second : String) : Bool :=
  m.classes.any fun a => m.classes.any fun b =>
    a.name = first ∧ b.name = second ∧ a.base = b.base ∧ a.base = some "Base"

theorem exists_siblings {m : ModuleDecl} {first second : String}
    (h : areSiblings m first second = true) :
    ∃ a ∈ m.classes, ∃ b ∈ m.classes, a.name = first ∧ b.name = second ∧ a.base = b.base
      ∧ a.base = some "Base" := by
  obtain ⟨a, ha, h⟩ := List.any_eq_true.1 h
  obtain ⟨b, hb, h⟩ := List.any_eq_true.1 h
  exact ⟨a, ha, b, hb, of_decide_eq_true h⟩

/-- The module that the siblings declare. -/
def siblings? : Option ModuleDecl :=
  (ModuleDecl.ofDocument "m" "m.json" "now" (.object siblings)).toOption

theorem siblings?_eq_some {m : ModuleDecl} (h : siblings? = some m) :
    ModuleDecl.ofDocument "m" "m.json" "now" (.object siblings) = .ok m := by
  unfold siblings? at h
  cases hm : ModuleDecl.ofDocument "m" "m.json" "now" (.object siblings) with
  | error e =>
    rw [hm] at h
    cases h
  | ok m' =>
    rw [hm] at h
    cases h
    rfl

end Sample

/-- Of the children declared behind their parent the first stays first; the
one declared ahead of it falls behind them. -/
theorem ModuleDecl.siblings_right_before_last :
    ∃ m, ofDocument "m" "m.json" "now" (.object Sample.siblings) = .ok m
      ∧ m.classNames.idxOf "Right" < m.classNames.idxOf "Last"
      ∧ ¬ m.classNames.idxOf "Left" < m.classNames.idxOf "Right" := by
  have hcomputed : Sample.siblings?.any (fun m => Sample.areSiblings m "Right" "Last"
      && Sample.areSiblings m "Left" "Right") = true := by decide +kernel
  obtain ⟨m, hm, hpairs⟩ := (Option.any_eq_true _ _).1 hcomputed
  obtain ⟨hstay, hmove⟩ := Bool.and_eq_true_iff.1 hpairs
  have hread := Sample.siblings?_eq_some hm
  obtain ⟨_, hroot, -, -, horder⟩ := siblings_in_order Sample.distinctKeys_siblings hread
  cases hroot
  refine ⟨m, hread, ?_, ?_⟩
  · obtain ⟨a, ha, b, hb, hfirst, hsecond, hbase, hparent⟩ := Sample.exists_siblings hstay
    have hiff := horder a ha b hb hbase
    rw [hfirst, hsecond, hparent] at hiff
    refine (hiff (by decide)).2 fun parent hname => ?_
    cases hname
    decide
  · obtain ⟨a, ha, b, hb, hfirst, hsecond, hbase, hparent⟩ := Sample.exists_siblings hmove
    have hiff := horder a ha b hb hbase
    rw [hfirst, hsecond, hparent] at hiff
    exact fun hlt => (hiff (by decide)).1 hlt "Base" rfl (by decide)

/-- Siblings do not always keep the order of the document. -/
theorem ModuleDecl.sibling_overtaken :
    ∃ m a b, ofDocument "m" "m.json" "now" (.object Sample.siblings) = .ok m
      ∧ a ∈ m.classes ∧ b ∈ m.classes ∧ a.base = b.base
      ∧ (classEntries Sample.siblings).keys.idxOf a.name
        < (classEntries Sample.siblings).keys.idxOf b.name
      ∧ m.classNames.idxOf b.name < m.classNames.idxOf a.name := by
  have hcomputed : Sample.siblings?.any (fun m => Sample.areSiblings m "Left" "Right"
      && m.classNames == ["Base", "Right", "Last", "Left"]) = true := by decide +kernel
  obtain ⟨m, hm, hpair⟩ := (Option.any_eq_true _ _).1 hcomputed
  obtain ⟨hmove, hnames⟩ := Bool.and_eq_true_iff.1 hpair
  obtain ⟨a, ha, b, hb, hfirst, hsecond, hbase, -⟩ := Sample.exists_siblings hmove
  refine ⟨m, a, b, Sample.siblings?_eq_some hm, ha, hb, hbase, ?_⟩
  rw [hfirst, hsecond, eq_of_beq hnames]
  decide

end LiveDoc
