/-
What assignments during construction come to.

Construction comes down to a list of assignments, root to leaf
(`Lineage.assignments`). Making them checks each value by the class that
declares the field, and a later assignment overwrites an earlier one. So
all are made when all are accepted (`Assignment.exists_makeAll_iff`), and a
field holds what the last assignment of its name yields
(`Assignment.makeAll_last`). Whether a value is accepted does not depend on
the heap: checkers see no places (`Value.Alike`).

Which assignments there are depends on the lineage alone; the arguments of
a call only decide what is assigned (`Lineage.bare_assignments`). A call
gives its arguments to names, the positional ones to those of the
parameters from the leaf on, then the keywords (`Lineage.given`). Along the
lineage a name may stand more than once. The last assignment of a name is
made by the first class from the leaf that declares it, and so gets the
first argument that is given to the name (`Lineage.last?_argument`).
-/
import LiveDoc.Proofs.Construction
import LiveDoc.Proofs.Places
import LiveDoc.Proofs.Validation

namespace LiveDoc

-- ==================================================== checkers see no places

/-- The values differ at most in the place of one list or one dict. -/
inductive Value.Alike : Value → Value → Prop
  | refl (v : Value) : Alike v v
  | list (r r' : Ref) : Alike (.list r) (.list r')
  | dict (r r' : Ref) : Alike (.dict r) (.dict r')

namespace Value.Alike

variable {v w : Value}

/-- Of a list or a dict a checker sees only that it is one. -/
theorem checkedAlike (h : v.Alike w) : v.CheckedAlike w := by
  cases h with
  | refl v => exact ⟨rfl, rfl, rfl, rfl, fun _ => rfl, fun _ => rfl⟩
  | list r r' =>
    exact ⟨rfl, rfl, rfl, rfl, fun k => by cases k <;> rfl, fun range => by cases range <;> rfl⟩
  | dict r r' =>
    exact ⟨rfl, rfl, rfl, rfl, fun k => by cases k <;> rfl, fun range => by cases range <;> rfl⟩

/-- Checkers say the same of both. -/
theorem validate_eq (h : v.Alike w) (l : Lineage) (attr : String) :
    l.validate attr v = l.validate attr w :=
  h.checkedAlike.validate_eq rfl attr

end Value.Alike

/-- Values made of one constant are alike. -/
theorem Constant.materialize_alike (c : Constant) (h h' : Heap) :
    (c.materialize h).1.Alike (c.materialize h').1 := by
  cases c with
  | list cs => exact .list _ _
  | dict es => exact .dict _ _
  | _ => exact .refl _

-- ==================================================== making assignments

namespace Assignment

/-- The assignment without its argument. -/
def bare (a : Assignment) : Assignment := { a with argument := none }

/-- The argument is not null, if there is one. -/
def Proper (a : Assignment) : Prop := ∀ v, a.argument = some v → v.isNull = false

/-- The class that declares the parameter accepts what is assigned. -/
def Accepted (a : Assignment) : Prop :=
  ∀ h, a.declaring.validate a.param.name (a.value h).1 = .ok ()

/-- The value is what is assigned: the argument, or the default. -/
def Yields (a : Assignment) (h : Heap) (w : Value) : Prop :=
  match a.argument with
  | some v => w = v
  | none => h.Denotes w a.param.default.constant

variable {a : Assignment} {as bs : List Assignment} {fields fields' : Table Value} {h h' : Heap}

/-- An argument is assigned as it is, -/
theorem value_of_argument (ha : a.Proper) {v : Value} (hv : a.argument = some v) (h : Heap) :
    a.value h = (v, h) := by
  unfold value
  rw [hv]
  simp [ha v hv]

/-- and without one the default is made. -/
theorem value_of_default (hnone : a.argument = none) (h : Heap) :
    a.value h = a.param.default.constant.materialize h := by
  unfold value
  rw [hnone]

/-- What is assigned in another heap differs at most in its place. -/
theorem value_alike (a : Assignment) (h h' : Heap) : (a.value h).1.Alike (a.value h').1 := by
  unfold value
  cases a.argument with
  | none => exact Constant.materialize_alike _ h h'
  | some v =>
    dsimp only
    split
    · exact Constant.materialize_alike _ h h'
    · exact .refl v

/-- What is accepted in one heap is accepted in every heap. -/
theorem accepted_iff (a : Assignment) (h : Heap) :
    a.Accepted ↔ a.declaring.validate a.param.name (a.value h).1 = .ok () := by
  constructor
  · intro haccepted
    exact haccepted h
  · intro hvalid h'
    rw [(a.value_alike h' h).validate_eq]
    exact hvalid

theorem value_extends (a : Assignment) (h : Heap) : h.Extends (a.value h).2 := by
  have hdefault := (a.param.default.constant.materialize_made h).1.grown
  unfold value
  cases a.argument with
  | none => exact hdefault
  | some v =>
    dsimp only
    split
    · exact hdefault
    · exact .refl h

/-- What is assigned is the argument, or denotes the default. -/
theorem value_yields (ha : a.Proper) (h : Heap) : a.Yields (a.value h).2 (a.value h).1 := by
  unfold Yields
  cases hargument : a.argument with
  | some v => rw [value_of_argument ha hargument]
  | none =>
    rw [value_of_default hargument]
    exact (a.param.default.constant.materialize_made h).2.2

/-- It still does in a heap that has grown. -/
theorem Yields.mono {w : Value} (hw : a.Yields h w) (hext : h.Extends h') : a.Yields h' w := by
  unfold Yields at hw ⊢
  cases hargument : a.argument with
  | some v =>
    rw [hargument] at hw
    exact hw
  | none =>
    rw [hargument] at hw
    exact Heap.Denotes.mono hext hw

/-- Assignments can be made when each of them is accepted. -/
theorem exists_makeAll_iff (as : List Assignment) (fields : Table Value) (h : Heap) :
    (∃ r, makeAll as fields h = .ok r) ↔ ∀ a ∈ as, a.Accepted := by
  induction as generalizing fields h with
  | nil =>
    constructor
    · intro _ a ha
      cases ha
    · intro _
      exact ⟨(fields, h), rfl⟩
  | cons a as ih =>
    rw [List.forall_mem_cons, a.accepted_iff h, makeAll]
    cases a.declaring.validate a.param.name (a.value h).1 with
    | error e => simp
    | ok u =>
      dsimp only
      rw [ih]
      simp

/-- Making ends only where a value is refused, with what the checker says. -/
theorem exists_refused_of_makeAll {e : CallError} (hmake : makeAll as fields h = .error e) :
    ∃ a ∈ as, ∃ fault, e = .invalid fault
      ∧ ∀ h', a.declaring.validate a.param.name (a.value h').1 = .error fault := by
  induction as generalizing fields h with
  | nil => cases hmake
  | cons a as ih =>
    rw [makeAll] at hmake
    split at hmake
    case h_1 fault hrefused =>
      cases hmake
      refine ⟨a, List.mem_cons_self, fault, rfl, fun h' => ?_⟩
      rw [(a.value_alike h' h).validate_eq]
      exact hrefused
    case h_2 =>
      obtain ⟨b, hb, hrefused⟩ := ih hmake
      exact ⟨b, List.mem_cons_of_mem a hb, hrefused⟩

/-- The fields that are there afterwards, and their order, depend on names
alone. -/
theorem makeAll_keys (hnames : as.map (fun a => a.param.name) = bs.map fun b => b.param.name)
    {other other' : Table Value} {k k' : Heap} (hkeys : fields.keys = other.keys)
    (has : makeAll as fields h = .ok (fields', h')) (hbs : makeAll bs other k = .ok (other', k')) :
    fields'.keys = other'.keys := by
  induction as generalizing bs fields other h k with
  | nil =>
    cases List.map_eq_nil_iff.1 hnames.symm
    cases has
    cases hbs
    exact hkeys
  | cons a as ih =>
    obtain ⟨b, bs, rfl, hname, hrest⟩ := List.map_eq_cons_iff.1 hnames.symm
    rw [makeAll] at has hbs
    split at has
    case h_1 => cases has
    case h_2 =>
      split at hbs
      case h_1 => cases hbs
      case h_2 =>
        refine ih hrest.symm ?_ has hbs
        rw [Table.keys_insert, Table.keys_insert, hkeys, hname]

/-- The last assignment to a field. -/
def last? (as : List Assignment) (name : String) : Option Assignment :=
  as.reverse.find? fun a => a.param.name = name

/-- The last assignment of a name is looked for among the later ones first. -/
theorem last?_append (as bs : List Assignment) (name : String) :
    last? (as ++ bs) name = (last? bs name).or (last? as name) := by
  unfold last?
  rw [List.reverse_append, List.find?_append]

/-- The first assignment counts if no later one has its name. -/
theorem last?_cons (a : Assignment) (as : List Assignment) (name : String) :
    last? (a :: as) name
      = (last? as name).or (if a.param.name = name then some a else none) := by
  have happend : last? (a :: as) name = (last? as name).or (last? [a] name) :=
    last?_append [a] as name
  rw [happend]
  by_cases hname : a.param.name = name <;> simp [last?, hname]

theorem last?_some {name : String} (ha : last? as name = some a) :
    a ∈ as ∧ a.param.name = name := by
  unfold last? at ha
  exact ⟨List.mem_reverse.1 (List.mem_of_find?_eq_some ha), by simpa using List.find?_some ha⟩

/-- Which assignment is the last one for a name does not depend on
arguments. -/
theorem last?_bare (as : List Assignment) (name : String) :
    last? (as.map bare) name = (last? as name).map bare := by
  unfold last?
  rw [← List.map_reverse, List.find?_map]
  rfl

theorem last?_eq_none_iff {name : String} :
    last? as name = none ↔ name ∉ as.map fun a => a.param.name := by
  unfold last?
  simp

/-- A field holds what the last assignment to it yields; a field that none
is made to holds what it held. -/
theorem makeAll_last (hmake : makeAll as fields h = .ok (fields', h')) (name : String) :
    h.Extends h'
      ∧ (∀ a, last? as name = some a →
          ∃ w, fields'.find? name = some w ∧ (a.Proper → a.Yields h' w))
      ∧ (last? as name = none → fields'.find? name = fields.find? name) := by
  induction as generalizing fields h with
  | nil =>
    cases hmake
    exact ⟨.refl _, fun a ha => (by cases ha), fun _ => rfl⟩
  | cons a as ih =>
    rw [makeAll] at hmake
    split at hmake
    case h_1 => cases hmake
    case h_2 =>
      have hfirst := a.value_extends h
      obtain ⟨hrest, hsome, hnone⟩ := ih hmake
      rw [last?_cons]
      -- a later assignment of the name counts; without one the first is the last
      cases hlater : last? as name with
      | some b =>
        refine ⟨hfirst.trans hrest, fun c hc => ?_, fun h => (by cases h)⟩
        cases hc
        exact hsome _ hlater
      | none =>
        rw [Option.none_or, hnone hlater, Table.find?_insert]
        refine ⟨hfirst.trans hrest, fun c hc => ?_, fun hskip => ?_⟩
        · obtain ⟨hname, hc⟩ := Option.ite_none_right_eq_some.1 hc
          cases hc
          exact ⟨_, if_pos hname, fun ha => (value_yields ha h).mono hrest⟩
        · apply if_neg
          intro hname
          rw [if_pos hname] at hskip
          cases hskip

/-- A field whose last assignment has an argument holds it. -/
theorem find?_of_argument (hmake : makeAll as fields h = .ok (fields', h')) {name : String}
    (ha : last? as name = some a) (hproper : a.Proper) {v : Value} (hv : a.argument = some v) :
    fields'.find? name = some v := by
  obtain ⟨-, hsome, -⟩ := makeAll_last hmake name
  obtain ⟨w, hw, hyields⟩ := hsome a ha
  have hyield := hyields hproper
  unfold Yields at hyield
  rw [hv] at hyield
  rw [hw, hyield]

/-- One whose last assignment has none holds the default. -/
theorem exists_find?_of_default (hmake : makeAll as fields h = .ok (fields', h')) {name : String}
    (ha : last? as name = some a) (hproper : a.Proper) (hnone : a.argument = none) :
    ∃ w, fields'.find? name = some w ∧ h'.Denotes w a.param.default.constant := by
  obtain ⟨-, hsome, -⟩ := makeAll_last hmake name
  obtain ⟨w, hw, hyields⟩ := hsome a ha
  have hyield := hyields hproper
  unfold Yields at hyield
  rw [hnone] at hyield
  exact ⟨w, hw, hyield⟩

/-- The fields that are there afterwards are those that are assigned. -/
theorem makeAll_mem_keys (hmake : makeAll as ∅ h = .ok (fields', h')) {name : String} :
    name ∈ fields'.keys ↔ name ∈ as.map fun a => a.param.name := by
  obtain ⟨-, hsome, hnone⟩ := makeAll_last hmake name
  rw [← not_iff_not, ← last?_eq_none_iff, ← Table.find?_eq_none_iff]
  cases hlast : last? as name with
  | none => simp [hnone hlast]
  | some a =>
    obtain ⟨w, hw, -⟩ := hsome a hlast
    simp [hw]

end Assignment

-- ==================================================== arguments along a lineage

namespace Lineage

/-- The arguments of a call by the names that they are given to: the
positional ones by those of the parameters in order, then the keywords. -/
def given (l : Lineage) (positional : List Value) (keyword : Entries Value) : Entries Value :=
  l.paramNames.zip positional ++ keyword

variable {n : ClassNode} {d : ClassDecl} {l : Lineage} {positional : List Value}
  {keyword : Entries Value}

/-- Every keyword is taken when some class declares each. -/
theorem unknown_eq_nil_iff :
    l.unknown keyword = [] ↔ ∀ name ∈ keyword.keys, ∃ n ∈ l, n.declares name = true := by
  unfold unknown
  rw [List.filter_eq_nil_iff]
  refine forall₂_congr fun name _ => ?_
  rw [decide_eq_true_eq, taker?, List.findIdx?_eq_none_iff]
  simp

theorem given_nil (l : Lineage) (keyword : Entries Value) : l.given [] keyword = keyword := by
  unfold given
  rw [List.zip_nil_right, List.nil_append]

/-- A name is looked for among the arguments of the class itself, then among
what is left for its ancestors. -/
theorem find?_given_cons (n : ClassNode) (l : Lineage) (positional : List Value)
    (keyword : Entries Value) (name : String) :
    (given (n :: l) positional keyword).find? name
      = (Entries.find? (n.definition.paramNames.zip positional) name).or
          ((l.given (positional.drop n.params.length) keyword).find? name) := by
  have hlength : n.definition.paramNames.length = n.params.length := List.length_map _
  unfold given paramNames
  rw [List.flatMap_cons, Entries.find?_append, Entries.find?_append, Entries.find?_zip_append,
    Option.or_assoc, hlength]

/-- The assignments of a class come after those of its ancestors, each with
the argument that the class is given for the name. -/
theorem assignments_given_cons (hn : n.DeclaredBy d) (l : Lineage) (positional : List Value)
    (keyword : Entries Value) :
    assignments (n :: l) positional keyword
      = l.assignments (positional.drop n.params.length) (passedOn n keyword)
        ++ n.params.map fun p => ⟨n :: l, p,
            Entries.find? (n.definition.paramNames.zip positional ++ keyword) p.name⟩ := by
  have hnodup : (n.params.map Program.Param.name).Nodup := hn.paramNames ▸ hn.nodup
  rw [assignments_cons, ← ClassNode.map_slots_eq_assignmentsAt,
    Slot.ofPositional_eq_map hnodup, List.map_map, List.map_map]
  refine congrArg (_ ++ ·) (List.map_congr_left fun p _ => ?_)
  rw [Entries.find?_append]
  rfl

/-- The arguments of a call change nothing but arguments. -/
theorem bare_assignments (hl : l.Declared) (positional : List Value) (keyword : Entries Value) :
    (l.assignments positional keyword).map Assignment.bare = l.assignments [] [] := by
  induction l generalizing positional keyword with
  | nil => rfl
  | cons n l ih =>
    obtain ⟨⟨d, hn⟩, hl⟩ := hl.of_cons
    rw [assignments_given_cons hn, assignments_given_cons hn, List.map_append, ih hl, List.map_map,
      List.drop_nil, List.zip_nil_right]
    rfl

/-- Some class declares what is assigned, and all that some class declares
is assigned. -/
theorem mem_names_assignments (hl : l.Declared) {name : String} :
    name ∈ (l.assignments positional keyword).map (fun a => a.param.name)
      ↔ ∃ n ∈ l, n.declares name = true := by
  induction l generalizing positional keyword with
  | nil => simp [assignments]
  | cons n l ih =>
    obtain ⟨⟨d, hn⟩, hl⟩ := hl.of_cons
    rw [assignments_given_cons hn, List.map_append, List.mem_append, ih hl, List.map_map,
      List.exists_mem_cons_iff, ClassNode.declares_iff, or_comm]
    rfl

/-- The last assignment of a name gets the first argument that is given to
the name. -/
theorem last?_argument (hl : l.Declared) {name : String} {a : Assignment}
    (ha : Assignment.last? (l.assignments positional keyword) name = some a) :
    a.argument = (l.given positional keyword).find? name := by
  induction l generalizing positional keyword with
  | nil => cases ha
  | cons n l ih =>
    obtain ⟨⟨d, hn⟩, hl⟩ := hl.of_cons
    rw [assignments_given_cons hn, Assignment.last?_append] at ha
    rw [find?_given_cons]
    cases hown : Assignment.last? (n.params.map fun p => Assignment.mk (n :: l) p
        (Entries.find? (n.definition.paramNames.zip positional ++ keyword) p.name)) name with
    | some b =>
      rw [hown] at ha
      cases ha
      obtain ⟨hmem, rfl⟩ := Assignment.last?_some hown
      obtain ⟨p, hp, rfl⟩ := List.mem_map.1 hmem
      show Entries.find? _ p.name = _
      rw [Entries.find?_append]
      cases hfound : Entries.find? (n.definition.paramNames.zip positional) p.name with
      | some v => rfl
      | none =>
        -- the class has more parameters than arguments, so none are left for its ancestors
        have hdrop : positional.drop n.params.length = [] := by
          rw [List.drop_eq_nil_iff]
          by_contra hmany
          rw [Entries.find?_eq_none_iff, Entries.keys_zip, List.take_of_length_le] at hfound
          · exact hfound (List.mem_map_of_mem hp)
          · exact (List.length_map _).trans_le (Nat.le_of_not_le hmany)
        rw [hdrop, given_nil]
    | none =>
      rw [hown, Option.none_or] at ha
      rw [Assignment.last?_eq_none_iff, List.map_map] at hown
      have hnot : n.declares name = false := by
        rw [← Bool.not_eq_true, ClassNode.declares_iff]
        exact hown
      have hskip : Entries.find? (n.definition.paramNames.zip positional) name = none := by
        rw [Entries.find?_eq_none_iff, Entries.keys_zip]
        exact fun hmem => hown (List.mem_of_mem_take hmem)
      rw [ih hl ha, hskip, Option.none_or, given, given, Entries.find?_append,
        Entries.find?_append, find?_passedOn hnot]

/-- Whatever is declared has a last assignment. -/
theorem exists_last? (hl : l.Declared) {name : String} (hname : ∃ n ∈ l, n.declares name = true)
    (positional : List Value) (keyword : Entries Value) :
    ∃ a, Assignment.last? (l.assignments positional keyword) name = some a
      ∧ a.argument = (l.given positional keyword).find? name := by
  cases hlast : Assignment.last? (l.assignments positional keyword) name with
  | none => exact absurd ((mem_names_assignments hl).2 hname) (Assignment.last?_eq_none_iff.1 hlast)
  | some a => exact ⟨a, rfl, last?_argument hl hlast⟩

end Lineage

end LiveDoc
