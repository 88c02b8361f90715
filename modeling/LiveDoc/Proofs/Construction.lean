/-
Where the arguments of a constructor go.

Construction hands arguments up the lineage, class by class, and assigns
fields on the way back. What the whole of it does can be said without
following it, by the places of classes and parameters: class `i` of a
lineage takes its positional arguments from `offset i` on, a keyword goes
to the first class that declares its name (`taker?`), and all that is
assigned is a list, root to leaf (`assignments`). `Lineage.outcome` is
this account, with the refusals in their order; `Class.instantiate`
agrees with it (`Class.instantiate_eq_outcome`).

The bridge is `Lineage.outcome_cons`, which takes one class off the
account: what is left for its ancestors are the positional arguments
beyond its parameters and the keywords that it does not declare. The
number of arguments that a refusal reports is put together at the root
from what is left there, and is the number that were passed because
every class takes off as many as it adds to the count.
-/
import LiveDoc.Live.Construct
import LiveDoc.Proofs.Linking
import LiveDoc.Proofs.Slots

namespace LiveDoc

open Traversal

-- ==================================================== places

namespace Lineage

/-- How many positional arguments go to the classes before place `i`. -/
def offset (l : Lineage) (i : Nat) : Nat := paramCount (l.take i)

/-- The parameters of the class at place `i`. -/
def paramsAt (l : Lineage) (i : Nat) : List Program.Param :=
  match l[i]? with
  | some n => n.params
  | none => []

/-- The place of the first class that has a parameter of the name. -/
def taker? (l : Lineage) (name : String) : Option Nat :=
  l.findIdx? fun n => n.declares name

/-- The argument of parameter `j`, of the given name, of class `i`. -/
def argument? (l : Lineage) (positional : List Value) (keyword : Entries Value) (i j : Nat)
    (name : String) : Option Value :=
  match positional[l.offset i + j]? with
  | some v => some v
  | none => if l.taker? name = some i then keyword.find? name else none

-- ==================================================== refusals

/-- The keywords that class `i` takes for parameters that it also gets a
positional argument for. -/
def conflictsAt (l : Lineage) (positional : List Value) (keyword : Entries Value) (i : Nat) :
    List String :=
  keyword.keys.filter fun name => l.taker? name = some i
    ∧ l.offset i + ((l.paramsAt i).map Program.Param.name).idxOf name < positional.length

/-- The keywords in conflict with positional arguments, leaf to root. -/
def conflicts (l : Lineage) (positional : List Value) (keyword : Entries Value) : List String :=
  (List.range l.length).flatMap (l.conflictsAt positional keyword)

/-- The keywords that no class takes. -/
def unknown (l : Lineage) (keyword : Entries Value) : List String :=
  keyword.keys.filter fun name => l.taker? name = none

end Lineage

-- ==================================================== assignments

/-- One field to be assigned during construction. -/
structure Assignment where
  /-- the class that declares the parameter, and its ancestors -/
  declaring : Lineage
  param : Program.Param
  argument : Option Value

namespace Assignment

/-- What is assigned: the argument, or the default if there is none. Null
is no argument where the default is a list or a dict. -/
def value (a : Assignment) (h : Heap) : Value × Heap :=
  match a.argument with
  | none => a.param.default.constant.materialize h
  | some v =>
    if v.isNull && a.param.default.constant.isMutable then a.param.default.constant.materialize h
    else (v, h)

/-- Make assignments in order; the first value that is refused ends it. -/
def makeAll : List Assignment → Table Value → Heap → Except CallError (Table Value × Heap)
  | [], fields, h => .ok (fields, h)
  | a :: as, fields, h =>
    match a.declaring.validate a.param.name (a.value h).1 with
    | .error e => .error (.invalid e)
    | .ok () => makeAll as (fields.insert a.param.name (a.value h).1) (a.value h).2

/-- Assignments are made one after the other, so they may be made in two
parts. -/
theorem makeAll_append (as bs : List Assignment) (fields : Table Value) (h : Heap) :
    makeAll (as ++ bs) fields h = (makeAll as fields h >>= fun r => makeAll bs r.1 r.2) := by
  induction as generalizing fields h with
  | nil => rfl
  | cons a as ih =>
    rw [List.cons_append, makeAll, makeAll]
    split
    · rfl
    · exact ih _ _

end Assignment

namespace Lineage

/-- The fields that class `i` assigns. -/
def assignmentsAt (l : Lineage) (positional : List Value) (keyword : Entries Value) (i : Nat) :
    List Assignment :=
  (l.paramsAt i).mapIdx fun j p =>
    ⟨l.drop i, p, l.argument? positional keyword i j p.name⟩

/-- The fields that construction assigns, root to leaf. -/
def assignments (l : Lineage) (positional : List Value) (keyword : Entries Value) :
    List Assignment :=
  (List.range l.length).reverse.flatMap (l.assignmentsAt positional keyword)

/-- What construction comes to along a lineage, for an instance of `leaf`
that was passed `given` positional arguments. -/
def outcome (l : Lineage) (leaf : Class) (given : Nat) (positional : List Value)
    (keyword : Entries Value) (h : Heap) : Except CallError (Table Value × Heap) :=
  match l.conflicts positional keyword, l.unknown keyword with
  | name :: _, _ => .error (.duplicateArgument leaf.name name)
  | [], name :: _ => .error (.unexpectedArgument leaf.name name)
  | [], [] =>
    if l.paramCount < positional.length then
      .error (.tooManyArguments leaf.name leaf.paramCount given)
    else Assignment.makeAll (l.assignments positional keyword) ∅ h

-- ==================================================== taking one class off

variable {n : ClassNode} {l : Lineage} {positional : List Value} {keyword : Entries Value}

/-- A class takes its own names before its ancestors are asked. -/
theorem taker?_cons (n : ClassNode) (l : Lineage) (name : String) :
    taker? (n :: l) name
      = if n.declares name = true then some 0 else (l.taker? name).map (· + 1) := by
  unfold taker?
  rw [List.findIdx?_cons]

theorem taker?_cons_eq_zero_iff {name : String} :
    taker? (n :: l) name = some 0 ↔ n.declares name = true := by
  rw [taker?_cons]
  split
  case isTrue h => simp [h]
  case isFalse h => simp [h]

theorem taker?_cons_eq_succ_iff {name : String} {i : Nat} :
    taker? (n :: l) name = some (i + 1) ↔ n.declares name = false ∧ l.taker? name = some i := by
  rw [taker?_cons]
  split
  case isTrue h => simp [h]
  case isFalse h => simp [h]

theorem taker?_cons_eq_none_iff {name : String} :
    taker? (n :: l) name = none ↔ n.declares name = false ∧ l.taker? name = none := by
  rw [taker?_cons]
  split
  case isTrue h => simp [h]
  case isFalse h => simp [h]

/-- A class takes as many positional arguments as it has parameters, and its
parent goes on behind them. -/
theorem offset_cons_succ (n : ClassNode) (l : Lineage) (i : Nat) :
    offset (n :: l) (i + 1) = n.params.length + l.offset i := rfl

/-- The keywords that a class leaves to its ancestors. -/
def passedOn (n : ClassNode) (keyword : Entries Value) : Entries Value :=
  keyword.filter fun e => n.declares e.1 = false

/-- A class passes on the keywords that it does not declare. -/
theorem keys_passedOn (n : ClassNode) (keyword : Entries Value) :
    (passedOn n keyword).keys = keyword.keys.filter fun name => n.declares name = false := by
  unfold passedOn Entries.keys
  rw [List.filter_map]
  rfl

/-- What is passed on is passed on as it was given. -/
theorem find?_passedOn {name : String} (h : n.declares name = false) :
    (passedOn n keyword).find? name = keyword.find? name :=
  Entries.find?_filter fun _ => by simp [h]

/-- The ancestors find their arguments among what is left. -/
theorem argument?_cons_succ (i j : Nat) (name : String) :
    argument? (n :: l) positional keyword (i + 1) j name
      = l.argument? (positional.drop n.params.length) (passedOn n keyword) i j name := by
  unfold argument?
  rw [offset_cons_succ, List.getElem?_drop, Nat.add_assoc]
  split
  · rfl
  · by_cases hname : n.declares name = true
    · have hnot : ¬ taker? (n :: l) name = some (i + 1) := by
        rw [taker?_cons_eq_succ_iff, hname]
        simp
      have hnone : (passedOn n keyword).find? name = none := by
        rw [Entries.find?_eq_none_iff, keys_passedOn]
        simp [hname]
      rw [if_neg hnot, hnone]
      simp
    · rw [Bool.not_eq_true] at hname
      rw [find?_passedOn hname]
      exact if_congr (taker?_cons_eq_succ_iff.trans (and_iff_right hname)) rfl rfl

/-- The assignments of an ancestor are those it would make with what is passed
on to it. -/
theorem assignmentsAt_cons_succ (i : Nat) :
    assignmentsAt (n :: l) positional keyword (i + 1)
      = l.assignmentsAt (positional.drop n.params.length) (passedOn n keyword) i := by
  unfold assignmentsAt
  simp only [argument?_cons_succ]
  rfl

/-- Ancestors assign before the class. -/
theorem assignments_cons :
    assignments (n :: l) positional keyword
      = l.assignments (positional.drop n.params.length) (passedOn n keyword)
        ++ assignmentsAt (n :: l) positional keyword 0 := by
  unfold assignments
  rw [List.length_cons, List.range_succ_eq_map, List.reverse_cons, List.flatMap_append,
    ← List.map_reverse, List.flatMap_map]
  simp only [assignmentsAt_cons_succ, List.flatMap_cons, List.flatMap_nil, List.append_nil]

/-- The conflicts of an ancestor are seen with what is passed on to it, too. -/
theorem conflictsAt_cons_succ (i : Nat) :
    conflictsAt (n :: l) positional keyword (i + 1)
      = l.conflictsAt (positional.drop n.params.length) (passedOn n keyword) i := by
  unfold conflictsAt
  rw [keys_passedOn, List.filter_filter]
  refine List.filter_congr fun name _ => ?_
  have hplace : ∀ k : Nat, n.params.length + l.offset i + k < positional.length
      ↔ l.offset i + k < (positional.drop n.params.length).length := by
    intro k
    rw [List.length_drop]
    omega
  rw [offset_cons_succ, ← Bool.decide_and, decide_eq_decide, taker?_cons_eq_succ_iff]
  show (_ ∧ _) ∧ n.params.length + l.offset i + _ < positional.length ↔ _
  rw [hplace]
  exact and_assoc.trans and_comm

/-- But the class looks for conflicts before its ancestors do. -/
theorem conflicts_cons :
    conflicts (n :: l) positional keyword
      = conflictsAt (n :: l) positional keyword 0
        ++ l.conflicts (positional.drop n.params.length) (passedOn n keyword) := by
  unfold conflicts
  rw [List.length_cons, List.range_succ_eq_map, List.flatMap_cons, List.flatMap_map]
  simp only [conflictsAt_cons_succ]

/-- A keyword that the class declares is known. -/
theorem unknown_cons : unknown (n :: l) keyword = l.unknown (passedOn n keyword) := by
  unfold unknown
  rw [keys_passedOn, List.filter_filter]
  refine List.filter_congr fun name _ => ?_
  rw [← Bool.decide_and, decide_eq_decide, taker?_cons_eq_none_iff]
  exact and_comm

/-- The account of a class in front of its ancestors: its own conflicts
first, then all that the ancestors come to, then its own assignments. -/
theorem outcome_cons (leaf : Class) (given : Nat) (h : Heap) :
    outcome (n :: l) leaf given positional keyword h
      = match conflictsAt (n :: l) positional keyword 0 with
        | name :: _ => .error (.duplicateArgument leaf.name name)
        | [] => l.outcome leaf given (positional.drop n.params.length) (passedOn n keyword) h
            >>= fun r =>
              Assignment.makeAll (assignmentsAt (n :: l) positional keyword 0) r.1 r.2 := by
  have hcount : paramCount (n :: l) < positional.length
      ↔ l.paramCount < (positional.drop n.params.length).length := by
    rw [paramCount, List.length_drop]
    omega
  unfold outcome
  rw [conflicts_cons, unknown_cons, assignments_cons, Assignment.makeAll_append]
  simp only [hcount]
  cases conflictsAt (n :: l) positional keyword 0 with
  | cons name names => rfl
  | nil =>
    rw [List.nil_append]
    split
    · rfl
    · rfl
    · split
      · rfl
      · rfl

end Lineage

-- ==================================================== one class

/-- The defaults that have to be copied are those that come from arrays and
objects. -/
theorem Constant.isMutable_ofJson (j : Json) : (Constant.ofJson j).isMutable = j.isContainer := by
  cases j with
  | number n => cases n <;> rfl
  | _ => rfl

namespace ClassNode

variable {n : ClassNode} {d : ClassDecl} {l : Lineage} {positional : List Value}
  {keyword : Entries Value}

/-- Parameters of declared classes have copies made of their defaults
exactly when these are lists or dicts. -/
theorem DeclaredBy.slot_value (hn : n.DeclaredBy d) {s : Slot} (hs : s.param ∈ n.params)
    (l : Lineage) (h : Heap) :
    s.value h = (Assignment.mk l s.param s.argument).value h := by
  obtain ⟨p, argument⟩ := s
  rw [hn.params] at hs
  obtain ⟨a, -, rfl⟩ := List.mem_map.1 hs
  have hmutable := Constant.isMutable_ofJson a.default
  unfold Slot.value Assignment.value Program.Param.ofDecl AttributeDecl.hasMutableDefault
  dsimp only
  rw [← hmutable]
  cases hdefault : (Constant.ofJson a.default).isMutable with
  | true =>
    cases argument with
    | none => rfl
    | some v => cases v <;> simp [Program.Default.constant, Value.isNull, hdefault]
  | false =>
    cases argument with
    | none => rfl
    | some v => simp [Program.Default.constant, hdefault]

/-- Assigning slots is making their assignments. -/
theorem DeclaredBy.assign_eq_makeAll (hn : n.DeclaredBy d) (l : Lineage) {slots : List Slot}
    (hslots : ∀ s ∈ slots, s.param ∈ n.params) (fields : Table Value) (h : Heap) :
    Slot.assign l slots fields h
      = Assignment.makeAll (slots.map fun s => ⟨l, s.param, s.argument⟩) fields h := by
  induction slots generalizing fields h with
  | nil => rfl
  | cons s ss ih =>
    obtain ⟨hs, hss⟩ := List.forall_mem_cons.1 hslots
    have hrest := ih hss (fields.insert s.param.name (s.value h).1) (s.value h).2
    rw [Slot.assign, hrest, hn.slot_value hs l h]
    exact rfl

/-- The slots of a class, keywords bound, are what the class assigns. -/
theorem map_slots_eq_assignmentsAt :
    ((Slot.ofPositional n.params positional).map (Slot.withKeyword keyword)).map
        (fun s => Assignment.mk (n :: l) s.param s.argument)
      = Lineage.assignmentsAt (n :: l) positional keyword 0 := by
  rw [Slot.ofPositional_eq_mapIdx, Slot.map_mapIdx, Slot.map_mapIdx]
  refine List.mapIdx_eq_mapIdx_iff.2 fun j hj => ?_
  have hdeclares : n.declares n.params[j].name = true :=
    declares_iff.2 (List.mem_map_of_mem (List.getElem_mem hj))
  have hargument : Lineage.argument? (n :: l) positional keyword 0 j n.params[j].name
      = positional[j]?.or (keyword.find? n.params[j].name) := by
    unfold Lineage.argument?
    show (match positional[0 + j]? with | some v => some v | none => _) = _
    rw [Nat.zero_add, if_pos (Lineage.taker?_cons_eq_zero_iff.2 hdeclares)]
    cases positional[j]? <;> rfl
  show Assignment.mk (n :: l) n.params[j] (positional[j]?.or (keyword.find? n.params[j].name)) = _
  rw [← hargument]
  rfl

/-- Where binding fails is where a class has conflicts. -/
theorem conflictsAt_zero :
    Lineage.conflictsAt (n :: l) positional keyword 0
      = keyword.keys.filter (Slot.isTaken (Slot.ofPositional n.params positional)) := by
  unfold Lineage.conflictsAt
  refine List.filter_congr fun key _ => ?_
  rw [Bool.eq_iff_iff, decide_eq_true_eq, Slot.isTaken_ofPositional,
    Lineage.taker?_cons_eq_zero_iff, declares_iff]
  show _ ∧ 0 + _ < _ ↔ _
  rw [Nat.zero_add]
  rfl

/-- Binding in a declared class. -/
theorem DeclaredBy.bindKeywords_eq (hn : n.DeclaredBy d) (className : String) (l : Lineage)
    (hkeyword : keyword.keys.Nodup) :
    Slot.bindKeywords className (Slot.ofPositional n.params positional) keyword
      = match Lineage.conflictsAt (n :: l) positional keyword 0 with
        | key :: _ => .error (.duplicateArgument className key)
        | [] => .ok ((Slot.ofPositional n.params positional).map (Slot.withKeyword keyword),
            Lineage.passedOn n keyword) := by
  have hnames := Slot.map_name_ofPositional n.params positional
  have hnodup : ((Slot.ofPositional n.params positional).map Slot.name).Nodup := by
    rw [hnames, hn.paramNames]
    exact hn.nodup
  have hrest : keyword.filter
      (fun e => e.1 ∉ (Slot.ofPositional n.params positional).map Slot.name)
      = Lineage.passedOn n keyword := by
    refine List.filter_congr fun e _ => ?_
    rw [hnames, decide_eq_decide, ← Bool.not_eq_true, declares_iff]
  have hbind := Slot.bindKeywords_eq className hnodup hkeyword
  rw [hrest, ← conflictsAt_zero (l := l)] at hbind
  exact hbind

end ClassNode

-- ==================================================== the whole lineage

namespace Class

variable {l : Lineage} {positional : List Value} {keyword : Entries Value}

/-- A class without a constructor takes nothing and assigns nothing. -/
theorem outcome_cons_of_params_nil {n : ClassNode} (hn : n.params = []) (leaf : Class)
    (given : Nat) (h : Heap) :
    Lineage.outcome (n :: l) leaf given positional keyword h
      = l.outcome leaf given positional keyword h := by
  have hdeclares : ∀ name, n.declares name = false := by
    intro name
    unfold ClassNode.declares
    rw [hn]
    rfl
  have hconflicts : Lineage.conflictsAt (n :: l) positional keyword 0 = [] := by
    unfold Lineage.conflictsAt
    rw [List.filter_eq_nil_iff]
    intro name _
    simp [Lineage.taker?_cons_eq_zero_iff, hdeclares]
  have hkeyword : Lineage.passedOn n keyword = keyword := by
    unfold Lineage.passedOn
    rw [List.filter_eq_self]
    intro e _
    simp [hdeclares]
  have hassignments : Lineage.assignmentsAt (n :: l) positional keyword 0 = [] := by
    show n.params.mapIdx _ = []
    rw [hn]
    rfl
  rw [Lineage.outcome_cons, hconflicts, hkeyword, hassignments, hn]
  show (l.outcome leaf given positional keyword h >>= fun r => .ok (r.1, r.2)) = _
  cases l.outcome leaf given positional keyword h <;> rfl

/-- Handing arguments up and assigning on the way back comes to the
account by places. -/
theorem constructFields_eq_outcome (leaf : Class) (hl : l.Declared)
    (hkeyword : keyword.keys.Nodup) (h : Heap) :
    constructFields leaf l positional keyword h
      = l.outcome leaf (leaf.paramCount + (positional.length - l.paramCount))
          positional keyword h := by
  induction l generalizing positional keyword h with
  | nil =>
    unfold constructFields Lineage.outcome
    cases keyword with
    | cons e es => rfl
    | nil =>
      cases positional with
      | nil => rfl
      | cons v vs => rfl
  | cons n l ih =>
    obtain ⟨⟨d, hn⟩, hl⟩ := hl.of_cons
    -- the number that is given goes down to the ancestors as it is, so what is left
    -- over has to count the same on both sides
    have hcount : positional.length - Lineage.paramCount (n :: l)
        = (positional.drop n.params.length).length - Lineage.paramCount l := by
      rw [Lineage.paramCount, List.length_drop]
      omega
    rw [hcount, constructFields]
    split
    -- a class without an initializer passes everything on
    case h_1 hparams =>
      have hnil : n.params = [] := by
        unfold ClassNode.params
        rw [hparams]
        rfl
      rw [outcome_cons_of_params_nil hnil, hnil]
      exact ih hl hkeyword h
    case h_2 params hparams =>
      have hsome : n.params = params := by
        unfold ClassNode.params
        rw [hparams]
        rfl
      have hleft : (Lineage.passedOn n keyword).keys.Nodup := by
        rw [Lineage.keys_passedOn]
        exact hkeyword.filter _
      -- slots keep the parameters that they were made of, whatever is bound to them
      have hown : ∀ s ∈ (Slot.ofPositional n.params positional).map (Slot.withKeyword keyword),
          s.param ∈ n.params := by
        intro s hs
        obtain ⟨s', hs', rfl⟩ := List.mem_map.1 hs
        have hmem : s'.param ∈ (Slot.ofPositional n.params positional).map Slot.param :=
          List.mem_map_of_mem hs'
        rw [Slot.map_param_ofPositional] at hmem
        exact hmem
      rw [← hsome, hn.bindKeywords_eq leaf.name l hkeyword, Lineage.outcome_cons]
      split
      · rfl
      · rw [ok_bind]
        dsimp only
        rw [ih hl hleft h]
        congr 1
        funext r
        rw [← ClassNode.map_slots_eq_assignmentsAt]
        exact hn.assign_eq_makeAll (n :: l) hown r.1 r.2

/-- A class that is linked from a document is instantiated as the account
says. -/
theorem instantiate_eq_outcome {document : Json} {m : ModuleDecl} {c : Class}
    (hc : c.LinkedFrom document m) (args : Arguments) (before : Heap) :
    c.instantiate args before
      = match c.lineage.outcome c args.positional.length args.positional
          args.keyword.entries before with
        | .error e => .error e
        | .ok (fields, after) =>
          .ok (⟨c, (after.alloc (.fields fields)).1⟩, (after.alloc (.fields fields)).2) := by
  have hl : c.lineage.Declared := hc.lineage_declared
  have hgiven : c.lineage.outcome c (c.paramCount + (args.positional.length - c.paramCount))
        args.positional args.keyword.entries before
      = c.lineage.outcome c args.positional.length args.positional args.keyword.entries before := by
    by_cases hmany : c.lineage.paramCount < args.positional.length
    · have hcount : c.paramCount + (args.positional.length - c.paramCount)
          = args.positional.length := by
        unfold paramCount
        omega
      rw [hcount]
    · -- the number is reported of too many arguments only
      unfold Lineage.outcome
      rw [if_neg hmany, if_neg hmany]
  unfold instantiate
  rw [constructFields_eq_outcome c hl args.keyword.nodup]
  show (c.lineage.outcome c (c.paramCount + (args.positional.length - c.paramCount))
    args.positional args.keyword.entries before >>= _) = _
  rw [hgiven]
  cases c.lineage.outcome c args.positional.length args.positional args.keyword.entries before <;>
    rfl

/-- A keyword for a parameter that has a positional argument. -/
theorem instantiate_gauge_twice :
    ∃ (m : ModuleDecl) (c : Class), c.LinkedFrom Sample.document m
      ∧ c.lineage.conflicts [.int 7] [("tags", .null), ("level", .int 8)] = ["level"]
      ∧ c.instantiate ⟨[.int 7], .ofList [("tags", .null), ("level", .int 8)]⟩ .empty
        = .error (.duplicateArgument "Gauge" "level") := by
  obtain ⟨m, c, hc, hq⟩ := Sample.exists_linkedFrom_of_any "Gauge"
    (fun c => c.name = "Gauge"
      ∧ c.lineage.conflicts [.int 7] [("tags", .null), ("level", .int 8)] = ["level"])
    (by decide +kernel)
  obtain ⟨hname, hconflicts⟩ := of_decide_eq_true hq
  refine ⟨m, c, hc, hconflicts, ?_⟩
  have hentries : (Table.ofList [("tags", Value.null), ("level", .int 8)]).entries
      = [("tags", .null), ("level", .int 8)] := rfl
  have houtcome : c.lineage.outcome c 1 [.int 7]
        (Table.ofList [("tags", .null), ("level", .int 8)]).entries .empty
      = .error (.duplicateArgument "Gauge" "level") := by
    unfold Lineage.outcome
    rw [hentries, hconflicts, hname]
  rw [instantiate_eq_outcome hc]
  simp only [List.length_singleton, houtcome]

end Class

end LiveDoc
