/-
Which arguments reach a field.

A call gives its arguments to names: the positional ones to those of the
parameters from the leaf on, then the keywords (`Lineage.given`). A field
holds the first argument that is given to its name
(`Lineage.find?_given_of_outcome`). So all arguments reach a field each
when no name is given two, and of several for one name only the first does.

A call is refused when a keyword and a positional argument are for one name
(`Lineage.mem_conflicts_iff`). It is not when two positional arguments are:
a class that declares an attribute of an ancestor again has the name among
its parameters twice, and takes an argument for both. What remains is a
condition on the parameters that positional arguments go to
(`Class.arguments_reach_fields`).
-/
import LiveDoc.Proofs.Assignments
import LiveDoc.Proofs.Evolution

namespace LiveDoc

-- ==================================================== names given twice

namespace Lineage

variable {l : Lineage} {positional : List Value} {keyword : Entries Value} {h : Heap}

theorem keys_given (l : Lineage) (positional : List Value) (keyword : Entries Value) :
    (l.given positional keyword).keys
      = l.paramNames.take positional.length ++ keyword.keys := by
  rw [← Entries.keys_zip]
  exact List.map_append

/-- A parameter has a positional argument when it stands among as many
parameters as there are arguments. -/
theorem mem_conflictsAt_zero_iff {n : ClassNode} {name : String} :
    name ∈ conflictsAt (n :: l) positional keyword 0
      ↔ name ∈ keyword.keys ∧ name ∈ n.definition.paramNames.take positional.length := by
  rw [ClassNode.conflictsAt_zero, List.mem_filter, Slot.isTaken_ofPositional]
  refine and_congr_right fun _ => ?_
  constructor
  · rintro ⟨hmem, hidx⟩
    exact (List.mem_take_iff_idxOf_lt hmem).2 hidx
  · intro htake
    have hmem := List.mem_of_mem_take htake
    exact ⟨hmem, (List.mem_take_iff_idxOf_lt hmem).1 htake⟩

/-- Keywords are in conflict with positional arguments exactly where both
are given to one name. -/
theorem mem_conflicts_iff {name : String} :
    name ∈ l.conflicts positional keyword
      ↔ name ∈ keyword.keys ∧ name ∈ l.paramNames.take positional.length := by
  induction l generalizing positional keyword with
  | nil => simp [conflicts, paramNames]
  | cons n l ih =>
    have hlength : n.definition.paramNames.length = n.params.length := List.length_map _
    have htake : paramNames (n :: l) = n.definition.paramNames ++ paramNames l := rfl
    rw [conflicts_cons, List.mem_append, mem_conflictsAt_zero_iff, ih, keys_passedOn,
      List.mem_filter, List.length_drop, htake, List.take_append, List.mem_append, hlength]
    simp only [decide_eq_true_eq]
    constructor
    · rintro (⟨hkey, hown⟩ | ⟨⟨hkey, -⟩, hrest⟩)
      · exact ⟨hkey, .inl hown⟩
      · exact ⟨hkey, .inr hrest⟩
    · rintro ⟨hkey, hown | hrest⟩
      · exact .inl ⟨hkey, hown⟩
      · cases hdeclares : n.declares name with
        | false => exact .inr ⟨⟨hkey, rfl⟩, hrest⟩
        | true =>
          -- all parameters of the class have arguments when some are left
          have hleft : n.params.length ≤ positional.length := by
            by_contra hfew
            rw [Nat.sub_eq_zero_of_le (Nat.le_of_not_le hfew)] at hrest
            cases hrest
          rw [List.take_of_length_le (hlength.trans_le hleft)]
          exact .inl ⟨hkey, ClassNode.declares_iff.1 hdeclares⟩

/-- Without conflicts only the parameters that positional arguments go to can
have a name twice. -/
theorem nodup_keys_given_iff (hconflicts : l.conflicts positional keyword = [])
    (hkeyword : keyword.keys.Nodup) :
    (l.given positional keyword).keys.Nodup ↔ (l.paramNames.take positional.length).Nodup := by
  have hdisjoint : ∀ name ∈ l.paramNames.take positional.length,
      ∀ key ∈ keyword.keys, name ≠ key := by
    rintro name hname key hkey rfl
    have hmem := mem_conflicts_iff.2 ⟨hkey, hname⟩
    rw [hconflicts] at hmem
    cases hmem
  rw [keys_given, List.nodup_append]
  constructor
  · intro hgiven
    exact hgiven.1
  · intro hparams
    exact ⟨hparams, hkeyword, hdisjoint⟩

-- ==================================================== calls that succeed

/-- A call succeeds when no argument is refused and all values are
accepted. -/
theorem outcome_eq_ok {leaf : Class} {count : Nat} {r : Table Value × Heap} :
    l.outcome leaf count positional keyword h = .ok r
      ↔ l.conflicts positional keyword = [] ∧ l.unknown keyword = []
        ∧ positional.length ≤ l.paramCount
        ∧ Assignment.makeAll (l.assignments positional keyword) ∅ h = .ok r := by
  unfold outcome
  cases l.conflicts positional keyword with
  | cons name names => simp
  | nil =>
    cases l.unknown keyword with
    | cons name names => simp
    | nil =>
      dsimp only
      split
      case isTrue hmany => simp [Nat.not_le_of_lt hmany]
      case isFalse hfew => simp [Nat.le_of_not_lt hfew]

/-- A call reports an argument given twice exactly when there are
conflicts. -/
theorem exists_outcome_eq_duplicate_iff {leaf : Class} {count : Nat} :
    (∃ name, l.outcome leaf count positional keyword h
        = .error (.duplicateArgument leaf.name name))
      ↔ ∃ name, name ∈ l.conflicts positional keyword := by
  unfold outcome
  cases l.conflicts positional keyword with
  | cons name names => simp
  | nil =>
    cases l.unknown keyword with
    | cons name names => simp
    | nil =>
      dsimp only
      split
      case isTrue => simp
      case isFalse =>
        simp only [List.not_mem_nil, exists_false, iff_false, not_exists]
        intro name hmake
        obtain ⟨_, -, _, hfault, -⟩ := Assignment.exists_refused_of_makeAll hmake
        cases hfault

/-- Every name that an argument is given to is a parameter. -/
theorem exists_declares_of_given (hunknown : l.unknown keyword = []) {name : String}
    (hname : name ∈ (l.given positional keyword).keys) : ∃ n ∈ l, n.declares name = true := by
  rw [keys_given, List.mem_append] at hname
  rcases hname with hparam | hkeyword
  · exact mem_paramNames.1 (List.mem_of_mem_take hparam)
  · exact unknown_eq_nil_iff.1 hunknown name hkeyword

/-- Where all is accepted a field holds the first argument that is given to
its name, unless that is null. -/
theorem find?_given_of_outcome (hl : l.Declared) (hunknown : l.unknown keyword = [])
    {fields : Table Value} {after : Heap}
    (hmake : Assignment.makeAll (l.assignments positional keyword) ∅ h = .ok (fields, after))
    {name : String} {v : Value} (hv : (l.given positional keyword).find? name = some v)
    (hnull : v.isNull = false) : fields.find? name = some v := by
  have hname := exists_declares_of_given hunknown (List.mem_map_of_mem (Entries.mem_of_find? hv))
  obtain ⟨a, hlast, hargument⟩ := exists_last? hl hname positional keyword
  rw [hv] at hargument
  have hproper : a.Proper := by
    intro w hw
    rw [hargument] at hw
    cases hw
    exact hnull
  exact Assignment.find?_of_argument hmake hlast hproper hargument

end Lineage

-- ==================================================== arguments of a call

namespace Class

variable {document : Json} {m : ModuleDecl} {c : Class}

/-- A call is refused for an argument that is given twice exactly when a
keyword and a positional argument are given to one name. -/
theorem exists_duplicateArgument_iff (hc : c.LinkedFrom document m) (args : Arguments) (h : Heap) :
    (∃ name, c.instantiate args h = .error (.duplicateArgument c.name name))
      ↔ ∃ name ∈ args.keyword.keys, name ∈ c.lineage.paramNames.take args.positional.length := by
  have hrefused := @Lineage.exists_outcome_eq_duplicate_iff c.lineage args.positional
    args.keyword.entries h c args.positional.length
  simp only [Lineage.mem_conflicts_iff] at hrefused
  rw [instantiate_eq_outcome hc]
  refine Iff.trans (exists_congr fun name => ?_) hrefused
  cases c.lineage.outcome c args.positional.length args.positional args.keyword.entries h with
  | error e => simp
  | ok r => simp

/-- A call that succeeds has no conflicts, no unknown keywords and not too
many arguments, and leaves the fields that the assignments make. -/
theorem exists_makeAll_of_instantiate (hc : c.LinkedFrom document m) {args : Arguments}
    {h made : Heap} {i : Instance} (hi : c.instantiate args h = .ok (i, made)) :
    c.lineage.conflicts args.positional args.keyword.entries = []
      ∧ c.lineage.unknown args.keyword.entries = []
      ∧ args.positional.length ≤ c.lineage.paramCount
      ∧ ∃ after, Assignment.makeAll (c.lineage.assignments args.positional args.keyword.entries)
          ∅ h = .ok (made.table i.fields, after) := by
  rw [instantiate_eq_outcome hc] at hi
  split at hi
  case h_1 => cases hi
  case h_2 fields after houtcome =>
    cases hi
    obtain ⟨hconflicts, hunknown, hfew, hmake⟩ := Lineage.outcome_eq_ok.1 houtcome
    have hfields : (after.alloc (.fields fields)).2.table after.size = fields :=
      Heap.table_of_fields (Heap.getElem?_alloc_self after _)
    exact ⟨hconflicts, hunknown, hfew, after, hfields.symm ▸ hmake⟩

/-- A call that has a keyword and a positional argument for one name is
refused. Where a call succeeds, every argument is given to a name, and a field
holds the first argument that is given to its name, if that is not null. So
arguments that are not null are all held, each by a field of its own, when the
parameters that the positional arguments go to have different names. Where two
have the same name, the call does not tell, and the later argument is lost. -/
theorem arguments_reach_fields (hc : c.LinkedFrom document m) (args : Arguments) (h : Heap) :
    ((∃ name, c.instantiate args h = .error (.duplicateArgument c.name name))
        ↔ ∃ name ∈ args.keyword.keys, name ∈ c.lineage.paramNames.take args.positional.length)
      ∧ ∀ i made, c.instantiate args h = .ok (i, made) →
        (c.lineage.given args.positional args.keyword.entries).length
            = args.positional.length + args.keyword.size
          ∧ (∀ name v, (c.lineage.given args.positional args.keyword.entries).find? name = some v →
              v.isNull = false → (made.table i.fields).find? name = some v)
          ∧ ((c.lineage.given args.positional args.keyword.entries).keys.Nodup
              ↔ (c.lineage.paramNames.take args.positional.length).Nodup)
          ∧ ((c.lineage.paramNames.take args.positional.length).Nodup →
              ∀ e ∈ c.lineage.given args.positional args.keyword.entries, e.2.isNull = false →
                (made.table i.fields).find? e.1 = some e.2) := by
  refine ⟨exists_duplicateArgument_iff hc args h, fun i made hi => ?_⟩
  obtain ⟨hconflicts, hunknown, hfew, after, hmake⟩ := exists_makeAll_of_instantiate hc hi
  have hkept : ∀ name v,
      (c.lineage.given args.positional args.keyword.entries).find? name = some v →
        v.isNull = false → (made.table i.fields).find? name = some v :=
    fun name v => Lineage.find?_given_of_outcome hc.lineage_declared hunknown hmake
  have hnodup := Lineage.nodup_keys_given_iff hconflicts args.keyword.nodup
  refine ⟨?_, hkept, hnodup, fun hparams e he => ?_⟩
  · rw [← Lineage.length_paramNames] at hfew
    rw [Lineage.given, List.length_append, List.length_zip, Nat.min_eq_right hfew]
    rfl
  · exact hkept e.1 e.2 (Entries.find?_of_mem (hnodup.2 hparams) he)

end Class

namespace Sample

/-- A class that declares the attribute of its parent again. -/
def redeclaring : Json :=
  .object [
    ("Base", .object [("a", .number (.int 1))]),
    ("Derived", .object [("__parent__", .str "Base"), ("a", .number (.int 2))])]

theorem distinctKeys_redeclaring : redeclaring.DistinctKeys := by
  simp [redeclaring, Json.DistinctKeys, Json.DistinctKeysFields, Entries.keys]

/-- Some field holds the integer. -/
def holds (fields : Table Value) (k : Int64) : Bool :=
  fields.entries.any fun e =>
    match e.2 with
    | .int k' => k' = k
    | _ => false

theorem holds_of_find? {fields : Table Value} {name : String} {k : Int64}
    (hv : fields.find? name = some (.int k)) : holds fields k = true :=
  List.any_eq_true.2 ⟨_, Table.find?_eq_some_iff.1 hv, decide_eq_true rfl⟩

/-- Arguments for the two parameters of a class and the first of its root. -/
def readingAndLabel : Arguments := ⟨[.int 7, .str "mbar", .str "x"], .ofList [("tags", .null)]⟩

end Sample

/-- Three positional arguments, for parameters of different names of two
classes. -/
theorem Class.gauge_arguments_reach_fields :
    ∃ (m : ModuleDecl) (c : Class) (i : Instance) (made : Heap), c.LinkedFrom Sample.document m
      ∧ c.instantiate Sample.readingAndLabel .empty = .ok (i, made)
      ∧ (made.table i.fields).find? "level" = some (.int 7)
      ∧ (made.table i.fields).find? "unit" = some (.str "mbar")
      ∧ (made.table i.fields).find? "label" = some (.str "x") := by
  obtain ⟨m, c, hc, hq⟩ := Sample.exists_linkedFrom_of_any "Gauge"
    (fun c => (c.instantiate Sample.readingAndLabel .empty).isOk
      ∧ c.lineage.paramNames = ["level", "unit", "label", "level", "tags"])
    (by decide +kernel)
  obtain ⟨hok, hparams⟩ := of_decide_eq_true hq
  cases hresult : c.instantiate Sample.readingAndLabel .empty with
  | error e =>
    rw [hresult] at hok
    cases hok
  | ok r =>
    obtain ⟨i, made⟩ := r
    obtain ⟨-, hsuccess⟩ := arguments_reach_fields hc Sample.readingAndLabel .empty
    obtain ⟨-, -, -, hall⟩ := hsuccess i made hresult
    rw [Lineage.given, hparams] at hall
    have hkept := hall (by decide)
    refine ⟨m, c, i, made, hc, hresult, ?_, ?_, ?_⟩
    · exact hkept ("level", .int 7) (.head _) rfl
    · exact hkept ("unit", .str "mbar") (.tail _ (.head _)) rfl
    · exact hkept ("label", .str "x") (.tail _ (.tail _ (.head _))) rfl

/-- Two arguments for an attribute that is declared twice: the call succeeds,
and no field holds the second. -/
theorem Class.second_argument_lost :
    ∃ (m : ModuleDecl) (c : Class) (i : Instance) (made : Heap),
      c.LinkedFrom Sample.redeclaring m ∧ c.name = "Derived"
      ∧ c.instantiate ⟨[.int 10, .int 20], ∅⟩ .empty = .ok (i, made)
      ∧ ∀ name, (made.table i.fields).find? name ≠ some (.int 20) := by
  obtain ⟨m, c, h, hc, -, hq⟩ := Sample.exists_liveIn_of_any Sample.distinctKeys_redeclaring
    "Derived"
    (fun p => p.1.name = "Derived"
      ∧ (p.1.instantiate ⟨[.int 10, .int 20], ∅⟩ .empty).toOption.any fun made =>
          !Sample.holds (made.2.table made.1.fields) 20)
    (by decide +kernel)
  obtain ⟨hname, hmade⟩ := of_decide_eq_true hq
  obtain ⟨⟨i, made⟩, hsome, hnot⟩ := (Option.any_eq_true _ _).1 hmade
  cases hresult : c.instantiate ⟨[.int 10, .int 20], ∅⟩ .empty with
  | error e =>
    rw [hresult] at hsome
    cases hsome
  | ok r =>
    rw [hresult] at hsome
    cases hsome
    refine ⟨m, c, i, made, hc.linkedFrom, hname, hresult, fun name hheld => ?_⟩
    rw [Sample.holds_of_find? hheld] at hnot
    cases hnot

end LiveDoc
