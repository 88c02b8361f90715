/-
What a constraint entry means.

An entry goes through three stages before it decides about a value. It is
read into constraints, the constraints become steps of a checker, and the
steps are run, two of which may end the run early. What this comes to is
said here of the entry alone: which values it admits (`Admits`) and how it
refuses the others (`Refuses`), rule by rule, in the order null, kind,
comparability, range, each rule asked for only where those before it are
met.

In between stands `Demands`, all of an entry that matters for a value. The
stages are followed once, down to the verdict that the demands give
(`exists_demands`); from there the two accounts of the entry are compared
with the verdict case by case. Demands are looked up by name and nothing
else is looked up, which is why neither the order of an entry nor its other
names make a difference (`demands_eq`).
-/
import LiveDoc.Proofs.NominalKinds
import LiveDoc.Proofs.WellFormed

namespace LiveDoc

open Traversal

-- ==================================================== kinds by name

namespace Value

/-- The names of the builtin kinds that a value is of. Truth values and
integers stand for each other, and both for doubles. -/
def builtinKinds : Value → List String
  | .bool _ => ["bool", "int", "float"]
  | .int _ => ["bool", "int", "float"]
  | .float _ => ["float"]
  | .str _ => ["str"]
  | .list _ => ["list"]
  | .dict _ => ["dict"]
  | _ => []

/-- The value is of the kind that a name stands for among classes: an
instance of a class that has the name in its lineage, if a class has the
name, and else of the builtin kind. -/
def OfKindNamed (classNames : List String) (name : String) (v : Value) : Prop :=
  if name ∈ classNames then ∃ i, v = .inst i ∧ ∃ n ∈ i.ofClass.lineage, n.name = name
  else name ∈ v.builtinKinds

/-- The value is a list or a dict. -/
def IsContainer (v : Value) : Prop := (∃ r, v = .list r) ∨ ∃ r, v = .dict r

/-- The value is a truth value, an integer or a double. -/
def IsNumeric (v : Value) : Prop := (∃ b, v = .bool b) ∨ (∃ i, v = .int i) ∨ ∃ x, v = .float x

variable {v : Value}

theorem isNull_iff : v.isNull = true ↔ v = .null := by
  cases v <;> simp [isNull]

theorem isCollection_iff : v.isCollection = true ↔ v.IsContainer := by
  cases v <;> simp [isCollection, IsContainer]

/-- Values without a number are those that are not numeric. -/
theorem isNone_number?_iff : v.number?.isNone = true ↔ ¬ v.IsNumeric := by
  cases v <;> simp [number?, IsNumeric]

/-- No value is both. -/
theorem not_isContainer_of_isNumeric (h : v.IsNumeric) : ¬ v.IsContainer := by
  cases v <;> simp [IsNumeric, IsContainer] at h ⊢

end Value

namespace Kind

/-- What a builtin kind accepts. -/
theorem accepts_builtin_iff {name : String} {k : Kind} (hk : builtin? name = some k) (v : Value) :
    k.accepts v = true ↔ name ∈ v.builtinKinds := by
  have hname : k.name = name := by simpa using List.find?_some hk
  have hmem := List.mem_of_find?_eq_some hk
  subst hname
  simp only [List.mem_cons, List.not_mem_nil, or_false] at hmem
  rcases hmem with rfl | rfl | rfl | rfl | rfl | rfl <;> cases v <;>
    simp [accepts, Value.builtinKinds, Kind.name]

/-- What the kind of a name accepts. -/
theorem accepts_iff_ofKindNamed {classNames : List String} {name : String} {k : Kind}
    (hk : resolve? name classNames = some k) (v : Value) :
    k.accepts v = true ↔ v.OfKindNamed classNames name := by
  unfold resolve? at hk
  unfold Value.OfKindNamed
  by_cases hname : name ∈ classNames
  · rw [if_pos hname] at hk ⊢
    cases hk
    have hlineage : ∀ i : Instance, i.ofClass.isSubclassOf name = true
        ↔ ∃ n ∈ i.ofClass.lineage, n.name = name := by
      intro i
      simp [Class.isSubclassOf, Lineage.hasName]
    cases v with
    | inst i =>
      show i.ofClass.isSubclassOf name = true ↔ _
      rw [hlineage]
      exact ⟨fun h => ⟨i, rfl, h⟩, fun ⟨_, hi, h⟩ => by cases hi; exact h⟩
    | _ => exact ⟨fun h => (by cases h), fun ⟨_, hi, _⟩ => (by cases hi)⟩
  · rw [if_neg hname] at hk ⊢
    exact accepts_builtin_iff hk v

end Kind

-- ==================================================== what an entry says

namespace Constraints

/-- The fields of an entry; what is no object has none. -/
def fieldsOf (entry : Json) : Entries Json := entry.fields?.getD []

/-- The entry refuses null. -/
def RefusesNull (fields : Entries Json) : Prop := fields.find? "not_none" = some (.bool true)

/-- The value is of the kind that the entry asks for, if it asks for one. -/
def KindMet (classNames : List String) (fields : Entries Json) (v : Value) : Prop :=
  ∀ name, fields.find? "type" = some (.str name) → v.OfKindNamed classNames name

/-- The entry has a bound under the name. -/
def HasBound (fields : Entries Json) (key : String) (b : Bound) : Prop :=
  ∃ n, fields.find? key = some (.number n) ∧ b = .ofNumber n

/-- The range between the bounds of an entry. -/
inductive HasRange (fields : Entries Json) : Range → Prop
  | between {min max : Bound} (lower : HasBound fields "min" min)
      (upper : HasBound fields "max" max) : HasRange fields (.between min max)
  | atLeast {min : Bound} (lower : HasBound fields "min" min)
      (upper : fields.find? "max" = none) : HasRange fields (.atLeast min)
  | atMost {max : Bound} (lower : fields.find? "min" = none)
      (upper : HasBound fields "max" max) : HasRange fields (.atMost max)

/-- The value is strictly beyond neither bound. -/
def InBounds (fields : Entries Json) (v : Value) : Prop :=
  (∀ b, HasBound fields "min" b → b.isAbove v = false)
    ∧ ∀ b, HasBound fields "max" b → b.isBelow v = false

/-- The values that a non-empty entry admits. -/
inductive AdmitsBy (classNames : List String) (fields : Entries Json) : Value → Prop
  | null (allowed : ¬ RefusesNull fields) : AdmitsBy classNames fields .null
  | value {v : Value} (present : v ≠ .null) (kind : KindMet classNames fields v)
      (range : (∃ r, HasRange fields r) → v.IsContainer ∨ (v.IsNumeric ∧ InBounds fields v)) :
      AdmitsBy classNames fields v

/-- The values that an entry admits. What is no object admits all, and so
does an empty one. -/
def Admits (classNames : List String) (entry : Json) (v : Value) : Prop :=
  match entry with
  | .object (f :: fs) => AdmitsBy classNames (f :: fs) v
  | _ => True

/-- How an entry refuses a value for an attribute: by the first rule that
the value breaks. -/
inductive Refuses (classNames : List String) (attr : String) (fields : Entries Json) :
    Value → ValidationError → Prop
  | null (refused : RefusesNull fields) : Refuses classNames attr fields .null (.nullRefused attr)
  | kind {v : Value} {name : String} {k : Kind} (present : v ≠ .null)
      (asked : fields.find? "type" = some (.str name))
      (named : Kind.resolve? name classNames = some k) (broken : ¬ v.OfKindNamed classNames name) :
      Refuses classNames attr fields v (.wrongKind attr k v.kindName)
  | comparability {v : Value} {r : Range} (present : v ≠ .null)
      (kind : KindMet classNames fields v) (asked : HasRange fields r) (single : ¬ v.IsContainer)
      (broken : ¬ v.IsNumeric) :
      Refuses classNames attr fields v (.notComparable attr v.kindName)
  | range {v : Value} {r : Range} (present : v ≠ .null) (kind : KindMet classNames fields v)
      (asked : HasRange fields r) (comparable : v.IsNumeric) (broken : ¬ InBounds fields v) :
      Refuses classNames attr fields v (.outOfRange attr r)

/-- The names whose values decide about values. -/
def ruleNames : List String := ["not_none", "type", "min", "max"]

/-- Two lists of fields have the same rules, in whatever order and among
whatever other names. -/
structure SameRules (fields fields' : Entries Json) : Prop where
  nodup : fields.keys.Nodup
  nodup' : fields'.keys.Nodup
  rules : (fields'.filter fun f => f.1 ∈ ruleNames).Perm (fields.filter fun f => f.1 ∈ ruleNames)

-- ==================================================== demands

/-- What an entry demands of values. -/
structure Demands where
  notNull : Bool
  kind : Option Kind
  range : Option Range

/-- What the fields of an entry demand. -/
def demands (classNames : List String) (fields : Entries Json) : Except ConstraintFault Demands := do
  let notNull ← flag fields "not_none"
  let kind ← kind? fields classNames
  let min ← bound? fields "min"
  let max ← bound? fields "max"
  return ⟨notNull, kind, Range.ofEnds? min max⟩

namespace Demands

/-- What the demand for a kind says of a value. -/
def kindVerdict (attr : String) (v : Value) : Option Kind → Except ValidationError Unit
  | none => .ok ()
  | some k => if k.accepts v then .ok () else .error (.wrongKind attr k v.kindName)

/-- What the demand for a range says of a value. -/
def rangeVerdict (attr : String) (v : Value) : Option Range → Except ValidationError Unit
  | none => .ok ()
  | some r =>
    if v.isCollection then .ok ()
    else if v.number?.isNone then .error (.notComparable attr v.kindName)
    else if r.excludes v then .error (.outOfRange attr r)
    else .ok ()

/-- What demands say of a value. -/
def verdict (d : Demands) (attr : String) (v : Value) : Except ValidationError Unit :=
  if v.isNull then if d.notNull then .error (.nullRefused attr) else .ok ()
  else kindVerdict attr v d.kind >>= fun _ => rangeVerdict attr v d.range

end Demands

variable {classNames : List String} {fields fields' : Entries Json} {entry : Json}
  {cs : Constraints} {attr : String} {v : Value} {base : Except ValidationError Unit}

-- ==================================================== from the entry to the verdict

/-- The step for null decides about null and passes on everything else. -/
theorem run_null (notNull : Bool) (rest : List Check) :
    Check.run attr v base ((if notNull then .rejectNull else .acceptNull) :: rest)
      = if v.isNull then if notNull then .error (.nullRefused attr) else .ok ()
        else Check.run attr v base rest := by
  cases notNull <;> rfl

/-- The steps for a kind come to its verdict, and then the rest is run. -/
theorem run_kind (kind : Option Kind) (rest : List Check) :
    Check.run attr v base ((kind.map Constraint.kind).toList.flatMap Constraint.checks ++ rest)
      = (Demands.kindVerdict attr v kind >>= fun _ => Check.run attr v base rest) := by
  cases kind with
  | none => rfl
  | some k =>
    show (if k.accepts v then Check.run attr v base rest else .error (.wrongKind attr k v.kindName))
      = ((if k.accepts v then .ok () else .error (.wrongKind attr k v.kindName)) >>= fun _ =>
          Check.run attr v base rest)
    split <;> rfl

/-- The steps for a range come to its verdict and end the run. -/
theorem run_range (range : Option Range) :
    Check.run attr v base ((range.map Constraint.range).toList.flatMap Constraint.checks)
      = Demands.rangeVerdict attr v range := by
  cases range <;> rfl

/-- Non-empty entries are read as their demands, and the checker's own steps
give the verdict of these. -/
theorem exists_demands_of_fields (h : ofFields classNames fields = .ok cs) :
    ∃ d, demands classNames fields = .ok d
      ∧ ∀ attr v base, Check.run attr v base cs.ownChecks = d.verdict attr v := by
  obtain ⟨readOnly, notNull, kind, min, max, hnotNull, hkind, hmin, hmax, rfl⟩ := ofFields_eq_ok h
  refine ⟨⟨notNull, kind, Range.ofEnds? min max⟩, ?_, fun attr v base => ?_⟩
  · unfold demands
    rw [hnotNull, ok_bind, hkind, ok_bind, hmin, ok_bind, hmax]
    rfl
  · rw [ownChecks_assembled, run_null, run_kind, run_range]
    rfl

/-- So are all entries. -/
theorem exists_demands (h : ofEntry classNames entry = .ok cs) :
    ∃ d, demands classNames (fieldsOf entry) = .ok d
      ∧ ∀ attr v base, Check.run attr v base cs.ownChecks = d.verdict attr v := by
  have hempty : ∀ attr v (base : Except ValidationError Unit), Check.run attr v base []
      = (⟨false, none, none⟩ : Demands).verdict attr v := by
    intro attr v base
    unfold Demands.verdict
    split <;> rfl
  cases entry with
  | object fields =>
    cases fields with
    | nil =>
      cases h
      exact ⟨_, rfl, hempty⟩
    | cons f fs => exact exists_demands_of_fields h
  | _ =>
    cases h
    exact ⟨_, rfl, hempty⟩

-- ==================================================== from the verdict to the account

/-- What demands come from. -/
structure Demands.Of (classNames : List String) (fields : Entries Json) (d : Demands) : Prop where
  notNull : d.notNull = true ↔ RefusesNull fields
  kind : ∀ k, d.kind = some k ↔ ∃ name, fields.find? "type" = some (.str name)
    ∧ Kind.resolve? name classNames = some k
  anyKind : d.kind = none → fields.find? "type" = none
  range : ∀ r, d.range = some r ↔ HasRange fields r

theorem flag_eq_ok {key : String} {b : Bool} (h : flag fields key = .ok b) :
    b = true ↔ fields.find? key = some (.bool true) := by
  unfold flag at h
  split at h
  case h_1 hnone =>
    cases h
    rw [hnone]
    exact ⟨fun h => (by cases h), fun h => (by cases h)⟩
  case h_2 b' hb =>
    cases h
    rw [hb, Option.some.injEq, Json.bool.injEq]
  case h_3 => cases h

/-- The kind that is read is the one that the name under `type` stands for. -/
theorem kind?_eq_ok {kind : Option Kind} (h : kind? fields classNames = .ok kind) :
    (∀ k, kind = some k ↔ ∃ name, fields.find? "type" = some (.str name)
      ∧ Kind.resolve? name classNames = some k)
      ∧ (kind = none → fields.find? "type" = none) := by
  unfold kind? at h
  split at h
  case h_1 hnone =>
    cases h
    rw [hnone]
    exact ⟨fun k => ⟨fun h => (by cases h), fun ⟨_, h, _⟩ => (by cases h)⟩, fun _ => rfl⟩
  case h_2 name hname =>
    split at h
    case h_2 => cases h
    case h_1 k' hk' =>
      cases h
      refine ⟨fun k => ⟨fun h => ⟨name, hname, hk'.trans h⟩, ?_⟩, fun h => (by cases h)⟩
      intro hk
      obtain ⟨name', hname', hk⟩ := hk
      rw [hname] at hname'
      cases hname'
      exact hk'.symm.trans hk
  case h_3 => cases h

/-- A bound that is read is the one under its name. -/
theorem bound?_eq_ok {key : String} {b : Option Bound} (h : bound? fields key = .ok b) :
    (∀ x, b = some x ↔ HasBound fields key x) ∧ (b = none ↔ fields.find? key = none) := by
  unfold bound? at h
  unfold HasBound
  split at h
  case h_1 hnone =>
    cases h
    rw [hnone]
    exact ⟨fun x => ⟨fun h => (by cases h), fun ⟨_, h, _⟩ => (by cases h)⟩,
      fun _ => rfl, fun _ => rfl⟩
  case h_2 n hn =>
    cases h
    rw [hn]
    refine ⟨fun x => ⟨fun h => ⟨n, rfl, (Option.some.inj h).symm⟩, ?_⟩,
      fun h => (by cases h), fun h => (by cases h)⟩
    intro hx
    obtain ⟨n', hn', rfl⟩ := hx
    cases hn'
    rfl
  case h_3 => cases h

/-- The range that the bounds make has the ends that the entry has. -/
theorem ofEnds?_eq_some_iff {min max : Option Bound} (hmin : bound? fields "min" = .ok min)
    (hmax : bound? fields "max" = .ok max) (r : Range) :
    Range.ofEnds? min max = some r ↔ HasRange fields r := by
  obtain ⟨hlower, hnoLower⟩ := bound?_eq_ok hmin
  obtain ⟨hupper, hnoUpper⟩ := bound?_eq_ok hmax
  constructor
  · intro h
    cases min with
    | none =>
      cases max with
      | none => cases h
      | some x =>
        cases h
        exact .atMost (hnoLower.1 rfl) ((hupper x).1 rfl)
    | some x =>
      cases max with
      | none =>
        cases h
        exact .atLeast ((hlower x).1 rfl) (hnoUpper.1 rfl)
      | some y =>
        cases h
        exact .between ((hlower x).1 rfl) ((hupper y).1 rfl)
  · intro h
    cases h with
    | between hx hy =>
      rw [(hlower _).2 hx, (hupper _).2 hy]
      rfl
    | atLeast hx hy =>
      rw [(hlower _).2 hx, hnoUpper.2 hy]
      rfl
    | atMost hx hy =>
      rw [hnoLower.2 hx, (hupper _).2 hy]
      rfl

/-- The demands that are read are those of the entry. -/
theorem of_demands {d : Demands} (h : demands classNames fields = .ok d) :
    d.Of classNames fields := by
  obtain ⟨notNull, hnotNull, h⟩ := bind_eq_ok.1 h
  obtain ⟨kind, hkind, h⟩ := bind_eq_ok.1 h
  obtain ⟨min, hmin, h⟩ := bind_eq_ok.1 h
  obtain ⟨max, hmax, h⟩ := bind_eq_ok.1 h
  cases h
  obtain ⟨hnamed, hany⟩ := kind?_eq_ok hkind
  exact ⟨flag_eq_ok hnotNull, hnamed, hany, ofEnds?_eq_some_iff hmin hmax⟩

/-- A bound is found under its name and is one. -/
theorem HasBound.iff_eq {key : String} {b : Bound} (hb : HasBound fields key b) (b' : Bound) :
    HasBound fields key b' ↔ b' = b := by
  constructor
  · intro hb'
    obtain ⟨n, hn, rfl⟩ := hb
    obtain ⟨n', hn', rfl⟩ := hb'
    rw [hn] at hn'
    cases hn'
    rfl
  · rintro rfl
    exact hb

/-- Without a field there is no bound. -/
theorem not_hasBound_of_find? {key : String} (h : fields.find? key = none) (b : Bound) :
    ¬ HasBound fields key b := by
  intro hb
  obtain ⟨n, hn, -⟩ := hb
  rw [h] at hn
  cases hn

namespace HasRange

/-- An entry has one range at most. -/
theorem unique {r r' : Range} (h : HasRange fields r) (h' : HasRange fields r') : r = r' := by
  cases h with
  | between lower upper =>
    cases h' with
    | between lower' upper' => rw [(lower.iff_eq _).1 lower', (upper.iff_eq _).1 upper']
    | atLeast _ absent => exact absurd upper (not_hasBound_of_find? absent _)
    | atMost absent _ => exact absurd lower (not_hasBound_of_find? absent _)
  | atLeast lower absent =>
    cases h' with
    | between _ upper' => exact absurd upper' (not_hasBound_of_find? absent _)
    | atLeast lower' _ => rw [(lower.iff_eq _).1 lower']
    | atMost absent' _ => exact absurd lower (not_hasBound_of_find? absent' _)
  | atMost absent upper =>
    cases h' with
    | between lower' _ => exact absurd lower' (not_hasBound_of_find? absent _)
    | atLeast lower' _ => exact absurd lower' (not_hasBound_of_find? absent _)
    | atMost _ upper' => rw [(upper.iff_eq _).1 upper']

/-- It leaves out the values beyond one of the bounds. -/
theorem excludes_iff {r : Range} (h : HasRange fields r) :
    r.excludes v = true ↔ ¬ InBounds fields v := by
  unfold InBounds
  cases h with
  | between lower upper =>
    simp only [Range.excludes, lower.iff_eq, upper.iff_eq, forall_eq, not_and_or, Bool.or_eq_true,
      Bool.not_eq_false]
  | atLeast lower absent =>
    simp only [Range.excludes, lower.iff_eq, not_hasBound_of_find? absent, forall_eq,
      false_implies, implies_true, and_true, Bool.not_eq_false]
  | atMost absent upper =>
    simp only [Range.excludes, upper.iff_eq, not_hasBound_of_find? absent, forall_eq,
      false_implies, implies_true, true_and, Bool.not_eq_false]

end HasRange

/-- A value that is refused is not admitted. -/
theorem Refuses.not_admits {e : ValidationError} (h : Refuses classNames attr fields v e) :
    ¬ AdmitsBy classNames fields v := by
  intro hadmits
  cases hadmits with
  | null allowed =>
    cases h with
    | null refused => exact allowed refused
    | kind present => exact present rfl
    | comparability present => exact present rfl
    | range present => exact present rfl
  | value present kind range =>
    cases h with
    | null => exact present rfl
    | kind _ asked _ broken => exact broken (kind _ asked)
    | comparability _ _ asked single broken =>
      exact (range ⟨_, asked⟩).elim single fun hmet => broken hmet.1
    | range _ _ asked comparable broken =>
      refine (range ⟨_, asked⟩).elim (fun hcontainer => ?_) fun hmet => broken hmet.2
      exact Value.not_isContainer_of_isNumeric comparable hcontainer

/-- It is refused in one way. -/
theorem Refuses.unique {e e' : ValidationError} (h : Refuses classNames attr fields v e)
    (h' : Refuses classNames attr fields v e') : e = e' := by
  cases h with
  | null =>
    cases h' with
    | null => rfl
    | kind present => exact absurd rfl present
    | comparability present => exact absurd rfl present
    | range present => exact absurd rfl present
  | kind present asked named broken =>
    cases h' with
    | null => exact absurd rfl present
    | kind _ asked' named' _ =>
      rw [asked] at asked'
      cases asked'
      rw [named] at named'
      cases named'
      rfl
    | comparability _ kind => exact absurd (kind _ asked) broken
    | range _ kind => exact absurd (kind _ asked) broken
  | comparability present kind _ _ broken =>
    cases h' with
    | null => exact absurd rfl present
    | kind _ asked' _ broken' => exact absurd (kind _ asked') broken'
    | comparability => rfl
    | range _ _ _ comparable' => exact absurd comparable' broken
  | range present kind asked comparable =>
    cases h' with
    | null => exact absurd rfl present
    | kind _ asked' _ broken' => exact absurd (kind _ asked') broken'
    | comparability _ _ _ _ broken' => exact absurd comparable broken'
    | range _ _ asked' _ _ => rw [asked.unique asked']

namespace Demands

variable {d : Demands}

/-- The demand for a kind passes the values of the kind and refuses the
others. -/
theorem Of.kindVerdict_cases (hd : d.Of classNames fields) (attr : String) (v : Value) :
    (KindMet classNames fields v ∧ kindVerdict attr v d.kind = .ok ())
      ∨ ∃ name k, fields.find? "type" = some (.str name)
        ∧ Kind.resolve? name classNames = some k ∧ ¬ v.OfKindNamed classNames name
        ∧ kindVerdict attr v d.kind = .error (.wrongKind attr k v.kindName) := by
  cases hkind : d.kind with
  | none =>
    refine .inl ⟨fun name hname => ?_, rfl⟩
    rw [hd.anyKind hkind] at hname
    cases hname
  | some k =>
    obtain ⟨name, hname, hk⟩ := (hd.kind k).1 hkind
    by_cases hv : v.OfKindNamed classNames name
    · refine .inl ⟨fun name' hname' => ?_, if_pos ((Kind.accepts_iff_ofKindNamed hk v).2 hv)⟩
      rw [hname] at hname'
      cases hname'
      exact hv
    · exact .inr ⟨name, k, hname, hk, hv, if_neg (mt (Kind.accepts_iff_ofKindNamed hk v).1 hv)⟩

/-- The demand for a range passes containers and the numbers in the
range. -/
theorem Of.rangeVerdict_cases (hd : d.Of classNames fields) (attr : String) (v : Value) :
    (((∃ r, HasRange fields r) → v.IsContainer ∨ (v.IsNumeric ∧ InBounds fields v))
        ∧ rangeVerdict attr v d.range = .ok ())
      ∨ ∃ r, HasRange fields r ∧ ¬ v.IsContainer
        ∧ ((¬ v.IsNumeric ∧ rangeVerdict attr v d.range = .error (.notComparable attr v.kindName))
          ∨ (v.IsNumeric ∧ ¬ InBounds fields v
            ∧ rangeVerdict attr v d.range = .error (.outOfRange attr r))) := by
  cases hrange : d.range with
  | none =>
    refine .inl ⟨fun ⟨r, hr⟩ => ?_, rfl⟩
    rw [← hd.range, hrange] at hr
    cases hr
  | some r =>
    have hr : HasRange fields r := (hd.range r).1 hrange
    have hsome : rangeVerdict attr v (some r) = if v.isCollection then .ok ()
        else if v.number?.isNone then .error (.notComparable attr v.kindName)
        else if r.excludes v then .error (.outOfRange attr r) else .ok () := rfl
    rw [hsome]
    by_cases hcontainer : v.IsContainer
    · exact .inl ⟨fun _ => .inl hcontainer, if_pos (Value.isCollection_iff.2 hcontainer)⟩
    rw [if_neg (mt Value.isCollection_iff.1 hcontainer)]
    by_cases hnumeric : v.IsNumeric
    · rw [if_neg (mt Value.isNone_number?_iff.1 (not_not_intro hnumeric))]
      by_cases hbounds : InBounds fields v
      · refine .inl ⟨fun _ => .inr ⟨hnumeric, hbounds⟩, if_neg ?_⟩
        exact mt hr.excludes_iff.1 (not_not_intro hbounds)
      · exact .inr ⟨r, hr, hcontainer, .inr ⟨hnumeric, hbounds, if_pos (hr.excludes_iff.2 hbounds)⟩⟩
    · exact .inr ⟨r, hr, hcontainer, .inl ⟨hnumeric, if_pos (Value.isNone_number?_iff.2 hnumeric)⟩⟩

/-- A verdict is favourable on what the entry admits, and else it is the
entry's refusal. -/
theorem Of.verdict_cases (hd : d.Of classNames fields) (attr : String) (v : Value) :
    (AdmitsBy classNames fields v ∧ d.verdict attr v = .ok ())
      ∨ ∃ e, Refuses classNames attr fields v e ∧ d.verdict attr v = .error e := by
  unfold verdict
  by_cases hnull : v.isNull = true
  · obtain rfl := Value.isNull_iff.1 hnull
    rw [if_pos hnull]
    by_cases hnot : d.notNull = true
    · exact .inr ⟨_, .null (hd.notNull.1 hnot), if_pos hnot⟩
    · exact .inl ⟨.null (mt hd.notNull.2 hnot), if_neg hnot⟩
  rw [if_neg hnull]
  have hpresent : v ≠ .null := mt Value.isNull_iff.2 hnull
  rcases hd.kindVerdict_cases attr v with ⟨hkind, hok⟩ | ⟨name, k, hname, hk, hv, herror⟩
  · rw [hok, ok_bind]
    rcases hd.rangeVerdict_cases attr v with ⟨hrange, hok⟩ |
      ⟨r, hr, hsingle, ⟨hnumeric, herror⟩ | ⟨hnumeric, hbounds, herror⟩⟩
    · exact .inl ⟨.value hpresent hkind hrange, hok⟩
    · exact .inr ⟨_, .comparability hpresent hkind hr hsingle hnumeric, herror⟩
    · exact .inr ⟨_, .range hpresent hkind hr hnumeric hbounds, herror⟩
  · rw [herror, error_bind]
    exact .inr ⟨_, .kind hpresent hname hk hv, rfl⟩

/-- The verdict of the demands accepts what the entry admits, -/
theorem Of.verdict_eq_ok_iff (hd : d.Of classNames fields) :
    d.verdict attr v = .ok () ↔ AdmitsBy classNames fields v := by
  rcases hd.verdict_cases attr v with ⟨hadmits, hok⟩ | ⟨e, hrefuses, herror⟩
  · exact iff_of_true hok hadmits
  · refine iff_of_false (fun hok => ?_) hrefuses.not_admits
    rw [herror] at hok
    cases hok

/-- and refuses the others as the entry does. -/
theorem Of.verdict_eq_error_iff (hd : d.Of classNames fields) {e : ValidationError} :
    d.verdict attr v = .error e ↔ Refuses classNames attr fields v e := by
  rcases hd.verdict_cases attr v with ⟨hadmits, hok⟩ | ⟨e', hrefuses, herror⟩
  · refine iff_of_false (fun herror => ?_) fun hrefuses => hrefuses.not_admits hadmits
    rw [hok] at herror
    cases herror
  · rw [herror, Except.error.injEq]
    exact ⟨fun heq => heq ▸ hrefuses, hrefuses.unique⟩

end Demands

/-- A non-empty object admits what its fields admit, and everything else
what no field says anything about. -/
theorem admits_iff_admitsBy : Admits classNames entry v ↔ AdmitsBy classNames (fieldsOf entry) v := by
  have hnone : AdmitsBy classNames [] v := by
    have hfields : ∀ key, Entries.find? ([] : Entries Json) key = none := fun _ => rfl
    by_cases hv : v = .null
    · subst hv
      exact .null fun hrefused => by cases hrefused
    · refine .value hv (fun name hname => by cases hname) fun hrange => ?_
      obtain ⟨r, hr⟩ := hrange
      cases hr with
      | between lower => exact absurd lower (not_hasBound_of_find? (hfields _) _)
      | atLeast lower => exact absurd lower (not_hasBound_of_find? (hfields _) _)
      | atMost _ upper => exact absurd upper (not_hasBound_of_find? (hfields _) _)
  cases entry with
  | object fields =>
    cases fields with
    | nil => exact iff_of_true trivial hnone
    | cons f fs => exact Iff.rfl
  | _ => exact iff_of_true trivial hnone

-- ==================================================== the same rules

/-- Under the names that matter the same is found. -/
theorem SameRules.find? (h : SameRules fields fields') {key : String} (hkey : key ∈ ruleNames) :
    fields'.find? key = fields.find? key := by
  have hfilter : ∀ es : Entries Json,
      Entries.find? (es.filter fun f => f.1 ∈ ruleNames) key = es.find? key :=
    fun _ => Entries.find?_filter fun _ => decide_eq_true hkey
  have hkeys : Entries.keys (fields.filter fun f => f.1 ∈ ruleNames) |>.Nodup :=
    h.nodup.sublist (List.filter_sublist.map Prod.fst)
  rw [← hfilter fields', ← hfilter fields, Entries.find?_perm hkeys h.rules]

/-- So the same is demanded. -/
theorem demands_eq (h : SameRules fields fields') :
    demands classNames fields' = demands classNames fields := by
  have hnotNone : fields'.find? "not_none" = fields.find? "not_none" := h.find? (by decide)
  have hkind : fields'.find? "type" = fields.find? "type" := h.find? (by decide)
  have hmin : fields'.find? "min" = fields.find? "min" := h.find? (by decide)
  have hmax : fields'.find? "max" = fields.find? "max" := h.find? (by decide)
  unfold demands flag kind? bound?
  rw [hnotNone, hkind, hmin, hmax]

/-- Fields that are well formed with the same rules are well formed, if
whether assignment is refused is told by a truth value. -/
theorem SameRules.wellFormed (h : SameRules fields fields')
    (hreadOnly : fields'.Optional "read_only" Json.IsBool) (hfields : WellFormed classNames fields) :
    WellFormed classNames fields' where
  readOnly := hreadOnly
  notNone j hj := hfields.notNone j (by rwa [← h.find? (by decide)])
  kind j hj := hfields.kind j (by rwa [← h.find? (by decide)])
  min j hj := hfields.min j (by rwa [← h.find? (by decide)])
  max j hj := hfields.max j (by rwa [← h.find? (by decide)])

/-- Nothing is asked of anything in an empty entry. -/
theorem wellFormed_nil : WellFormed classNames [] where
  readOnly j hj := by cases hj
  notNone j hj := by cases hj
  kind j hj := by cases hj
  min j hj := by cases hj
  max j hj := by cases hj

/-- An entry that is read has well-formed fields. -/
theorem wellFormed_fieldsOf (h : ofEntry classNames entry = .ok cs) :
    WellFormed classNames (fieldsOf entry) := by
  have hread := exists_ofEntry_iff.1 ⟨cs, h⟩
  unfold fieldsOf
  cases hfields : entry.fields? with
  | none => exact wellFormed_nil
  | some fields =>
    by_cases hempty : fields = []
    · rw [hempty]
      exact wellFormed_nil
    · exact hread fields (Json.fields?_eq_some_iff.1 hfields) hempty

-- ==================================================== the meaning of an entry

/-- The steps that an entry is turned into, after the one for the ancestors,
accept what the entry admits and refuse the rest as the entry refuses it.
They do the same for every entry with the same rules, whatever their order,
whatever stands beside them and whether assignment is refused or not. -/
theorem ownChecks_mean_entry (h : ofEntry classNames entry = .ok cs) :
    cs.checks = .delegateToBase :: cs.ownChecks ∧ .delegateToBase ∉ cs.ownChecks
      ∧ (∀ attr v base, Check.run attr v base cs.ownChecks = .ok () ↔ Admits classNames entry v)
      ∧ (∀ attr v base e, Check.run attr v base cs.ownChecks = .error e
          ↔ Refuses classNames attr (fieldsOf entry) v e)
      ∧ ∀ fields', SameRules (fieldsOf entry) fields' → fields'.Optional "read_only" Json.IsBool →
          ∃ cs', ofEntry classNames (.object fields') = .ok cs'
            ∧ ∀ attr v base, Check.run attr v base cs'.ownChecks
                = Check.run attr v base cs.ownChecks := by
  obtain ⟨d, hdemands, hverdict⟩ := exists_demands h
  have hd : d.Of classNames (fieldsOf entry) := of_demands hdemands
  refine ⟨rfl, cs.delegateToBase_notMem_ownChecks, fun attr v base => ?_,
    fun attr v base e => ?_, fun fields' hsame hreadOnly => ?_⟩
  · rw [hverdict, hd.verdict_eq_ok_iff, admits_iff_admitsBy]
  · rw [hverdict, hd.verdict_eq_error_iff]
  · have hwell := hsame.wellFormed hreadOnly (wellFormed_fieldsOf h)
    obtain ⟨cs', h'⟩ : ∃ cs', ofEntry classNames (.object fields') = .ok cs' := by
      refine exists_ofEntry_iff.2 fun entry hentry _ => ?_
      cases hentry
      exact hwell
    obtain ⟨d', hdemands', hverdict'⟩ := exists_demands h'
    have hsameDemands : Except.ok d' = Except.ok d :=
      hdemands'.symm.trans ((demands_eq hsame).trans hdemands)
    cases hsameDemands
    exact ⟨cs', h', fun attr v base => (hverdict' attr v base).trans (hverdict attr v base).symm⟩

/-- A level between two bounds, given with its kind. -/
def Sample.level : Entries Json :=
  [("max", .number (.int 5)), ("type", .str "int"), ("min", .number (.int 0))]

/-- The same rules in another order, with names in between that are none. -/
def Sample.level' : Entries Json :=
  [("read_only", .bool true), ("min", .number (.int 0)), ("unit", .str "mbar"),
    ("type", .str "int"), ("max", .number (.int 5))]

/-- Both refuse a level that is too high, and name both bounds. -/
theorem level_too_high :
    ∃ cs cs', ofEntry [] (.object Sample.level) = .ok cs
      ∧ ofEntry [] (.object Sample.level') = .ok cs'
      ∧ Refuses [] "level" Sample.level (.int 7) (.outOfRange "level" (.between (.int 0) (.int 5)))
      ∧ Check.run "level" (.int 7) (.ok ()) cs'.ownChecks
          = .error (.outOfRange "level" (.between (.int 0) (.int 5))) := by
  have hrules : Sample.level'.filter (fun f => f.1 ∈ ruleNames)
      = (Sample.level.filter fun f => f.1 ∈ ruleNames).reverse := by rfl
  have hsame : SameRules Sample.level Sample.level' :=
    ⟨by decide, by decide, hrules ▸ List.reverse_perm _⟩
  have hreadOnly : Sample.level'.Optional "read_only" Json.IsBool :=
    fun j hj => ⟨true, (Option.some.inj hj).symm⟩
  have hread : ofEntry [] (.object Sample.level)
      = .ok [.allowNull, .kind .int, .range (.between (.int 0) (.int 5))] := by decide
  obtain ⟨-, -, -, hrefuses, hothers⟩ := ownChecks_mean_entry hread
  obtain ⟨cs', h', hrun⟩ := hothers _ hsame hreadOnly
  have hrefused := hrefuses "level" (.int 7) (.ok ())
    (.outOfRange "level" (.between (.int 0) (.int 5)))
  have hcomputed : Check.run "level" (.int 7) (.ok ())
      (Constraints.ownChecks [.allowNull, .kind .int, .range (.between (.int 0) (.int 5))])
      = .error (.outOfRange "level" (.between (.int 0) (.int 5))) := by decide
  exact ⟨_, cs', hread, h', hrefused.1 hcomputed, (hrun _ _ _).trans hcomputed⟩

end Constraints

end LiveDoc
