/-
Which instances a class constraint accepts.

A document may ask that an attribute holds instances of one of its classes.
The check that is made knows the class by name, and so accepts instances of
every class that has the name in its lineage (`isSubclassOf_iff`).

In the module of the document itself a name is as good as the class. What
linking binds is closed under ancestors: each class stands under its own
name, and so does every class that it derives from (`AncestorClosed`, kept
item by item in `linkItems_closed`). So a class of the module has the name
in its lineage exactly when it derives from the class of that name
(`AncestorClosed.isSubclassOf_iff`). Another module binds the names of its
own classes, and nothing of this holds across modules.

That the check is made at all is a matter of the order of steps. In what is
read from an entry the step for the kind stands behind the one for null,
and nothing before it can let other values through
(`ownChecks_of_kind_mem`).
-/
import LiveDoc.Proofs.LinkFaults
import LiveDoc.Proofs.Validation

namespace LiveDoc

open Traversal

-- ==================================================== deriving

namespace Class

/-- The class is the other one or derives from it: the lineage of the other
is the end of its own. -/
def DerivesFrom (c k : Class) : Prop := k.lineage <:+ c.lineage

variable {c k : Class}

/-- A class derives from itself and from what its ancestors are. -/
theorem derivesFrom_iff : c.DerivesFrom k ↔ k = c ∨ k.lineage <:+ c.ancestors := by
  unfold DerivesFrom
  rw [lineage, lineage, List.suffix_cons_iff]
  refine or_congr_left ⟨fun heq => ?_, fun heq => heq ▸ rfl⟩
  cases c
  cases k
  cases heq
  rfl

/-- A class has a name in its lineage when it derives from some class of the
name. -/
theorem isSubclassOf_iff {name : String} :
    c.isSubclassOf name = true ↔ ∃ k, c.DerivesFrom k ∧ k.name = name := by
  unfold isSubclassOf Lineage.hasName
  rw [List.any_eq_true]
  constructor
  · rintro ⟨n, hn, hname⟩
    obtain ⟨before, after, hsplit⟩ := List.append_of_mem hn
    exact ⟨⟨n, after⟩, ⟨before, hsplit.symm⟩, of_decide_eq_true hname⟩
  · rintro ⟨k, hk, hname⟩
    exact ⟨k.node, hk.subset List.mem_cons_self, decide_eq_true hname⟩

end Class

-- ==================================================== classes of one module

/-- Every class of the table stands under its name, and so does every class
that it derives from. -/
def AncestorClosed (t : Table Class) : Prop :=
  ∀ key c, t.find? key = some c → c.name = key ∧ ∀ k, c.DerivesFrom k → t.find? k.name = some k

namespace AncestorClosed

variable {t : Table Class}

theorem empty : AncestorClosed ∅ := fun _ _ h => by cases h

/-- A class can be added under a new name when its parent is in the table. -/
theorem insert (ht : AncestorClosed t) {c : Class} (hnew : t.find? c.name = none)
    (hparent : c.ancestors = [] ∨ ∃ key p, t.find? key = some p ∧ c.ancestors = p.lineage) :
    AncestorClosed (t.insert c.name c) := by
  have hold : ∀ key k, t.find? key = some k → (t.insert c.name c).find? key = some k :=
    fun _ _ hk => Table.find?_insert_of_find? hk hnew c
  have hself : (t.insert c.name c).find? c.name = some c := by
    rw [Table.find?_insert, if_pos rfl]
  intro key c' hc'
  rw [Table.find?_insert] at hc'
  split at hc'
  case isFalse =>
    obtain ⟨hname, hancestors⟩ := ht key c' hc'
    exact ⟨hname, fun k hk => hold _ _ (hancestors k hk)⟩
  case isTrue hkey =>
    cases hc'
    refine ⟨hkey, fun k hk => ?_⟩
    rcases Class.derivesFrom_iff.1 hk with rfl | hk
    · exact hself
    · rcases hparent with hroot | ⟨key, p, hp, hancestors⟩
      · rw [hroot] at hk
        cases List.suffix_nil.1 hk
      · rw [hancestors] at hk
        exact hold _ _ ((ht key p hp).2 k hk)

/-- Among the classes of the table, having a name in the lineage is deriving
from the class of that name. -/
theorem isSubclassOf_iff (ht : AncestorClosed t) {name key : String} {c k : Class}
    (hk : t.find? name = some k) (hc : t.find? key = some c) :
    c.isSubclassOf name = true ↔ c.DerivesFrom k := by
  rw [Class.isSubclassOf_iff]
  constructor
  · rintro ⟨k', hk', rfl⟩
    have hsame := (ht key c hc).2 k' hk'
    rw [hk] at hsame
    cases hsame
    exact hk'
  · intro hderives
    exact ⟨k, hderives, (ht name k hk).1⟩

end AncestorClosed

namespace Program

/-- Linking keeps the classes closed. -/
theorem linkItems_closed {moduleName : String} {items : List Item} {b b' : Bindings} {h h' : Heap}
    (hlink : linkItems moduleName items b h = .ok (b', h')) (hb : AncestorClosed b.classes) :
    AncestorClosed b'.classes := by
  refine linkItems_keeps (P := fun b _ => AncestorClosed b.classes) hlink hb
    (fun _ _ _ _ _ hb => hb) ?_
  intro d ancestors b h _ hb hfree hancestors
  refine hb.insert (c := (Class.link moduleName ancestors d h).1) ?_ ?_
  · rw [Bindings.contains, Bool.or_eq_false_iff] at hfree
    exact Option.isNone_iff_eq_none.1 (Option.isSome_eq_false_iff.1 hfree.2)
  · show ancestors = [] ∨ ∃ key p, b.classes.find? key = some p ∧ ancestors = p.lineage
    rcases Bindings.ancestors?_eq_some hancestors with
      ⟨-, hroot⟩ | ⟨base, parent, -, hparent, hlineage⟩
    · exact .inl hroot
    · exact .inr ⟨base, parent, hparent, hlineage⟩

/-- The classes of a linked module are closed. -/
theorem link_closed {p : Program} {document : Json} {s : ModuleState} {h h' : Heap}
    (hs : p.link document h = .ok (s, h')) : AncestorClosed s.classes := by
  obtain ⟨⟨b, h₁⟩, hlink, hstate⟩ := bind_eq_ok.1 hs
  cases hstate
  exact linkItems_closed hlink .empty

end Program

-- ==================================================== kinds among constraints

/-- A kind that is a class is one of the given classes. -/
theorem Kind.mem_of_resolve? {name className : String} {classNames : List String}
    (h : resolve? name classNames = some (.instanceOf className)) : className ∈ classNames := by
  unfold resolve? at h
  split at h
  case isTrue hmem =>
    cases h
    exact hmem
  case isFalse =>
    -- the builtin kinds are listed, and none is a class
    have hbuiltin := List.mem_of_find?_eq_some h
    simp at hbuiltin

namespace Constraints

variable {classNames : List String} {cs : Constraints}

theorem mem_of_kind? {entry : Entries Json} {className : String}
    (h : kind? entry classNames = .ok (some (.instanceOf className))) : className ∈ classNames := by
  unfold kind? at h
  split at h
  case h_1 => cases h
  case h_2 name _ =>
    split at h
    case h_1 k hresolve =>
      cases h
      exact Kind.mem_of_resolve? hresolve
    case h_2 => cases h
  case h_3 => cases h

/-- The constraints of an entry, from what its fields say. -/
def assembled (readOnly notNull : Bool) (kind : Option Kind) (range : Option Range) : Constraints :=
  (if readOnly then [.readOnly] else []) ++ [if notNull then .notNull else .allowNull]
    ++ (kind.map Constraint.kind).toList ++ (range.map Constraint.range).toList

section Assembled

variable {readOnly notNull : Bool} {kind : Option Kind} {range : Option Range}

theorem kind_mem_assembled {k : Kind} :
    .kind k ∈ assembled readOnly notNull kind range ↔ kind = some k := by
  unfold assembled
  cases readOnly <;> cases notNull <;> simp

theorem range_mem_assembled {r : Range} :
    .range r ∈ assembled readOnly notNull kind range ↔ range = some r := by
  unfold assembled
  cases readOnly <;> cases notNull <;> simp

/-- The step for null comes first, those for a kind and a range follow. -/
theorem ownChecks_assembled :
    (assembled readOnly notNull kind range).ownChecks
      = (if notNull then .rejectNull else .acceptNull)
        :: ((kind.map Constraint.kind).toList.flatMap Constraint.checks
          ++ (range.map Constraint.range).toList.flatMap Constraint.checks) := by
  unfold ownChecks assembled
  rw [List.flatMap_append, List.flatMap_append]
  cases readOnly <;> cases notNull <;> rfl

end Assembled

theorem ofFields_eq_ok {fields : Entries Json} (h : ofFields classNames fields = .ok cs) :
    ∃ readOnly notNull kind min max, flag fields "not_none" = .ok notNull
      ∧ kind? fields classNames = .ok kind ∧ bound? fields "min" = .ok min
      ∧ bound? fields "max" = .ok max
      ∧ cs = assembled readOnly notNull kind (Range.ofEnds? min max) := by
  obtain ⟨readOnly, -, h⟩ := bind_eq_ok.1 h
  obtain ⟨notNull, hnotNull, h⟩ := bind_eq_ok.1 h
  obtain ⟨kind, hkind, h⟩ := bind_eq_ok.1 h
  obtain ⟨min, hmin, h⟩ := bind_eq_ok.1 h
  obtain ⟨max, hmax, h⟩ := bind_eq_ok.1 h
  cases h
  exact ⟨readOnly, notNull, kind, min, max, hnotNull, hkind, hmin, hmax, rfl⟩

/-- An entry gives no constraints, or those of its fields. -/
theorem ofEntry_cases {entry : Json} (h : ofEntry classNames entry = .ok cs) :
    cs = [] ∨ ∃ fields, entry = .object fields ∧ ofFields classNames fields = .ok cs := by
  unfold ofEntry at h
  split at h
  case h_1 =>
    cases h
    exact .inl rfl
  case h_2 fields _ => exact .inr ⟨fields, rfl, h⟩
  case h_3 =>
    cases h
    exact .inl rfl

/-- A kind is read from the entry, and its step comes second, behind the one
for null. -/
theorem ownChecks_of_kind_mem {entry : Json} (h : ofEntry classNames entry = .ok cs) {k : Kind}
    (hk : .kind k ∈ cs) :
    (∃ fields : Entries Json, kind? fields classNames = .ok (some k))
      ∧ ∃ first rest, cs.ownChecks = first :: .requireKind k :: rest
        ∧ (first = .rejectNull ∨ first = .acceptNull) := by
  rcases ofEntry_cases h with rfl | ⟨fields, -, hfields⟩
  · cases hk
  · obtain ⟨readOnly, notNull, kind, min, max, -, hkind, -, -, rfl⟩ := ofFields_eq_ok hfields
    rw [kind_mem_assembled.1 hk] at hkind ⊢
    refine ⟨⟨fields, hkind⟩, _, _, ownChecks_assembled, ?_⟩
    cases notNull
    · exact .inr rfl
    · exact .inl rfl

end Constraints

/-- A value that passes steps of which the second is for a kind is of the
kind, unless it is null. -/
theorem Check.accepts_of_run {attr : String} {v : Value} {base : Except ValidationError Unit}
    {first : Check} {k : Kind} {rest : List Check}
    (hfirst : first = .rejectNull ∨ first = .acceptNull)
    (h : run attr v base (first :: .requireKind k :: rest) = .ok ()) (hnull : v.isNull = false) :
    k.accepts v = true := by
  have hkind : run attr v base (.requireKind k :: rest) = .ok () := by
    rcases hfirst with rfl | rfl
    · rw [run, hnull] at h
      exact h
    · rw [run, hnull] at h
      exact h
  rw [run] at hkind
  split at hkind
  case isTrue haccepts => exact haccepts
  case isFalse => cases hkind

-- ==================================================== attributes of a class kind

namespace ClassNode.DeclaredBy

variable {n : ClassNode} {d : ClassDecl} {a : AttributeDecl}

theorem declares_of_mem (h : n.DeclaredBy d) (ha : a ∈ d.instanceAttributes) :
    n.declares a.name = true := by
  rw [declares_iff, h.paramNames]
  exact List.mem_map_of_mem ha

end ClassNode.DeclaredBy

/-- The constraints of an attribute are none, or read from an entry. -/
theorem ModuleDecl.ReadFrom.constraints_of_attribute {name file time : String}
    {root : Entries Json} {m : ModuleDecl} (hread : m.ReadFrom name file time root) {d : ClassDecl}
    (hd : d ∈ m.classes) {a : AttributeDecl} (ha : a ∈ d.instanceAttributes) :
    a.constraints = [] ∨ ∃ entry,
      Constraints.ofEntry (classEntries root).keys entry = .ok a.constraints := by
  obtain ⟨body, -, hparts⟩ := hread.classes.exists_body hd
  obtain ⟨field, -, hfield⟩ := exists_of_mem_mapM hparts.own ha
  obtain ⟨-, -, cs, hcs, rfl⟩ := ClassDecl.readInstanceAttribute_eq_ok.1 hfield
  unfold ClassDecl.readConstraints at hcs
  split at hcs
  case h_1 =>
    cases hcs
    exact .inl rfl
  case h_2 entry _ => exact .inr ⟨entry, mapError_eq_ok.1 hcs⟩

/-- An attribute of a class kind is declared among the class that it names,
and its checks ask for the kind right after null. -/
theorem ModuleDecl.ReadFrom.kind_of_attribute {name file time : String} {root : Entries Json}
    {m : ModuleDecl} (hread : m.ReadFrom name file time root) {d : ClassDecl} (hd : d ∈ m.classes)
    {a : AttributeDecl} (ha : a ∈ d.instanceAttributes) {className : String}
    (hkind : .kind (.instanceOf className) ∈ a.constraints) :
    className ∈ m.classNames
      ∧ ∃ first rest,
        a.constraints.ownChecks = first :: .requireKind (.instanceOf className) :: rest
        ∧ (first = .rejectNull ∨ first = .acceptNull) := by
  rcases hread.constraints_of_attribute hd ha with hnone | ⟨entry, hentry⟩
  · rw [hnone] at hkind
    cases hkind
  · obtain ⟨⟨fields, hfields⟩, hchecks⟩ := Constraints.ownChecks_of_kind_mem hentry hkind
    exact ⟨hread.classes.classNames_perm.symm.subset (Constraints.mem_of_kind? hfields), hchecks⟩

/-- In a module that is linked from a document, let the class of some
lineage declare an attribute whose `type` is a class. That is a class of
the module. What passes the checks of the attribute and is not null is of
the kind; what is of the kind is an instance of a class which has the name
in its lineage; and if the class of the instance is one of the module, it
is the class of that name or derives from it. -/
theorem Class.instanceOf_nominal_within {document : Json} (hdistinct : document.DistinctKeys)
    {name file time : String} {m : ModuleDecl}
    (hm : ModuleDecl.ofDocument name file time document = .ok m) {before after : Heap}
    {s : ModuleState} (hs : (Program.ofModule m).link document before = .ok (s, after))
    {key : String} {c : Class} (hc : s.classes.find? key = some c) {n : ClassNode}
    (hn : n ∈ c.lineage) {d : ClassDecl} (hd : d ∈ m.classes)
    (hdefinition : n.definition = .ofDecl d) {a : AttributeDecl} (ha : a ∈ d.instanceAttributes)
    {className : String} (hkind : .kind (.instanceOf className) ∈ a.constraints) :
    ∃ k, s.classes.find? className = some k
      ∧ (∀ v, v.isNull = false → c.validate a.name v = .ok () →
          (Kind.instanceOf className).accepts v = true)
      ∧ (∀ v, (Kind.instanceOf className).accepts v = true ↔ ∃ i, v = .inst i
          ∧ ∃ k', i.ofClass.DerivesFrom k' ∧ k'.name = className)
      ∧ ∀ i key', s.classes.find? key' = some i.ofClass →
          ((Kind.instanceOf className).accepts (.inst i) = true ↔ i.ofClass.DerivesFrom k) := by
  obtain ⟨root, rfl⟩ := ModuleDecl.exists_root_of_ofDocument hm
  have hread := (ModuleDecl.ofDocument_eq_ok hdistinct.1).1 hm
  obtain ⟨hmem, first, rest, hchecks, hfirst⟩ := hread.kind_of_attribute hd ha hkind
  have hdeclared : n.DeclaredBy d := ⟨hdefinition, hread.attributeNames_nodup hdistinct hd⟩
  have hclosed : AncestorClosed s.classes := Program.link_closed hs
  have hkeys : className ∈ s.classes.keys := by
    rw [(Program.keys_of_link hs).2, Program.items_ofModule, Program.classNames_items]
    exact hmem
  obtain ⟨k, hk⟩ := Table.exists_find?_iff.2 hkeys
  refine ⟨k, hk, ?_, ?_, ?_⟩
  · intro v hnull hvalid
    have hlinked : c.LinkedFrom (.object root) m :=
      ⟨hdistinct, ⟨_, _, _, hm⟩, before, after, s, key, hs, hc⟩
    unfold Class.validate at hvalid
    rw [Lineage.validate_eq_forM hlinked.lineage_declared, forM_eq_ok] at hvalid
    -- the class that declares the attribute is among those asked, and its kind is its
    -- first check
    have hdeclarer : n ∈ c.lineage.declarers a.name :=
      List.mem_reverse.2 (List.mem_filter.2 ⟨hn, hdeclared.declares_of_mem ha⟩)
    have hverdict := hvalid n hdeclarer
    unfold ClassNode.verdict at hverdict
    rw [hdeclared.ownChecks_eq ha, hchecks] at hverdict
    exact Check.accepts_of_run hfirst hverdict hnull
  · intro v
    cases v with
    | inst i => simp [Kind.accepts, Class.isSubclassOf_iff]
    | _ => simp [Kind.accepts]
  · intro i key' hi
    exact hclosed.isSubclassOf_iff hk hi

namespace Sample

/-- An attribute holds instances of a class, and another class derives from
it. -/
def parts : Json :=
  .object [
    ("K", .object []),
    ("Bolt", .object [("__parent__", .str "K")]),
    ("Holder", .object [
      ("part", .null),
      ("__constraints__", .object [("part", .object [("type", .str "K")])])])]

theorem distinctKeys_parts : parts.DistinctKeys := by
  simp [parts, Json.DistinctKeys, Json.DistinctKeysFields, Entries.keys]

/-- A class of another document that has the name. -/
def strangers : Json := .object [("K", .object [])]

/-- The module of a document, linked into a heap. -/
def linked? (name : String) (document : Json) (h : Heap) :
    Option (ModuleDecl × ModuleState × Heap) :=
  match ModuleDecl.ofDocument name (name ++ ".json") "now" document with
  | .error _ => none
  | .ok m =>
    match (Program.ofModule m).link document h with
    | .error _ => none
    | .ok (s, h') => some (m, s, h')

theorem linked?_eq_some {name : String} {document : Json} {h h' : Heap} {m : ModuleDecl}
    {s : ModuleState} (hlinked : linked? name document h = some (m, s, h')) :
    ModuleDecl.ofDocument name (name ++ ".json") "now" document = .ok m
      ∧ (Program.ofModule m).link document h = .ok (s, h') := by
  unfold linked? at hlinked
  split at hlinked
  case h_1 => cases hlinked
  case h_2 m' hm =>
    split at hlinked
    case h_1 => cases hlinked
    case h_2 s' h'' hs =>
      cases hlinked
      exact ⟨hm, hs⟩

/-- The class with the attribute, and the deriving class. -/
def holderAndBolt? : Option (ModuleDecl × Class × Class) :=
  (linked? "m" parts .empty).bind fun linked =>
    (linked.2.1.classes.find? "Holder").bind fun holder =>
      (linked.2.1.classes.find? "Bolt").map fun bolt => (linked.1, holder, bolt)

/-- The class with the attribute, the class of its module that it names, and
an instance of the class of that name of the other module. -/
def holderAndStranger? : Option (Class × Class × Instance) :=
  (linked? "m" parts .empty).bind fun linked =>
    (linked? "other" strangers linked.2.2).bind fun other =>
      (linked.2.1.classes.find? "Holder").bind fun holder =>
        (linked.2.1.classes.find? "K").bind fun k =>
          (other.2.1.classes.find? "K").bind fun k' =>
            (k'.instantiate {} other.2.2).toOption.map fun made => (holder, k, made.1)

end Sample

/-- The deriving class of the module does derive from the class that the
attribute asks for. -/
theorem Class.bolt_nominal_within :
    ∃ m s after holder bolt k, Sample.linked? "m" Sample.parts .empty = some (m, s, after)
      ∧ s.classes.find? "Holder" = some holder ∧ s.classes.find? "Bolt" = some bolt
      ∧ s.classes.find? "K" = some k ∧ bolt.DerivesFrom k
      ∧ ∀ v, v.isNull = false → holder.validate "part" v = .ok () →
          (Kind.instanceOf "K").accepts v = true := by
  have hcomputed : Sample.holderAndBolt?.any (fun r =>
      r.1.classes.all (fun d => d.name ≠ "Holder" ∨ d.instanceAttributes.any (fun a =>
          a.name = "part" ∧ .kind (.instanceOf "K") ∈ a.constraints))
        ∧ r.2.1.name = "Holder" ∧ r.2.2.isSubclassOf "K") = true := by
    decide +kernel
  obtain ⟨_, hfound, hchecked⟩ := (Option.any_eq_true _ _).1 hcomputed
  obtain ⟨hdeclared, hname, hsubclass⟩ := of_decide_eq_true hchecked
  obtain ⟨⟨m, s, after⟩, hlinked, hfound⟩ := Option.bind_eq_some_iff.1 hfound
  obtain ⟨holder, hholder, hfound⟩ := Option.bind_eq_some_iff.1 hfound
  obtain ⟨bolt, hbolt, hfound⟩ := Option.map_eq_some_iff.1 hfound
  cases hfound
  obtain ⟨hm, hs⟩ := Sample.linked?_eq_some hlinked
  have hlive : holder.LinkedFrom Sample.parts m :=
    ⟨Sample.distinctKeys_parts, ⟨_, _, _, hm⟩, _, _, s, "Holder", hs, hholder⟩
  obtain ⟨d, hd, hnode⟩ := hlive.exists_declaredBy holder.node List.mem_cons_self
  have hdname : d.name = "Holder" := by
    rw [← hname, Class.name, ClassNode.name, hnode.definition]
    rfl
  have hpart := List.all_eq_true.1 hdeclared d hd
  simp only [hdname, ne_eq, not_true_eq_false, false_or, decide_eq_true_eq] at hpart
  obtain ⟨a, ha, hattribute⟩ := List.any_eq_true.1 hpart
  obtain ⟨haname, hkind⟩ := of_decide_eq_true hattribute
  obtain ⟨k, hk, hvalid, -, hnominal⟩ :=
    Class.instanceOf_nominal_within Sample.distinctKeys_parts hm hs hholder List.mem_cons_self hd
      hnode.definition ha hkind
  rw [haname] at hvalid
  exact ⟨m, s, after, holder, bolt, k, hlinked, hholder, hbolt, hk,
    (hnominal ⟨bolt, 0⟩ "Bolt" hbolt).1 hsubclass, hvalid⟩

/-- An instance of a class of another module passes, for its class has the
name; but the class does not derive from the one that the attribute asks
for. -/
theorem Class.stranger_accepted :
    ∃ m s h other t h' holder k k' i made, Sample.linked? "m" Sample.parts .empty = some (m, s, h)
      ∧ Sample.linked? "other" Sample.strangers h = some (other, t, h')
      ∧ s.classes.find? "Holder" = some holder ∧ s.classes.find? "K" = some k
      ∧ t.classes.find? "K" = some k' ∧ k'.instantiate {} h' = .ok (i, made)
      ∧ holder.validate "part" (.inst i) = .ok () ∧ ¬ i.ofClass.DerivesFrom k := by
  have hcomputed : Sample.holderAndStranger?.any (fun r =>
      r.1.validate "part" (.inst r.2.2) = .ok ()
        ∧ r.2.1.node.table ∉ r.2.2.ofClass.lineage.map ClassNode.table) = true := by
    decide +kernel
  obtain ⟨_, hfound, hchecked⟩ := (Option.any_eq_true _ _).1 hcomputed
  obtain ⟨hvalid, htable⟩ := of_decide_eq_true hchecked
  obtain ⟨⟨m, s, h⟩, hlinked, hfound⟩ := Option.bind_eq_some_iff.1 hfound
  obtain ⟨⟨other, t, h'⟩, hother, hfound⟩ := Option.bind_eq_some_iff.1 hfound
  obtain ⟨holder, hholder, hfound⟩ := Option.bind_eq_some_iff.1 hfound
  obtain ⟨k, hk, hfound⟩ := Option.bind_eq_some_iff.1 hfound
  obtain ⟨k', hk', hfound⟩ := Option.bind_eq_some_iff.1 hfound
  obtain ⟨⟨i, made⟩, hmade, hfound⟩ := Option.map_eq_some_iff.1 hfound
  cases hfound
  have hinstance : k'.instantiate {} h' = .ok (i, made) := by
    cases hresult : k'.instantiate {} h' with
    | error e =>
      rw [hresult] at hmade
      cases hmade
    | ok r =>
      rw [hresult] at hmade
      exact congrArg Except.ok (Option.some.inj hmade)
  refine ⟨m, s, h, other, t, h', holder, k, k', i, made, hlinked, hother, hholder, hk, hk',
    hinstance, hvalid, ?_⟩
  intro hderives
  exact htable (List.mem_map_of_mem (hderives.subset List.mem_cons_self))

end LiveDoc
