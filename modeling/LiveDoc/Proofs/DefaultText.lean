/-
How instances are shown that nobody gave a template.

A class without `__repr__` shows its instances as calls, `Name(a=…, b=…)`,
with its own instance attributes; a class that has no instance attributes
either shows them as its parent does. So along a chain of entries the first
one decides that has one or the other (`ClassDecl.shownAs?`), and the call
has the attributes of that class but the name of the instance's. What is
chosen by walking flags of live classes is chosen among entries by a
search; the two are compared link by link (`Lineage.exists_shownAs`).

The call template shows a call, whatever the values of the attributes are
(`Template.render_ofNames`), and all of them are fields by the time the
instance is shown. Where showing ends, the depth of the walk does not
matter (`Instance.text_of_render`).

The readable text is chosen by a search of its own, for `__str__`, and only
where there is none is it the exact one.
-/
import LiveDoc.Proofs.NominalKinds
import LiveDoc.Proofs.Correspondence
import LiveDoc.Proofs.Walks

namespace LiveDoc

open Template (Conversion Segment View)
open Traversal

-- ==================================================== rendering the call template

namespace Template

variable {α : Type} {view : View α} {resolve : String → Option α}

/-- Without a width nothing is filled. -/
theorem pad_default (numeric : Bool) (text : String) : Layout.pad {} numeric text = text := by
  have hnone : ({} : Layout).width - text.length = 0 := Nat.zero_sub _
  unfold Layout.pad
  rw [hnone]
  cases numeric
  · exact String.append_empty
  · exact String.empty_append

/-- A bare placeholder shows the readable text of what is no number. -/
theorem Field.render_named {v : α} (hnumber : view.number v = none) (name : String) :
    Field.render view { name } v = view.str v := by
  unfold Field.render
  simp only [hnumber]
  exact pad_default _ _

theorem Field.render_quoted (name : String) (v : α) :
    Field.render view (quoted name) v = view.repr v := by
  unfold Field.render
  exact pad_default _ _

/-- What a call shows of an attribute. -/
def partText (view : View α) (e : String × α) : String := e.1 ++ "=" ++ view.repr e.2

theorem renderSegments_labelled {e : String × α} (he : resolve e.1 = some e.2) (lead : String)
    {rest : List Segment} {tail : String} (hrest : renderSegments view resolve rest = some tail) :
    renderSegments view resolve (labelled lead e.1 ++ rest)
      = some (lead ++ partText view e ++ tail) := by
  show renderSegments view resolve (.literal (lead ++ e.1 ++ "=") :: .field (quoted e.1) :: rest) = _
  rw [renderSegments, renderSegments]
  show (resolve e.1 >>= _ >>= _) = _
  rw [he, hrest]
  show some (lead ++ e.1 ++ "=" ++ (Field.render view (quoted e.1) e.2 ++ tail)) = _
  rw [Field.render_quoted, partText]
  simp only [String.append_assoc]

/-- The attributes of a call are shown one after the other. -/
theorem renderSegments_parts {e : String × α} {es : Entries α}
    (hes : ∀ a ∈ e :: es, resolve a.1 = some a.2) (lead : String) :
    renderSegments view resolve
        (labelled lead e.1 ++ ((Entries.keys es).flatMap (labelled ", ") ++ [.literal ")"]))
      = some (lead ++ (", ".intercalate ((e :: es).map (partText view)) ++ ")")) := by
  induction es generalizing e lead with
  | nil =>
    have hlast : renderSegments view resolve [.literal ")"] = some ")" := rfl
    rw [List.map_singleton, String.intercalate_singleton, ← String.append_assoc]
    exact renderSegments_labelled (hes e List.mem_cons_self) lead hlast
  | cons e' es ih =>
    obtain ⟨he, hes⟩ := List.forall_mem_cons.1 hes
    have hrest := ih hes ", "
    rw [List.map_cons, List.map_cons, String.intercalate_cons_cons]
    have hall := renderSegments_labelled he lead hrest
    rw [List.map_cons] at hall
    simpa [Entries.keys, String.append_assoc] using hall

/-- The call template shows the class name and, in brackets, the attributes. -/
theorem render_ofNames {es : Entries α} (hnames : ∀ n ∈ Entries.keys es, isIdentifier n = true)
    {v : α} (hclass : resolve "class_name" = some v) (hnumber : view.number v = none)
    (hes : ∀ a ∈ es, resolve a.1 = some a.2) :
    (ofNames (Entries.keys es)).render view resolve
      = some (view.str v ++ "(" ++ ", ".intercalate (es.map (partText view)) ++ ")") := by
  have hhead : ∀ {rest : List Segment} {tail : String},
      renderSegments view resolve rest = some tail →
      renderSegments view resolve (.field { name := "class_name" } :: rest)
        = some (view.str v ++ tail) := by
    intro rest tail hrest
    rw [renderSegments, hclass, hrest]
    show some (Field.render view { name := "class_name" } v ++ tail) = _
    rw [Field.render_named hnumber]
  unfold render
  rw [segments_ofNames hnames]
  cases es with
  | nil =>
    have hbrackets : renderSegments view resolve [.literal "()"] = some "()" := rfl
    rw [List.map_nil, String.intercalate_nil, String.append_assoc, String.append_assoc]
    exact hhead hbrackets
  | cons e es =>
    rw [String.append_assoc, String.append_assoc]
    exact hhead (renderSegments_parts hes "(")

end Template

-- ==================================================== walks

namespace Instance

variable {i : Instance} {h : Heap}

/-- Where showing an instance ends, its text is that of its template. -/
theorem text_of_render {conversion : Conversion} {n : Nat} (hends : h.Ends n conversion (.inst i))
    {text : String} (hrender : i.render? h (i.ofClass.template conversion) = some text) :
    h.textWithin h.walkLimit conversion (.inst i) = text := by
  have hlimit := hends.walkLimit
  obtain ⟨k, hk⟩ : ∃ k, h.walkLimit = k + 1 := ⟨_, rfl⟩
  have hsame : (i.ofClass.template conversion).render
        ⟨h.textWithin k .str, h.textWithin k .repr, Value.number?⟩ (i.placeholder? h)
      = i.render? h (i.ofClass.template conversion) := by
    refine Template.renderSegments_congr fun field hfield => ?_
    cases hv : i.placeholder? h field.name with
    | none => rfl
    | some v =>
      rw [hk, Heap.ends_succ_iff] at hlimit
      have hasked : (field.conversion, v) ∈ h.parts conversion (.inst i) :=
        List.mem_filterMap.2 ⟨.field field, hfield, by simp [hv]⟩
      have hpart := (hlimit.resolve_left (fun hplain => by cases hplain)) _ hasked
      have htext := (hpart.textWithin_eq (m := h.walkLimit) (by omega)).symm
      refine congrArg some (field.render_congr rfl ?_ ?_)
      · intro hstr
        rw [hstr] at htext
        exact htext
      · intro hrepr
        rw [hrepr] at htext
        exact htext
  rw [hk, Heap.textWithin, hsame, hrender]

end Instance

-- ==================================================== which class decides

namespace ClassDecl

/-- The body has instance attributes or a template of its own for the exact
text. -/
def ShowsItself (body : Entries Json) : Prop :=
  ownKeys body ≠ [] ∨ "__repr__" ∈ Entries.keys body

instance decidableShowsItself (body : Entries Json) : Decidable (ShowsItself body) :=
  inferInstanceAs (Decidable (_ ∨ _))

/-- The first entry of a chain that shows itself, or the last one if none
does. -/
def shownAs? (chain : List (String × Entries Json)) : Option (String × Entries Json) :=
  (chain.find? fun b => ShowsItself b.2).or chain.getLast?

variable {name key : String} {body : Entries Json} {classNames : List String} {d : ClassDecl}

theorem readTemplate_eq_none_iff :
    readTemplate name key body = .ok none ↔ key ∉ Entries.keys body := by
  unfold readTemplate
  rw [bind_eq_ok, ← Entries.find?_eq_none_iff]
  constructor
  · rintro ⟨text, htext, ht⟩
    cases text with
    | none => exact text?_eq_none_iff.1 htext
    | some source =>
      obtain ⟨t, -, h⟩ := bind_eq_ok.1 ht
      cases h
  · exact fun hnone => ⟨none, text?_eq_none_iff.2 hnone, rfl⟩

/-- A class inherits the template for the exact text unless it shows
itself. -/
theorem ReadFrom.inheritsRepr_iff (h : ReadFrom name body classNames d) :
    d.inheritsRepr = true ↔ ¬ ShowsItself body := by
  obtain ⟨t, ht, -, hinherits⟩ := h.repr
  have hown : d.instanceAttributes.isEmpty = true ↔ ownKeys body = [] := by
    rw [List.isEmpty_iff, ownKeys, ← h.instanceNames, List.map_eq_nil_iff]
  have hnone : t.isNone = true ↔ "__repr__" ∉ Entries.keys body := by
    rw [Option.isNone_iff_eq_none, ← @readTemplate_eq_none_iff name, ht]
    exact ⟨fun heq => heq ▸ rfl, fun heq => Except.ok.inj heq⟩
  rw [hinherits, Bool.and_eq_true, hnone, hown, ShowsItself, not_or, not_not, and_comm]

/-- Without a template of its own it has the call template. -/
theorem ReadFrom.repr_eq_ofNames (h : ReadFrom name body classNames d)
    (hnone : "__repr__" ∉ Entries.keys body) : d.repr = .ofNames (ownKeys body) := by
  obtain ⟨t, ht, hrepr, -⟩ := h.repr
  rw [readTemplate_eq_none_iff.2 hnone] at ht
  cases ht
  rw [hrepr, h.instanceNames]
  rfl

end ClassDecl

/-- The class was linked from the entry of a document. -/
def ClassNode.ReadFrom (n : ClassNode) (classNames : List String) (b : String × Entries Json) :
    Prop :=
  ∃ d, n.definition = .ofDecl d ∧ ClassDecl.ReadFrom b.1 b.2 classNames d

namespace Lineage

variable {classNames : List String} {chain : List (String × Entries Json)} {l : Lineage}

/-- The template for the exact text is that of the class that is read from
the first entry that shows itself. -/
theorem exists_shownAs {b : String × Entries Json} {n : ClassNode}
    (h : List.Forall₂ (fun b n => ClassNode.ReadFrom n classNames b) (b :: chain) (n :: l)) :
    ∃ b' n', ClassDecl.shownAs? (b :: chain) = some b' ∧ n' ∈ n :: l ∧ n'.ReadFrom classNames b'
      ∧ Class.reprTemplateFrom n l = n'.definition.repr := by
  induction l generalizing b n chain with
  | nil =>
    cases h with
    | cons hn hrest =>
      cases hrest
      refine ⟨b, n, ?_, List.mem_cons_self, hn, rfl⟩
      unfold ClassDecl.shownAs?
      rw [List.find?_cons]
      split <;> rfl
  | cons n₂ l ih =>
    cases h with
    | @cons _ _ _ chain hn hrest =>
      obtain ⟨d, hdefinition, hread⟩ := hn
      -- a class takes its parent's template when it neither gives one nor declares
      -- anything
      have hinherits : n.definition.inheritsRepr = true ↔ ¬ ClassDecl.ShowsItself b.2 := by
        rw [hdefinition]
        exact hread.inheritsRepr_iff
      rw [Class.reprTemplateFrom]
      by_cases hshows : ClassDecl.ShowsItself b.2
      · rw [if_neg fun h => hinherits.1 h hshows]
        refine ⟨b, n, ?_, List.mem_cons_self, ⟨d, hdefinition, hread⟩, rfl⟩
        unfold ClassDecl.shownAs?
        rw [List.find?_cons, decide_eq_true hshows]
        rfl
      · rw [if_pos (hinherits.2 hshows)]
        cases hrest with
        | @cons b₂ _ chain₂ _ hn₂ hrest =>
          obtain ⟨b', n', hb', hn', hrest⟩ := ih (.cons hn₂ hrest)
          refine ⟨b', n', ?_, List.mem_cons_of_mem _ hn', hrest⟩
          rw [← hb']
          unfold ClassDecl.shownAs?
          rw [List.find?_cons, decide_eq_false hshows, List.getLast?_cons_cons]

/-- The template for the readable text is the nearest one that an entry
gives. -/
theorem strTemplate?_of_read
    (h : List.Forall₂ (fun b n => ClassNode.ReadFrom n classNames b) chain l) :
    (chain.find? (fun b => "__str__" ∈ Entries.keys b.2) = none → l.strTemplate? = none)
      ∧ ∀ b, chain.find? (fun b => "__str__" ∈ Entries.keys b.2) = some b →
        ∃ source t, b.2.find? "__str__" = some (.str source) ∧ Template.parse source = .ok t
          ∧ l.strTemplate? = some t := by
  induction h with
  | nil => exact ⟨fun _ => rfl, fun b hb => by cases hb⟩
  | @cons b n chain l hn _ ih =>
    obtain ⟨d, hdefinition, hread⟩ := hn
    have hstr : n.definition.str = d.str := by rw [hdefinition]; rfl
    unfold strTemplate? at ih ⊢
    rw [List.find?_cons, List.findSome?_cons, hstr]
    by_cases hgiven : "__str__" ∈ Entries.keys b.2
    · rw [decide_eq_true hgiven]
      refine ⟨fun hnone => (by cases hnone), fun b hb => ?_⟩
      cases hb
      cases ht : d.str with
      | none =>
        have hnone := hread.str
        rw [ht, ClassDecl.readTemplate_eq_none_iff] at hnone
        exact absurd hgiven hnone
      | some t =>
        have hsome := hread.str
        rw [ht, ClassDecl.readTemplate_eq_some_iff] at hsome
        obtain ⟨source, hsource, hparse⟩ := hsome
        exact ⟨source, t, hsource, hparse, rfl⟩
    · have hnone := hread.str
      rw [ClassDecl.readTemplate_eq_none_iff.2 hgiven] at hnone
      rw [decide_eq_false hgiven, ← Except.ok.inj hnone]
      exact ih

end Lineage

/-- The lineage of a linked class was read from the entries along the chain
of its name. -/
theorem Lineage.Chain.exists_read {root : Entries Json} (hroot : (Json.object root).DistinctKeys)
    {name file time : String} {m : ModuleDecl} (hread : m.ReadFrom name file time root) {h : Heap}
    {d : ClassDecl} {l : Lineage} (hchain : Chain m h d l) :
    ∃ chain, ModuleDecl.ParentChain root d.name chain
      ∧ List.Forall₂ (fun b n => ClassNode.ReadFrom n (ModuleDecl.classEntries root).keys b)
          chain l := by
  have hnames := hread.classNames_nodup hroot
  obtain ⟨chain, hparents, hall⟩ := hread.classes.exists_chain hnames hchain.mem
  have hdefinition := hchain.map_definition hread.classes.parentsPrecede hnames
  refine ⟨chain, hparents, ?_⟩
  have hdeclared : List.Forall₂ (fun b (e : Program.ClassDef) => ∃ d, e = .ofDecl d
      ∧ ClassDecl.ReadFrom b.1 b.2 (ModuleDecl.classEntries root).keys d) chain
      (l.map ClassNode.definition) := by
    rw [hdefinition, List.forall₂_map_right_iff]
    exact hall.imp fun b e he => ⟨e, rfl, he⟩
  exact List.forall₂_map_right_iff.1 hdeclared

-- ==================================================== what is shown

/-- A call with the given name and arguments. -/
def callText (name : String) (es : Entries Value) (text : Value → String) : String :=
  name ++ "(" ++ ", ".intercalate (es.map fun e => e.1 ++ "=" ++ text e.2) ++ ")"

/-- Names of a table have values in it. -/
theorem Table.exists_entries {α : Type} {t : Table α} {names : List String} (h : names ⊆ t.keys) :
    ∃ es : Entries α, es.keys = names ∧ ∀ e ∈ es, t.find? e.1 = some e.2 := by
  induction names with
  | nil => exact ⟨[], rfl, fun e he => by cases he⟩
  | cons name names ih =>
    obtain ⟨hname, hnames⟩ := List.cons_subset.1 h
    obtain ⟨v, hv⟩ := Table.exists_find?_iff.2 hname
    obtain ⟨es, hkeys, hes⟩ := ih hnames
    exact ⟨(name, v) :: es, congrArg (name :: ·) hkeys, List.forall_mem_cons.2 ⟨hv, hes⟩⟩

namespace ClassNode.ReadFrom

variable {n : ClassNode} {classNames : List String} {b : String × Entries Json}

/-- The class declares the instance attributes of its entry. -/
theorem declares (hn : n.ReadFrom classNames b) {a : String} (ha : a ∈ ClassDecl.ownKeys b.2) :
    n.declares a = true := by
  obtain ⟨d, hdefinition, hread⟩ := hn
  rw [ClassNode.declares_iff, ClassNode.params, hdefinition]
  show a ∈ (Program.ClassDef.ofDecl d).paramNames
  rw [Program.paramNames_ofDecl, hread.instanceNames]
  exact ha

/-- They have identifiers for names, and none that templates use for
something else. -/
theorem own_names (hn : n.ReadFrom classNames b) {a : String} (ha : a ∈ ClassDecl.ownKeys b.2) :
    isIdentifier a = true ∧ a ≠ "class_name" ∧ a ≠ "module_name" := by
  obtain ⟨d, -, hread⟩ := hn
  have hwell := ClassDecl.exists_readFrom_iff.1 ⟨d, hread⟩
  exact hwell.names a (List.mem_append_right _ ha)

theorem repr_eq_ofNames (hn : n.ReadFrom classNames b) (hnone : "__repr__" ∉ Entries.keys b.2) :
    n.definition.repr = .ofNames (ClassDecl.ownKeys b.2) := by
  obtain ⟨d, hdefinition, hread⟩ := hn
  rw [hdefinition]
  exact hread.repr_eq_ofNames hnone

end ClassNode.ReadFrom

/-- An instance with a value for each of the attributes is shown as a call
of its class. -/
theorem Instance.render_ofNames {i : Instance} {h : Heap} {es : Entries Value}
    (hnames : ∀ a ∈ Entries.keys es, isIdentifier a = true ∧ a ≠ "class_name" ∧ a ≠ "module_name")
    (hes : ∀ e ∈ es, (h.table i.fields).find? e.1 = some e.2) {view : Template.View Value}
    (hnumber : view.number = Value.number?) :
    (Template.ofNames (Entries.keys es)).render view (i.placeholder? h)
      = some (view.str (.str i.ofClass.name) ++ "("
          ++ ", ".intercalate (es.map (Template.partText view)) ++ ")") := by
  refine Template.render_ofNames (fun a ha => (hnames a ha).1) (if_pos rfl) ?_ fun e he => ?_
  · rw [hnumber]
    rfl
  · obtain ⟨-, hclass, hmodule⟩ := hnames e.1 (List.mem_map_of_mem he)
    unfold placeholder? attribute?
    rw [if_neg hclass, if_neg hmodule, hes e he]

namespace Instance

variable {i : Instance} {now : Heap} {classNames : List String}
  {chain : List (String × Entries Json)}

/-- The exact text of an instance, as the entries of its class and ancestors
have it. -/
theorem repr_by_default
    (hall : List.Forall₂ (fun b n => ClassNode.ReadFrom n classNames b) chain i.ofClass.lineage)
    (hfields : ∀ n ∈ i.ofClass.lineage, ∀ a, n.declares a = true → a ∈ (now.table i.fields).keys) :
    ∃ b, ClassDecl.shownAs? chain = some b ∧ ("__repr__" ∉ Entries.keys b.2 →
      ∃ es : Entries Value, es.keys = ClassDecl.ownKeys b.2
        ∧ (∀ e ∈ es, (now.table i.fields).find? e.1 = some e.2)
        ∧ (∀ depth, now.textWithin (depth + 1) .repr (.inst i)
            = callText i.ofClass.name es (now.textWithin depth .repr))
        ∧ ∀ n, now.Ends n .repr (.inst i) →
            (Value.inst i).reprText now = callText i.ofClass.name es fun v => v.reprText now) := by
  cases hall with
  | @cons first _ chain _ hfirst hrest =>
    obtain ⟨b, n, hb, hn, hread, htemplate⟩ := Lineage.exists_shownAs (.cons hfirst hrest)
    refine ⟨b, hb, fun hnone => ?_⟩
    have hown : ClassDecl.ownKeys b.2 ⊆ (now.table i.fields).keys := fun a ha =>
      hfields n hn a (hread.declares ha)
    obtain ⟨es, hkeys, hes⟩ := Table.exists_entries hown
    -- the template taken lists the keys of the body, none of them a keyword of
    -- templates
    have hrepr : i.ofClass.template .repr = .ofNames (Entries.keys es) := by
      rw [hkeys, ← hread.repr_eq_ofNames hnone]
      exact htemplate
    have hnames : ∀ a ∈ Entries.keys es,
        isIdentifier a = true ∧ a ≠ "class_name" ∧ a ≠ "module_name" := by
      rw [hkeys]
      exact fun a ha => hread.own_names ha
    refine ⟨es, hkeys, hes, fun depth => ?_, fun k hends => ?_⟩
    · rw [Heap.textWithin, hrepr, render_ofNames hnames hes rfl]
      simp only [Heap.textWithin]
      rfl
    · refine text_of_render hends ?_
      rw [hrepr]
      unfold render?
      rw [render_ofNames hnames hes rfl]
      simp only [Value.view, Value.strText, Heap.textWithin]
      rfl

/-- Without a template for the readable text it is the exact one. -/
theorem str_by_default (hnone : i.ofClass.lineage.strTemplate? = none) (depth : Nat) :
    now.textWithin depth .str (.inst i) = now.textWithin depth .repr (.inst i) := by
  have hsame : i.ofClass.template .str = i.ofClass.template .repr := by
    show i.ofClass.strTemplate = i.ofClass.reprTemplate
    unfold Class.strTemplate
    rw [hnone]
    rfl
  cases depth with
  | zero => simp only [Heap.textWithin]
  | succ depth => rw [Heap.textWithin, Heap.textWithin, hsame]

/-- A template for the readable text shows the instance. -/
theorem str_by_template {t : Template} (ht : i.ofClass.lineage.strTemplate? = some t)
    (hresolve : ∀ name ∈ (i.ofClass.template .str).fieldNames,
      ∃ v, i.placeholder? now name = some v) :
    ∃ text, i.render? now t = some text
      ∧ (∀ depth, ∃ text, t.render
            ⟨now.textWithin depth .str, now.textWithin depth .repr, Value.number?⟩
            (i.placeholder? now) = some text
          ∧ now.textWithin (depth + 1) .str (.inst i) = text)
      ∧ ∀ n, now.Ends n .str (.inst i) → (Value.inst i).strText now = text := by
  have htemplate : i.ofClass.template .str = t := by
    show i.ofClass.strTemplate = t
    unfold Class.strTemplate
    rw [ht]
    rfl
  rw [htemplate] at hresolve
  obtain ⟨text, htext⟩ := Template.exists_render (Value.view now) hresolve
  refine ⟨text, htext, fun depth => ?_, fun n hends => ?_⟩
  · obtain ⟨shown, hshown⟩ := Template.exists_render
      ⟨now.textWithin depth .str, now.textWithin depth .repr, Value.number?⟩ hresolve
    refine ⟨shown, hshown, ?_⟩
    rw [Heap.textWithin, htemplate, hshown]
  · refine text_of_render hends ?_
    rw [htemplate]
    exact htext

end Instance

/-- An instance of a class of a linked document, whatever happened since it
was made. Let the first entry that shows itself, along the chain of the
class, have no `__repr__`: then the exact text is the name of the class and
in brackets the entry's own attributes, each with the exact text of its
value. Without a `__str__` along the chain the readable text is the exact
one; otherwise it is what the nearest `__str__` shows. -/
theorem Instance.shown_by_default {document : Json} (hdistinct : document.DistinctKeys)
    {name file time : String} {m : ModuleDecl}
    (hm : ModuleDecl.ofDocument name file time document = .ok m) {before after : Heap}
    {s : ModuleState} (hs : (Program.ofModule m).link document before = .ok (s, after))
    {key : String} {c : Class} (hc : s.classes.find? key = some c) {h : Heap} (hlive : after.Steps h)
    {args : Arguments} {i : Instance} {made now : Heap}
    (hi : c.instantiate args h = .ok (i, made)) (hrun : made.Steps now) :
    ∃ root chain, document = .object root
      ∧ (∀ chain', ModuleDecl.ParentChain root key chain' ↔ chain' = chain)
      ∧ (∃ b, ClassDecl.shownAs? chain = some b ∧ ("__repr__" ∉ Entries.keys b.2 →
          ∃ es : Entries Value, es.keys = ClassDecl.ownKeys b.2
            ∧ (∀ e ∈ es, (now.table i.fields).find? e.1 = some e.2)
            ∧ (∀ depth, now.textWithin (depth + 1) .repr (.inst i)
                = callText key es (now.textWithin depth .repr))
            ∧ ∀ n, now.Ends n .repr (.inst i) →
                (Value.inst i).reprText now = callText key es fun v => v.reprText now))
      ∧ (chain.find? (fun b => "__str__" ∈ Entries.keys b.2) = none →
          ∀ depth, now.textWithin depth .str (.inst i) = now.textWithin depth .repr (.inst i))
      ∧ ∀ b, chain.find? (fun b => "__str__" ∈ Entries.keys b.2) = some b →
          ∃ source t text, b.2.find? "__str__" = some (.str source) ∧ Template.parse source = .ok t
            ∧ i.render? now t = some text
            ∧ (∀ depth, ∃ text, t.render
                  ⟨now.textWithin depth .str, now.textWithin depth .repr, Value.number?⟩
                  (i.placeholder? now) = some text
                ∧ now.textWithin (depth + 1) .str (.inst i) = text)
            ∧ ∀ n, now.Ends n .str (.inst i) → (Value.inst i).strText now = text := by
  have hlinked : c.LiveIn document m h :=
    ⟨hdistinct, ⟨_, _, _, hm⟩, before, after, s, key, hs, hc, hlive⟩
  obtain ⟨root, rfl⟩ := ModuleDecl.exists_root_of_ofDocument hm
  have hread := (ModuleDecl.ofDocument_eq_ok hdistinct.1).1 hm
  obtain ⟨d, rfl, hstart⟩ := Program.exists_chain_of_link hs hc
  obtain ⟨chain, hparents, hall⟩ := hstart.exists_read hdistinct hread
  have hkeys := (ModuleDecl.classEntries_distinct hdistinct).1
  obtain ⟨rfl, fields, hplace, hfilled⟩ :=
    Class.instantiate_ok hlinked.linkedFrom.lineage_declared hi
  obtain ⟨-, hkept⟩ := hrun.fields hplace
  have hname : i.ofClass.name = d.name := congrArg Program.ClassDef.name hstart.head
  -- what a class of the line declares is a field from the start, and stays one
  have hfields : ∀ n ∈ i.ofClass.lineage, ∀ a, n.declares a = true →
      a ∈ (now.table i.fields).keys :=
    fun n hn a hdeclares => hkept ((hfilled.names a).2 ⟨n, hn, hdeclares⟩)
  obtain ⟨hnone, hsome⟩ := Lineage.strTemplate?_of_read hall
  refine ⟨root, chain, rfl, fun chain' => ⟨fun h => h.unique hkeys hparents, fun h => h ▸ hparents⟩,
    hname ▸ repr_by_default hall hfields, fun hfind => str_by_default (hnone hfind), ?_⟩
  intro b hb
  obtain ⟨source, t, hsource, hparse, ht⟩ := hsome b hb
  obtain ⟨text, htext⟩ := str_by_template ht (hlinked.exists_placeholder hi hrun .str)
  exact ⟨source, t, text, hsource, hparse, htext⟩

namespace Sample

/-- A class with two attributes and a `__str__`, and one that adds
nothing. -/
def pointClasses : Entries Json := [
  ("Point", .object [
    ("x", .number (.int 1)),
    ("label", .str "p"),
    ("__str__", .str "\x7blabel\x7d at \x7bx\x7d")]),
  ("Pin", .object [("__parent__", .str "Point")])]

/-- The document of both. -/
def points : Json := .object pointClasses

theorem distinctKeys_points : points.DistinctKeys := by
  simp [points, pointClasses, Json.DistinctKeys, Json.DistinctKeysFields, Entries.keys]

/-- A new instance and its heap, and the heap after an assignment to it. -/
def moved? (c : Class) (h : Heap) : Option (Instance × Heap × Heap) :=
  match c.instantiate {} h with
  | .error _ => none
  | .ok (i, made) =>
    match i.setAttr made "x" (.int 7) with
    | .error _ => none
    | .ok now => some (i, made, now)

/-- The class that adds nothing has its own name and the attributes of its
parent. -/
theorem pin_shown_by_default :
    ∃ m s after c i made now, linked? "m" points .empty = some (m, s, after)
      ∧ s.classes.find? "Pin" = some c ∧ moved? c after = some (i, made, now)
      ∧ (∃ es : Entries Value, es.keys = ["x", "label"]
          ∧ (Value.inst i).reprText now = callText "Pin" es fun v => v.reprText now)
      ∧ (Value.inst i).reprText now = "Pin(x=7, label=\"p\")"
      ∧ ∃ t, Template.parse "\x7blabel\x7d at \x7bx\x7d" = .ok t
          ∧ i.render? now t = some "p at 7" := by
  have hcomputed : ((linked? "m" points .empty).bind fun linked =>
      (linked.2.1.classes.find? "Pin").bind fun c => (moved? c linked.2.2).map fun r =>
        ((Value.inst r.1).reprText r.2.2, (Value.inst r.1).strText r.2.2,
          decide (r.2.2.Ends 1 .repr (.inst r.1)), decide (r.2.2.Ends 1 .str (.inst r.1))))
      = some ("Pin(x=7, label=\"p\")", "p at 7", true, true) := by decide +kernel
  obtain ⟨⟨m, s, after⟩, hlinked, hcomputed⟩ := Option.bind_eq_some_iff.1 hcomputed
  obtain ⟨c, hc, hcomputed⟩ := Option.bind_eq_some_iff.1 hcomputed
  obtain ⟨⟨i, made, now⟩, hmoved, hcomputed⟩ := Option.map_eq_some_iff.1 hcomputed
  simp only [Prod.mk.injEq, decide_eq_true_eq] at hcomputed
  obtain ⟨hrepr, hstr, hendsRepr, hendsStr⟩ := hcomputed
  obtain ⟨hm, hs⟩ := linked?_eq_some hlinked
  refine ⟨m, s, after, c, i, made, now, hlinked, hc, hmoved, ?_⟩
  unfold moved? at hmoved
  split at hmoved
  case h_1 => cases hmoved
  case h_2 i' made' hi =>
    split at hmoved
    case h_1 => cases hmoved
    case h_2 now' hset =>
      cases hmoved
      have hlive : c.LiveIn points m after :=
        ⟨distinctKeys_points, ⟨_, _, _, hm⟩, _, after, s, "Pin", hs, hc, .refl⟩
      obtain ⟨-, fields, hplace, -⟩ := Class.instantiate_ok hlive.linkedFrom.lineage_declared hi
      have hassign : made.Step now := .assign hplace (fun r hr => (by cases hr)) hset
      obtain ⟨root, chain, hroot, hchain, ⟨b, hb, hcall⟩, -, htemplate⟩ :=
        Instance.shown_by_default distinctKeys_points hm hs hc .refl hi (.single hassign)
      cases hroot
      have hpoint : Entries.find? (ModuleDecl.classEntries pointClasses) "Point" = some _ := rfl
      have hpin : Entries.find? (ModuleDecl.classEntries pointClasses) "Pin" = some _ := rfl
      have hlast := ModuleDecl.ParentChain.last (Entries.mem_of_find? hpoint) (.inl rfl)
      obtain rfl := (hchain _).1 (.step (Entries.mem_of_find? hpin) rfl (by decide) hlast)
      obtain rfl := Option.some.inj (hb.symm.trans rfl)
      obtain ⟨es, hkeys, -, -, htext⟩ := hcall (by decide)
      obtain ⟨source, t, text, hsource, hparse, hrender, -, hshown⟩ := htemplate _ rfl
      cases hsource
      refine ⟨⟨es, hkeys, htext 1 hendsRepr⟩, hrepr, t, hparse, ?_⟩
      rw [hrender, ← hshown 1 hendsStr, hstr]

end Sample

end LiveDoc
