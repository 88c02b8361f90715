/-
What can be asked of a value.

A class or an instance can be asked for its lineage, for attributes, for
its texts and for what its checkers say; attributes can be assigned and
classes called. `Inquiry` is any of these and `Value.answer` what comes of
it. In heaps that correspond, inquiries that correspond get answers that
correspond (`Heap.Renamed.answer`, one case for each inquiry), so whoever
goes on asking, about what there was or about what the answers gave, never
learns which of the two heaps it is (`Heap.Renamed.converse`).

A heap that has grown corresponds to what it was, and old references stay
as they are (`Heap.Extends.renamed`). Where all is closed, old values refer
to old objects only, so their answers are not only renamed answers but the
same ones; what an assignment or a call leaves can still differ, and only
in the places of objects that are new in either heap
(`Heap.Extends.answer_agrees`).
-/
import LiveDoc.Proofs.Equivariance
import LiveDoc.Proofs.Evolution

namespace LiveDoc

open Template (Conversion)

variable {ρ : Ref → Ref} {h h' : Heap}

-- ==================================================== inquiries

/-- What can be asked of a value or done with it. -/
inductive Inquiry
  /-- the classes along the lineage -/
  | lineage
  | getAttr (name : String)
  /-- whether a value would be accepted for an attribute -/
  | validate (name : String) (x : Value)
  | setAttr (name : String) (x : Value)
  | call (args : Arguments)
  | text (conversion : Conversion)

/-- What comes of it. Only classes and instances have a lineage and
checkers; assignments and calls leave another heap. -/
inductive Answer
  | lineage (l : Option Lineage)
  | getAttr (result : Except CallError Value)
  | validate (verdict : Option (Except ValidationError Unit))
  | setAttr (result : Except CallError Heap)
  | call (result : Except CallError (Value × Heap))
  | text (text : Option String)

namespace Value

/-- The class that the value is, or that it is an instance of. -/
def class? : Value → Option Class
  | .cls c => some c
  | .inst i => some i.ofClass
  | _ => none

/-- The answer to an inquiry. -/
def answer (v : Value) (h : Heap) : Inquiry → Answer
  | .lineage => .lineage (v.class?.map Class.lineage)
  | .getAttr name => .getAttr (v.getAttr h name)
  | .validate name x => .validate (v.class?.map fun c => c.validate name x)
  | .setAttr name x => .setAttr (v.setAttr h name x)
  | .call args => .call (v.call args h)
  | .text conversion => .text (h.text? conversion v)

/-- A value has its class wherever either is. -/
theorem class?_renamed (ρ : Ref → Ref) (v : Value) :
    (v.renamed ρ).class? = v.class?.map (Class.renamed ρ) := by
  cases v <;> rfl

end Value

/-- The inquiry with all that is passed elsewhere. -/
def Inquiry.renamed (ρ : Ref → Ref) : Inquiry → Inquiry
  | .validate name x => .validate name (x.renamed ρ)
  | .setAttr name x => .setAttr name (x.renamed ρ)
  | .call args => .call (args.renamed ρ)
  | q => q

namespace Answer

/-- The second answer is the first with all that it refers to elsewhere. -/
inductive Renamed (ρ : Ref → Ref) : Answer → Answer → Prop
  | lineage (l : Option Lineage) :
      Renamed ρ (.lineage l) (.lineage (l.map (List.map (ClassNode.renamed ρ))))
  | getAttr (result : Except CallError Value) :
      Renamed ρ (.getAttr result) (.getAttr (result.map (Value.renamed ρ)))
  | validate (verdict : Option (Except ValidationError Unit)) :
      Renamed ρ (.validate verdict) (.validate verdict)
  | setAttr {result result' : Except CallError Heap}
      (results : Corresponds (Heap.Renamed ρ) result result') :
      Renamed ρ (.setAttr result) (.setAttr result')
  | call {result result' : Except CallError (Value × Heap)}
      (results : Corresponds (fun r r' => r'.1 = r.1.renamed ρ ∧ r.2.Renamed ρ r'.2)
        result result') :
      Renamed ρ (.call result) (.call result')
  | text (text : Option String) : Renamed ρ (.text text) (.text text)

/-- The heap that an answer leaves. -/
def heap (h : Heap) : Answer → Heap
  | .setAttr (.ok made) => made
  | .call (.ok (_, made)) => made
  | _ => h

/-- Answers that correspond leave heaps that correspond, so that one can go on
asking. -/
theorem Renamed.heap {a a' : Answer} (ha : a.Renamed ρ a') (hr : h.Renamed ρ h') :
    (a.heap h).Renamed ρ (a'.heap h') := by
  cases ha with
  | setAttr hresults =>
    cases hresults with
    | error e => exact hr
    | ok hmade => exact hmade
  | call hresults =>
    cases hresults with
    | error e => exact hr
    | ok hmade => exact hmade.2
  | _ => exact hr

end Answer

/-- Inquiries that correspond get answers that correspond. -/
theorem Heap.Renamed.answer (hr : h.Renamed ρ h') (v : Value) (q : Inquiry) :
    (v.answer h q).Renamed ρ ((v.renamed ρ).answer h' (q.renamed ρ)) := by
  cases q with
  | lineage =>
    show Answer.Renamed ρ _ (.lineage ((v.renamed ρ).class?.map Class.lineage))
    rw [v.class?_renamed, Option.map_map,
      show Class.lineage ∘ Class.renamed ρ = List.map (ClassNode.renamed ρ) ∘ Class.lineage from rfl,
      ← Option.map_map]
    exact .lineage _
  | getAttr name =>
    show Answer.Renamed ρ _ (.getAttr ((v.renamed ρ).getAttr h' name))
    rw [hr.getAttr_eq]
    exact .getAttr _
  | validate name x =>
    have hvalid : (fun c : Class => c.validate name (x.renamed ρ)) ∘ Class.renamed ρ
        = fun c => c.validate name x :=
      funext fun c => c.lineage.validate_renamed ρ name x
    show Answer.Renamed ρ _
      (.validate ((v.renamed ρ).class?.map fun c => c.validate name (x.renamed ρ)))
    rw [v.class?_renamed, Option.map_map, hvalid]
    exact .validate _
  | setAttr name x => exact .setAttr (hr.setAttr v name x)
  | call args => exact .call (hr.call v args)
  | text conversion =>
    show Answer.Renamed ρ _ (.text (h'.text? conversion (v.renamed ρ)))
    rw [hr.text?_eq]
    exact .text _

/-- The answers to inquiries one after the other, each about any value, in
the heaps that the answers leave. -/
def Heap.converse (h : Heap) : List (Value × Inquiry) → List Answer
  | [] => []
  | (v, q) :: rest => v.answer h q :: ((v.answer h q).heap h).converse rest

/-- However long one goes on, the answers correspond. -/
theorem Heap.Renamed.converse (hr : h.Renamed ρ h') (inquiries : List (Value × Inquiry)) :
    List.Forall₂ (Answer.Renamed ρ) (h.converse inquiries)
      (h'.converse (inquiries.map fun e => (e.1.renamed ρ, e.2.renamed ρ))) := by
  induction inquiries generalizing h h' with
  | nil => exact .nil
  | cons e rest ih =>
    have hanswer := hr.answer e.1 e.2
    exact .cons hanswer (ih (hanswer.heap hr))

-- ==================================================== heaps that have grown

/-- The first `n` places stay, and the others are `k` places further
back. -/
def shifted (n k r : Nat) : Nat := if r < n then r else r + k

theorem shifted_of_lt {n r : Nat} (hr : r < n) (k : Nat) : shifted n k r = r := if_pos hr

theorem shifted_of_ge {n r : Nat} (hr : n ≤ r) (k : Nat) : shifted n k r = r + k :=
  if_neg (Nat.not_lt.2 hr)

/-- What is moved ends up behind what stays, so no two places become one. -/
theorem shifted_injective (n k : Nat) : Function.Injective (shifted n k) := by
  intro a b hab
  unfold shifted at hab
  split at hab <;> split at hab <;> omega

/-- What a table of a closed heap holds refers only to what exists. -/
theorem Heap.Closed.table (hclosed : h.Closed) {r : Ref} {name : String} {v : Value}
    (hv : (h.table r).find? name = some v) : v.Within h.size := by
  unfold Heap.table at hv
  split at hv
  case h_1 t hr => exact hclosed r _ hr v ⟨name, hv⟩
  case h_2 t hr => exact hclosed r _ hr v ⟨name, hv⟩
  case h_3 t hr => exact hclosed r _ hr v ⟨name, hv⟩
  case h_4 => cases hv

/-- A heap that has grown corresponds to what it was before. -/
theorem Heap.Extends.renamed (hext : h.Extends h') (hclosed : h.Closed) :
    h.Renamed (shifted h.size (h'.size - h.size)) h' := by
  have hsize := hext.size
  refine ⟨shifted_injective _ _, fun r => ?_, fun k => ?_⟩
  · rcases Nat.lt_or_ge r h.size with hlt | hge
    · rw [shifted_of_lt hlt, hext.same r hlt]
      cases hplace : h.objects[r]? with
      | none => rfl
      | some o =>
        have ho := Object.renamed_eq_self (fun s hs => shifted_of_lt hs (h'.size - h.size))
          (hclosed r o hplace)
        exact congrArg some ho.symm
    · have hnew : h'.size ≤ r + (h'.size - h.size) := by
        have := Nat.add_le_add_right hge (h'.size - h.size)
        omega
      rw [shifted_of_ge hge, Array.getElem?_eq_none hnew, Array.getElem?_eq_none hge]
      rfl
  · rw [shifted_of_ge (Nat.le_add_left _ _), Nat.add_assoc, Nat.add_sub_cancel' hsize]

/-- What is passed refers only to the first `n` places. -/
def Inquiry.Within (n : Nat) : Inquiry → Prop
  | .validate _ x => x.Within n
  | .setAttr _ x => x.Within n
  | .call args => args.Within n
  | _ => True

/-- An inquiry about old values stays as it is. -/
theorem Inquiry.renamed_eq_self {n : Nat} {q : Inquiry} (hfixed : ∀ r < n, ρ r = r)
    (hq : q.Within n) : q.renamed ρ = q := by
  cases q with
  | validate name x => exact congrArg (validate name) (Value.renamed_eq_self hfixed hq)
  | setAttr name x => exact congrArg (setAttr name) (Value.renamed_eq_self hfixed hq)
  | call args =>
    obtain ⟨hpositional, hkeyword⟩ := hq
    have hvalues : args.positional.map (Value.renamed ρ) = args.positional := by
      conv_rhs => rw [← List.map_id args.positional]
      exact List.map_congr_left fun v hv => Value.renamed_eq_self hfixed (hpositional v hv)
    have hentries : args.keyword.map (Value.renamed ρ) = args.keyword := by
      refine Table.map_eq_self fun key v hv => Value.renamed_eq_self hfixed ?_
      exact hkeyword (key, v) (Table.find?_eq_some_iff.1 hv)
    show call ⟨args.positional.map (Value.renamed ρ), args.keyword.map (Value.renamed ρ)⟩ = _
    rw [hvalues, hentries]
  | _ => rfl

/-- Two answers are the same, as far as they can be when they are given in
heaps that have only the first `n` places in common. -/
inductive Answer.Agrees (n : Nat) : Answer → Answer → Prop
  /-- they are the same -/
  | same (a : Answer) : Agrees n a a
  /-- both assignments are accepted, and what they leave differs only in the
  places that other objects take -/
  | setAttr {made made' : Heap} {ρ : Ref → Ref} (fixed : ∀ r < n, ρ r = r)
      (objects : made.Renamed ρ made') : Agrees n (.setAttr (.ok made)) (.setAttr (.ok made'))
  /-- both calls succeed, and so does what they leave, and what they give -/
  | call {v v' : Value} {made made' : Heap} {ρ : Ref → Ref} (fixed : ∀ r < n, ρ r = r)
      (value : v' = v.renamed ρ) (objects : made.Renamed ρ made') :
      Agrees n (.call (.ok (v, made))) (.call (.ok (v', made')))

namespace Answer.Agrees

variable {n : Nat}

/-- Assignments that correspond are refused alike or leave heaps that
correspond, which is all that can be in common. -/
theorem of_setAttr {result result' : Except CallError Heap} (hfixed : ∀ r < n, ρ r = r)
    (h : Corresponds (Heap.Renamed ρ) result result') :
    Agrees n (.setAttr result) (.setAttr result') := by
  cases h with
  | error e => exact .same _
  | ok hmade => exact .setAttr hfixed hmade

/-- So it is with calls, and with what they give. -/
theorem of_call {result result' : Except CallError (Value × Heap)} (hfixed : ∀ r < n, ρ r = r)
    (h : Corresponds (fun r r' => r'.1 = r.1.renamed ρ ∧ r.2.Renamed ρ r'.2) result result') :
    Agrees n (.call result) (.call result') := by
  cases h with
  | error e => exact .same _
  | ok hmade => exact .call hfixed hmade.1 hmade.2

theorem text_eq {text text' : Option String} (h : Agrees n (.text text) (.text text')) :
    text' = text := by
  cases h
  rfl

end Answer.Agrees

namespace Heap

/-- The class attributes of a closed heap, too, refer only to what exists. -/
theorem Closed.lineage_attribute? (hclosed : h.Closed) {l : Lineage} {attr : String} {v : Value}
    (hv : l.attribute? h attr = some v) : v.Within h.size := by
  obtain ⟨n, -, hn⟩ := List.exists_of_findSome?_eq_some hv
  exact hclosed.table hn

/-- The attributes of a value refer only to what exists. -/
theorem Closed.getAttr (hclosed : h.Closed) {v w : Value} {attr : String}
    (hw : v.getAttr h attr = .ok w) : w.Within h.size := by
  cases v with
  | cls c =>
    change c.getAttr h attr = .ok w at hw
    unfold Class.getAttr at hw
    split at hw
    case h_1 hattr =>
      cases hw
      exact hclosed.lineage_attribute? hattr
    case h_2 => cases hw
  | inst i =>
    change i.getAttr h attr = .ok w at hw
    unfold Instance.getAttr at hw
    split at hw
    case h_2 => cases hw
    case h_1 hattr =>
      cases hw
      unfold Instance.attribute? at hattr
      split at hattr
      case h_1 hfield =>
        cases hattr
        exact hclosed.table hfield
      case h_2 => exact hclosed.lineage_attribute? hattr
  | _ => cases hw

/-- What has been added to a heap shows in no answer. -/
theorem Extends.answer_agrees (hext : h.Extends h') (hclosed : h.Closed) {v : Value}
    (hv : v.Within h.size) {q : Inquiry} (hq : q.Within h.size) :
    (v.answer h q).Agrees h.size (v.answer h' q) := by
  -- the larger heap is the smaller one moved, with old places where they were
  obtain ⟨ρ, hfixed, hr⟩ : ∃ ρ : Ref → Ref, (∀ r < h.size, ρ r = r) ∧ h.Renamed ρ h' :=
    ⟨_, fun r hlt => shifted_of_lt hlt _, hext.renamed hclosed⟩
  have hv : v.renamed ρ = v := Value.renamed_eq_self hfixed hv
  have hq : q.renamed ρ = q := q.renamed_eq_self hfixed hq
  cases q with
  | lineage => exact .same _
  | validate name x => exact .same _
  | getAttr name =>
    have hresult : (v.getAttr h name).map (Value.renamed ρ) = v.getAttr h name := by
      cases hw : v.getAttr h name with
      | error e => rfl
      | ok w => exact congrArg Except.ok (Value.renamed_eq_self hfixed (hclosed.getAttr hw))
    have hattr := hr.getAttr_eq v name
    rw [hv, hresult] at hattr
    show Answer.Agrees h.size _ (.getAttr (v.getAttr h' name))
    rw [hattr]
    exact .same _
  | setAttr name x =>
    have hresults := hr.setAttr v name x
    rw [hv, (Inquiry.setAttr.inj hq).2] at hresults
    exact .of_setAttr hfixed hresults
  | call args =>
    have hresults := hr.call v args
    rw [hv, Inquiry.call.inj hq] at hresults
    exact .of_call hfixed hresults
  | text conversion =>
    have htext := hr.text?_eq conversion v
    rw [hv] at htext
    show Answer.Agrees h.size _ (.text (h'.text? conversion v))
    rw [htext]
    exact .same _

end Heap

end LiveDoc
