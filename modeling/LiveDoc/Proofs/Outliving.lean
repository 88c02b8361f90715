/-
What a module gave outlives its contents.

A module that is renewed gets other contents, and those who hold classes
and instances of the old contents keep them. Nothing of what they hold is
written to: new contents are made of new objects (`System.Grown`, one case
for each way to renew a module, failures among them). What they hold refers
to old objects only. That is the invariant of a system in use
(`System.Sound`): objects and module contents refer to what exists, so
whatever a module gives exists at the time (`Module.Gives.within`), and
what has been obtained exists ever after (`System.Obtained.within`),
however deep values are nested and however many generations of a class
there are.

So over any number of renewals the heap only grows, and from there it is
no longer a matter of modules: what is added to a heap shows in no answer
(`System.Obtained.same_answers`).
-/
import LiveDoc.Proofs.Answers
import LiveDoc.Proofs.Loading

namespace LiveDoc

open Relation (ReflTransGen)
open Traversal

-- ==================================================== contents

/-- Names are bound to nothing but what the first `n` places hold. -/
structure Bindings.Within (b : Bindings) (n : Nat) : Prop where
  attributes : ∀ name v, b.attributes.find? name = some v → v.Within n
  classes : ∀ name c, b.classes.find? name = some c → (Value.cls c).Within n

theorem Bindings.Within.mono {b : Bindings} {n n' : Nat} (hb : b.Within n) (hn : n ≤ n') :
    b.Within n' where
  attributes name v hv := (hb.attributes name v hv).mono hn
  classes name c hc := (hb.classes name c hc).mono hn

/-- The contents of a module refer only to the first `n` places. -/
def ModuleState.Within (state : ModuleState) (n : Nat) : Prop :=
  Bindings.Within ⟨state.attributes, state.classes⟩ n

/-- A class refers to its own class attributes and to those of its
ancestors. -/
theorem Class.link_within (moduleName : String) {ancestors : Lineage} (d : Program.ClassDef)
    {h : Heap} (hancestors : ∀ n ∈ ancestors, n.table < h.size) :
    (Value.cls (Class.link moduleName ancestors d h).1).Within
      (Class.link moduleName ancestors d h).2.size := by
  have hgrown := (link_grown moduleName ancestors d h).kept.size
  intro r hr
  rcases List.mem_cons.1 hr with hown | hr
  · show r < (Heap.alloc _ _).2.size
    rw [hown, Heap.size_alloc]
    exact Nat.lt_succ_self _
  · obtain ⟨n, hn, rfl⟩ := List.mem_map.1 hr
    exact Nat.lt_of_lt_of_le (hancestors n hn) hgrown

/-- What linking binds exists. -/
theorem Program.linkItems_within {moduleName : String} {items : List Item} {b b' : Bindings}
    {h h' : Heap} (hlink : linkItems moduleName items b h = .ok (b', h'))
    (hb : b.Within h.size) : b'.Within h'.size := by
  refine linkItems_keeps (P := fun b h => b.Within h.size) hlink hb ?_ ?_
  · intro name value b h _ hb
    obtain ⟨hmade, hbetween, -⟩ := value.materialize_made h
    have hb := hb.mono hmade.grown.size
    refine ⟨fun key v hv => ?_, hb.classes⟩
    rw [Table.find?_insert] at hv
    split at hv
    case isTrue =>
      cases hv
      exact hbetween.within
    case isFalse => exact hb.attributes key v hv
  · intro d ancestors b h _ hb _ hancestors
    have hplaces : ∀ n ∈ ancestors, n.table < h.size := by
      rcases Bindings.ancestors?_eq_some hancestors with ⟨-, rfl⟩ | ⟨base, parent, -, hparent, rfl⟩
      · exact fun n hn => by cases hn
      · exact fun n hn => hb.classes base parent hparent n.table (List.mem_map_of_mem hn)
    have hb := hb.mono (Class.link_grown moduleName ancestors d h).kept.size
    refine ⟨hb.attributes, fun key c hc => ?_⟩
    rw [Table.find?_insert] at hc
    split at hc
    case isTrue =>
      cases hc
      exact Class.link_within moduleName d hplaces
    case isFalse => exact hb.classes key c hc

/-- What is linked refers only to objects that there are afterwards. -/
theorem Program.link_within {p : Program} {document : Json} {h h' : Heap} {state : ModuleState}
    (hlink : p.link document h = .ok (state, h')) : state.Within h'.size := by
  obtain ⟨⟨b, h₁⟩, hitems, hstate⟩ := bind_eq_ok.1 hlink
  cases hstate
  refine linkItems_within hitems ⟨?_, ?_⟩
  · exact fun name v hv => by cases hv
  · exact fun name c hc => by cases hc

namespace Module

/-- What a module gives, and the heap then. -/
inductive Gives (m : Module) (h : Heap) : Value → Heap → Prop
  | get {name : String} {v : Value} (found : m.get name = .ok v) : Gives m h v h
  | getClass {name : String} {c : Class} (found : m.getClass name = .ok c) : Gives m h (.cls c) h
  | instantiate {name : String} {args : Arguments} {i : Instance} {made : Heap}
      (passed : args.Within h.size) (success : m.instantiate name args h = .ok (i, made)) :
      Gives m h (.inst i) made

end Module

/-- A new instance refers to its class and to the place that its fields have
taken. -/
theorem Class.instantiate_within {c : Class} {args : Arguments} {h made : Heap} {i : Instance}
    (hc : (Value.cls c).Within h.size) (hi : c.instantiate args h = .ok (i, made)) :
    (Value.inst i).Within made.size := by
  have hsize := (instantiate_extends hi).size
  obtain ⟨rfl, fields, hplace⟩ := instantiate_place hi
  intro r hr
  rcases List.mem_cons.1 hr with rfl | hr
  · exact Heap.lt_size_of_getElem? hplace
  · exact Nat.lt_of_lt_of_le (hc r hr) hsize

namespace Module

/-- A class of a module refers only to places that the contents of the module
refer to. -/
theorem getClass_within {m : Module} {n : Nat} (hm : m.state.Within n) {name : String} {c : Class}
    (hc : m.getClass name = .ok c) : (Value.cls c).Within n := by
  unfold getClass at hc
  split at hc
  case h_1 hfind =>
    cases hc
    exact hm.classes name c hfind
  case h_2 =>
    split at hc
    · cases hc
    · cases hc

/-- So does whatever an attribute of the module gives. -/
theorem get_within {m : Module} {n : Nat} (hm : m.state.Within n) {name : String} {v : Value}
    (hv : m.get name = .ok v) : v.Within n := by
  have htext : ∀ s : String, (Value.str s).Within n := fun s r hr => by cases hr
  unfold get at hv
  split at hv
  · cases hv
    exact htext _
  split at hv
  · cases hv
    exact htext _
  split at hv
  · cases hv
    exact htext _
  split at hv
  case h_1 hfind =>
    cases hv
    exact hm.attributes name _ hfind
  case h_2 hfind =>
    cases hv
    exact hm.classes name _ hfind
  case h_3 => cases hv

/-- What is given exists, and giving it is at most a step of the heap. -/
theorem Gives.within {m : Module} {h made : Heap} {v : Value} (hm : m.state.Within h.size)
    (hv : m.Gives h v made) : v.Within made.size ∧ (made = h ∨ h.Step made) := by
  cases hv with
  | get hfound => exact ⟨get_within hm hfound, .inl rfl⟩
  | getClass hfound => exact ⟨getClass_within hm hfound, .inl rfl⟩
  | instantiate hargs hmade =>
    obtain ⟨c, hc, hmade⟩ := bind_eq_ok.1 hmade
    exact ⟨Class.instantiate_within (getClass_within hm hc) hmade,
      .inr (Class.instantiate_step hargs hmade)⟩

end Module

-- ==================================================== systems in use

namespace System

/-- What can happen while modules are renewed. -/
inductive Renewal : System → System → Prop
  /-- a module is imported, activated or reloaded, or fails to be -/
  | request (s : System) (l : LoaderRef) (q : Request) : Renewal s (s.request l q).2
  /-- contents are put into a module by hand; objects have come up for them -/
  | replace {s : System} {r : ModuleRef} {m : Module} {state : ModuleState} {heap : Heap}
      (place : s.module? r = some m) (grown : s.heap.Grown heap) (exist : state.Within heap.size) :
      Renewal s (({ s with heap } : System).setModule r (m.replace state))
  /-- documents, loaders or records change, anything but modules and objects -/
  | surroundings {s s' : System} (modules : s'.modules = s.modules) (heap : s'.heap = s.heap) :
      Renewal s s'

/-- Whatever program is linked, its contents may be put into a module. -/
theorem Renewal.of_link {s : System} {r : ModuleRef} {m : Module} (hr : s.module? r = some m)
    {p : Program} {document : Json} {state : ModuleState} {heap : Heap}
    (hlink : p.link document s.heap = .ok (state, heap)) :
    Renewal s (({ s with heap } : System).setModule r (m.replace state)) :=
  .replace hr (Program.link_grown hlink) (Program.link_within hlink)

/-- What can happen to a system that is in use. A `Step` lets objects change
at will; here they change as they do when values are used. -/
inductive Change : System → System → Prop
  | renewal {s s' : System} (renewed : Renewal s s') : Change s s'
  | objects {s : System} {heap : Heap} (step : s.heap.Step heap) : Change s { s with heap }
  /-- a module attribute is bound -/
  | bind {s : System} {r : ModuleRef} {m : Module} (place : s.module? r = some m) (name : String)
      {v : Value} (exist : v.Within s.heap.size) : Change s (s.setModule r (m.set name v))
  /-- a module is made by hand -/
  | addModule {s : System} {state : ModuleState} {heap : Heap} (name : String)
      (grown : s.heap.Grown heap) (exist : state.Within heap.size) :
      Change s (({ s with heap } : System).addModule (.ofState name state)).2

/-- The system has come about from one without loaders and modules. -/
def Live (s : System) : Prop := ReflTransGen Change {} s

/-- Objects and the contents of modules refer only to what exists. -/
structure Sound (s : System) : Prop where
  objects : s.heap.Closed
  contents : ∀ r m, s.module? r = some m → m.state.Within s.heap.size

/-- Objects have come up, and whatever a module holds it has held before, or
it exists. -/
structure Grown (s s' : System) : Prop where
  objects : s.heap.Grown s'.heap
  contents : ∀ r m, s'.module? r = some m →
    s.module? r = some m ∨ m.state.Within s'.heap.size

variable {s s' : System}

/-- Changes to anything but modules and objects do not matter. -/
theorem Grown.of_eq {s₁ : System} (hgrown : Grown s s₁) (hmodules : s'.modules = s₁.modules)
    (hheap : s'.heap = s₁.heap) : Grown s s' where
  objects := by
    rw [hheap]
    exact hgrown.objects
  contents r m hm := by
    unfold module? at hm
    rw [hmodules] at hm
    rw [hheap]
    exact hgrown.contents r m hm

theorem Grown.refl (s : System) : Grown s s := ⟨.refl _, fun _ _ hm => .inl hm⟩

/-- A module may be given new contents, in place of the old. -/
theorem Grown.setModule {heap : Heap} (hgrown : s.heap.Grown heap) {r : ModuleRef} {old new : Module}
    (hr : s.module? r = some old) (hnew : new.state.Within heap.size) :
    Grown s (({ s with heap } : System).setModule r new) where
  objects := hgrown
  contents r' m hm := by
    rw [module?_setModule (s := { s with heap }) hr] at hm
    split at hm
    case isTrue =>
      cases hm
      exact .inr hnew
    case isFalse => exact .inl hm

/-- A new module leaves the others where they are. -/
theorem Grown.addModule {heap : Heap} (hgrown : s.heap.Grown heap) {new : Module}
    (hnew : new.state.Within heap.size) :
    Grown s (({ s with heap } : System).addModule new).2 where
  objects := hgrown
  contents r m hm := by
    rw [module?_addModule] at hm
    split at hm
    case isTrue =>
      cases hm
      exact .inr hnew
    case isFalse => exact .inl hm

/-- Whatever becomes of an activation, objects only come up. -/
theorem activateAt_grown (s : System) (l : LoaderRef) (name path : String)
    (existing : Option ModuleRef) : Grown s (s.activateAt l name path existing).2 := by
  rcases activateAt_cases s l name path existing with
    ⟨cause, -, hfails⟩ | ⟨state, heap, r, s₁, hlink, hinstall, hsucceeds⟩
  · rw [hfails]
    refine (Grown.refl s).of_eq ?_ ?_ <;> dsimp only <;> split <;> rfl
  · obtain ⟨⟨document, program⟩, -, hlink⟩ := bind_eq_ok.1 hlink
    have hlink := mapError_eq_ok.1 hlink
    have hgrown := Program.link_grown hlink
    have hstate := Program.link_within hlink
    -- a new module is added, an old one keeps its place and gets new contents
    have hinstalled : Grown s s₁ := by
      cases existing with
      | none =>
        cases hinstall
        exact .addModule hgrown hstate
      | some r₀ =>
        unfold install at hinstall
        dsimp only at hinstall
        split at hinstall
        case h_1 m hm =>
          cases hinstall
          exact .setModule hgrown hm hstate
        case h_2 =>
          cases hinstall
          exact ⟨hgrown, fun _ _ hm => .inl hm⟩
    rw [hsucceeds]
    exact hinstalled.of_eq rfl rfl

/-- Whatever is requested of a loader only adds objects, and modules have
contents that exist. -/
theorem request_grown (s : System) (l : LoaderRef) (q : Request) :
    Grown s (s.request l q).2 := by
  cases hname : s.nameOf? q with
  | none =>
    cases q with
    | reloading r =>
      have hr : s.module? r = none := Option.map_eq_none_iff.1 hname
      rw [request, reload, hr]
      exact .refl s
    | _ => cases hname
  | some name =>
    rcases request_cases s l hname with
      ⟨-, -, r, -, hrequest⟩ | ⟨-, ⟨e, hrequest⟩ | ⟨path, s₀, -, hs₀, hrequest⟩⟩
    · rw [hrequest]
      exact .refl s
    · rw [hrequest]
      exact .refl s
    · have hactivate := activateAt_grown s₀ l name path (s.subject? l q)
      rw [hrequest]
      rcases hs₀ with rfl | rfl
      · exact hactivate
      · exact ⟨hactivate.objects, hactivate.contents⟩

/-- A renewal, too, only adds objects. -/
theorem Renewal.grown (h : Renewal s s') : Grown s s' := by
  cases h with
  | request l q => exact request_grown s l q
  | replace hr hgrown hstate => exact .setModule hgrown hr hstate
  | surroundings hmodules hheap => exact (Grown.refl s).of_eq hmodules hheap

/-- A sound system that grows stays sound. -/
theorem Sound.grown (hs : s.Sound) (hgrown : Grown s s') : s'.Sound where
  objects := hgrown.objects.closed hs.objects
  contents r m hm := by
    rcases hgrown.contents r m hm with hold | hnew
    · exact (hs.contents r m hold).mono hgrown.objects.kept.size
    · exact hnew

/-- One change keeps systems sound, and what exists. -/
theorem Sound.change (hs : s.Sound) (h : Change s s') : s'.Sound ∧ s.heap.size ≤ s'.heap.size := by
  have hgrows : Grown s s' → s'.Sound ∧ s.heap.size ≤ s'.heap.size :=
    fun hgrown => ⟨hs.grown hgrown, hgrown.objects.kept.size⟩
  cases h with
  | renewal h => exact hgrows h.grown
  | addModule name hgrown hstate => exact hgrows (.addModule hgrown hstate)
  | @objects heap hstep =>
    have hsize : s.heap.size ≤ heap.size := by
      rcases hstep.grown_or_write with hgrown | ⟨r, o, o', -, -, rfl, -⟩
      · exact hgrown.kept.size
      · exact Nat.le_of_eq (Heap.size_write _ _ _).symm
    exact ⟨⟨hstep.closed hs.objects, fun r m hm => (hs.contents r m hm).mono hsize⟩, hsize⟩
  | @bind r m hr name v hv =>
    refine hgrows (.setModule (.refl s.heap) hr ⟨fun key w hw => ?_, (hs.contents r m hr).classes⟩)
    change (m.state.attributes.insert name v).find? key = some w at hw
    rw [Table.find?_insert] at hw
    split at hw
    case isTrue =>
      cases hw
      exact hv
    case isFalse => exact (hs.contents r m hr).attributes key w hw

/-- A system that was reached from a new one is sound, so there is no need to
ask for it. -/
theorem Live.sound (hs : s.Live) : s.Sound := by
  unfold Live at hs
  induction hs with
  | refl =>
    refine ⟨Heap.closed_empty, fun r m hm => ?_⟩
    rw [module?, Array.getElem?_eq_none (Nat.zero_le _)] at hm
    cases hm
  | tail _ h ih => exact (ih.change h).1

-- ==================================================== what one has come by

/-- The value was obtained from a module of a system in use: the module gave
it, or it is an instance of a class that was obtained, or a class along an
obtained lineage, or an object that an obtained value refers to holds it;
and anything may have happened since. -/
inductive Obtained : System → Value → Prop
  | given {s : System} {r : ModuleRef} {m : Module} {v : Value} {heap : Heap} (live : s.Live)
      (place : s.module? r = some m) (gives : m.Gives s.heap v heap) : Obtained { s with heap } v
  | called {s : System} {v w : Value} {args : Arguments} {heap : Heap} (obtained : Obtained s v)
      (exist : args.Within s.heap.size) (success : v.call args s.heap = .ok (w, heap)) :
      Obtained { s with heap } w
  | inherited {s : System} {v : Value} {c d : Class} (obtained : Obtained s v)
      (own : v.class? = some c) (along : d.lineage <:+ c.lineage) : Obtained s (.cls d)
  | held {s : System} {v w : Value} {r : Ref} {o : Object} (obtained : Obtained s v)
      (refers : r ∈ v.places) (place : s.heap.objects[r]? = some o) (holds : o.Holds w) :
      Obtained s w
  | later {s s' : System} {v : Value} (obtained : Obtained s v) (change : Change s s') :
      Obtained s' v

/-- What was obtained exists. -/
theorem Obtained.within {v : Value} (hv : s.Obtained v) : s.Sound ∧ v.Within s.heap.size := by
  induction hv with
  | @given s r m v heap hlive hm hgives =>
    have hs := hlive.sound
    obtain ⟨hv, rfl | hstep⟩ := hgives.within (hs.contents r m hm)
    · exact ⟨hs, hv⟩
    · exact ⟨(hs.change (.objects hstep)).1, hv⟩
  | @called s v w args heap _ hargs hmade ih =>
    obtain ⟨hs, hv⟩ := ih
    cases v with
    | cls c =>
      obtain ⟨⟨i, made⟩, hmade, hw⟩ := bind_eq_ok.1 hmade
      cases hw
      exact ⟨(hs.change (.objects (Class.instantiate_step hargs hmade))).1,
        Class.instantiate_within hv hmade⟩
    | _ => cases hmade
  | @inherited s v c d _ hclass halong ih =>
    obtain ⟨hs, hv⟩ := ih
    -- the tables of the class and its ancestors are in range, so those of some are
    have hplaces : ∀ r ∈ c.lineage.map ClassNode.table, r < s.heap.size := by
      intro r hr
      cases v with
      | cls c' =>
        cases hclass
        exact hv r hr
      | inst i =>
        cases hclass
        exact hv r (List.mem_cons_of_mem _ hr)
      | _ => cases hclass
    exact ⟨hs, fun r hr => hplaces r ((halong.map ClassNode.table).subset hr)⟩
  | held _ _ hplace hholds ih => exact ⟨ih.1, ih.1.objects _ _ hplace _ hholds⟩
  | later _ h ih =>
    obtain ⟨hs', hsize⟩ := ih.1.change h
    exact ⟨hs', ih.2.mono hsize⟩

/-- Renewals only add objects. -/
theorem Renewal.extends (h : ReflTransGen Renewal s s') : s.heap.Extends s'.heap := by
  induction h with
  | refl => exact .refl _
  | tail _ hrenewal ih => exact ih.trans hrenewal.grown.objects.kept

/-- Whatever was obtained from a module in a system in use answers the same
after any renewals as before, whether they succeed or not: its lineage, its
attributes, the verdicts of its checkers, the outcomes of assignments and
of calls, and both texts. -/
theorem Obtained.same_answers {v : Value} (hv : s.Obtained v)
    (hrenewed : ReflTransGen Renewal s s') :
    (∀ q : Inquiry, q.Within s.heap.size →
      (v.answer s.heap q).Agrees s.heap.size (v.answer s'.heap q))
    ∧ ∃ ρ : Ref → Ref, (∀ r < s.heap.size, ρ r = r) ∧ v.renamed ρ = v
      ∧ ∀ inquiries : List (Value × Inquiry),
        List.Forall₂ (Answer.Renamed ρ) (s.heap.converse inquiries)
          (s'.heap.converse (inquiries.map fun e => (e.1.renamed ρ, e.2.renamed ρ))) := by
  obtain ⟨hs, hwithin⟩ := hv.within
  have hext := Renewal.extends hrenewed
  have hfixed : ∀ r < s.heap.size, shifted s.heap.size (s'.heap.size - s.heap.size) r = r :=
    fun r hr => shifted_of_lt hr _
  refine ⟨fun q hq => hext.answer_agrees hs.objects hwithin hq, _, hfixed, ?_, ?_⟩
  · exact Value.renamed_eq_self hfixed hwithin
  · exact (hext.renamed hs.objects).converse

/-- One class. -/
def lampDocuments : Disk := fun path =>
  if path = "d/m.json" then .file "\x7b\"Lamp\": \x7b\"level\": 1, \"tags\": [7]\x7d\x7d".toUTF8
  else .fault .notFound

/-- The class, edited. -/
def editedLampDocuments : Disk := fun path =>
  if path = "d/m.json" then .file "\x7b\"Lamp\": \x7b\"watts\": 60\x7d\x7d".toUTF8
  else .fault .notFound

/-- The module was imported. -/
def lit : System :=
  ((({ disk := lampDocuments } : System).addLoader { search := ⟨["d"], [".json"]⟩ }).2.request ⟨0⟩
    (.importing "m")).2

/-- An instance of its class, and the system then. -/
def lamp? : Option (Instance × System) :=
  match lit.module? ⟨0⟩ with
  | none => none
  | some m =>
    match m.instantiate "Lamp" {} lit.heap with
    | .error _ => none
    | .ok (i, heap) => some (i, { lit with heap })

/-- The document was edited and the module reloaded, and then the document
was lost. -/
def relit (s : System) : System :=
  { ({ s with disk := editedLampDocuments }.request ⟨0⟩ (.reloading ⟨0⟩)).2 with disk := .empty }

theorem obtained_lamp {i : Instance} (h : lamp? = some (i, s)) : s.Obtained (.inst i) := by
  have hlive : lit.Live :=
    (ReflTransGen.single (.renewal (.surroundings rfl rfl))).tail (.renewal (.request _ _ _))
  unfold lamp? at h
  split at h
  case h_1 => cases h
  case h_2 m hm =>
    split at h
    case h_1 => cases h
    case h_2 i heap hi =>
      cases h
      refine .given hlive hm (.instantiate ⟨?_, ?_⟩ hi)
      · exact fun v hv => by cases hv
      · exact fun e he => by cases he

/-- After a reload, and another one that fails, the module makes other
lamps, and the old one still shows itself as before. -/
theorem lamp_outlives_reload :
    ∃ (i : Instance) (s s' : System), s.Obtained (.inst i) ∧ ReflTransGen Renewal s s'
      ∧ (s'.module? ⟨0⟩).map Module.generation = some 2
      ∧ s'.heap.text? .repr (.inst i) = some "Lamp(level=1, tags=[7])"
      ∧ ∀ q : Inquiry, q.Within s.heap.size →
        ((Value.inst i).answer s.heap q).Agrees s.heap.size ((Value.inst i).answer s'.heap q) := by
  have hcomputed : lamp?.any (fun p =>
      p.2.heap.text? .repr (.inst p.1) = some "Lamp(level=1, tags=[7])"
        ∧ ((p.2.relit.request ⟨0⟩ (.reloading ⟨0⟩)).2.module? ⟨0⟩).map Module.generation = some 2)
      = true := by
    decide +kernel
  obtain ⟨⟨i, s⟩, hlamp, hcomputed⟩ := (Option.any_eq_true _ _).1 hcomputed
  obtain ⟨htext, hgeneration⟩ := of_decide_eq_true hcomputed
  have hedited : Renewal s { s with disk := editedLampDocuments } := .surroundings rfl rfl
  have hreloaded := Renewal.request { s with disk := editedLampDocuments } ⟨0⟩ (.reloading ⟨0⟩)
  have hlost : Renewal ({ s with disk := editedLampDocuments }.request ⟨0⟩ (.reloading ⟨0⟩)).2
      s.relit := .surroundings rfl rfl
  have hfailed := Renewal.request s.relit ⟨0⟩ (.reloading ⟨0⟩)
  have hrenewed := (((ReflTransGen.single hedited).tail hreloaded).tail hlost).tail hfailed
  have hsame := (Obtained.same_answers (obtained_lamp hlamp) hrenewed).1
  refine ⟨i, s, _, obtained_lamp hlamp, hrenewed, hgeneration, ?_, hsame⟩
  rw [(hsame (.text .repr) trivial).text_eq, htext]

end System

end LiveDoc
