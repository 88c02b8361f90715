/-
What a request to a loader changes.

Importing, activating and reloading all end in `activateAt`, with or
without a module to replace (`request_cases`). Whether that fails is known
before anything is replaced (`activateAt_cases`), so a failure leaves every
loader and every module as it was (`activateAt_error`), and a success
touches one name in one loader and one module (`activateAt_ok`).

That the module which is handed out goes by the name it was asked for by
is not for one request to see: an import hands out what some earlier
request has registered. It follows from an invariant of all states that
can be reached, `Consistent`: whatever is registered under a name goes by
that name. A module never changes its name, so to keep the invariant a
step has to watch over what it registers, and nothing else
(`Consistent.of_registered`).
-/
import LiveDoc.Loader.Import
import LiveDoc.Proofs.Evolution

namespace LiveDoc

open Relation (ReflTransGen)
open Traversal

namespace System

-- ==================================================== loaders and modules

variable {s s' : System}

/-- Changing one loader leaves the others; a loader that there is not cannot be
changed. -/
theorem loader_setLoader (s : System) (l l' : LoaderRef) (x : Loader) :
    (s.setLoader l x).loader l'
      = if l' = l ∧ l.index < s.loaders.size then x else s.loader l' := by
  unfold setLoader loader
  rw [Array.getD_eq_getD_getElem?, Array.getD_eq_getD_getElem?, Array.getElem?_setIfInBounds]
  by_cases hl : l' = l
  · rw [hl, if_pos rfl]
    by_cases hlt : l.index < s.loaders.size
    · rw [if_pos hlt, if_pos ⟨rfl, hlt⟩]
      rfl
    · rw [if_neg hlt, if_neg (fun h => hlt h.2), Array.getElem?_eq_none (Nat.not_lt.1 hlt)]
  · have hindex : l.index ≠ l'.index := by
      intro heq
      cases l
      cases l'
      exact hl (congrArg LoaderRef.mk heq.symm)
    rw [if_neg hindex, if_neg (fun h => hl h.1)]

/-- What other loaders hold live stays as well. -/
theorem liveModule?_setLoader (s : System) (l l' : LoaderRef) (x : Loader) (n : String) :
    (s.setLoader l x).liveModule? l' n
      = if l' = l ∧ l.index < s.loaders.size then x.live.find? n else s.liveModule? l' n := by
  unfold liveModule?
  rw [loader_setLoader]
  split <;> rfl

/-- A new loader has no live modules. -/
theorem liveModule?_addLoader (s : System) (search : Search) (l : LoaderRef) (n : String) :
    (s.addLoader { search }).2.liveModule? l n = s.liveModule? l n := by
  show ((s.loaders.push { search }).getD l.index default).live.find? n
    = (s.loaders.getD l.index default).live.find? n
  rw [Array.getD_eq_getD_getElem?, Array.getD_eq_getD_getElem?, Array.getElem?_push]
  by_cases hnew : l.index = s.loaders.size
  · rw [if_pos hnew, hnew, Array.getElem?_eq_none (Nat.le_refl _)]
    rfl
  · rw [if_neg hnew]

/-- Registering changes one name in one loader. -/
theorem liveModule?_register {l : LoaderRef} (hl : l.index < s.loaders.size) (name : String)
    (r : ModuleRef) (l' : LoaderRef) (n : String) :
    (s.register l name r).liveModule? l' n
      = if l' = l ∧ n = name then some r else s.liveModule? l' n := by
  unfold register
  rw [liveModule?_setLoader]
  by_cases hsame : l' = l
  · rw [if_pos ⟨hsame, hl⟩, hsame, Table.find?_insert]
    by_cases hname : n = name
    · rw [if_pos hname.symm, if_pos ⟨rfl, hname⟩]
    · rw [if_neg (Ne.symm hname), if_neg (fun h => hname h.2)]
      rfl
  · rw [if_neg (fun h => hsame h.1), if_neg (fun h => hsame h.1)]

/-- Replacing a module leaves the others. -/
theorem module?_setModule {r : ModuleRef} {old : Module} (hr : s.module? r = some old)
    (new : Module) (r' : ModuleRef) :
    (s.setModule r new).module? r' = if r' = r then some new else s.module? r' := by
  obtain ⟨hlt, -⟩ := Array.getElem?_eq_some_iff.1 hr
  unfold setModule module?
  rw [Array.getElem?_setIfInBounds]
  by_cases hsame : r' = r
  · rw [hsame, if_pos rfl, if_pos rfl, if_pos hlt]
  · have hindex : r.index ≠ r'.index := by
      intro heq
      cases r
      cases r'
      exact hsame (congrArg ModuleRef.mk heq.symm)
    rw [if_neg hindex, if_neg hsame]

/-- A new module takes the next place. -/
theorem module?_addModule (s : System) (m : Module) (r' : ModuleRef) :
    (s.addModule m).2.module? r' = if r' = (s.addModule m).1 then some m else s.module? r' := by
  unfold addModule module?
  rw [Array.getElem?_push]
  by_cases hsame : r' = ⟨s.modules.size⟩
  · rw [hsame, if_pos rfl, if_pos rfl]
  · have hindex : r'.index ≠ s.modules.size := by
      intro heq
      cases r'
      exact hsame (congrArg ModuleRef.mk heq)
    rw [if_neg hindex, if_neg hsame]

-- ==================================================== activation

/-- No loader has changed, no module, and no object. -/
structure Untouched (s s' : System) : Prop where
  loaders : s'.loaders = s.loaders
  modules : s'.modules = s.modules
  heap : s'.heap = s.heap

theorem Untouched.refl (s : System) : Untouched s s := ⟨rfl, rfl, rfl⟩

theorem Untouched.trans {s'' : System} (h₁ : Untouched s s') (h₂ : Untouched s' s'') :
    Untouched s s'' :=
  ⟨h₂.loaders.trans h₁.loaders, h₂.modules.trans h₁.modules, h₂.heap.trans h₁.heap⟩

/-- Loaders hold the same modules live. -/
theorem Untouched.liveModule? (h : Untouched s s') (l : LoaderRef) (name : String) :
    s'.liveModule? l name = s.liveModule? l name := by
  unfold System.liveModule? loader
  rw [h.loaders]

theorem Untouched.module? (h : Untouched s s') (r : ModuleRef) : s'.module? r = s.module? r := by
  unfold System.module?
  rw [h.modules]

/-- Finding a document only records it. -/
theorem Untouched.find (s : System) (l : LoaderRef) (name : String) :
    Untouched s (s.find l name).2 := by
  unfold System.find
  split
  · exact ⟨rfl, rfl, rfl⟩
  · exact .refl s

/-- The generation that a module gets when its contents are new. -/
def nextGeneration (s : System) (r : ModuleRef) : Nat :=
  match s.module? r with
  | none => 1
  | some m => m.generation + 1

/-- The module, and no other, has new contents, under the name it has
always had. -/
structure Renewed (s : System) (name : String) (r : ModuleRef) (s' : System) : Prop where
  module : ∃ m, s'.module? r = some m ∧ m.name = name ∧ m.generation = s.nextGeneration r
  named : ∀ m, s.module? r = some m → m.name = name
  others : ∀ r', r' ≠ r → s'.module? r' = s.module? r'

/-- Contents are put into the module they are meant for, or else into a new
one. -/
theorem install_renewed {name : String} {existing : Option ModuleRef}
    (hexisting : ∀ r, existing = some r → ∃ m, s.module? r = some m ∧ m.name = name)
    {state : ModuleState} {r : ModuleRef} (h : s.install name existing state = (r, s')) :
    Renewed s name r s' ∧ (existing = some r ∨ (existing = none ∧ s.module? r = none))
      ∧ s'.loaders = s.loaders ∧ s'.heap = s.heap := by
  cases existing with
  | none =>
    have hnew : s.module? ⟨s.modules.size⟩ = none := Array.getElem?_eq_none (Nat.le_refl _)
    have hmodule := module?_addModule s (.ofState name state)
    cases h
    refine ⟨⟨⟨.ofState name state, ?_, rfl, ?_⟩, ?_, ?_⟩, .inr ⟨rfl, hnew⟩, rfl, rfl⟩
    · exact (hmodule _).trans (if_pos rfl)
    · rw [nextGeneration, hnew]
      rfl
    · intro m hm
      rw [hnew] at hm
      cases hm
    · intro r' hne
      exact (hmodule r').trans (if_neg hne)
  -- the module is replaced where it stands; only its name has to be known
  | some old =>
    obtain ⟨m, hm, hname⟩ := hexisting old rfl
    have hmodule := module?_setModule hm (m.replace state)
    rw [install, hm] at h
    cases h
    refine ⟨⟨⟨m.replace state, ?_, hname, ?_⟩, ?_, ?_⟩, .inl rfl, rfl, rfl⟩
    · rw [hmodule, if_pos rfl]
    · rw [nextGeneration, hm]
      rfl
    · intro m' hm'
      rw [hm] at hm'
      cases hm'
      exact hname
    · intro r' hne
      rw [hmodule, if_neg hne]

/-- Linking a document only makes new objects. -/
theorem linkDocument_extends {name path : String} {state : ModuleState} {heap : Heap}
    (h : s.linkDocument name path = .ok (state, heap)) : s.heap.Extends heap := by
  obtain ⟨⟨document, program⟩, -, h⟩ := bind_eq_ok.1 h
  exact (Program.link_grown (mapError_eq_ok.1 h)).kept

/-- An activation has nothing to put in place, or puts it there, records the
path and registers the module. -/
theorem activateAt_cases (s : System) (l : LoaderRef) (name path : String)
    (existing : Option ModuleRef) :
    (∃ cause, s.linkDocument name path = .error cause
        ∧ s.activateAt l name path existing
          = (.error (.activation name cause), if existing.isNone then s.forgetFound name else s))
      ∨ ∃ state heap r s₁, s.linkDocument name path = .ok (state, heap)
        ∧ ({ s with heap } : System).install name existing state = (r, s₁)
        ∧ s.activateAt l name path existing
          = (.ok r, (s₁.recordFound name path).register l name r) := by
  unfold activateAt
  cases hlink : s.linkDocument name path with
  | error cause => exact .inl ⟨cause, rfl, rfl⟩
  | ok linked =>
    obtain ⟨state, heap⟩ := linked
    dsimp only
    cases hinstall : ({ s with heap } : System).install name existing state with
    | mk r s₁ => exact .inr ⟨state, heap, r, s₁, rfl, hinstall, rfl⟩

/-- A failed activation touches nothing. -/
theorem activateAt_error {l : LoaderRef} {name path : String} {existing : Option ModuleRef}
    {e : ImportError} (h : s.activateAt l name path existing = (.error e, s')) :
    Untouched s s' := by
  rcases activateAt_cases s l name path existing with
    ⟨cause, -, hfails⟩ | ⟨state, heap, r, s₁, -, -, hsucceeds⟩
  · rw [h] at hfails
    cases hfails
    split
    · exact ⟨rfl, rfl, rfl⟩
    · exact .refl s
  · rw [h] at hsucceeds
    cases hsucceeds

/-- A module has come to life under a name or has been replaced, is
registered under that name, and nothing else has changed. -/
structure Activated (s : System) (l : LoaderRef) (name : String) (r : ModuleRef) (s' : System) :
    Prop where
  renewed : Renewed s name r s'
  registered : ∀ l' n,
    s'.liveModule? l' n = if l' = l ∧ n = name then some r else s.liveModule? l' n
  loaders : s'.loaders.size = s.loaders.size
  objects : s.heap.Extends s'.heap

/-- Activation gives the module that was asked to be renewed, or a new one. -/
theorem activateAt_ok {l : LoaderRef} (hl : l.index < s.loaders.size) {name path : String}
    {existing : Option ModuleRef}
    (hexisting : ∀ r, existing = some r → ∃ m, s.module? r = some m ∧ m.name = name)
    {r : ModuleRef} (h : s.activateAt l name path existing = (.ok r, s')) :
    Activated s l name r s' ∧ (existing = some r ∨ (existing = none ∧ s.module? r = none)) := by
  rcases activateAt_cases s l name path existing with
    ⟨cause, -, hfails⟩ | ⟨state, heap, r₁, s₁, hlink, hinstall, hsucceeds⟩
  · rw [h] at hfails
    cases hfails
  · rw [h] at hsucceeds
    cases hsucceeds
    obtain ⟨hrenewed, hplace, hloaders, hheap⟩ :=
      install_renewed (s := { s with heap }) hexisting hinstall
    have hbounds : l.index < (s₁.recordFound name path).loaders.size := by
      show l.index < s₁.loaders.size
      rw [hloaders]
      exact hl
    refine ⟨⟨⟨hrenewed.module, hrenewed.named, hrenewed.others⟩, ?_, ?_, ?_⟩, hplace⟩
    -- the name is registered in a system whose loaders are still those of before
    · intro l' n
      have hlive : s₁.liveModule? l' n = s.liveModule? l' n := by
        unfold liveModule? loader
        rw [hloaders]
      rw [← hlive]
      exact liveModule?_register hbounds name r l' n
    · show (s₁.loaders.setIfInBounds l.index _).size = s.loaders.size
      rw [Array.size_setIfInBounds, hloaders]
    · show s.heap.Extends s₁.heap
      rw [hheap]
      exact linkDocument_extends hlink

-- ==================================================== requests

/-- What brings modules to life or renews them. -/
inductive Request
  | importing (name : String)
  | activating (name : String)
  | reloading (r : ModuleRef)

/-- What a request to a loader comes to. -/
def request (s : System) (l : LoaderRef) : Request → Except ImportError ModuleRef × System
  | .importing name => s.importModule l name
  | .activating name => s.activate l name
  | .reloading r => s.reload l r

/-- The name that a request is for; there is none if the module to reload
does not exist. -/
def nameOf? (s : System) : Request → Option String
  | .importing name => some name
  | .activating name => some name
  | .reloading r => (s.module? r).map Module.name

/-- The module that a request is about, if there is one yet. -/
def subject? (s : System) (l : LoaderRef) : Request → Option ModuleRef
  | .importing name => s.liveModule? l name
  | .activating name => s.liveModule? l name
  | .reloading r => some r

/-- The request is an import of a module that is live. -/
def findsLive (s : System) (l : LoaderRef) : Request → Bool
  | .importing name => (s.liveModule? l name).isSome
  | .activating _ => false
  | .reloading _ => false

/-- Whatever is registered under a name is a module of that name. -/
def Consistent (s : System) : Prop :=
  ∀ l name r, s.liveModule? l name = some r → ∃ m, s.module? r = some m ∧ m.name = name

/-- In a consistent system the subject of a request goes by the name that
the request is for. -/
theorem Consistent.named (hs : s.Consistent) {l : LoaderRef} {q : Request} {name : String}
    (hname : s.nameOf? q = some name) {r : ModuleRef} (hr : s.subject? l q = some r) :
    ∃ m, s.module? r = some m ∧ m.name = name := by
  cases q with
  | importing n =>
    cases hname
    exact hs l name r hr
  | activating n =>
    cases hname
    exact hs l name r hr
  | reloading r₀ =>
    cases hr
    exact Option.map_eq_some_iff.1 hname

/-- The path of the document that a request reads. -/
def pathOf? (s : System) (l : LoaderRef) : Request → Option String
  | .importing name => (s.loader l).search.resolve? s.disk name
  | .activating name => (s.loader l).search.resolve? s.disk name
  | .reloading r => (s.module? r).map fun m => m.state.file

/-- An activation starts with finding the document. -/
theorem activate_cases (s : System) (l : LoaderRef) (name : String) :
    ((s.loader l).search.resolve? s.disk name = none
        ∧ s.activate l name = (.error (.notFound name), s))
      ∨ ∃ path, (s.loader l).search.resolve? s.disk name = some path
        ∧ s.activate l name
          = (s.recordFound name path).activateAt l name path (s.liveModule? l name) := by
  unfold activate find
  cases (s.loader l).search.resolve? s.disk name with
  | none => exact .inl ⟨rfl, rfl⟩
  | some path => exact .inr ⟨path, rfl, rfl⟩

/-- A request that is not answered by a live module fails for want of a
document, or is the activation of the document under its path. -/
theorem request_cases (s : System) (l : LoaderRef) {q : Request} {name : String}
    (hname : s.nameOf? q = some name) :
    (s.findsLive l q = true ∧ s.subject? l q = s.liveModule? l name
        ∧ ∃ r, s.subject? l q = some r ∧ s.request l q = (.ok r, s))
      ∨ (s.findsLive l q = false ∧ ((∃ e, s.request l q = (.error e, s))
        ∨ ∃ path s₀, s.pathOf? l q = some path ∧ (s₀ = s ∨ s₀ = s.recordFound name path)
          ∧ s.request l q = s₀.activateAt l name path (s.subject? l q))) := by
  -- importing a name that is not live and activating it are the same
  have hactivate : (∃ e, s.activate l name = (.error e, s))
      ∨ ∃ path s₀, (s.loader l).search.resolve? s.disk name = some path
        ∧ (s₀ = s ∨ s₀ = s.recordFound name path)
        ∧ s.activate l name = s₀.activateAt l name path (s.liveModule? l name) := by
    rcases activate_cases s l name with ⟨-, hmissing⟩ | ⟨path, hpath, hfound⟩
    · exact .inl ⟨_, hmissing⟩
    · exact .inr ⟨path, _, hpath, .inr rfl, hfound⟩
  cases q with
  | importing n =>
    cases hname
    cases hlive : s.liveModule? l name with
    | some r =>
      refine .inl ⟨?_, hlive, r, hlive, ?_⟩
      · rw [findsLive, hlive]
        rfl
      · rw [request, importModule, hlive]
    | none =>
      refine .inr ⟨?_, ?_⟩
      · rw [findsLive, hlive]
        rfl
      · rw [request, importModule, hlive, subject?, hlive]
        rw [hlive] at hactivate
        exact hactivate
  | activating n =>
    cases hname
    exact .inr ⟨rfl, hactivate⟩
  | reloading r =>
    obtain ⟨m, hm, rfl⟩ := Option.map_eq_some_iff.1 hname
    refine .inr ⟨rfl, .inr ⟨m.state.file, s, ?_, .inl rfl, ?_⟩⟩
    · rw [pathOf?, hm]
      rfl
    · rw [request, reload, hm]
      rfl

-- ==================================================== reachable systems

/-- What can happen to a system. Importing without a loader makes a loader
and then imports with it. -/
inductive Step : System → System → Prop
  /-- a document is looked for -/
  | find (s : System) (l : LoaderRef) (name : String) : Step s (s.find l name).2
  /-- a module is imported, activated or reloaded -/
  | request {s : System} {l : LoaderRef} {q : Request} (loader : l.index < s.loaders.size)
      (known : (s.nameOf? q).isSome = true) : Step s (s.request l q).2
  /-- a program is asked for -/
  | compiled (s : System) (l : LoaderRef) (name : String) : Step s (s.compiled l name).2
  /-- a listing is asked for -/
  | source (s : System) (l : LoaderRef) (name : String) : Step s (s.source l name).2
  /-- a name is unregistered -/
  | forget (s : System) (l : LoaderRef) (name : String) : Step s (s.forget l name)
  /-- the path of a name is dropped -/
  | forgetFound (s : System) (name : String) : Step s (s.forgetFound name)
  /-- a loader is made -/
  | addLoader (s : System) (search : Search) : Step s (s.addLoader { search }).2
  /-- a loader searches one more root -/
  | addRoot (s : System) (l : LoaderRef) (root : String) : Step s (s.addRoot l root)
  /-- a module attribute is bound -/
  | bind {s : System} {r : ModuleRef} {m : Module} (place : s.module? r = some m) (name : String)
      (v : Value) : Step s (s.setModule r (m.set name v))
  /-- a module is given other contents by hand -/
  | replace {s : System} {r : ModuleRef} {m : Module} (place : s.module? r = some m)
      (state : ModuleState) : Step s (s.setModule r (m.replace state))
  /-- a module is made by hand -/
  | addModule (s : System) (name : String) (state : ModuleState) :
      Step s (s.addModule (.ofState name state)).2
  /-- documents are edited, objects change -/
  | surroundings (s : System) (disk : Disk) (environment : Option String) (time : String)
      (configuration : Configuration) (heap : Heap) :
      Step s { s with disk, environment, time, configuration, heap }

/-- The system comes about by steps from one without loaders and modules. -/
def Reachable (s : System) : Prop := ReflTransGen Step {} s

-- ==================================================== what requests come to

/-- What a request that succeeds for a name leaves. -/
structure Delivered (s : System) (l : LoaderRef) (q : Request) (name : String) (r : ModuleRef)
    (s' : System) : Prop where
  /-- the module is the one the request is about, or else a new one -/
  subject : s.subject? l q = some r ∨ (s.subject? l q = none ∧ s.module? r = none)
  /-- it goes by the name, and its contents are as new as they should be -/
  module : ∃ m, s'.module? r = some m ∧ m.name = name
    ∧ (s.findsLive l q = true → s.module? r = some m)
    ∧ (s.findsLive l q = false → m.generation = s.nextGeneration r)
  named : ∀ m, s.module? r = some m → m.name = name
  /-- it is registered under the name, and no other registration changes -/
  registered : ∀ l' n,
    s'.liveModule? l' n = if l' = l ∧ n = name then some r else s.liveModule? l' n
  others : ∀ r', r' ≠ r → s'.module? r' = s.module? r'
  loaders : s'.loaders.size = s.loaders.size
  objects : s.heap.Extends s'.heap

/-- A request fails and touches nothing, or delivers. -/
theorem Consistent.request (hs : s.Consistent) {l : LoaderRef} (hl : l.index < s.loaders.size)
    {q : Request} {name : String} (hname : s.nameOf? q = some name) :
    (∃ e s', s.request l q = (.error e, s') ∧ Untouched s s')
      ∨ ∃ r s', s.request l q = (.ok r, s') ∧ Delivered s l q name r s' := by
  rcases request_cases s l hname with
    ⟨hlive, hsame, r, hr, hrequest⟩
      | ⟨hlive, ⟨e, hrequest⟩ | ⟨path, s₀, -, hs₀, hrequest⟩⟩
  · -- the module was registered under the name, and so goes by it
    obtain ⟨m, hm, hmname⟩ := hs.named hname hr
    refine .inr ⟨r, s, hrequest, .inl hr, ⟨m, hm, hmname, fun _ => hm, ?_⟩, ?_, ?_, fun _ _ => rfl,
      rfl, .refl s.heap⟩
    · intro hnot
      rw [hlive] at hnot
      cases hnot
    · intro m' hm'
      rw [hm] at hm'
      cases hm'
      exact hmname
    · intro l' n
      split
      case isTrue heq => rw [heq.1, heq.2, ← hsame, hr]
      case isFalse => rfl
  · exact .inl ⟨e, s, hrequest, .refl s⟩
  · have hfound : Untouched s s₀ := by
      rcases hs₀ with rfl | rfl <;> exact ⟨rfl, rfl, rfl⟩
    have hbounds : l.index < s₀.loaders.size := by
      rw [hfound.loaders]
      exact hl
    have hexisting : ∀ r, s.subject? l q = some r → ∃ m, s₀.module? r = some m ∧ m.name = name := by
      intro r hr
      rw [hfound.module? r]
      exact hs.named hname hr
    -- finding a document only records it, so what is activated starts from the same
    -- modules
    cases hactivate : s₀.activateAt l name path (s.subject? l q) with
    | mk result s' =>
      rw [hactivate] at hrequest
      cases result with
      | error e => exact .inl ⟨e, s', hrequest, hfound.trans (activateAt_error hactivate)⟩
      | ok r =>
        obtain ⟨⟨⟨⟨m, hm, hmname, hgeneration⟩, hnamed, hothers⟩, hregistered, hloaders, hobjects⟩,
          hsubject⟩ := activateAt_ok hbounds hexisting hactivate
        have hnext : s₀.nextGeneration r = s.nextGeneration r := by
          unfold nextGeneration
          rw [hfound.module? r]
        rw [hfound.module? r] at hnamed hsubject
        refine .inr ⟨r, s', hrequest, hsubject, ⟨m, hm, hmname, ?_, ?_⟩, hnamed, ?_, ?_, ?_, ?_⟩
        · intro hnot
          rw [hlive] at hnot
          cases hnot
        · exact fun _ => hgeneration.trans hnext
        · intro l' n
          rw [hregistered l' n, hfound.liveModule? l' n]
        · intro r' hne
          rw [hothers r' hne, hfound.module? r']
        · rw [hloaders, hfound.loaders]
        · rw [← hfound.heap]
          exact hobjects

/-- Asking for a program touches nothing. -/
theorem compiled_untouched (s : System) (l : LoaderRef) (name : String) :
    Untouched s (s.compiled l name).2 := by
  have hfind := Untouched.find s l name
  unfold compiled
  cases hresult : s.find l name with
  | mk path? s₀ =>
    rw [hresult] at hfind
    cases path? with
    | none => exact hfind
    | some path =>
      dsimp only
      split
      case h_1 => exact hfind
      case h_2 =>
        refine hfind.trans ?_
        split
        case isTrue => exact ⟨rfl, rfl, rfl⟩
        case isFalse => exact .refl s₀

/-- Asking for a listing touches nothing. -/
theorem source_untouched (s : System) (l : LoaderRef) (name : String) :
    Untouched s (s.source l name).2 := by
  have hcompiled := compiled_untouched s l name
  unfold source
  split
  case h_1 program s₀ hresult =>
    rw [hresult] at hcompiled
    exact hcompiled
  case h_2 e s₀ hresult =>
    rw [hresult] at hcompiled
    exact hcompiled

-- ==================================================== the invariant

/-- A system stays consistent when no module is renamed and what is newly
registered goes by its name. -/
theorem Consistent.of_registered (hs : s.Consistent)
    (hmodules : ∀ r m, s.module? r = some m → ∃ m', s'.module? r = some m' ∧ m'.name = m.name)
    (hregistered : ∀ l name r, s'.liveModule? l name = some r →
      s.liveModule? l name = some r ∨ ∃ m, s'.module? r = some m ∧ m.name = name) :
    s'.Consistent := by
  intro l name r hr
  rcases hregistered l name r hr with hold | hnew
  · obtain ⟨m, hm, hname⟩ := hs l name r hold
    obtain ⟨m', hm', hname'⟩ := hmodules r m hm
    exact ⟨m', hm', hname'.trans hname⟩
  · exact hnew

/-- Consistency speaks of loaders and modules only. -/
theorem Consistent.of_untouched (hs : s.Consistent) (h : Untouched s s') : s'.Consistent := by
  intro l name r hr
  rw [h.liveModule? l name] at hr
  rw [h.module? r]
  exact hs l name r hr

/-- A module that is delivered goes by the name it is registered under. -/
theorem Consistent.of_delivered (hs : s.Consistent) {l : LoaderRef} {q : Request} {name : String}
    {r : ModuleRef} (h : Delivered s l q name r s') : s'.Consistent := by
  obtain ⟨m, hm, hmname, -⟩ := h.module
  refine hs.of_registered ?_ ?_
  · intro r' m' hm'
    by_cases hr : r' = r
    · rw [hr] at hm' ⊢
      exact ⟨m, hm, hmname.trans (h.named m' hm').symm⟩
    · exact ⟨m', (h.others r' hr).trans hm', rfl⟩
  · intro l' n r' hr'
    rw [h.registered l' n] at hr'
    split at hr'
    case isTrue heq =>
      cases hr'
      exact .inr ⟨m, hm, hmname.trans heq.2.symm⟩
    case isFalse => exact .inl hr'

/-- A module that keeps its name is replaced. -/
theorem Consistent.setModule (hs : s.Consistent) {r : ModuleRef} {old new : Module}
    (hr : s.module? r = some old) (hname : new.name = old.name) :
    (s.setModule r new).Consistent := by
  refine hs.of_registered ?_ (fun l name r' hr' => .inl hr')
  intro r' m hm
  rw [module?_setModule hr]
  split
  case isTrue heq =>
    rw [heq, hr] at hm
    cases hm
    exact ⟨new, rfl, hname⟩
  case isFalse => exact ⟨m, hm, rfl⟩

/-- A loader is replaced by one that has nothing registered that was not. -/
theorem Consistent.setLoader (hs : s.Consistent) {l : LoaderRef} {x : Loader}
    (hx : ∀ name r, x.live.find? name = some r → s.liveModule? l name = some r) :
    (s.setLoader l x).Consistent := by
  refine hs.of_registered (fun r m hm => ⟨m, hm, rfl⟩) ?_
  intro l' name r hr
  rw [liveModule?_setLoader] at hr
  split at hr
  case isTrue heq =>
    rw [heq.1]
    exact .inl (hx name r hr)
  case isFalse => exact .inl hr

/-- One step keeps systems consistent. -/
theorem Consistent.step (hs : s.Consistent) (hstep : Step s s') : s'.Consistent := by
  cases hstep with
  | find l name => exact hs.of_untouched (.find s l name)
  | @request l q hl hknown =>
    obtain ⟨name, hname⟩ := Option.isSome_iff_exists.1 hknown
    rcases hs.request hl hname with ⟨e, s', hrequest, huntouched⟩ | ⟨r, s', hrequest, hdelivered⟩
    · rw [hrequest]
      exact hs.of_untouched huntouched
    · rw [hrequest]
      exact hs.of_delivered hdelivered
  | compiled l name => exact hs.of_untouched (compiled_untouched s l name)
  | source l name => exact hs.of_untouched (source_untouched s l name)
  -- taking a name off a loader registers nothing
  | forget l name =>
    refine hs.setLoader fun n r hr => ?_
    rw [Table.find?_erase] at hr
    split at hr
    case isTrue => cases hr
    case isFalse => exact hr
  | forgetFound name => exact hs.of_untouched ⟨rfl, rfl, rfl⟩
  | addLoader search =>
    refine hs.of_registered (fun r m hm => ⟨m, hm, rfl⟩) ?_
    intro l name r hr
    rw [liveModule?_addLoader] at hr
    exact .inl hr
  | addRoot l root => exact hs.setLoader fun n r hr => hr
  | bind hm name v => exact hs.setModule hm rfl
  | replace hm state => exact hs.setModule hm rfl
  -- no loader knows the new module yet, and the old ones keep their places
  | addModule name state =>
    refine hs.of_registered ?_ (fun l name r hr => .inl hr)
    intro r m hm
    have hnew : s.module? ⟨s.modules.size⟩ = none := Array.getElem?_eq_none (Nat.le_refl _)
    have hne : r ≠ ⟨s.modules.size⟩ := by
      intro heq
      rw [heq, hnew] at hm
      cases hm
    exact ⟨m, ((module?_addModule s _ r).trans (if_neg hne)).trans hm, rfl⟩
  | surroundings disk environment time configuration heap =>
    exact hs.of_registered (fun r m hm => ⟨m, hm, rfl⟩) (fun l name r hr => .inl hr)

/-- Reachable systems are consistent. -/
theorem Reachable.consistent (hs : s.Reachable) : s.Consistent := by
  unfold Reachable at hs
  induction hs with
  | refl =>
    intro l name r hr
    unfold liveModule? loader at hr
    rw [Array.getD_eq_getD_getElem?, Array.getElem?_eq_none (Nat.zero_le _)] at hr
    cases hr
  | tail _ hstep ih => exact ih.step hstep

-- ==================================================== what calls change

/-- In every reachable system, a request to a loader that fails touches no
loader, no module and no object; one that succeeds for a name delivers the
module that is then registered under it, with the contents renewed unless
an import found it live, and touches nothing else; and asking for programs
and listings touches nothing. -/
theorem Reachable.request_frame (hs : s.Reachable) {l : LoaderRef} (hl : l.index < s.loaders.size) :
    (∀ q name, s.nameOf? q = some name →
      match s.request l q with
      | (.error _, s') => Untouched s s'
      | (.ok r, s') => Delivered s l q name r s')
    ∧ ∀ name, Untouched s (s.compiled l name).2 ∧ Untouched s (s.source l name).2 := by
  refine ⟨?_, fun name => ⟨compiled_untouched s l name, source_untouched s l name⟩⟩
  intro q name hname
  rcases hs.consistent.request hl hname with
    ⟨e, s', hrequest, huntouched⟩ | ⟨r, s', hrequest, hdelivered⟩
  · rw [hrequest]
    exact huntouched
  · rw [hrequest]
    exact hdelivered

/-- One document. -/
def documents : Disk := fun path =>
  if path = "d/m.json" then .file "\x7b\"n\": [1]\x7d".toUTF8 else .fault .notFound

/-- A loader that searches the directory of the document. -/
def searching : System :=
  (({ disk := documents } : System).addLoader { search := ⟨["d"], [".json"]⟩ }).2

/-- The module was imported, forgotten, and imported again. -/
def superseded : System :=
  ((searching.request ⟨0⟩ (.importing "m")).2.forget ⟨0⟩ "m").request ⟨0⟩ (.importing "m") |>.2

theorem reachable_searching : searching.Reachable := by
  have hdisk : Step {} { disk := documents } := .surroundings {} documents none "" {} .empty
  exact (ReflTransGen.single hdisk).tail (.addLoader _ ⟨["d"], [".json"]⟩)

theorem reachable_superseded : superseded.Reachable := by
  have hfirst : Step searching (searching.request ⟨0⟩ (.importing "m")).2 :=
    .request (by decide) rfl
  have hforgotten := (reachable_searching.tail hfirst).tail (.forget _ ⟨0⟩ "m")
  exact hforgotten.tail (.request (by decide +kernel) rfl)

/-- Reloading the first module puts it back in place of the second, one
generation up; without the document, reloading the second fails. -/
theorem superseded_reload :
    superseded.Reachable ∧ superseded.liveModule? ⟨0⟩ "m" = some ⟨1⟩
      ∧ (∃ s', superseded.request ⟨0⟩ (.reloading ⟨0⟩) = (.ok ⟨0⟩, s')
        ∧ Delivered superseded ⟨0⟩ (.reloading ⟨0⟩) "m" ⟨0⟩ s'
        ∧ s'.liveModule? ⟨0⟩ "m" = some ⟨0⟩
        ∧ (s'.module? ⟨0⟩).map Module.generation = some 2
        ∧ s'.module? ⟨1⟩ = superseded.module? ⟨1⟩)
      ∧ ∃ e s', { superseded with disk := .empty }.request ⟨0⟩ (.reloading ⟨1⟩) = (.error e, s')
        ∧ Untouched { superseded with disk := .empty } s' := by
  have hempty : Reachable { superseded with disk := .empty } :=
    reachable_superseded.tail (.surroundings superseded .empty _ _ _ _)
  have hgeneration : superseded.nextGeneration ⟨0⟩ = 2 := by decide +kernel
  refine ⟨reachable_superseded, by decide +kernel, ?_, ?_⟩
  -- the module that was forgotten comes back under its name, beside the newer one
  · have hframe := (reachable_superseded.request_frame (l := ⟨0⟩) (by decide +kernel)).1
      (.reloading ⟨0⟩) "m" (by decide +kernel)
    have hok : (superseded.request ⟨0⟩ (.reloading ⟨0⟩)).1 = .ok ⟨0⟩ := by decide +kernel
    cases hrequest : superseded.request ⟨0⟩ (.reloading ⟨0⟩) with
    | mk result s' =>
      rw [hrequest] at hframe hok
      cases hok
      obtain ⟨m, hm, -, -, hrenewed⟩ := hframe.module
      refine ⟨s', rfl, hframe, ?_, ?_, hframe.others ⟨1⟩ (by decide)⟩
      · exact (hframe.registered ⟨0⟩ "m").trans (if_pos ⟨rfl, rfl⟩)
      · rw [hm, Option.map_some, hrenewed rfl, hgeneration]
  -- without a file the reload fails, whatever the disk was before
  · have hframe := (hempty.request_frame (l := ⟨0⟩) (by decide +kernel)).1
      (.reloading ⟨1⟩) "m" (by decide +kernel)
    have herror : ∃ e, ({ superseded with disk := .empty }.request ⟨0⟩ (.reloading ⟨1⟩)).1
        = .error e := ⟨.activation "m" (.unreadable "d/m.json" .notFound), by decide +kernel⟩
    obtain ⟨e, he⟩ := herror
    cases hrequest : { superseded with disk := .empty }.request ⟨0⟩ (.reloading ⟨1⟩) with
    | mk result s' =>
      rw [hrequest] at hframe he
      cases he
      exact ⟨e, s', rfl, hframe⟩

end System

end LiveDoc
