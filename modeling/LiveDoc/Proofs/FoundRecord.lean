/-
The record of found documents.

Loaders share one record of the documents that any of them has found, but
each keeps its own live modules. A name enters the record when its document
is found or comes to life. It leaves the record when a document that was
found does not load, unless the name is live in the loader that looked.
What comes of loading a name is one of four things (`Outcome`), and both
accounts below are read off them.

For a name that is not live in a loader, a load that fails on a document
leaves no record, and one that finds no document leaves whatever record
there was (`failed_load_unregisters_iff`).

Among loaders, the record of a name that is live in one of them can be
dropped by another, in which it is not live. Nothing else drops it: along
every run, each live name is recorded at every moment exactly as long as
this does not happen (`recorded_along_iff`).
-/
import LiveDoc.Proofs.Loading

namespace LiveDoc.System

-- ==================================================== calls

/-- What is asked of a loader. -/
inductive Call
  | find (name : String)
  | request (q : Request)
  | compiled (name : String)
  | source (name : String)
  | forget (name : String)

/-- The name whose document a call finds and loads. -/
def Call.loads? : Call → Option String
  | .request (.importing name) => some name
  | .request (.activating name) => some name
  | .compiled name => some name
  | .source name => some name
  | .find _ => none
  | .request (.reloading _) => none
  | .forget _ => none

/-- Why something failed, if it did. -/
def failure? {ε α : Type} : Except ε α → Option ε
  | .ok _ => none
  | .error e => some e

/-- How a call fails, if it does, and the system that it leaves. -/
def call (s : System) (l : LoaderRef) : Call → Option ImportError × System
  | .find name => (none, (s.find l name).2)
  | .request q => (failure? (s.request l q).1, (s.request l q).2)
  | .compiled name => (failure? (s.compiled l name).1, (s.compiled l name).2)
  | .source name => (failure? (s.source l name).1, (s.source l name).2)
  | .forget name => (none, s.forget l name)

-- ==================================================== the record kept, and dropped

variable {s s' s'' : System} {l : LoaderRef} {name path : String}

/-- No record is dropped, and what has come to life is recorded. -/
structure Kept (s s' : System) : Prop where
  found : ∀ n, (s.foundPath? n).isSome → (s'.foundPath? n).isSome
  live : ∀ l n, (s'.liveModule? l n).isSome →
    (s.liveModule? l n).isSome ∨ (s'.foundPath? n).isSome

/-- The record of one name is dropped, and nothing comes to life. -/
structure Dropped (s : System) (name : String) (s' : System) : Prop where
  found : ∀ n, s'.foundPath? n = if name = n then none else s.foundPath? n
  live : ∀ l n, s'.liveModule? l n = s.liveModule? l n

theorem Kept.refl (s : System) : Kept s s := ⟨fun _ h => h, fun _ _ h => .inl h⟩

theorem Kept.trans (h₁ : Kept s s') (h₂ : Kept s' s'') : Kept s s'' where
  found n hn := h₂.found n (h₁.found n hn)
  live l n hn := by
    rcases h₂.live l n hn with hold | hnew
    · rcases h₁.live l n hold with hold | hnew
      · exact .inl hold
      · exact .inr (h₂.found n hnew)
    · exact .inr hnew

/-- Recording a path changes what is recorded for one name. -/
theorem foundPath?_recordFound (s : System) (name path n : String) :
    (s.recordFound name path).foundPath? n = if name = n then some path else s.foundPath? n :=
  Table.find?_insert s.found name n path

theorem foundPath?_forgetFound (s : System) (name n : String) :
    (s.forgetFound name).foundPath? n = if name = n then none else s.foundPath? n :=
  Table.find?_erase s.found name n

theorem Kept.recordFound (s : System) (name path : String) : Kept s (s.recordFound name path) where
  found n hn := by
    rw [foundPath?_recordFound]
    split
    case isTrue => rfl
    case isFalse => exact hn
  live _ _ hn := .inl hn

/-- A record that was just made is dropped with any older one. -/
theorem dropped_recordFound (s : System) (name path : String) :
    Dropped s name ((s.recordFound name path).forgetFound name) where
  found n := by
    rw [foundPath?_forgetFound, foundPath?_recordFound]
    split <;> rfl
  live _ _ := rfl

/-- Nothing comes to life when a loader is replaced by one with no more
live modules. -/
theorem Kept.setLoader {x : Loader}
    (hx : ∀ n, (x.live.find? n).isSome → (s.liveModule? l n).isSome ∨ (s.foundPath? n).isSome) :
    Kept s (s.setLoader l x) where
  found _ hn := hn
  live l' n hn := by
    rw [liveModule?_setLoader] at hn
    split at hn
    case isTrue heq =>
      rw [heq.1]
      exact hx n hn
    case isFalse => exact .inl hn

/-- A name that is registered after it was recorded is on record. -/
theorem Kept.register (hfound : (s.foundPath? name).isSome) (r : ModuleRef) :
    Kept s (s.register l name r) := by
  refine .setLoader fun n hn => ?_
  rw [Table.find?_insert] at hn
  split at hn
  case isTrue heq =>
    rw [← heq]
    exact .inr hfound
  case isFalse => exact .inl hn

/-- Neither loaders nor the record change when contents are put in their
place. -/
theorem install_loaders_found (s : System) (name : String) (existing : Option ModuleRef)
    (state : ModuleState) :
    (s.install name existing state).2.loaders = s.loaders
      ∧ (s.install name existing state).2.found = s.found := by
  unfold install
  split
  · split <;> exact ⟨rfl, rfl⟩
  · exact ⟨rfl, rfl⟩

-- ==================================================== what comes of loading

/-- What comes of loading a name in a loader. -/
inductive Outcome (s : System) (l : LoaderRef) (name : String) : Option ImportError → System → Prop
  /-- it succeeds -/
  | loaded {s' : System} (kept : Kept s s') : Outcome s l name none s'
  /-- no document is found -/
  | missing : Outcome s l name (some (.notFound name)) s
  /-- the document does not load, and the name is not live in the loader -/
  | broken {s' : System} (cause : ActivationCause) (live : s.liveModule? l name = none)
      (dropped : Dropped s name s') : Outcome s l name (some (.activation name cause)) s'
  /-- the document does not load, but the name is live in the loader -/
  | outlived {s' : System} (cause : ActivationCause) (live : s.liveModule? l name ≠ none)
      (kept : Kept s s') : Outcome s l name (some (.activation name cause)) s'

/-- A module that comes to life is on record. -/
theorem activateAt_kept {existing : Option ModuleRef} {r : ModuleRef}
    (h : s.activateAt l name path existing = (.ok r, s')) : Kept s s' := by
  rcases activateAt_cases s l name path existing with
    ⟨cause, -, hfails⟩ | ⟨state, heap, r₁, s₁, -, hinstall, hsucceeds⟩
  · rw [h] at hfails
    cases hfails
  · rw [h] at hsucceeds
    cases hsucceeds
    obtain ⟨hloaders, hfound⟩ := install_loaders_found { s with heap } name existing state
    rw [hinstall] at hloaders hfound
    have hinstalled : Kept s s₁ := by
      constructor
      · intro n hn
        unfold foundPath?
        rw [hfound]
        exact hn
      · intro l' n hn
        unfold liveModule? loader at hn
        rw [hloaders] at hn
        exact .inl hn
    have hrecorded : ((s₁.recordFound name path).foundPath? name).isSome := by
      rw [foundPath?_recordFound, if_pos rfl]
      rfl
    exact hinstalled.trans ((Kept.recordFound s₁ name path).trans (.register hrecorded r))

/-- What comes of it when a document that was found does not load. -/
theorem Outcome.failed (s : System) (l : LoaderRef) (name path : String) (cause : ActivationCause) :
    Outcome s l name (some (.activation name cause))
      (if (s.liveModule? l name).isNone then (s.recordFound name path).forgetFound name
        else s.recordFound name path) := by
  cases hlive : s.liveModule? l name with
  | none => exact .broken cause hlive (dropped_recordFound s name path)
  | some r =>
    have hnot : s.liveModule? l name ≠ none := by
      rw [hlive]
      exact Option.some_ne_none r
    exact .outlived cause hnot (.recordFound s name path)

/-- Activating a name comes to one of these, -/
theorem activate_outcome (s : System) (l : LoaderRef) (name : String) :
    Outcome s l name (failure? (s.activate l name).1) (s.activate l name).2 := by
  rcases activate_cases s l name with ⟨-, hmissing⟩ | ⟨path, -, hfound⟩
  · rw [hmissing]
    exact .missing
  · rw [hfound]
    rcases activateAt_cases (s.recordFound name path) l name path (s.liveModule? l name) with
      ⟨cause, -, hresult⟩ | ⟨_, _, r, _, -, -, hresult⟩
    · rw [hresult]
      exact .failed s l name path cause
    · rw [hresult]
      exact .loaded ((Kept.recordFound s name path).trans (activateAt_kept hresult))

/-- and so does compiling it, which brings no module to life. -/
theorem compiled_outcome (s : System) (l : LoaderRef) (name : String) :
    Outcome s l name (failure? (s.compiled l name).1) (s.compiled l name).2 := by
  unfold compiled find
  cases (s.loader l).search.resolve? s.disk name with
  | none => exact .missing
  | some path =>
    dsimp only
    cases compileDocument (s.recordFound name path).disk (s.recordFound name path).time name
        path with
    | ok result => exact .loaded (.recordFound s name path)
    | error cause => exact .failed s l name path cause

/-- One of the four comes of every call that loads a name. -/
theorem call_outcome {c : Call} (hc : c.loads? = some name) (s : System) (l : LoaderRef) :
    Outcome s l name (s.call l c).1 (s.call l c).2 := by
  cases c with
  | find n => cases hc
  | forget n => cases hc
  | compiled n =>
    cases hc
    exact compiled_outcome s l name
  | source n =>
    cases hc
    have houtcome := compiled_outcome s l name
    unfold call source
    dsimp only
    split
    case h_1 hresult =>
      rw [hresult] at houtcome
      exact houtcome
    case h_2 hresult =>
      rw [hresult] at houtcome
      exact houtcome
  | request q =>
    cases q with
    | reloading r => cases hc
    | activating n =>
      cases hc
      exact activate_outcome s l name
    | importing n =>
      cases hc
      unfold call request importModule
      dsimp only
      split
      case h_1 => exact .loaded (.refl s)
      case h_2 => exact activate_outcome s l name

-- ==================================================== one loader

/-- A name that is not live in a loader is unprobed exactly when it is not on
record. -/
theorem state_eq_unprobed_iff (hlive : s.liveModule? l name = none) :
    s.state l name = .unprobed ↔ s.foundPath? name = none := by
  unfold state
  rw [hlive]
  dsimp only [Option.bind_none]
  cases s.foundPath? name with
  | none => simp
  | some path => simp

/-- Whether a name is that of a package is known from the record alone when no
live module has it. -/
theorem isPackage_eq_notFound_iff (hlive : s.liveModule? l name = none) :
    s.isPackage l name = .error (.notFound name) ↔ s.foundPath? name = none := by
  unfold isPackage
  rw [hlive]
  cases s.foundPath? name with
  | none => simp
  | some path => simp

/-- After a call that fails to load a name, in a loader where the name is not
live, nothing is registered under the name: unless no document was found
for it now, and one had been found before. Then the record stays. -/
theorem failed_load_unregisters_iff {c : Call} (hc : c.loads? = some name)
    (hlive : s.liveModule? l name = none) {e : ImportError} (h : s.call l c = (some e, s')) :
    s'.liveModule? l name = none
      ∧ (s'.state l name = .unprobed ∧ s'.isPackage l name = .error (.notFound name)
        ↔ e ≠ .notFound name ∨ s.foundPath? name = none) := by
  have houtcome := call_outcome hc s l
  rw [h] at houtcome
  cases houtcome with
  | missing =>
    refine ⟨hlive, ?_⟩
    rw [state_eq_unprobed_iff hlive, isPackage_eq_notFound_iff hlive]
    simp
  | broken cause _ hdropped =>
    have hlive' : s'.liveModule? l name = none := (hdropped.live l name).trans hlive
    have hfound : s'.foundPath? name = none := (hdropped.found name).trans (if_pos rfl)
    refine ⟨hlive', ?_⟩
    rw [state_eq_unprobed_iff hlive', isPackage_eq_notFound_iff hlive']
    simp [hfound]
  | outlived cause hnot => exact absurd hlive hnot

/-- A document with a syntax error. -/
def brokenDocuments : Disk := fun path =>
  if path = "d/m.json" then .file "[".toUTF8 else .fault .notFound

/-- The document was found, and then broken. -/
def foundBroken : System := { (searching.find ⟨0⟩ "m").2 with disk := brokenDocuments }

/-- Asking for its listing fails and drops the record. -/
theorem foundBroken_source_unregisters :
    foundBroken.state ⟨0⟩ "m" = .found "d/m.json"
      ∧ ∃ e s', foundBroken.call ⟨0⟩ (.source "m") = (some e, s')
        ∧ s'.state ⟨0⟩ "m" = .unprobed ∧ s'.isPackage ⟨0⟩ "m" = .error (.notFound "m") := by
  have hfails : (foundBroken.call ⟨0⟩ (.source "m")).1
      = some (.activation "m" (.notJson "d/m.json")) := by
    decide +kernel
  refine ⟨by decide +kernel, ?_⟩
  cases hcall : foundBroken.call ⟨0⟩ (.source "m") with
  | mk failure s' =>
    rw [hcall] at hfails
    cases hfails
    obtain ⟨-, hiff⟩ := failed_load_unregisters_iff (c := .source "m") rfl (by decide +kernel) hcall
    exact ⟨_, s', rfl, hiff.2 (.inl (by decide))⟩

/-- The document was found, and then removed. -/
def foundRemoved : System := { (searching.find ⟨0⟩ "m").2 with disk := .empty }

/-- Importing it fails, and it stays on record. -/
theorem foundRemoved_import_leaves_record :
    foundRemoved.Reachable ∧ foundRemoved.liveModule? ⟨0⟩ "m" = none
      ∧ ∃ s', foundRemoved.call ⟨0⟩ (.request (.importing "m")) = (some (.notFound "m"), s')
        ∧ s'.state ⟨0⟩ "m" = .found "d/m.json" ∧ s'.isPackage ⟨0⟩ "m" = .ok false := by
  have hreach : foundRemoved.Reachable :=
    (reachable_searching.tail (.find searching ⟨0⟩ "m")).tail (.surroundings _ .empty _ _ _ _)
  have hfails : (foundRemoved.call ⟨0⟩ (.request (.importing "m"))).1 = some (.notFound "m") := by
    decide +kernel
  exact ⟨hreach, by decide +kernel, _, Prod.ext hfails rfl, by decide +kernel, by decide +kernel⟩

-- ==================================================== all loaders

/-- The call is to load a name that is not live in the loader, and fails on
the document that is found. -/
def BreaksOn (s : System) (l : LoaderRef) (c : Call) (name : String) : Prop :=
  c.loads? = some name ∧ s.liveModule? l name = none
    ∧ ∃ cause, (s.call l c).1 = some (.activation name cause)

/-- Every name that is live in some loader is on record. -/
def Recorded (s : System) : Prop :=
  ∀ l name, (s.liveModule? l name).isSome → (s.foundPath? name).isSome

/-- Names stay on record where records are kept and new modules are recorded. -/
theorem Recorded.kept (hs : s.Recorded) (h : Kept s s') : s'.Recorded := by
  intro l n hn
  rcases h.live l n hn with hold | hnew
  · exact h.found n (hs l n hold)
  · exact hnew

/-- Dropping the record of a name matters if the name is live somewhere. -/
theorem Recorded.dropped_iff (hs : s.Recorded) (h : Dropped s name s') :
    s'.Recorded ↔ ∀ l, s.liveModule? l name = none := by
  constructor
  · intro hs' l
    by_contra hlive
    have hfound := hs' l name (by rwa [h.live, Option.isSome_iff_ne_none])
    rw [h.found, if_pos rfl] at hfound
    cases hfound
  · intro hnone l n hn
    rw [h.live] at hn
    by_cases hname : name = n
    · rw [← hname, hnone l] at hn
      cases hn
    · rw [h.found, if_neg hname]
      exact hs l n hn

/-- A call that loads no name drops no record. -/
theorem call_kept {c : Call} (hc : c.loads? = none) (s : System) (l : LoaderRef) :
    Kept s (s.call l c).2 := by
  cases c with
  | find n =>
    unfold call find
    dsimp only
    split
    case h_1 path _ => exact .recordFound s n path
    case h_2 => exact .refl s
  | forget n =>
    refine .setLoader fun n' hn' => ?_
    rw [Table.find?_erase] at hn'
    split at hn'
    case isTrue => cases hn'
    case isFalse => exact .inl hn'
  | compiled n => cases hc
  | source n => cases hc
  | request q =>
    cases q with
    | importing n => cases hc
    | activating n => cases hc
    | reloading r =>
      unfold call request reload
      dsimp only
      split
      case h_1 => exact .refl s
      case h_2 m _ =>
        rcases activateAt_cases s l m.name m.state.file (some r) with
          ⟨cause, -, hresult⟩ | ⟨_, _, r', _, -, -, hresult⟩
        · rw [hresult]
          exact .refl s
        · rw [hresult]
          exact activateAt_kept hresult

/-- A call drops the record of the name that it breaks on, and no other. -/
theorem call_kept_or_dropped (s : System) (l : LoaderRef) (c : Call) :
    ((∀ name, ¬ s.BreaksOn l c name) ∧ Kept s (s.call l c).2)
      ∨ ∃ name, s.BreaksOn l c name ∧ Dropped s name (s.call l c).2 := by
  unfold BreaksOn
  cases hc : c.loads? with
  | none =>
    refine .inl ⟨?_, call_kept hc s l⟩
    rintro _ ⟨hname, -⟩
    cases hname
  | some name =>
    have houtcome := call_outcome hc s l
    cases hcall : s.call l c with
    | mk failure s' =>
    rw [hcall] at houtcome
    cases houtcome with
    | loaded hkept =>
      refine .inl ⟨?_, hkept⟩
      rintro _ ⟨-, -, cause, hfailure⟩
      cases hfailure
    | missing =>
      refine .inl ⟨?_, .refl _⟩
      rintro _ ⟨-, -, cause, hfailure⟩
      cases hfailure
    | broken cause hlive hdropped => exact .inr ⟨name, ⟨rfl, hlive, cause, rfl⟩, hdropped⟩
    | outlived cause hlive hkept =>
      refine .inl ⟨?_, hkept⟩
      rintro _ ⟨hname, hnone, -⟩
      cases hname
      exact hlive hnone

-- ==================================================== runs

/-- What happens: loaders are made, with any search roots, and called;
meanwhile documents and all else around them change. -/
inductive Event
  | call (l : LoaderRef) (c : Call)
  | addLoader (search : Search)
  | addRoot (l : LoaderRef) (root : String)
  | surroundings (disk : Disk) (environment : Option String) (time : String)
      (configuration : Configuration) (heap : Heap)

/-- The system after an event. -/
def after (s : System) : Event → System
  | .call l c => (s.call l c).2
  | .addLoader search => (s.addLoader { search }).2
  | .addRoot l root => s.addRoot l root
  | .surroundings disk environment time configuration heap =>
    { s with disk, environment, time, configuration, heap }

/-- The system after events, from one in which nothing has happened. -/
def run (events : List Event) : System := events.foldl after {}

/-- The event is a call that breaks on a name which another loader has
live. -/
def Disturbs (s : System) (e : Event) : Prop :=
  ∃ l c name, e = .call l c ∧ s.BreaksOn l c name ∧ ∃ l', (s.liveModule? l' name).isSome

theorem Kept.addLoader (s : System) (search : Search) : Kept s (s.addLoader { search }).2 where
  found _ hn := hn
  live l n hn := by
    rw [liveModule?_addLoader] at hn
    exact .inl hn

/-- An event leaves all live names on record unless it disturbs. -/
theorem Recorded.after_iff (hs : s.Recorded) (e : Event) :
    (s.after e).Recorded ↔ ¬ s.Disturbs e := by
  cases e with
  | call l c =>
    rcases call_kept_or_dropped s l c with ⟨hnot, hkept⟩ | ⟨name, hbreaks, hdropped⟩
    · refine iff_of_true (hs.kept hkept) ?_
      rintro ⟨_, _, name, heq, hbreaks, -⟩
      cases heq
      exact hnot name hbreaks
    · -- the record is dropped, which matters to every loader that holds the name
      refine (hs.dropped_iff hdropped).trans ?_
      constructor
      · rintro hnone ⟨_, _, name', heq, hbreaks', l', hlive⟩
        cases heq
        have hname : name' = name := Option.some.inj (hbreaks'.1.symm.trans hbreaks.1)
        rw [hname, hnone l'] at hlive
        cases hlive
      · intro hnot l'
        by_contra hlive
        exact hnot ⟨l, c, name, rfl, hbreaks, l', Option.isSome_iff_ne_none.2 hlive⟩
  | addLoader search =>
    refine iff_of_true (hs.kept (.addLoader s search)) ?_
    rintro ⟨_, _, _, heq, -⟩
    cases heq
  | addRoot l root =>
    refine iff_of_true (hs.kept (.setLoader fun n hn => .inl hn)) ?_
    rintro ⟨_, _, _, heq, -⟩
    cases heq
  | surroundings disk environment time configuration heap =>
    refine iff_of_true hs ?_
    rintro ⟨_, _, _, heq, -⟩
    cases heq

theorem run_append (events : List Event) (e : Event) :
    run (events ++ [e]) = (run events).after e := by
  unfold run
  rw [List.foldl_append]
  rfl

theorem recorded_start : (run []).Recorded := by
  intro l n hn
  unfold liveModule? loader at hn
  rw [Array.getD_eq_getD_getElem?, Array.getElem?_eq_none (Nat.zero_le _)] at hn
  cases hn

/-- Along a run, every live name is on record at every moment, unless some
call breaks on a name which another loader has live. -/
theorem recorded_along_iff (events : List Event) :
    (∀ before, before <+: events → (run before).Recorded)
      ↔ ∀ before e, before ++ [e] <+: events → ¬ (run before).Disturbs e := by
  constructor
  · intro hrecorded before e hprefix
    have hbefore := hrecorded before ((List.prefix_append before [e]).trans hprefix)
    have hafter := hrecorded (before ++ [e]) hprefix
    rw [run_append] at hafter
    exact (hbefore.after_iff e).1 hafter
  · intro hnot before
    induction before using List.reverseRecOn with
    | nil => exact fun _ => recorded_start
    | append_singleton before e ih =>
      intro hprefix
      have hbefore := ih ((List.prefix_append before [e]).trans hprefix)
      rw [run_append]
      exact (hbefore.after_iff e).2 (hnot before e hprefix)

/-- Two loaders search one directory. The first imports a document, which is
then broken, and the second imports it. -/
def secondImport : List Event :=
  [.addLoader ⟨["d"], [".json"]⟩, .addLoader ⟨["d"], [".json"]⟩,
    .surroundings documents none "" {} .empty, .call ⟨0⟩ (.request (.importing "m")),
    .surroundings brokenDocuments none "" {} .empty, .call ⟨1⟩ (.request (.importing "m"))]

/-- The name is live in the first loader, and not on record any more. -/
theorem secondImport_drops_record :
    (run secondImport).liveModule? ⟨0⟩ "m" = some ⟨0⟩
      ∧ (run secondImport).foundPath? "m" = none := by
  decide +kernel

end LiveDoc.System
