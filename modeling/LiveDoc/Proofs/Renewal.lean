/-
A renewed module is a new module.

What activating or reloading puts into a module is decided by a name, a
path and the text under the path. Everything else that a system holds, the
module's old contents and all objects among it, has two ways to show in
the new contents, and neither lets anything through: the clock shows in a
documentation that is made up (`ofDocument_retimed`), and the heap decides
where the new objects stand (`Program.link_eq`). Linking the text in any
two systems is therefore linking one contents, put behind the objects of
either (`linkDocument_anew`).

The second system may be as empty as one likes. With a loader that has
never loaded anything, in a system of which nothing is asked but that the
text is found, the same contents come up; so no edit that came before can
be seen in what was renewed (`Reachable.renewed_like_first`).
-/
import LiveDoc.Proofs.Dialects
import LiveDoc.Proofs.Loading
import LiveDoc.Proofs.Relocation

namespace LiveDoc

open Relation (ReflTransGen)
open Traversal

-- ==================================================== another time

namespace ModuleDecl

/-- Two documentations are the same text, or both are made up, each at its
time. -/
def SameDoc (name file time time₀ doc doc₀ : String) : Prop :=
  doc₀ = doc ∨ (doc = generatedDoc name file time ∧ doc₀ = generatedDoc name file time₀)

variable {name file time : String}

theorem readDoc_retimed {root : Entries Json} {doc : String}
    (h : readDoc name file time root = .ok doc) (time₀ : String) :
    ∃ doc₀, readDoc name file time₀ root = .ok doc₀ ∧ SameDoc name file time time₀ doc doc₀ := by
  unfold readDoc at h ⊢
  split at h
  case h_1 =>
    cases h
    exact ⟨_, rfl, .inr ⟨rfl, rfl⟩⟩
  case h_2 =>
    cases h
    exact ⟨_, rfl, .inl rfl⟩
  case h_3 => cases h

/-- The name, the file and the documentation are those that were passed. -/
theorem header_of_ofParts {doc : String} {dialect : Dialect} {bodies : Entries Json}
    {attributes : List AttributeDecl} {m : ModuleDecl}
    (h : ofParts name file doc dialect bodies attributes = .ok m) :
    m.name = name ∧ m.file = file ∧ m.doc = doc := by
  obtain ⟨declared, -, h⟩ := bind_eq_ok.1 h
  obtain ⟨classes, -, h⟩ := bind_eq_ok.1 h
  obtain ⟨⟨⟩, -, h⟩ := bind_eq_ok.1 h
  cases h
  exact ⟨rfl, rfl, rfl⟩

/-- At another time a document declares the same, but for a documentation
that is made up. -/
theorem ofDocument_retimed {document : Json} {m : ModuleDecl}
    (h : ofDocument name file time document = .ok m) (time₀ : String) :
    m.file = file ∧ ∃ doc₀, ofDocument name file time₀ document = .ok { m with doc := doc₀ }
      ∧ SameDoc name file time time₀ m.doc doc₀ := by
  obtain ⟨root, rfl⟩ := exists_root_of_ofDocument h
  rw [ofDocument_eq_ofParts] at h ⊢
  obtain ⟨doc, hdoc, h⟩ := bind_eq_ok.1 h
  obtain ⟨r, hr, h⟩ := bind_eq_ok.1 h
  obtain ⟨doc₀, hdoc₀, hsame⟩ := readDoc_retimed hdoc time₀
  obtain ⟨-, hfile, hmdoc⟩ := header_of_ofParts h
  rw [hmdoc]
  refine ⟨hfile, doc₀, ?_, hsame⟩
  rw [hdoc₀, ok_bind, hr, ok_bind,
    ofParts_map (f := fun m => { m with doc := doc₀ }) (fun _ _ => rfl) r.1 r.2, h]
  rfl

end ModuleDecl

open ModuleDecl (SameDoc)

/-- The contents with another documentation. -/
def ModuleState.withDoc (doc : String) (s : ModuleState) : ModuleState :=
  { s with doc, program := { s.program with doc } }

theorem Program.link_doc (p : Program) (doc : String) (document : Json) (h : Heap) :
    Program.link { p with doc } document h
      = (p.link document h).map fun r => (r.1.withDoc doc, r.2) := by
  unfold Program.link
  dsimp only
  cases linkItems p.name p.items {} h <;> rfl

theorem compileDocument_of_text {disk : Disk} {path text : String}
    (htext : disk.readText path = .ok text) (time name : String) :
    compileDocument disk time name path
      = (Json.parse? text).elim (.error (.notJson path)) fun document =>
          (ModuleDecl.ofDocument name path time document).mapError .document >>=
            fun m => .ok (document, .ofModule m) := by
  unfold compileDocument
  have hread : (disk.readText path).mapError (ActivationCause.unreadable path) = .ok text := by
    rw [htext]
    rfl
  rw [hread, ok_bind]
  cases Json.parse? text <;> rfl

/-- One text is compiled alike on all disks and at all times, but for a
documentation that is made up. -/
theorem compileDocument_retimed {disk disk₀ : Disk} {time name path text : String}
    (htext : disk.readText path = .ok text) (htext₀ : disk₀.readText path = .ok text)
    {document : Json} {program : Program}
    (h : compileDocument disk time name path = .ok (document, program)) (time₀ : String) :
    Json.parse? text = some document ∧ program.file = path
      ∧ ∃ doc₀, compileDocument disk₀ time₀ name path = .ok (document, { program with doc := doc₀ })
        ∧ SameDoc name path time time₀ program.doc doc₀ := by
  rw [compileDocument_of_text htext] at h
  rw [compileDocument_of_text htext₀]
  cases hparse : Json.parse? text with
  | none =>
    rw [hparse] at h
    cases h
  | some document' =>
    rw [hparse] at h
    obtain ⟨m, hm, h⟩ := bind_eq_ok.1 h
    cases h
    obtain ⟨hfile, doc₀, hm₀, hsame⟩ := ModuleDecl.ofDocument_retimed (mapError_eq_ok.1 hm) time₀
    exact ⟨rfl, hfile, doc₀, bind_eq_ok.2 ⟨_, mapError_eq_ok.2 hm₀, rfl⟩, hsame⟩

namespace System

variable {s s₀ : System} {name path text : String}

-- ==================================================== another system

/-- What a document is linked to in one system, any other system links it
to that has the text under the same path: the same contents behind its own
objects. -/
theorem linkDocument_anew (htext : s.disk.readText path = .ok text) {state : ModuleState}
    {heap : Heap} (h : s.linkDocument name path = .ok (state, heap)) :
    ∃ (contents : ModuleState) (objects : Heap),
      state = contents.moved s.heap.size ∧ heap = objects.behind s.heap
      ∧ Json.parse? text = some contents.document ∧ contents.file = path
      ∧ contents.program.doc = contents.doc
      ∧ ∀ s₀ : System, s₀.disk.readText path = .ok text →
        ∃ doc₀, s₀.linkDocument name path
            = .ok ((contents.withDoc doc₀).moved s₀.heap.size, objects.behind s₀.heap)
          ∧ SameDoc name path s.time s₀.time contents.doc doc₀ := by
  obtain ⟨⟨document, program⟩, hcompile, h⟩ := bind_eq_ok.1 h
  obtain ⟨hparse, hfile, -⟩ := compileDocument_retimed htext htext hcompile s.time
  have hlink := mapError_eq_ok.1 h
  rw [Program.link_eq] at hlink
  -- linking into any heap is linking into the empty one, moved behind it
  cases hempty : program.link document .empty with
  | error e =>
    rw [hempty] at hlink
    cases hlink
  | ok r =>
    obtain ⟨contents, objects⟩ := r
    rw [hempty] at hlink
    cases hlink
    obtain ⟨⟨b, made⟩, -, hcontents⟩ := bind_eq_ok.1 hempty
    cases hcontents
    refine ⟨_, objects, rfl, rfl, hparse, hfile, rfl, ?_⟩
    intro s₀ htext₀
    obtain ⟨-, -, doc₀, hcompile₀, hsame⟩ :=
      compileDocument_retimed htext htext₀ hcompile s₀.time
    refine ⟨doc₀, bind_eq_ok.2 ⟨_, hcompile₀, mapError_eq_ok.2 ?_⟩, hsame⟩
    rw [Program.link_eq, Program.link_doc, hempty]
    rfl

/-- The module that contents are put into has them. -/
theorem install_contents {existing : Option ModuleRef}
    (hexisting : ∀ r, existing = some r → ∃ m, s.module? r = some m ∧ m.name = name)
    (state : ModuleState) :
    ∃ r s' m, s.install name existing state = (r, s') ∧ s'.heap = s.heap
      ∧ s'.module? r = some m ∧ m.name = name ∧ m.state = state := by
  cases existing with
  | none =>
    have hmodule := module?_addModule s (.ofState name state) ⟨s.modules.size⟩
    exact ⟨_, _, .ofState name state, rfl, rfl, hmodule.trans (if_pos rfl), rfl, rfl⟩
  | some r =>
    obtain ⟨m, hm, hname⟩ := hexisting r rfl
    have hmodule := module?_setModule hm (m.replace state) r
    refine ⟨r, s.setModule r (m.replace state), m.replace state, ?_, rfl,
      hmodule.trans (if_pos rfl), hname, rfl⟩
    rw [install, hm]

/-- Activating a document that can be linked succeeds, and the module has
what was linked. -/
theorem activateAt_of_link {existing : Option ModuleRef}
    (hexisting : ∀ r, existing = some r → ∃ m, s.module? r = some m ∧ m.name = name)
    {state : ModuleState} {heap : Heap} (h : s.linkDocument name path = .ok (state, heap))
    (l : LoaderRef) :
    ∃ r s' m, s.activateAt l name path existing = (.ok r, s') ∧ s'.heap = heap
      ∧ s'.module? r = some m ∧ m.name = name ∧ m.state = state := by
  rcases activateAt_cases s l name path existing with
    ⟨cause, hlink, -⟩ | ⟨state', heap', r, s₁, hlink, hinstall, hsucceeds⟩
  · rw [h] at hlink
    cases hlink
  · rw [h] at hlink
    cases hlink
    obtain ⟨_, _, m, hinstall', hheap, hm, hname, hstate⟩ :=
      install_contents (s := { s with heap }) hexisting state
    rw [hinstall] at hinstall'
    cases hinstall'
    exact ⟨r, _, m, hsucceeds, hheap, hm, hname, hstate⟩

-- ==================================================== renewed and new

/-- Two modules hold the same, each behind the objects that were there
before: `m` since `s` became `s'`, and `m₀` since `s₀` became `s₀'`. The
objects that have come up are the same, and what the modules refer to are
the same of them; nothing refers to what was there before. -/
structure SameContents (s s' : System) (m : Module) (s₀ s₀' : System) (m₀ : Module) : Prop where
  name : m₀.name = m.name
  file : m₀.state.file = m.state.file
  document : m₀.state.document = m.state.document
  program : { m₀.state.program with doc := m.state.program.doc } = m.state.program
  programDoc : m.state.program.doc = m.state.doc ∧ m₀.state.program.doc = m₀.state.doc
  doc : SameDoc m.name m.state.file s.time s₀.time m.state.doc m₀.state.doc
  /-- names and values -/
  attributes : ∃ t : Table Value, m.state.attributes = t.map (Value.moved s.heap.size)
    ∧ m₀.state.attributes = t.map (Value.moved s₀.heap.size)
  /-- names, definitions and lineages -/
  classes : ∃ t : Table Class, m.state.classes = t.map (Class.moved s.heap.size)
    ∧ m₀.state.classes = t.map (Class.moved s₀.heap.size)
  /-- items of lists, entries of dicts, class attributes -/
  objects : ∃ e, s'.heap = Heap.behind e s.heap ∧ s₀'.heap = Heap.behind e s₀.heap

/-- What counts of the systems before is the clock and the objects. -/
theorem SameContents.of_before {s s₁ s' s₀ s₂ s₀' : System} {m m₀ : Module}
    (h : SameContents s₁ s' m s₂ s₀' m₀) (hbefore : s₁.time = s.time ∧ s₁.heap = s.heap)
    (hbefore₀ : s₂.time = s₀.time ∧ s₂.heap = s₀.heap) : SameContents s s' m s₀ s₀' m₀ := by
  obtain ⟨hname, hfile, hdocument, hprogram, hdocs, hdoc, hattributes, hclasses, hobjects⟩ := h
  rw [hbefore.1, hbefore₀.1] at hdoc
  rw [hbefore.2, hbefore₀.2] at hattributes hclasses hobjects
  exact ⟨hname, hfile, hdocument, hprogram, hdocs, hdoc, hattributes, hclasses, hobjects⟩

/-- Where an activation puts a module's contents, any other system puts the
same into a new module. -/
theorem activateAt_anew {l : LoaderRef} {existing : Option ModuleRef}
    (hexisting : ∀ r, existing = some r → ∃ m, s.module? r = some m ∧ m.name = name)
    {r : ModuleRef} {s' : System} (h : s.activateAt l name path existing = (.ok r, s')) :
    ∃ text m, s.disk.readText path = .ok text ∧ s'.module? r = some m ∧ m.name = name
      ∧ m.state.file = path ∧ Json.parse? text = some m.state.document
      ∧ ∀ (s₀ : System) (l₀ : LoaderRef), s₀.disk.readText path = .ok text →
        ∃ r₀ s₀' m₀, s₀.activateAt l₀ name path none = (.ok r₀, s₀') ∧ s₀'.module? r₀ = some m₀
          ∧ SameContents s s' m s₀ s₀' m₀ := by
  have hlinks : ∃ state heap, s.linkDocument name path = .ok (state, heap) := by
    rcases activateAt_cases s l name path existing with
      ⟨cause, -, hfails⟩ | ⟨state, heap, _, _, hlink, -⟩
    · rw [h] at hfails
      cases hfails
    · exact ⟨state, heap, hlink⟩
  obtain ⟨state, heap, hlink⟩ := hlinks
  have hread : ∃ text, s.disk.readText path = .ok text := by
    obtain ⟨_, hcompile, -⟩ := bind_eq_ok.1 hlink
    obtain ⟨text, htext, -⟩ := bind_eq_ok.1 hcompile
    exact ⟨text, mapError_eq_ok.1 htext⟩
  obtain ⟨text, htext⟩ := hread
  obtain ⟨r', s'', m, h', rfl, hm, rfl, rfl⟩ := activateAt_of_link hexisting hlink l
  rw [h] at h'
  cases h'
  obtain ⟨contents, objects, hstate, hobjects, hparse, hfile, hprogramDoc, hanew⟩ :=
    linkDocument_anew htext hlink
  refine ⟨text, m, htext, hm, rfl, ?_, ?_, ?_⟩
  · rw [hstate]
    exact hfile
  · rw [hstate]
    exact hparse
  · intro s₀ l₀ htext₀
    obtain ⟨doc₀, hlink₀, hdoc⟩ := hanew s₀ htext₀
    -- a first load has no module to replace
    have hnew : ∀ r, none = some r → ∃ old, s₀.module? r = some old ∧ old.name = m.name :=
      fun _ hr => by cases hr
    obtain ⟨r₀, s₀', m₀, h₀, hobjects₀, hm₀, hname₀, hstate₀⟩ :=
      activateAt_of_link hnew hlink₀ l₀
    refine ⟨r₀, s₀', m₀, h₀, hm₀, ?_⟩
    subst hfile
    constructor
    case name => exact hname₀
    case objects => exact ⟨objects, hobjects, hobjects₀⟩
    case doc =>
      rw [hstate, hstate₀]
      exact hdoc
    all_goals rw [hstate, hstate₀]
    case programDoc => exact ⟨hprogramDoc, rfl⟩
    case attributes => exact ⟨contents.attributes, rfl, rfl⟩
    case classes => exact ⟨contents.classes, rfl, rfl⟩
    all_goals rfl

-- ==================================================== requests and first loads

/-- A request that succeeds without a live module being found activates the
document under its path. -/
theorem request_activates {l : LoaderRef} {q : Request} (hname : s.nameOf? q = some name)
    (hlive : s.findsLive l q = false) {r : ModuleRef} {s' : System}
    (h : s.request l q = (.ok r, s')) :
    ∃ path s₁, s.pathOf? l q = some path ∧ (s₁ = s ∨ s₁ = s.recordFound name path)
      ∧ s₁.activateAt l name path (s.subject? l q) = (.ok r, s') := by
  rcases request_cases s l hname with
    ⟨hfound, -⟩ | ⟨-, ⟨e, hfails⟩ | ⟨path, s₁, hpath, hs₁, hrequest⟩⟩
  · rw [hlive] at hfound
    cases hfound
  · rw [h] at hfails
    cases hfails
  · exact ⟨path, s₁, hpath, hs₁, hrequest.symm.trans h⟩

/-- Import a name with a loader that has not loaded anything. -/
def firstLoad (s : System) (search : Search) (name : String) :
    Except ImportError ModuleRef × System :=
  let (l, s) := s.addLoader { search }
  s.importModule l name

theorem loader_addLoader (s : System) (l : Loader) :
    (s.addLoader l).2.loader (s.addLoader l).1 = l := by
  unfold loader addLoader
  rw [Array.getD_eq_getD_getElem?, Array.getElem?_push, if_pos rfl]
  rfl

/-- A first load finds no document, or is an activation, in a system that is
as before but for the loader and the record. -/
theorem firstLoad_cases (s : System) (search : Search) (name : String) :
    (search.resolve? s.disk name = none
        ∧ ∃ s₁, s.firstLoad search name = (.error (.notFound name), s₁))
      ∨ ∃ (path : String) (l : LoaderRef) (s₁ : System), search.resolve? s.disk name = some path
        ∧ s.firstLoad search name = s₁.activateAt l name path none
        ∧ s₁.disk = s.disk ∧ s₁.time = s.time ∧ s₁.heap = s.heap := by
  have hloader := loader_addLoader s { search }
  have hlive : (s.addLoader { search }).2.liveModule? (s.addLoader { search }).1 name = none := by
    unfold liveModule?
    rw [hloader]
    rfl
  have hfirst : s.firstLoad search name
      = (s.addLoader { search }).2.activate (s.addLoader { search }).1 name := by
    unfold firstLoad
    dsimp only
    rw [importModule, hlive]
  rcases activate_cases (s.addLoader { search }).2 (s.addLoader { search }).1 name with
    ⟨hmissing, hactivate⟩ | ⟨path, hpath, hactivate⟩
  · rw [hloader] at hmissing
    exact .inl ⟨hmissing, _, hfirst.trans hactivate⟩
  · rw [hloader] at hpath
    rw [hlive] at hactivate
    exact .inr ⟨path, _, _, hpath, hfirst.trans hactivate, rfl, rfl, rfl⟩

/-- A first load that finds a document is an activation. -/
theorem firstLoad_eq {search : Search} (hpath : search.resolve? s.disk name = some path) :
    ∃ (l : LoaderRef) (s₁ : System), s.firstLoad search name = s₁.activateAt l name path none
      ∧ s₁.disk = s.disk ∧ s₁.time = s.time ∧ s₁.heap = s.heap := by
  rcases firstLoad_cases s search name with ⟨hmissing, -⟩ | ⟨path', l, s₁, hpath', hfirst⟩
  · rw [hpath] at hmissing
    cases hmissing
  · rw [hpath] at hpath'
    cases hpath'
    exact ⟨l, s₁, hfirst⟩

/-- In a reachable system, a request that brings a module to life or renews
it leaves the module with the contents that the same name, path and text
give a module that is loaded for the first time, in whatever system. -/
theorem Reachable.renewed_like_first (hs : s.Reachable) {l : LoaderRef} {q : Request}
    (hname : s.nameOf? q = some name) (hlive : s.findsLive l q = false) {r : ModuleRef}
    {s' : System} (h : s.request l q = (.ok r, s')) :
    ∃ path text m, s.pathOf? l q = some path ∧ s.disk.readText path = .ok text
      ∧ s'.module? r = some m ∧ m.name = name ∧ m.state.file = path
      ∧ Json.parse? text = some m.state.document
      ∧ ∀ (s₀ : System) (search : Search), s₀.disk.readText path = .ok text →
        search.resolve? s₀.disk name = some path →
        ∃ r₀ s₀' m₀, s₀.firstLoad search name = (.ok r₀, s₀') ∧ s₀'.module? r₀ = some m₀
          ∧ SameContents s s' m s₀ s₀' m₀ := by
  obtain ⟨path, s₁, hpath, hs₁, hactivate⟩ := request_activates hname hlive h
  obtain ⟨hdisk, hmodules, hbefore⟩ : s₁.disk = s.disk ∧ s₁.modules = s.modules
      ∧ s₁.time = s.time ∧ s₁.heap = s.heap := by
    rcases hs₁ with rfl | rfl <;> exact ⟨rfl, rfl, rfl, rfl⟩
  -- the module that is renewed goes by the name
  have hexisting : ∀ r, s.subject? l q = some r → ∃ m, s₁.module? r = some m ∧ m.name = name := by
    intro r hr
    unfold module?
    rw [hmodules]
    exact hs.consistent.named hname hr
  obtain ⟨text, m, htext, hm, hmname, hfile, hparse, hanew⟩ := activateAt_anew hexisting hactivate
  rw [hdisk] at htext
  refine ⟨path, text, m, hpath, htext, hm, hmname, hfile, hparse, ?_⟩
  intro s₀ search htext₀ hresolve
  obtain ⟨l₀, s₂, hfirst, hdisk₀, hbefore₀⟩ := firstLoad_eq hresolve
  obtain ⟨r₀, s₀', m₀, h₀, hm₀, hsame⟩ := hanew s₂ l₀ (by rw [hdisk₀, htext₀])
  exact ⟨r₀, s₀', m₀, hfirst.trans h₀, hm₀, hsame.of_before hbefore hbefore₀⟩

/-- The document, edited. -/
def editedDocuments : Disk := fun path =>
  if path = "d/m.json" then .file "\x7b\"n\": [2, 3], \"K\": \x7b\x7d\x7d".toUTF8
  else .fault .notFound

/-- The first module has an attribute bound that its document lacks. -/
def extended : System :=
  match superseded.module? ⟨0⟩ with
  | none => superseded
  | some m => superseded.setModule ⟨0⟩ (m.set "extra" .null)

/-- Then the module's list was changed, and its document edited. -/
def edited : System :=
  { extended with
    disk := editedDocuments
    time := "later"
    heap := extended.heap.write 0 (.list [.null]) }

theorem reachable_edited : edited.Reachable := by
  have hextended : extended.Reachable := by
    unfold extended
    split
    case h_1 => exact reachable_superseded
    case h_2 m hm => exact reachable_superseded.tail (.bind hm "extra" .null)
  exact hextended.tail (.surroundings extended editedDocuments _ "later" _ _)

/-- Reloading the module puts into it what the edited document gives a
module in a system where nothing else was ever loaded. -/
theorem edited_reload_like_first :
    edited.Reachable
      ∧ (edited.module? ⟨0⟩).map Module.attributeNames = some ["n", "extra"]
      ∧ ∃ s' m r₀ s₀' m₀, edited.request ⟨0⟩ (.reloading ⟨0⟩) = (.ok ⟨0⟩, s')
        ∧ s'.module? ⟨0⟩ = some m ∧ m.attributeNames = ["n"] ∧ m.classNames = ["K"]
        ∧ firstLoad { disk := editedDocuments } ⟨["d"], [".json"]⟩ "m" = (.ok r₀, s₀')
        ∧ s₀'.module? r₀ = some m₀
        ∧ SameContents edited s' m { disk := editedDocuments } s₀' m₀ := by
  have hpath : edited.pathOf? ⟨0⟩ (.reloading ⟨0⟩) = some "d/m.json" := by decide +kernel
  have hresolve : (Search.mk ["d"] [".json"]).resolve? editedDocuments "m" = some "d/m.json" := by
    decide +kernel
  have hname : edited.nameOf? (.reloading ⟨0⟩) = some "m" := by decide +kernel
  have hok : (edited.request ⟨0⟩ (.reloading ⟨0⟩)).1 = .ok ⟨0⟩ := by decide +kernel
  have hnames : ((edited.request ⟨0⟩ (.reloading ⟨0⟩)).2.module? ⟨0⟩).map
      (fun m => (m.attributeNames, m.classNames)) = some (["n"], ["K"]) := by
    decide +kernel
  refine ⟨reachable_edited, by decide +kernel, ?_⟩
  cases hrequest : edited.request ⟨0⟩ (.reloading ⟨0⟩) with
  | mk result s' =>
    rw [hrequest] at hok hnames
    cases hok
    obtain ⟨path, text, m, hread, htext, hm, -, -, -, hfirst⟩ :=
      reachable_edited.renewed_like_first hname rfl hrequest
    rw [hpath] at hread
    cases hread
    obtain ⟨r₀, s₀', m₀, h₀, hm₀, hsame⟩ :=
      hfirst { disk := editedDocuments } ⟨["d"], [".json"]⟩ htext hresolve
    rw [hm, Option.map_some, Option.some.injEq, Prod.mk.injEq] at hnames
    exact ⟨s', m, r₀, s₀', m₀, rfl, hm, hnames.1, hnames.2, h₀, hm₀, hsame⟩

end System

end LiveDoc
