/-
What a list of arguments says.

Read from the left, arguments are pairs of an option and its value, and plain
words without a dash in front (`Reads`). Nothing else of them counts: the plain
words, the roots and the suffixes, each in their order, settle what is read
(`readAll_of_reads`), wherever the options stand among the words and each
other. What can be run is just what reads as two words, the first of them a
command (`parse_eq_ok_iff`).

A run looks for a document and does what the command says with it. Which
document that is depends on the disk, on the name, and on the roots and
suffixes in their order (`run_of_parse`), and of the disk only the candidates
count (`run_congr`). So where the options stand cannot be seen in a run
(`options_anywhere`).
-/
import LiveDoc.CommandLine.Run
import LiveDoc.Proofs.Renewal
import Mathlib.Data.List.Find

namespace LiveDoc

open Traversal

-- ==================================================== disks

section

variable {disk disk' : Disk}

/-- Whether a file stands under a path depends on that path alone. -/
theorem Disk.isFile_congr {path : String} (h : disk' path = disk path) :
    disk'.isFile path = disk.isFile path := by
  unfold isFile
  rw [h]

/-- Which document is found depends on the candidates. -/
theorem Search.resolve?_congr {search : Search} {name : String}
    (h : ∀ path ∈ search.candidates name, disk' path = disk path) :
    search.resolve? disk' name = search.resolve? disk name := by
  unfold resolve?
  split
  case isTrue => rfl
  case isFalse => exact List.find?_congr fun path hpath => Disk.isFile_congr (h path hpath)

/-- What is found is a candidate, so no other path is read. -/
theorem Search.mem_candidates_of_resolve? {search : Search} {name path : String}
    (h : search.resolve? disk name = some path) : path ∈ search.candidates name := by
  unfold resolve? at h
  split at h
  case isTrue => cases h
  case isFalse => exact List.mem_of_find?_eq_some h

/-- Compiling reads one path. -/
theorem compileDocument_congr {path : String} (h : disk' path = disk path) (time name : String) :
    compileDocument disk' time name path = compileDocument disk time name path := by
  unfold compileDocument Disk.readText
  rw [h]

end

namespace CommandLine

-- ==================================================== readings

/-- The arguments are pairs of `--path` and a root, pairs of `--suffix` and a
suffix, and words that do not begin with a dash. A root or a suffix may be any
text. -/
inductive Reads : List String → List String → List String → List String → Prop
  | nil : Reads [] [] [] []
  | path {args words roots suffixes : List String} (root : String)
      (rest : Reads args words roots suffixes) :
      Reads ("--path" :: root :: args) words (root :: roots) suffixes
  | suffix {args words roots suffixes : List String} (suffix : String)
      (rest : Reads args words roots suffixes) :
      Reads ("--suffix" :: suffix :: args) words roots (suffix :: suffixes)
  | word {args words roots suffixes : List String} {word : String}
      (plain : word.toList.head? ≠ some '-') (rest : Reads args words roots suffixes) :
      Reads (word :: args) (word :: words) roots suffixes

theorem ofText_eq_path {arg : String} : Word.ofText arg = .path ↔ arg = "--path" := by
  unfold Word.ofText
  split
  case isTrue h => exact iff_of_true rfl h
  case isFalse h =>
    refine iff_of_false (fun htext => ?_) h
    repeat' split at htext
    all_goals cases htext

theorem ofText_eq_suffix {arg : String} : Word.ofText arg = .suffix ↔ arg = "--suffix" := by
  unfold Word.ofText
  split
  case isTrue h => subst h; exact iff_of_false (fun htext => (by cases htext)) (by decide)
  case isFalse =>
    split
    case isTrue h => exact iff_of_true rfl h
    case isFalse h =>
      refine iff_of_false (fun htext => ?_) h
      repeat' split at htext
      all_goals cases htext

/-- No option and no value of one: a word without a dash in front. -/
theorem ofText_eq_plain {arg : String} :
    Word.ofText arg = .plain ↔ arg.toList.head? ≠ some '-' := by
  unfold Word.ofText
  split
  case isTrue h => subst h; simp
  case isFalse =>
    split
    case isTrue h => subst h; simp
    case isFalse =>
      split
      case isTrue h => rcases h with rfl | rfl <;> simp
      case isFalse => split <;> simp [*]

-- ==================================================== what is seen

namespace Seen

/-- What has been read, with more roots and suffixes. -/
def withOptions (s : Seen) (roots suffixes : List String) : Seen :=
  { s with paths := s.paths ++ roots, suffixes := s.suffixes ++ suffixes }

/-- What has been read, with more words taken. -/
def takeAll (s : Seen) (words : List String) : Except Stop Seen := words.foldlM takePlain s

theorem withOptions_nil (s : Seen) : s.withOptions [] [] = s := by
  simp [withOptions]

/-- Options that come later count after those that came first. -/
theorem withOptions_withOptions (s : Seen) (roots roots' suffixes suffixes' : List String) :
    (s.withOptions roots suffixes).withOptions roots' suffixes'
      = s.withOptions (roots ++ roots') (suffixes ++ suffixes') := by
  simp [withOptions]

/-- Words are taken without a look at the options. -/
theorem takePlain_withOptions (s : Seen) (roots suffixes : List String) (word : String) :
    (s.withOptions roots suffixes).takePlain word
      = (s.takePlain word).map fun s => s.withOptions roots suffixes := by
  obtain ⟨command, name, _, _⟩ := s
  cases command <;> cases name <;> rfl

theorem takeAll_cons (s : Seen) (word : String) (words : List String) :
    s.takeAll (word :: words) = (s.takePlain word >>= fun s => s.takeAll words) := by
  unfold takeAll
  rw [List.foldlM_cons]

/-- Options and plain words do not get in each other's way: either may be taken
first. -/
theorem takeAll_withOptions (s : Seen) (roots suffixes words : List String) :
    (s.withOptions roots suffixes).takeAll words
      = (s.takeAll words).map fun s => s.withOptions roots suffixes := by
  induction words generalizing s with
  | nil => rfl
  | cons word words ih =>
    rw [takeAll_cons, takeAll_cons, takePlain_withOptions, map_bind]
    cases s.takePlain word with
    | error e => rfl
    | ok s => exact ih s

/-- A word without a dash in front is taken as a plain word, -/
theorem readAll_word {word : String} (hword : word.toList.head? ≠ some '-') (s : Seen)
    (args : List String) :
    s.readAll (word :: args) = (s.takePlain word >>= fun s => s.readAll args) := by
  rw [readAll.eq_def]
  simp only [ofText_eq_plain.2 hword]
  cases s.takePlain word <;> rfl

/-- a root goes to the other roots, -/
theorem readAll_path (s : Seen) (root : String) (args : List String) :
    s.readAll ("--path" :: root :: args) = (s.withOptions [root] []).readAll args := by
  have hpath : Word.ofText "--path" = .path := by decide
  rw [readAll.eq_def]
  simp only [hpath, withOptions, List.append_nil]

/-- and a suffix to the other suffixes. -/
theorem readAll_suffix (s : Seen) (suffix : String) (args : List String) :
    s.readAll ("--suffix" :: suffix :: args) = (s.withOptions [] [suffix]).readAll args := by
  have hsuffix : Word.ofText "--suffix" = .suffix := by decide
  rw [readAll.eq_def]
  simp only [hsuffix, withOptions, List.append_nil]

/-- What is read of arguments: the words are taken one after the other, roots
and suffixes are kept in their order. -/
theorem readAll_of_reads {args words roots suffixes : List String}
    (h : Reads args words roots suffixes) (s : Seen) :
    s.readAll args = (s.takeAll words).map fun s => s.withOptions roots suffixes := by
  induction h generalizing s with
  | nil => exact congrArg Except.ok (withOptions_nil s).symm
  | @path args words roots suffixes root _ ih =>
    rw [readAll_path, ih, takeAll_withOptions]
    cases s.takeAll words with
    | error e => rfl
    | ok s => exact congrArg Except.ok (withOptions_withOptions s [root] roots [] suffixes)
  | @suffix args words roots suffixes suffix _ ih =>
    rw [readAll_suffix, ih, takeAll_withOptions]
    cases s.takeAll words with
    | error e => rfl
    | ok s => exact congrArg Except.ok (withOptions_withOptions s [] roots [suffix] suffixes)
  | @word args words roots suffixes word hword _ ih =>
    rw [readAll_word hword, takeAll_cons, Traversal.map_bind]
    exact congrArg _ (funext ih)

/-- Only pairs and words are read to the end. -/
theorem exists_reads {s seen : Seen} {args : List String} (h : s.readAll args = .ok seen) :
    ∃ words roots suffixes, Reads args words roots suffixes := by
  fun_induction readAll s args with
  | case1 => exact ⟨[], [], [], .nil⟩
  | case2 s arg root args harg ih =>
    obtain ⟨words, roots, suffixes, hrest⟩ := ih h
    rw [ofText_eq_path.1 harg]
    exact ⟨words, root :: roots, suffixes, .path root hrest⟩
  | case3 s arg suffix args harg ih =>
    obtain ⟨words, roots, suffixes, hrest⟩ := ih h
    rw [ofText_eq_suffix.1 harg]
    exact ⟨words, roots, suffix :: suffixes, .suffix suffix hrest⟩
  | case9 s arg args harg s' _ ih =>
    obtain ⟨words, roots, suffixes, hrest⟩ := ih h
    exact ⟨arg :: words, roots, suffixes, .word (ofText_eq_plain.1 harg) hrest⟩
  | case4 | case5 | case6 | case7 | case8 => cases h

/-- Two words are what is taken of a command line. -/
theorem exists_words_of_takeAll {seen : Seen} {words : List String} {command name : String}
    (h : takeAll {} words = .ok seen) (hcommand : seen.command = some command)
    (hname : seen.name = some name) : words = [command, name] := by
  match words with
  | [] =>
    cases h
    cases hcommand
  | [word] =>
    cases h
    cases hname
  | [word, word'] =>
    cases h
    rw [Option.some.inj hcommand, Option.some.inj hname]
  | word :: word' :: word'' :: words => cases h

end Seen

-- ==================================================== commands

/-- The word of a command. -/
def Command.word : Command → String
  | .source _ => "source"
  | .check _ => "check"

/-- The module that a command is about. -/
def Command.name : Command → String
  | .source name => name
  | .check name => name

/-- The command that two words give. -/
def Command.ofWords? (word name : String) : Option Command :=
  if word = "source" then some (.source name)
  else if word = "check" then some (.check name)
  else none

/-- A command is told by its word. -/
theorem Command.ofWords?_eq_some {word name : String} {command : Command} :
    Command.ofWords? word name = some command ↔ command.word = word ∧ command.name = name := by
  unfold ofWords?
  constructor
  · intro h
    split at h
    case isTrue hword =>
      cases h
      exact ⟨hword.symm, rfl⟩
    case isFalse =>
      split at h
      case isTrue hword =>
        cases h
        exact ⟨hword.symm, rfl⟩
      case isFalse => cases h
  · rintro ⟨rfl, rfl⟩
    cases command <;> rfl

/-- What two words, roots and suffixes give. -/
def Options.ofReading (word name : String) (roots suffixes : List String) : Except Stop Options :=
  match Command.ofWords? word name with
  | some command => .ok { command, paths := roots, suffixes }
  | none => .error (.unknownCommand word)

/-- What has been seen in the end is judged as a reading is. -/
theorem finish_eq_ofReading (word name : String) (roots suffixes : List String) :
    Seen.finish ⟨some word, some name, roots, suffixes⟩
      = Options.ofReading word name roots suffixes := by
  unfold Options.ofReading Command.ofWords?
  by_cases hsource : word = "source"
  · subst hsource
    rfl
  · by_cases hcheck : word = "check"
    · subst hcheck
      rfl
    · rw [if_neg hsource, if_neg hcheck]
      unfold Seen.finish
      split <;> simp_all

/-- Without both words there is nothing to run. -/
theorem exists_words_of_finish {s : Seen} {o : Options} (h : s.finish = .ok o) :
    ∃ word name, s.command = some word ∧ s.name = some name := by
  unfold Seen.finish at h
  split at h
  case h_1 name hcommand hname => exact ⟨_, name, hcommand, hname⟩
  case h_2 name hcommand hname => exact ⟨_, name, hcommand, hname⟩
  case h_3 | h_4 | h_5 => cases h

/-- Arguments that read as two words are parsed by what they read as. -/
theorem parse_of_reads {args : List String} {word name : String} {roots suffixes : List String}
    (h : Reads args [word, name] roots suffixes) :
    Options.parse args = Options.ofReading word name roots suffixes := by
  unfold Options.parse
  rw [Seen.readAll_of_reads h]
  exact finish_eq_ofReading word name roots suffixes

/-- What can be run is what reads as a command and a name. -/
theorem parse_eq_ok_iff {args : List String} {o : Options} :
    Options.parse args = .ok o
      ↔ Reads args [o.command.word, o.command.name] o.paths o.suffixes := by
  constructor
  · intro h
    obtain ⟨seen, hseen, hfinish⟩ := bind_eq_ok.1 h
    obtain ⟨words, roots, suffixes, hreads⟩ := Seen.exists_reads hseen
    obtain ⟨word, name, hword, hname⟩ := exists_words_of_finish hfinish
    rw [Seen.readAll_of_reads hreads] at hseen
    -- there are two words: with more or fewer, taking or finishing fails
    cases htake : Seen.takeAll {} words with
    | error e =>
      rw [htake] at hseen
      cases hseen
    | ok taken =>
      rw [htake] at hseen
      cases hseen
      obtain rfl := Seen.exists_words_of_takeAll htake hword hname
      rw [parse_of_reads hreads] at h
      unfold Options.ofReading at h
      split at h
      case h_1 command hcommand =>
        cases h
        obtain ⟨rfl, rfl⟩ := Command.ofWords?_eq_some.1 hcommand
        exact hreads
      case h_2 => cases h
  · intro h
    rw [parse_of_reads h]
    unfold Options.ofReading
    rw [Command.ofWords?_eq_some.2 ⟨rfl, rfl⟩]

-- ==================================================== runs

/-- How a command ends that found its document under a path, or nowhere. -/
def Command.outcome (s : System) : Command → Option String → Outcome
  | command, none => failure (.notFound command.name)
  | .source name, some path =>
    match compileDocument s.disk s.time name path with
    | .ok (_, program) => { exit := 0, stdout := program.listing }
    | .error cause => failure (.activation name cause)
  | .check name, some path =>
    match s.linkDocument name path with
    | .ok (state, _) => { exit := 0, stdout := textOfLines (moduleLines (.ofState name state)) }
    | .error cause => failure (.activation name cause)

/-- Where a run looks: under the roots of the options, those of the
environment and the working directory, for the given suffixes or else those of
the configuration. -/
def searchOf (configuration : Configuration) (environment : Option String)
    (roots suffixes : List String) : Search where
  roots := roots ++ (environment.map Search.splitRoots).getD [] ++ ["."]
  suffixes := if suffixes = [] then configuration.suffixes else suffixes

theorem loader_eq (o : Options) (configuration : Configuration) (environment : Option String) :
    o.loader configuration environment
      = { search := searchOf configuration environment o.paths o.suffixes } := by
  obtain ⟨command, paths, suffixes⟩ := o
  have hroots : Options.roots ⟨command, paths, suffixes⟩ environment
      = paths ++ (environment.map Search.splitRoots).getD [] ++ ["."] :=
    (List.append_assoc _ _ _).symm
  unfold Options.loader Loader.ofConfiguration Loader.withRoots searchOf
  rw [hroots]
  cases suffixes <;> rfl

section

variable (s : System) (search : Search) (name : String)

/-- The listing that a loader without live modules gives. -/
theorem listing_outcome :
    (match (s.addLoader { search }).2.source (s.addLoader { search }).1 name with
      | (.ok listing, _) => ({ exit := 0, stdout := listing } : Outcome)
      | (.error e, _) => failure e)
      = (Command.source name).outcome s (search.resolve? s.disk name) := by
  unfold System.source System.compiled System.find
  rw [System.loader_addLoader]
  dsimp only [System.addLoader, System.recordFound]
  cases search.resolve? s.disk name with
  | none => rfl
  | some path =>
    dsimp only [Command.outcome]
    cases compileDocument s.disk s.time name path <;> rfl

/-- A first load gives what the first document in the order of the search is
linked to. -/
theorem firstLoad_linked {result : Except ImportError ModuleRef} {s' : System}
    (h : s.firstLoad search name = (result, s')) :
    match search.resolve? s.disk name with
    | none => result = .error (.notFound name)
    | some path =>
      match s.linkDocument name path with
      | .ok (state, _) => ∃ r m, result = .ok r ∧ s'.module? r = some m ∧ m.name = name
          ∧ m.state = state
      | .error cause => result = .error (.activation name cause) := by
  rcases System.firstLoad_cases s search name with
    ⟨hmissing, s₁, hfirst⟩ | ⟨path, l, s₁, hpath, hfirst, hdisk, htime, hheap⟩
  · rw [hmissing]
    rw [h] at hfirst
    cases hfirst
    rfl
  · -- finding the file changes only what is recorded about it
    have hsame : s₁.linkDocument name path = s.linkDocument name path := by
      unfold System.linkDocument
      rw [hdisk, htime, hheap]
    rw [hpath]
    dsimp only
    rw [← hsame]
    rw [h] at hfirst
    cases hlink : s₁.linkDocument name path with
    | error cause =>
      rw [System.activateAt, hlink] at hfirst
      exact congrArg Prod.fst hfirst
    | ok linked =>
      obtain ⟨state, heap⟩ := linked
      have hnew : ∀ r, none = some r → ∃ old, s₁.module? r = some old ∧ old.name = name :=
        fun _ hr => by cases hr
      obtain ⟨r, s₂, m, hactivate, -, hm, hname, hstate⟩ :=
        System.activateAt_of_link hnew hlink l
      rw [hactivate] at hfirst
      cases hfirst
      exact ⟨r, m, rfl, hm, hname, hstate⟩

/-- The summary after a first load. -/
theorem summary_outcome :
    (match s.firstLoad search name with
      | (.ok r, s) =>
        ({ exit := 0, stdout := textOfLines (((s.module? r).map moduleLines).getD []) } : Outcome)
      | (.error e, _) => failure e)
      = (Command.check name).outcome s (search.resolve? s.disk name) := by
  cases hfirst : s.firstLoad search name with
  | mk result s' =>
    have hlinked := firstLoad_linked s search name hfirst
    cases hresolve : search.resolve? s.disk name with
    | none =>
      rw [hresolve] at hlinked
      cases hlinked
      rfl
    | some path =>
      rw [hresolve] at hlinked
      dsimp only [Command.outcome] at hlinked ⊢
      cases hlink : s.linkDocument name path with
      | error cause =>
        rw [hlink] at hlinked
        cases hlinked
        rfl
      | ok linked =>
        rw [hlink] at hlinked
        obtain ⟨r, m, rfl, hm, rfl, hstate⟩ := hlinked
        dsimp only
        rw [hm, ← hstate]
        rfl

end

/-- Run in any system, a command does what it says with the first document in
the order of its search. -/
theorem run_eq_outcome (o : Options) (s : System) :
    o.run s = o.command.outcome s
      ((searchOf s.configuration s.environment o.paths o.suffixes).resolve? s.disk
        o.command.name) := by
  unfold Options.run
  rw [loader_eq]
  dsimp only
  cases o.command with
  | source name => exact listing_outcome s _ name
  | check name => exact summary_outcome s _ name

/-- A run does what its command says with the first document in the order of
its search. -/
theorem run_of_parse {args : List String} {o : Options} (h : Options.parse args = .ok o)
    (disk : Disk) (environment : Option String) (time : String) :
    run disk environment time args = o.command.outcome { disk, environment, time }
      ((searchOf {} environment o.paths o.suffixes).resolve? disk o.command.name) := by
  unfold run
  rw [h]
  exact run_eq_outcome o { disk, environment, time }

-- ==================================================== what a run looks at

/-- The paths that a run may look at are the candidates of its search. -/
theorem probes_of_parse {args : List String} {o : Options} (h : Options.parse args = .ok o)
    (environment : Option String) :
    probes environment args
      = (searchOf {} environment o.paths o.suffixes).candidates o.command.name := by
  unfold probes
  rw [h]
  dsimp only
  rw [loader_eq]
  cases o.command <;> rfl

/-- What a command does with a document depends on what stands under its path. -/
theorem outcome_congr {disk disk' : Disk} {path : String} (h : disk' path = disk path)
    (s : System) (command : Command) :
    command.outcome { s with disk := disk' } (some path)
      = command.outcome { s with disk := disk } (some path) := by
  cases command with
  | source name =>
    dsimp only [Command.outcome]
    rw [compileDocument_congr h]
  | check name =>
    dsimp only [Command.outcome, System.linkDocument]
    rw [compileDocument_congr h]

/-- A run depends on nothing else of the disk. -/
theorem run_congr {disk disk' : Disk} {args : List String} (environment : Option String)
    (time : String) (h : ∀ path ∈ probes environment args, disk' path = disk path) :
    run disk' environment time args = run disk environment time args := by
  cases hparse : Options.parse args with
  | error stop =>
    unfold run
    rw [hparse]
  | ok o =>
    rw [probes_of_parse hparse] at h
    rw [run_of_parse hparse, run_of_parse hparse, Search.resolve?_congr h]
    cases hresolve : (searchOf {} environment o.paths o.suffixes).resolve? disk o.command.name with
    | none => cases o.command <;> rfl
    | some path =>
      have hpath := h path (Search.mem_candidates_of_resolve? hresolve)
      exact outcome_congr hpath { disk, environment, time } o.command

-- ==================================================== where options stand

/-- What arguments of two words read as settles how a run ends and what it
looks at: the document is looked for under the roots of the options, then
those of the environment, then the working directory. -/
theorem run_of_reads {args : List String} {word name : String} {roots suffixes : List String}
    (h : Reads args [word, name] roots suffixes) (disk : Disk) (environment : Option String)
    (time : String) :
    (run disk environment time args, probes environment args)
      = match Command.ofWords? word name with
        | none => ((Stop.unknownCommand word).outcome, [])
        | some command =>
          (command.outcome { disk, environment, time }
            ((searchOf {} environment roots suffixes).resolve? disk name),
            (searchOf {} environment roots suffixes).candidates name) := by
  have hparse := parse_of_reads h
  unfold Options.ofReading at hparse
  cases hcommand : Command.ofWords? word name with
  | none =>
    rw [hcommand] at hparse
    dsimp only at hparse ⊢
    unfold run probes
    rw [hparse]
  | some command =>
    rw [hcommand] at hparse
    dsimp only at hparse ⊢
    rw [run_of_parse hparse, probes_of_parse hparse, (Command.ofWords?_eq_some.1 hcommand).2]

/-- Wherever options stand among two words and each other, a run ends alike on
every disk, in every environment and at every time. It looks for the document
under the roots that the options name, then those of the environment, then the
working directory, and what stands elsewhere does not matter. -/
theorem options_anywhere {args args' : List String} {word name : String}
    {roots suffixes : List String} (h : Reads args [word, name] roots suffixes)
    (h' : Reads args' [word, name] roots suffixes) (disk : Disk) (environment : Option String)
    (time : String) :
    run disk environment time args = run disk environment time args'
      ∧ probes environment args = probes environment args'
      ∧ (∃ search : Search,
        search.roots = roots ++ (environment.map Search.splitRoots).getD [] ++ ["."]
          ∧ search.suffixes = (if suffixes = [] then [".json"] else suffixes)
          ∧ ∀ command, Command.ofWords? word name = some command →
            probes environment args = search.candidates name
              ∧ run disk environment time args
                = command.outcome { disk, environment, time } (search.resolve? disk name))
      ∧ ∀ disk' : Disk, (∀ path ∈ probes environment args, disk' path = disk path) →
        run disk' environment time args' = run disk environment time args := by
  have hrun := run_of_reads h disk environment time
  have hrun' := run_of_reads h' disk environment time
  obtain ⟨hsame, hprobes⟩ := Prod.mk.inj (hrun.trans hrun'.symm)
  refine ⟨hsame, hprobes, ⟨searchOf {} environment roots suffixes, rfl, rfl, ?_⟩, ?_⟩
  · intro command hcommand
    rw [hcommand] at hrun
    obtain ⟨houtcome, hcandidates⟩ := Prod.mk.inj hrun
    exact ⟨hcandidates, houtcome⟩
  · intro disk' hdisk
    rw [hprobes] at hdisk
    rw [hsame]
    exact run_congr environment time hdisk

/-- A document below the second root. -/
def nestedDocument : Disk := fun path =>
  if path = "b/m.jsn" then .file "\x7b\"n\": 1\x7d".toUTF8 else .fault .notFound

/-- Options before, between and behind the words, one with a root that looks
like an option. -/
theorem options_before_and_behind :
    ∃ args args' : List String,
      args = ["--path", "--help", "check", "--suffix", ".jsn", "k.m", "--path", "b"]
        ∧ args' = ["check", "k.m", "--path", "--help", "--path", "b", "--suffix", ".jsn"]
        ∧ Reads args ["check", "k.m"] ["--help", "b"] [".jsn"]
        ∧ Reads args' ["check", "k.m"] ["--help", "b"] [".jsn"]
        ∧ probes (some "e:f") args'
          = ["--help/m.jsn", "b/m.jsn", "e/m.jsn", "f/m.jsn", "./m.jsn"]
        ∧ (run nestedDocument (some "e:f") "" args').exit = 0
        ∧ run nestedDocument (some "e:f") "" args = run nestedDocument (some "e:f") "" args' := by
  have hcheck : "check".toList.head? ≠ some '-' := by decide
  have hname : "k.m".toList.head? ≠ some '-' := by decide
  have h : Reads ["--path", "--help", "check", "--suffix", ".jsn", "k.m", "--path", "b"]
      ["check", "k.m"] ["--help", "b"] [".jsn"] :=
    .path "--help" (.word hcheck (.suffix ".jsn" (.word hname (.path "b" .nil))))
  have h' : Reads ["check", "k.m", "--path", "--help", "--path", "b", "--suffix", ".jsn"]
      ["check", "k.m"] ["--help", "b"] [".jsn"] :=
    .word hcheck (.word hname (.path "--help" (.path "b" (.suffix ".jsn" .nil))))
  refine ⟨_, _, rfl, rfl, h, h', by decide +kernel, by decide +kernel, ?_⟩
  exact (options_anywhere h h' nestedDocument (some "e:f") "").1

end CommandLine

end LiveDoc
