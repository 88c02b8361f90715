/-
Suffixes that come from options.

There are two ways to a loader with suffixes of one's own. A configuration can
be set, which refuses what cannot be a suffix; and the options of a command
can name suffixes, which are put into the loader as they stand. Where a
configuration takes the suffixes both ways lead to one loader
(`loader_of_set`). But nothing is refused on the other way: the texts behind
`--suffix` have no say in whether a command is run, so what its loader tries
are suffixes exactly if a configuration would have taken each of the texts
(`given_suffixes_hold_iff`).
-/
import LiveDoc.Proofs.Arguments
import LiveDoc.Proofs.Settings

namespace LiveDoc.CommandLine

open LiveDoc.Configuration (AreSuffixes suffixesKey checkSuffixes_eq_ok set_eq_ok)

variable {c : Configuration} {o : Options}

-- ==================================================== what a configuration takes

/-- A configuration takes texts if they can stand as suffixes, and then holds
them. -/
theorem set_texts_eq_ok {texts : List String} {updated : Configuration} :
    c.set suffixesKey (.array (texts.map Json.str)) = .ok updated
      ↔ updated.suffixes = texts ∧ AreSuffixes texts := by
  have hstr : Function.Injective Json.str := fun _ _ h => Json.str.inj h
  rw [set_eq_ok]
  constructor
  · rintro ⟨-, hvalue, hsuffixes⟩
    obtain rfl := List.map_injective_iff.2 hstr (Json.array.inj hvalue)
    exact ⟨rfl, hsuffixes⟩
  · rintro ⟨rfl, hsuffixes⟩
    exact ⟨rfl, rfl, hsuffixes⟩

theorem exists_set_iff {texts : List String} :
    (∃ updated, c.set suffixesKey (.array (texts.map Json.str)) = .ok updated)
      ↔ AreSuffixes texts := by
  constructor
  · rintro ⟨updated, hset⟩
    exact (set_texts_eq_ok.1 hset).2
  · intro htexts
    exact ⟨⟨texts⟩, set_texts_eq_ok.2 ⟨rfl, htexts⟩⟩

/-- A text by itself is taken if it is not empty and has no slash. -/
theorem exists_set_single_iff {text : String} :
    (∃ updated, c.set suffixesKey (.array [.str text]) = .ok updated)
      ↔ text ≠ "" ∧ '/' ∉ text.toList := by
  have hsingle : [text].map Json.str = [.str text] := rfl
  rw [← hsingle, exists_set_iff]
  simp [AreSuffixes]

-- ==================================================== what a loader tries

/-- A loader tries suffixes if all texts behind the options are. -/
theorem areSuffixes_loader_iff (hc : AreSuffixes c.suffixes) (environment : Option String) :
    AreSuffixes (o.loader c environment).search.suffixes
      ↔ ∀ s ∈ o.suffixes, s ≠ "" ∧ '/' ∉ s.toList := by
  rw [loader_eq]
  by_cases hnone : o.suffixes = []
  · have hsuffixes : (searchOf c environment o.paths o.suffixes).suffixes = c.suffixes :=
      if_pos hnone
    rw [hsuffixes, hnone]
    exact iff_of_true hc fun s hs => by cases hs
  · have hsuffixes : (searchOf c environment o.paths o.suffixes).suffixes = o.suffixes :=
      if_neg hnone
    rw [hsuffixes]
    exact and_iff_right hnone

/-- Where a configuration takes the suffixes of the options, the loader is the
one that it gives without them. -/
theorem loader_of_set {updated : Configuration}
    (hset : c.set suffixesKey (.array (o.suffixes.map Json.str)) = .ok updated)
    (environment : Option String) :
    o.loader c environment = Options.loader { o with suffixes := [] } updated environment := by
  obtain ⟨hupdated, hsome, -⟩ := set_texts_eq_ok.1 hset
  rw [loader_eq, loader_eq]
  unfold searchOf
  rw [if_neg hsome, if_pos rfl, hupdated]

-- ==================================================== agreement

/-- The loader of a command that is run tries suffixes exactly if each text
behind `--suffix` is one that a configuration would take, and where it would
take them all, they lead to the loader that the configuration then gives. None
is refused: whatever texts stand behind `--suffix`, the command is run. -/
theorem given_suffixes_hold_iff {args : List String} (h : Options.parse args = .ok o)
    (hc : Configuration.checkSuffixes c.suffixes = .ok ()) (environment : Option String) :
    Reads args [o.command.word, o.command.name] o.paths o.suffixes
      ∧ (Configuration.checkSuffixes (o.loader c environment).search.suffixes = .ok ()
        ↔ ∀ s ∈ o.suffixes, ∃ updated, c.set "JSONSuffixes" (.array [.str s]) = .ok updated)
      ∧ (∀ updated, c.set "JSONSuffixes" (.array (o.suffixes.map Json.str)) = .ok updated →
        o.loader c environment = Options.loader { o with suffixes := [] } updated environment)
      ∧ ∀ args' suffixes, Reads args' [o.command.word, o.command.name] o.paths suffixes →
        Options.parse args' = .ok { o with suffixes } := by
  refine ⟨parse_eq_ok_iff.1 h, ?_, ?_, ?_⟩
  · rw [checkSuffixes_eq_ok, areSuffixes_loader_iff (checkSuffixes_eq_ok.1 hc)]
    exact forall₂_congr fun s _ => exists_set_single_iff.symm
  · intro updated hset
    exact loader_of_set hset environment
  · intro args' suffixes hreads
    exact parse_eq_ok_iff.2 hreads

/-- A document below a directory. -/
def directoryDocument : Disk := fun path =>
  if path = "./m/x.json" then .file "\x7b\"__doc__\": \"d\"\x7d".toUTF8
  else .fault .notFound

/-- Another suffix holds, and the empty text in its place is not refused. -/
theorem another_suffix_holds :
    Options.parse ["check", "m", "--suffix", ".jsn"] = .ok ⟨.check "m", [], [".jsn"]⟩
      ∧ Configuration.checkSuffixes
        ((Options.mk (.check "m") [] [".jsn"]).loader {} none).search.suffixes = .ok ()
      ∧ (Options.mk (.check "m") [] [".jsn"]).loader {} none
        = (Options.mk (.check "m") [] []).loader ⟨[".jsn"]⟩ none
      ∧ Options.parse ["check", "m", "--suffix", ""] = .ok ⟨.check "m", [], [""]⟩ := by
  have hparse : Options.parse ["check", "m", "--suffix", ".jsn"]
      = .ok ⟨.check "m", [], [".jsn"]⟩ := by decide
  obtain ⟨-, hholds, hagree, hrun⟩ := given_suffixes_hold_iff hparse (c := {}) rfl none
  have hempty : Reads ["check", "m", "--suffix", ""] ["check", "m"] [] [""] :=
    .word (by decide) (.word (by decide) (.suffix "" .nil))
  refine ⟨hparse, hholds.2 ?_, hagree _ rfl, hrun _ _ hempty⟩
  intro s hs
  obtain rfl := List.mem_singleton.1 hs
  exact ⟨_, rfl⟩

/-- A text with a slash, which no configuration takes, is tried, and leads into
a directory. -/
theorem slash_suffix_tried :
    Options.parse ["check", "m", "--suffix", "/x.json"] = .ok ⟨.check "m", [], ["/x.json"]⟩
      ∧ ((Options.mk (.check "m") [] ["/x.json"]).loader {} none).search.suffixes = ["/x.json"]
      ∧ Configuration.checkSuffixes ["/x.json"] = .error (.notSuffix "/x.json")
      ∧ Configuration.set {} "JSONSuffixes" (.array [.str "/x.json"])
        = .error (.invalidValue "JSONSuffixes" (.notSuffix "/x.json"))
      ∧ (run directoryDocument none "" ["check", "m", "--suffix", "/x.json"]).exit = 0 := by
  exact ⟨by decide, rfl, rfl, rfl, by decide +kernel⟩

end LiveDoc.CommandLine
