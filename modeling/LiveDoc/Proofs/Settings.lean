/-
Setting items of a configuration.

An item is set through the document of the configuration: the document is
written, the item put into it, and what is read back is checked before it
replaces anything. Writing and reading fit: a configuration is read back from
its document (`ofDocument_toDocument`), and a document lists texts exactly if it
is the list that those texts are written as (`readTexts_eq_ok`). So an item is
set exactly when it is the list of suffixes, the configuration then holds the
texts of that list and no others (`set_eq_ok`), and reading the item gives the
list back.

Whatever is asked of a configuration, what it holds can stand as suffixes
afterwards (`areSuffixes_perform`), and so it can after any run. The
process-wide configuration is one of these, and its requests change nothing
else of the system (`performAllIn_eq`).
-/
import LiveDoc.Loader.System
import LiveDoc.Proofs.Traversal

namespace LiveDoc.Configuration

open Traversal

variable {c updated : Configuration} {key : String} {value : Json}

-- ==================================================== suffixes

/-- The texts can stand as suffixes: there are some, and none is empty or has
a slash. -/
def AreSuffixes (texts : List String) : Prop :=
  texts ≠ [] ∧ ∀ s ∈ texts, s ≠ "" ∧ '/' ∉ s.toList

/-- A suffix is a text that does not lead into a directory. -/
theorem isSuffix_iff {s : String} : isSuffix s = true ↔ s ≠ "" ∧ '/' ∉ s.toList := by
  simp [isSuffix]

theorem checkSuffixes_eq_ok {texts : List String} :
    checkSuffixes texts = .ok () ↔ AreSuffixes texts := by
  unfold checkSuffixes
  by_cases hempty : texts = []
  · subst hempty
    exact iff_of_false (fun h => (by cases h)) fun hall => hall.1 rfl
  · rw [if_neg (mt List.isEmpty_iff.1 hempty)]
    cases hfind : texts.find? fun s => !isSuffix s with
    | none =>
      have hall := List.find?_eq_none.1 hfind
      refine iff_of_true rfl ⟨hempty, fun s hs => isSuffix_iff.1 ?_⟩
      simpa using hall s hs
    | some bad =>
      refine iff_of_false (fun h => (by cases h)) fun hall => ?_
      have hbad := isSuffix_iff.2 (hall.2 bad (List.mem_of_find?_eq_some hfind))
      simpa [hbad] using List.find?_some hfind

-- ==================================================== documents

theorem readText_eq_ok {j : Json} {s : String} : readText j = .ok s ↔ j = .str s := by
  unfold readText
  cases j <;> simp

/-- A document lists texts exactly if it is the list they are written as. -/
theorem readTexts_eq_ok {texts : List String} :
    readTexts value = .ok texts ↔ value = .array (texts.map Json.str) := by
  constructor
  · intro h
    unfold readTexts at h
    split at h
    case h_1 items =>
      have hitems := map_eq_of_mapM h (g := id) (k := Json.str) fun j s hs =>
        (readText_eq_ok.1 hs).symm
      rw [hitems, List.map_id]
    case h_2 => cases h
  · rintro rfl
    show (texts.map Json.str).mapM readText = .ok texts
    rw [mapM_eq_ok, List.forall₂_map_left_iff]
    exact List.forall₂_same.2 fun s _ => readText_eq_ok.2 rfl

/-- A configuration is read back from the document that it is written as. -/
theorem ofDocument_toDocument (c : Configuration) : ofDocument c.toDocument = .ok c := by
  have hread : readTexts (.array (c.suffixes.map Json.str)) = .ok c.suffixes :=
    readTexts_eq_ok.2 rfl
  show (readTexts (.array (c.suffixes.map Json.str)) >>= _) = _
  rw [hread]
  rfl

/-- With another list of suffixes put into the document, that list is read. -/
theorem ofDocument_put :
    ofDocument (c.toDocument.put suffixesKey value) = .ok updated
      ↔ value = .array (updated.suffixes.map Json.str) := by
  have hfind : (c.toDocument.put suffixesKey value).find? suffixesKey = some value := by
    rw [Entries.find?_put, if_pos rfl]
  unfold ofDocument
  rw [hfind, ← readTexts_eq_ok]
  constructor
  · intro h
    obtain ⟨texts, htexts, h⟩ := bind_eq_ok.1 h
    cases h
    exact htexts
  · intro h
    exact bind_eq_ok.2 ⟨updated.suffixes, h, rfl⟩

-- ==================================================== items

/-- There is one setting. -/
theorem checkKey_eq_ok : checkKey key = .ok () ↔ key = suffixesKey := by
  unfold checkKey
  by_cases hkey : key = suffixesKey
  · subst hkey
    exact iff_of_true rfl rfl
  · rw [if_neg hkey]
    refine iff_of_false (fun h => ?_) hkey
    split at h <;> cases h

/-- An item is set exactly if it is the list of suffixes and its value lists
some; the configuration then holds these. -/
theorem set_eq_ok :
    c.set key value = .ok updated
      ↔ key = suffixesKey ∧ value = .array (updated.suffixes.map Json.str)
        ∧ AreSuffixes updated.suffixes := by
  unfold set
  constructor
  · intro h
    obtain ⟨⟨⟩, hkey, h⟩ := bind_eq_ok.1 h
    obtain ⟨updated', hread, h⟩ := bind_eq_ok.1 h
    obtain ⟨⟨⟩, hcheck, h⟩ := bind_eq_ok.1 h
    cases h
    have hkey := checkKey_eq_ok.1 hkey
    subst hkey
    exact ⟨rfl, ofDocument_put.1 (mapError_eq_ok.1 hread),
      checkSuffixes_eq_ok.1 (mapError_eq_ok.1 hcheck)⟩
  · rintro ⟨rfl, hvalue, hsuffixes⟩
    refine bind_eq_ok.2 ⟨(), checkKey_eq_ok.2 rfl, bind_eq_ok.2 ⟨updated, ?_,
      bind_eq_ok.2 ⟨(), ?_, rfl⟩⟩⟩
    · exact mapError_eq_ok.2 (ofDocument_put.2 hvalue)
    · exact mapError_eq_ok.2 (checkSuffixes_eq_ok.2 hsuffixes)

/-- Configured suffixes are there, and none is empty or has a slash. -/
theorem suffixes_of_set {accepted : Configuration} (hset : c.set key value = .ok accepted) :
    accepted.suffixes ≠ [] ∧ ∀ s ∈ accepted.suffixes, s ≠ "" ∧ '/' ∉ s.toList :=
  (set_eq_ok.1 hset).2.2

theorem get_suffixesKey (c : Configuration) :
    c.get suffixesKey = .ok (.array (c.suffixes.map Json.str)) := rfl

-- ==================================================== in place

/-- Assigning puts in place what setting gives, or nothing. -/
theorem assign_outcome (c : Configuration) (key : String) (value : Json) :
    (c.assign key value).1 = .ok () ∧ c.set key value = .ok (c.assign key value).2
      ∨ ∃ e, c.assign key value = (.error e, c) ∧ c.set key value = .error e := by
  unfold assign
  cases c.set key value with
  | ok updated => exact .inl ⟨rfl, rfl⟩
  | error e => exact .inr ⟨e, rfl, rfl⟩

/-- A list of suffixes is taken, under its key. -/
theorem assign_eq_ok_iff :
    (c.assign key value).1 = .ok ()
      ↔ key = suffixesKey ∧ ∃ texts, value = .array (texts.map Json.str) ∧ AreSuffixes texts := by
  rcases assign_outcome c key value with ⟨hok, hset⟩ | ⟨e, hassign, hset⟩
  · obtain ⟨hkey, hvalue, hsuffixes⟩ := set_eq_ok.1 hset
    exact iff_of_true hok ⟨hkey, _, hvalue, hsuffixes⟩
  · rw [hassign]
    refine iff_of_false (fun h => (by cases h)) ?_
    rintro ⟨hkey, texts, hvalue, hsuffixes⟩
    have htaken : c.set key value = .ok ⟨texts⟩ := set_eq_ok.2 ⟨hkey, hvalue, hsuffixes⟩
    rw [htaken] at hset
    cases hset

/-- What was set is read. -/
theorem get_assign (h : (c.assign key value).1 = .ok ()) :
    (c.assign key value).2.get key = .ok value := by
  rcases assign_outcome c key value with ⟨-, hset⟩ | ⟨e, hassign, -⟩
  · obtain ⟨hkey, hvalue, -⟩ := set_eq_ok.1 hset
    rw [hkey, get_suffixesKey, ← hkey, ← hvalue]
  · rw [hassign] at h
    cases h

/-- What is refused changes nothing. -/
theorem assign_of_error {e : ConfigError} (h : (c.assign key value).1 = .error e) :
    (c.assign key value).2 = c := by
  rcases assign_outcome c key value with ⟨hok, -⟩ | ⟨e', hassign, -⟩
  · rw [hok] at h
    cases h
  · rw [hassign]

-- ==================================================== runs of requests

/-- What can be asked of a configuration. -/
inductive Request
  | assign (key : String) (value : Json)
  | reset

/-- The configuration after a request. -/
def perform (c : Configuration) : Request → Configuration
  | .assign key value => (c.assign key value).2
  | .reset => {}

/-- The configuration after requests, one after the other. -/
def performAll (c : Configuration) (requests : List Request) : Configuration :=
  requests.foldl perform c

/-- The system after a request to its process-wide configuration. -/
def performIn (s : System) : Request → System
  | .assign key value => (s.configure key value).2
  | .reset => s.resetConfiguration

/-- The system after requests, one after the other. -/
def performAllIn (s : System) (requests : List Request) : System :=
  requests.foldl performIn s

theorem areSuffixes_default : AreSuffixes ({} : Configuration).suffixes := by
  simp [AreSuffixes]

/-- A request leaves suffixes that can stand. -/
theorem areSuffixes_perform (hc : AreSuffixes c.suffixes) (r : Request) :
    AreSuffixes (c.perform r).suffixes := by
  cases r with
  | assign key value =>
    show AreSuffixes (c.assign key value).2.suffixes
    rcases assign_outcome c key value with ⟨-, hset⟩ | ⟨e, hassign, -⟩
    · exact (set_eq_ok.1 hset).2.2
    · rw [hassign]
      exact hc
  | reset => exact areSuffixes_default

/-- And so does a run of requests. -/
theorem areSuffixes_performAll (hc : AreSuffixes c.suffixes) (requests : List Request) :
    AreSuffixes (c.performAll requests).suffixes := by
  induction requests generalizing c with
  | nil => exact hc
  | cons r requests ih => exact ih (areSuffixes_perform hc r)

theorem performIn_eq (s : System) (r : Request) :
    performIn s r = { s with configuration := s.configuration.perform r } := by
  cases r <;> rfl

/-- A run of requests to a system is one to its configuration. -/
theorem performAllIn_eq (s : System) (requests : List Request) :
    performAllIn s requests
      = { s with configuration := s.configuration.performAll requests } := by
  induction requests generalizing s with
  | nil => rfl
  | cons r requests ih =>
    show performAllIn (performIn s r) requests = _
    rw [ih, performIn_eq]
    rfl

/-- After any requests to a configuration that starts with the defaults there
are suffixes, and none is empty or has a slash. An item can then be set exactly
if its key is that of the suffixes and its value a list of such texts; what is
set is read under its key, and what is refused leaves the configuration as it
was. All this holds of the process-wide configuration too, whose requests
leave the rest of the system alone. -/
theorem settings_after_requests (s : System) (requests : List Request) (key : String)
    (value : Json) :
    let c := performAll {} requests
    AreSuffixes c.suffixes
      ∧ ((c.assign key value).1 = .ok ()
        ↔ key = "JSONSuffixes" ∧ ∃ texts : List String, value = .array (texts.map Json.str)
          ∧ texts ≠ [] ∧ ∀ text ∈ texts, text ≠ "" ∧ '/' ∉ text.toList)
      ∧ ((c.assign key value).1 = .ok () → (c.assign key value).2.get key = .ok value)
      ∧ (∀ e, (c.assign key value).1 = .error e → (c.assign key value).2 = c)
      ∧ performAllIn { s with configuration := {} } requests = { s with configuration := c }
      ∧ ({ s with configuration := c } : System).configured key = c.get key
      ∧ ({ s with configuration := c } : System).configure key value
        = ((c.assign key value).1, { s with configuration := (c.assign key value).2 }) := by
  intro c
  have hsystem := performAllIn_eq { s with configuration := {} } requests
  exact ⟨areSuffixes_performAll areSuffixes_default requests, assign_eq_ok_iff, get_assign,
    fun e => assign_of_error, hsystem, rfl, rfl⟩

/-- A list is set and read, and a path in its place is refused. -/
theorem settings_after_two_requests :
    ∃ c, performAll {} [.reset, .assign "JSONSuffixes" (.array [.str ".json", .str ".jsn"])] = c
      ∧ c = ⟨[".json", ".jsn"]⟩
      ∧ (c.assign "JSONSuffixes" (.array [.str ".doc"])).2.get "JSONSuffixes"
        = .ok (.array [.str ".doc"])
      ∧ (c.assign "JSONSuffixes" (.array [.str "a/b"])).2 = c := by
  have htaken := settings_after_requests {}
    [.reset, .assign "JSONSuffixes" (.array [.str ".json", .str ".jsn"])] "JSONSuffixes"
    (.array [.str ".doc"])
  have hrefused := settings_after_requests {}
    [.reset, .assign "JSONSuffixes" (.array [.str ".json", .str ".jsn"])] "JSONSuffixes"
    (.array [.str "a/b"])
  exact ⟨_, rfl, rfl, htaken.2.2.1 rfl, hrefused.2.2.2.1 _ rfl⟩

end LiveDoc.Configuration
