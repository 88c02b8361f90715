/-
Where probing looks.

A path is split after its last slash into a directory and what stands in it,
and it is a child of a root exactly if the directory is the root, closed with
a slash (`isChild_append_iff`). What is probed for a name is its last dotted
part with a suffix behind it. A suffix that is configured is not empty and has
no slash (`Configuration.suffixes_of_set`), so the directory of a candidate is
decided by the root and the name. A name is not checked. Without a slash it
stays directly below the root, and with one it leads into a directory below
it, or to wherever it says if the slash comes first.
-/
import Mathlib.Data.Finset.Max
import LiveDoc.Loader.Search
import LiveDoc.Proofs.Settings

namespace LiveDoc

-- ==================================================== paths

/-- Nothing, or something closed with a slash. -/
def IsDirectory (cs : List Char) : Prop := cs = [] ∨ cs.getLast? = some '/'

theorem IsDirectory.append {cs ds : List Char} (hcs : IsDirectory cs) (hds : IsDirectory ds) :
    IsDirectory (cs ++ ds) := by
  rcases hds with rfl | hds
  · rw [List.append_nil]
    exact hcs
  · exact .inr (by rw [List.getLast?_append, hds, Option.some_or])

/-- What closes a directory, if anything does, has a slash. -/
theorem IsDirectory.slash_mem {cs xs : List Char} (hdir : IsDirectory (cs ++ xs)) (hxs : xs ≠ []) :
    '/' ∈ xs := by
  rcases hdir with hnil | hlast
  · exact absurd (List.append_eq_nil_iff.1 hnil).2 hxs
  · rw [List.getLast?_append_of_ne_nil _ hxs] at hlast
    exact List.mem_of_getLast? hlast

/-- A path is split after its last slash in one way only. -/
theorem IsDirectory.split_unique {cs ds xs ys : List Char} (hcs : IsDirectory cs)
    (hds : IsDirectory ds) (hxs : '/' ∉ xs) (hys : '/' ∉ ys) (heq : cs ++ xs = ds ++ ys) :
    cs = ds ∧ xs = ys := by
  rcases List.append_eq_append_iff.1 heq with ⟨zs, rfl, rfl⟩ | ⟨zs, rfl, rfl⟩
  · obtain rfl : zs = [] := by
      by_contra hne
      exact hxs (List.mem_append_left _ (hds.slash_mem hne))
    exact ⟨(List.append_nil cs).symm, rfl⟩
  · obtain rfl : zs = [] := by
      by_contra hne
      exact hys (List.mem_append_left _ (hcs.slash_mem hne))
    exact ⟨List.append_nil ds, rfl⟩

/-- Every path can be split after its last slash. -/
theorem IsDirectory.exists_split (cs : List Char) :
    ∃ ds xs, cs = ds ++ xs ∧ IsDirectory ds ∧ '/' ∉ xs := by
  induction cs with
  | nil => exact ⟨[], [], rfl, .inl rfl, List.not_mem_nil⟩
  | cons c cs ih =>
    obtain ⟨ds, xs, rfl, hds, hxs⟩ := ih
    rcases hds with rfl | hlast
    · by_cases hc : c = '/'
      · exact ⟨[c], xs, rfl, .inr (congrArg some hc), hxs⟩
      · exact ⟨[], c :: xs, rfl, .inl rfl, List.not_mem_cons_of_ne_of_not_mem (Ne.symm hc) hxs⟩
    · refine ⟨c :: ds, xs, rfl, .inr ?_, hxs⟩
      rw [List.getLast?_cons, hlast]
      rfl

theorem exists_directory (path : String) :
    ∃ dir last : String, path = dir ++ last ∧ IsDirectory dir.toList ∧ '/' ∉ last.toList := by
  obtain ⟨ds, xs, hsplit, hds, hxs⟩ := IsDirectory.exists_split path.toList
  refine ⟨String.ofList ds, String.ofList xs, ?_, ?_, ?_⟩
  · rw [← String.ofList_append, ← hsplit, String.ofList_toList]
  · rw [String.toList_ofList]
    exact hds
  · rw [String.toList_ofList]
    exact hxs

/-- What does not begin with a slash is put behind the root, closed with
one. -/
theorem joinPath_of_relative {root name : String} (hname : name.toList.head? ≠ some '/') :
    joinPath root name = joinPath root "" ++ name := by
  have hempty : ("" : String).toList.head? ≠ some '/' := by simp
  unfold joinPath
  by_cases hroot : root = ""
  · rw [if_pos (.inr hroot), if_pos (.inr hroot)]
    exact String.empty_append.symm
  · rw [if_neg (not_or.2 ⟨hname, hroot⟩), if_neg (not_or.2 ⟨hempty, hroot⟩)]
    split
    · rw [String.append_empty]
    · rw [String.append_empty]

theorem joinPath_of_absolute {root name : String} (hname : name.toList.head? = some '/') :
    joinPath root name = name :=
  if_pos (.inl hname)

theorem isDirectory_joinPath (root : String) : IsDirectory (joinPath root "").toList := by
  unfold joinPath
  split
  · exact .inl rfl
  · split
    case isTrue hslash =>
      rw [String.append_empty]
      exact .inr hslash
    case isFalse =>
      refine .inr ?_
      rw [String.append_empty, String.toList_append]
      exact List.getLast?_concat

/-- The path is the root joined with a single name. -/
def IsChild (root path : String) : Prop :=
  ∃ name, name ≠ "" ∧ '/' ∉ name.toList ∧ path = joinPath root name

theorem head?_ne_slash {name : String} (hname : '/' ∉ name.toList) :
    name.toList.head? ≠ some '/' :=
  fun h => hname (List.mem_of_head? h)

/-- What stands in a directory is a child of a root exactly if the directory
is the root. -/
theorem isChild_append_iff {root dir name : String} (hdir : IsDirectory dir.toList)
    (hname : '/' ∉ name.toList) (hne : name ≠ "") :
    IsChild root (dir ++ name) ↔ dir = joinPath root "" := by
  constructor
  · rintro ⟨name', -, hname', heq⟩
    rw [joinPath_of_relative (head?_ne_slash hname'), ← String.toList_inj, String.toList_append,
      String.toList_append] at heq
    exact String.toList_inj.1 (hdir.split_unique (isDirectory_joinPath root) hname hname' heq).1
  · rintro rfl
    exact ⟨name, hne, hname, (joinPath_of_relative (head?_ne_slash hname)).symm⟩

-- ==================================================== candidates

namespace Search

variable {s : Search} {name path : String}

theorem mem_candidates : path ∈ s.candidates name
    ↔ ∃ root ∈ s.roots, ∃ suffix ∈ s.suffixes, path = joinPath root (stem name ++ suffix) := by
  unfold candidates
  simp only [List.mem_flatMap, List.mem_map, eq_comm]

/-- Behind a configured suffix the last part of a path is a name. -/
theorem name_append {name suffix : String} (hname : '/' ∉ name.toList)
    (hsuffix : suffix ≠ "" ∧ '/' ∉ suffix.toList) :
    name ++ suffix ≠ "" ∧ '/' ∉ (name ++ suffix).toList := by
  rw [String.toList_append]
  refine ⟨fun h => hsuffix.1 (String.append_eq_empty_iff.1 h).2, fun h => ?_⟩
  rcases List.mem_append.1 h with h | h
  · exact hname h
  · exact hsuffix.2 h

section Stem

variable {roots suffixes : List String} {dir last : String}
  (hstem : stem name = dir ++ last) (hdir : IsDirectory dir.toList) (hlast : '/' ∉ last.toList)
  (hne : suffixes ≠ []) (hsuffixes : ∀ s ∈ suffixes, s ≠ "" ∧ '/' ∉ s.toList)

include hstem hdir hlast hne hsuffixes

/-- If the last part of a name begins with a slash, every candidate is a child
of a root exactly if the directory that it names is one of them. -/
theorem children_of_absolute (habsolute : (stem name).toList.head? = some '/') :
    (∀ path ∈ (Search.mk roots suffixes).candidates name, ∃ root ∈ roots, IsChild root path)
      ↔ roots = [] ∨ ∃ root ∈ roots, dir = joinPath root "" := by
  have hchild : ∀ root root' suffix, suffix ∈ suffixes →
      (IsChild root' (joinPath root (stem name ++ suffix)) ↔ dir = joinPath root' "") := by
    intro root root' suffix hs
    obtain ⟨hname, hslash⟩ := name_append hlast (hsuffixes suffix hs)
    have hfirst : (stem name ++ suffix).toList.head? = some '/' := by
      rw [String.toList_append, List.head?_append, habsolute]
      rfl
    rw [joinPath_of_absolute hfirst, hstem, String.append_assoc]
    exact isChild_append_iff hdir hslash hname
  constructor
  · intro hall
    cases roots with
    | nil => exact .inl rfl
    | cons root roots =>
      obtain ⟨suffix, hs⟩ := List.exists_mem_of_ne_nil _ hne
      obtain ⟨root', hroot', hpath⟩ :=
        hall _ (mem_candidates.2 ⟨root, List.mem_cons_self, suffix, hs, rfl⟩)
      exact .inr ⟨root', hroot', (hchild root root' suffix hs).1 hpath⟩
  · rintro (rfl | ⟨root', hroot', hsame⟩) path hpath
    · obtain ⟨root, hroot, -⟩ := mem_candidates.1 hpath
      cases hroot
    · obtain ⟨root, -, suffix, hs, rfl⟩ := mem_candidates.1 hpath
      exact ⟨root', hroot', (hchild root root' suffix hs).2 hsame⟩

/-- If it does not, exactly if it has no slash at all: what lies deeper below
the longest root is no child of any. -/
theorem children_of_relative (hrelative : (stem name).toList.head? ≠ some '/') :
    (∀ path ∈ (Search.mk roots suffixes).candidates name, ∃ root ∈ roots, IsChild root path)
      ↔ roots = [] ∨ dir = "" := by
  have hchild : ∀ root root' suffix, suffix ∈ suffixes →
      (IsChild root' (joinPath root (stem name ++ suffix))
        ↔ joinPath root "" ++ dir = joinPath root' "") := by
    intro root root' suffix hs
    obtain ⟨hname, hslash⟩ := name_append hlast (hsuffixes suffix hs)
    have hfirst : (stem name ++ suffix).toList.head? ≠ some '/' := by
      rw [String.toList_append, List.head?_append]
      cases hhead : (stem name).toList.head? with
      | none => exact head?_ne_slash (hsuffixes suffix hs).2
      | some c =>
        rw [hhead] at hrelative
        exact hrelative
    have hbelow : IsDirectory (joinPath root "" ++ dir).toList := by
      rw [String.toList_append]
      exact (isDirectory_joinPath root).append hdir
    rw [joinPath_of_relative hfirst, hstem, String.append_assoc, ← String.append_assoc]
    exact isChild_append_iff hbelow hslash hname
  constructor
  · intro hall
    refine or_iff_not_imp_left.2 fun hroots => ?_
    -- What lies deeper below one root may be a child of a longer one, so the
    -- candidates of the longest root decide.
    obtain ⟨root, hroot, hlongest⟩ := roots.toFinset.exists_max_image
      (fun root => (joinPath root "").length) ((List.toFinset_nonempty_iff roots).2 hroots)
    obtain ⟨suffix, hs⟩ := List.exists_mem_of_ne_nil _ hne
    obtain ⟨root', hroot', hpath⟩ :=
      hall _ (mem_candidates.2 ⟨root, List.mem_toFinset.1 hroot, suffix, hs, rfl⟩)
    have hlength := congrArg String.length ((hchild root root' suffix hs).1 hpath)
    have hle := hlongest root' (List.mem_toFinset.2 hroot')
    rw [String.length_append] at hlength
    exact String.length_eq_zero_iff.1 (by omega)
  · rintro (rfl | rfl) path hpath
    · obtain ⟨root, hroot, -⟩ := mem_candidates.1 hpath
      cases hroot
    · obtain ⟨root, hroot, suffix, hs, rfl⟩ := mem_candidates.1 hpath
      exact ⟨root, hroot, (hchild root root suffix hs).2 String.append_empty⟩

end Stem

/-- With the suffixes of any configuration, every path that is probed for a
name is a root joined with a single name exactly if there are no roots, or the
last part of the name has no slash, or it begins with a slash and names
something in one of the roots itself. -/
theorem candidates_below_roots_iff {c accepted : Configuration} {key : String} {value : Json}
    (hset : c.set key value = .ok accepted) (roots : List String) (name : String) :
    (∀ path ∈ (Search.mk roots accepted.suffixes).candidates name,
        ∃ root ∈ roots, IsChild root path)
      ↔ roots = [] ∨ '/' ∉ (stem name).toList
        ∨ (stem name).toList.head? = some '/'
          ∧ ∃ root ∈ roots, ∃ last, '/' ∉ last.toList ∧ stem name = joinPath root last := by
  obtain ⟨hne, hsuffixes⟩ := Configuration.suffixes_of_set hset
  obtain ⟨dir, last, hstem, hdir, hlast⟩ := exists_directory (stem name)
  have hjoin : ∀ {root last : String}, '/' ∉ last.toList →
      joinPath root last = joinPath root "" ++ last :=
    fun hlast => joinPath_of_relative (head?_ne_slash hlast)
  -- an absolute stem replaces every root; a relative one is put behind each of them
  by_cases hfirst : (stem name).toList.head? = some '/'
  · rw [children_of_absolute hstem hdir hlast hne hsuffixes hfirst]
    refine or_congr_right ?_
    constructor
    · rintro ⟨root, hroot, hsame⟩
      refine .inr ⟨hfirst, root, hroot, last, hlast, ?_⟩
      rw [hstem, hsame, hjoin hlast]
    · rintro (hnone | ⟨-, root, hroot, last', hlast', heq⟩)
      · exact absurd (List.mem_of_head? hfirst) hnone
      · rw [hstem, hjoin hlast', ← String.toList_inj, String.toList_append,
          String.toList_append] at heq
        obtain ⟨hsame, -⟩ := hdir.split_unique (isDirectory_joinPath root) hlast hlast' heq
        exact ⟨root, hroot, String.toList_inj.1 hsame⟩
  · rw [children_of_relative hstem hdir hlast hne hsuffixes hfirst]
    refine or_congr_right ?_
    constructor
    · rintro rfl
      rw [hstem, String.empty_append]
      exact .inl hlast
    · rintro (hnone | ⟨hslash, -⟩)
      · by_contra hdirectory
        have hmem : '/' ∈ dir.toList :=
          @IsDirectory.slash_mem [] _ hdir fun hnil =>
            hdirectory (String.toList_eq_nil_iff.1 hnil)
        rw [hstem, String.toList_append] at hnone
        exact hnone (List.mem_append_left _ hmem)
      · exact absurd hslash hfirst

/-- A dotted name stays below its roots, and a path to one of them does. -/
theorem people_below_roots :
    ({} : Configuration).set "JSONSuffixes" (.array [.str ".json", .str ".jsn"])
        = .ok ⟨[".json", ".jsn"]⟩
      ∧ (∀ path ∈ (Search.mk ["/a", "b"] [".json", ".jsn"]).candidates "pkg.people",
        ∃ root ∈ ["/a", "b"], IsChild root path)
      ∧ ∀ path ∈ (Search.mk ["/a", "b"] [".json", ".jsn"]).candidates "/a/people",
        ∃ root ∈ ["/a", "b"], IsChild root path := by
  have hset : ({} : Configuration).set "JSONSuffixes" (.array [.str ".json", .str ".jsn"])
      = .ok ⟨[".json", ".jsn"]⟩ := rfl
  refine ⟨hset, (candidates_below_roots_iff hset _ _).2 (.inr (.inl (by decide))),
    (candidates_below_roots_iff hset _ _).2 (.inr (.inr ⟨by decide, "/a", ?_, "people", ?_⟩))⟩
  · exact List.mem_cons_self
  · decide

/-- A name with a slash leads out of the root, or below a directory in it. -/
theorem slash_leaves_roots :
    ({} : Configuration).set "JSONSuffixes" (.array [.str ".json"]) = .ok ⟨[".json"]⟩
      ∧ (Search.mk ["r"] [".json"]).candidates "/m" = ["/m.json"] ∧ ¬ IsChild "r" "/m.json"
      ∧ (Search.mk ["."] [".json"]).candidates "sub/m" = ["./sub/m.json"]
      ∧ ¬ IsChild "." "./sub/m.json" := by
  have hfile : '/' ∉ ("m.json" : String).toList := by decide
  have hroot : IsDirectory ("/" : String).toList := .inr rfl
  have hsub : IsDirectory ("./sub/" : String).toList := .inr rfl
  refine ⟨rfl, by decide, fun hchild => ?_, by decide, fun hchild => ?_⟩
  · exact absurd ((isChild_append_iff hroot hfile (by decide)).1 hchild) (by decide)
  · exact absurd ((isChild_append_iff hsub hfile (by decide)).1 hchild) (by decide)

end Search

end LiveDoc
