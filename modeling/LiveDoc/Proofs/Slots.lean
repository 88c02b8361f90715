/-
Binding arguments to the parameters of one class.

Parameters of one class have distinct names, and so have keywords; then
binding is no search. A positional argument goes to the parameter at its
place (`ofPositional_eq_mapIdx`), a keyword to the parameter of its name,
and binding fails at the first keyword whose parameter has an argument
already (`bindKeywords_eq`).
-/
import LiveDoc.Live.Construct
import Mathlib.Data.List.Nodup

namespace LiveDoc.Slot

/-- The name that a slot assigns to. -/
def name (s : Slot) : String := s.param.name

/-- Applying a function to a list made by place. -/
theorem map_mapIdx {α β γ : Type} (f : Nat → α → β) (g : β → γ) (xs : List α) :
    (xs.mapIdx f).map g = xs.mapIdx fun i x => g (f i x) := by
  apply List.ext_getElem?
  intro i
  rw [List.getElem?_map, List.getElem?_mapIdx, List.getElem?_mapIdx, Option.map_map]
  rfl

-- ==================================================== positional arguments

/-- Positional arguments are bound by place. -/
theorem ofPositional_eq_mapIdx (params : List Program.Param) (vs : List Value) :
    ofPositional params vs = params.mapIdx fun j p => ⟨p, vs[j]?⟩ := by
  induction params generalizing vs with
  | nil => rfl
  | cons p ps ih =>
    rw [List.mapIdx_cons]
    cases vs with
    | nil =>
      rw [ofPositional, ih]
      rfl
    | cons v vs =>
      rw [ofPositional, ih]
      rfl

theorem ofPositional_nil (params : List Program.Param) :
    ofPositional params [] = params.map fun p => ⟨p, none⟩ := by
  induction params with
  | nil => rfl
  | cons p ps ih => rw [ofPositional, ih, List.map_cons]

/-- Among distinct names the argument of a parameter is found under its
name. -/
theorem ofPositional_eq_map {params : List Program.Param}
    (hparams : (params.map Program.Param.name).Nodup) (vs : List Value) :
    ofPositional params vs
      = params.map fun p => ⟨p, Entries.find? ((params.map Program.Param.name).zip vs) p.name⟩ := by
  induction params generalizing vs with
  | nil => rfl
  | cons p ps ih =>
    cases vs with
    | nil =>
      rw [ofPositional_nil, List.zip_nil_right]
      rfl
    | cons v vs =>
      obtain ⟨hp, hps⟩ := List.nodup_cons.1 hparams
      rw [ofPositional, ih hps, List.map_cons, List.map_cons, List.zip_cons_cons, Entries.find?,
        if_pos rfl]
      refine congrArg (_ :: ·) (List.map_congr_left fun q hq => ?_)
      have hne : p.name ≠ q.name := fun heq => hp (heq ▸ List.mem_map_of_mem hq)
      rw [Entries.find?, if_neg hne]

/-- Every parameter has its slot, whether or not there is an argument for
it. -/
theorem map_param_ofPositional (params : List Program.Param) (vs : List Value) :
    (ofPositional params vs).map Slot.param = params := by
  induction params generalizing vs with
  | nil => rfl
  | cons p ps ih =>
    cases vs with
    | nil => exact congrArg (p :: ·) (ih [])
    | cons v vs => exact congrArg (p :: ·) (ih vs)

theorem map_name_ofPositional (params : List Program.Param) (vs : List Value) :
    (ofPositional params vs).map name = params.map Program.Param.name := by
  rw [← map_param_ofPositional params vs, List.map_map, map_param_ofPositional]
  rfl

/-- The slot of the name has an argument. -/
def isTaken (slots : List Slot) (key : String) : Bool :=
  slots.any fun s => s.name = key && s.argument.isSome

/-- A parameter has a positional argument when there are more arguments
than parameters before it. -/
theorem isTaken_ofPositional (params : List Program.Param) (vs : List Value) (key : String) :
    isTaken (ofPositional params vs) key = true
      ↔ key ∈ params.map Program.Param.name
        ∧ (params.map Program.Param.name).idxOf key < vs.length := by
  induction params generalizing vs with
  | nil => simp [isTaken, ofPositional]
  | cons p ps ih =>
    unfold isTaken at ih ⊢
    rw [List.map_cons, List.mem_cons]
    by_cases hp : p.name = key
    · -- the first parameter has the name; later ones have none if it has none
      rw [hp, List.idxOf_cons_self]
      cases vs with
      | nil =>
        have hrest := ih []
        simp only [List.length_nil, Nat.not_lt_zero, and_false, iff_false] at hrest ⊢
        rw [ofPositional, List.any_cons]
        simpa using hrest
      | cons v vs =>
        rw [ofPositional, List.any_cons]
        simp [name, hp]
    · have hidx : (p.name :: ps.map Program.Param.name).idxOf key
          = (ps.map Program.Param.name).idxOf key + 1 := List.idxOf_cons_ne _ hp
      rw [hidx, or_iff_right (Ne.symm hp)]
      cases vs with
      | nil =>
        have hrest := ih []
        simp only [List.length_nil, Nat.not_lt_zero, and_false, iff_false] at hrest ⊢
        rw [ofPositional, List.any_cons]
        simpa using hrest
      | cons v vs =>
        have hrest := ih vs
        rw [ofPositional, List.any_cons, List.length_cons, Nat.succ_lt_succ_iff, ← hrest]
        simp [name, hp]

-- ==================================================== keyword arguments

/-- Filling a slot leaves all slots where they are. -/
theorem map_param_fill (key : String) (v : Value) (slots : List Slot) :
    (fill key v slots).map Slot.param = slots.map Slot.param := by
  induction slots with
  | nil => rfl
  | cons s ss ih =>
    rw [fill]
    split
    · rfl
    · exact congrArg (s.param :: ·) ih

/-- Binding keywords fills slots and changes no parameter. -/
theorem map_param_bindKeywords {className : String} {slots slots' : List Slot}
    {keyword unbound : Entries Value}
    (h : bindKeywords className slots keyword = .ok (slots', unbound)) :
    slots'.map Slot.param = slots.map Slot.param := by
  induction keyword generalizing slots unbound with
  | nil =>
    cases h
    rfl
  | cons e es ih =>
    obtain ⟨key, v⟩ := e
    rw [bindKeywords] at h
    split at h
    · split at h
      case h_1 => cases h
      case h_2 slots'' unbound'' hrest =>
        cases h
        exact ih hrest
    · cases h
    · rw [ih h, map_param_fill]

/-- Among distinct names filling the first slot of a name is filling the
slot of that name. -/
theorem fill_eq_map (key : String) (v : Value) {slots : List Slot}
    (hslots : (slots.map name).Nodup) :
    fill key v slots = slots.map fun s => if s.name = key then ⟨s.param, some v⟩ else s := by
  induction slots with
  | nil => rfl
  | cons s ss ih =>
    obtain ⟨hs, hss⟩ := List.nodup_cons.1 hslots
    rw [fill, List.map_cons]
    by_cases hkey : s.name = key
    · have hrest : ss.map (fun s => if s.name = key then ⟨s.param, some v⟩ else s) = ss := by
        refine (List.map_congr_left fun t ht => ?_).trans (List.map_id ss)
        refine if_neg fun heq => hs ?_
        rw [hkey, ← heq]
        exact List.mem_map_of_mem ht
      rw [if_pos hkey, hrest]
      exact if_pos hkey
    · rw [if_neg hkey, ih hss]
      exact if_neg hkey

/-- Binding one keyword takes its slot and no other. -/
theorem isTaken_fill_of_ne {key other : String} (hne : key ≠ other) (v : Value)
    {slots : List Slot} (hslots : (slots.map name).Nodup) :
    isTaken (fill key v slots) other = isTaken slots other := by
  unfold isTaken
  rw [fill_eq_map key v hslots, List.any_map]
  refine congrArg slots.any (funext fun s => ?_)
  show (fun t : Slot => decide (t.name = other) && t.argument.isSome)
    (if s.name = key then ⟨s.param, some v⟩ else s) = _
  by_cases hs : s.name = key
  · have hother : ¬ s.name = other := fun h => hne (hs.symm.trans h)
    rw [if_pos hs]
    show (decide (s.name = other) && true) = (decide (s.name = other) && s.argument.isSome)
    rw [decide_eq_false hother]
    rfl
  · rw [if_neg hs]

theorem map_name_fill (key : String) (v : Value) (slots : List Slot) :
    (fill key v slots).map name = slots.map name := by
  have h := congrArg (List.map Program.Param.name) (map_param_fill key v slots)
  rw [List.map_map, List.map_map] at h
  exact h

/-- The slot with the keyword of its name, unless it has an argument. -/
def withKeyword (keyword : Entries Value) (s : Slot) : Slot :=
  ⟨s.param, s.argument.or (keyword.find? s.name)⟩

/-- A keyword of another name does not reach the slot. -/
theorem withKeyword_cons_of_ne {key : String} (v : Value) (keyword : Entries Value) {s : Slot}
    (hs : s.name ≠ key) : withKeyword ((key, v) :: keyword) s = withKeyword keyword s := by
  unfold withKeyword
  rw [Entries.find?, if_neg (Ne.symm hs)]

/-- A keyword that is bound and those that follow it: each slot gets its
own. -/
theorem map_withKeyword_fill {key : String} (v : Value) (keyword : Entries Value)
    {slots : List Slot} (hslots : (slots.map name).Nodup) (hfree : isTaken slots key = false) :
    (fill key v slots).map (withKeyword keyword)
      = slots.map (withKeyword ((key, v) :: keyword)) := by
  rw [fill_eq_map key v hslots, List.map_map]
  refine List.map_congr_left fun s hs => ?_
  show withKeyword keyword (if s.name = key then ⟨s.param, some v⟩ else s) = _
  by_cases hkey : s.name = key
  · have hnone : s.argument = none := by
      unfold isTaken at hfree
      rw [List.any_eq_false] at hfree
      simpa [hkey] using hfree s hs
    unfold withKeyword
    rw [if_pos hkey, hnone, Entries.find?, if_pos hkey.symm]
    rfl
  · rw [if_neg hkey, withKeyword_cons_of_ne v keyword hkey]

-- ==================================================== which slot a keyword finds

/-- A keyword without a parameter finds no slot taken, -/
theorem isTaken_of_find?_none {slots : List Slot} {key : String}
    (h : slots.find? (fun s => s.param.name = key) = none) :
    isTaken slots key = false ∧ ∀ s ∈ slots, s.name ≠ key := by
  have hnot : ∀ s ∈ slots, s.name ≠ key := by
    intro s hs
    simpa [name] using List.find?_eq_none.1 h s hs
  refine ⟨?_, hnot⟩
  unfold isTaken
  rw [List.any_eq_false]
  intro s hs htaken
  simp [hnot s hs] at htaken

/-- and one whose parameter has its argument finds it taken. -/
theorem isTaken_of_find?_bound {slots : List Slot} {key : String} {p : Program.Param} {v : Value}
    (h : slots.find? (fun s => s.param.name = key) = some ⟨p, some v⟩) :
    isTaken slots key = true := by
  have hname : p.name = key := by simpa using List.find?_some h
  unfold isTaken
  rw [List.any_eq_true]
  exact ⟨_, List.mem_of_find?_eq_some h, by simp [name, hname]⟩

/-- Names are distinct, so a slot that is found free is the only one of
its name. -/
theorem isTaken_of_find?_free {slots : List Slot} (hslots : (slots.map name).Nodup)
    {key : String} {p : Program.Param}
    (h : slots.find? (fun s => s.param.name = key) = some ⟨p, none⟩) :
    isTaken slots key = false ∧ key ∈ slots.map name := by
  have hslot := List.mem_of_find?_eq_some h
  have hname : p.name = key := by simpa using List.find?_some h
  refine ⟨?_, List.mem_map.2 ⟨_, hslot, hname⟩⟩
  unfold isTaken
  rw [List.any_eq_false]
  intro s hs htaken
  simp only [Bool.and_eq_true, decide_eq_true_eq] at htaken
  have hsame := List.inj_on_of_nodup_map hslots hs hslot (htaken.1.trans hname.symm)
  rw [hsame] at htaken
  cases htaken.2

-- ==================================================== all keywords

/-- All of binding: the first keyword whose slot is taken is refused;
otherwise every slot gets the keyword of its name, and the keywords of no
slot are left. -/
theorem bindKeywords_eq (className : String) {slots : List Slot}
    (hslots : (slots.map name).Nodup) {keyword : Entries Value} (hkeyword : keyword.keys.Nodup) :
    bindKeywords className slots keyword
      = match keyword.keys.filter (isTaken slots) with
        | key :: _ => .error (.duplicateArgument className key)
        | [] => .ok (slots.map (withKeyword keyword),
            keyword.filter fun e => e.1 ∉ slots.map name) := by
  induction keyword generalizing slots with
  | nil =>
    have hsame : slots.map (withKeyword []) = slots := by
      refine (List.map_congr_left fun s _ => ?_).trans (List.map_id slots)
      rw [withKeyword, Entries.find?_nil, Option.or_none]
      rfl
    show Except.ok (slots, []) = Except.ok (slots.map (withKeyword []), [])
    rw [hsame]
  | cons e es ih =>
    obtain ⟨key, v⟩ := e
    obtain ⟨hkey, hes⟩ := List.nodup_cons.1 hkeyword
    have hkeys : Entries.keys ((key, v) :: es) = key :: Entries.keys es := rfl
    rw [bindKeywords, hkeys]
    split
    case h_1 hnone =>
      -- the keyword is left, and no slot looks for it
      obtain ⟨hfree, hnot⟩ := isTaken_of_find?_none hnone
      have hmem : key ∉ slots.map name := by
        intro hmem
        obtain ⟨s, hs, hname⟩ := List.mem_map.1 hmem
        exact hnot s hs hname
      have hmap : slots.map (withKeyword ((key, v) :: es)) = slots.map (withKeyword es) :=
        List.map_congr_left fun s hs => withKeyword_cons_of_ne v es (hnot s hs)
      rw [List.filter_cons, if_neg (by simp [hfree]), List.filter_cons, if_pos (by simpa using hmem),
        hmap, ih hslots hes]
      cases (Entries.keys es).filter (isTaken slots) <;> rfl
    case h_2 p w hsome => rw [List.filter_cons, if_pos (isTaken_of_find?_bound hsome)]
    case h_3 p hfirst =>
      -- the slot of the name is filled, which no later keyword sees
      obtain ⟨hfree, hmem⟩ := isTaken_of_find?_free hslots hfirst
      have hfill : (Entries.keys es).filter (isTaken (fill key v slots))
          = (Entries.keys es).filter (isTaken slots) := by
        refine List.filter_congr fun other hother => isTaken_fill_of_ne ?_ v hslots
        intro heq
        exact hkey (heq ▸ hother)
      have hnames := map_name_fill key v slots
      rw [List.filter_cons, if_neg (by simp [hfree]), List.filter_cons, if_neg (by simpa using hmem),
        ih (hnames ▸ hslots) hes, hfill, hnames, map_withKeyword_fill v es hslots hfree]

end LiveDoc.Slot
