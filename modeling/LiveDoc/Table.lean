/-
Tables: finite maps from names that remember the order of insertion.

A name keeps the place of its first insertion and has the value of its
last. `Entries` is the bare list of pairs, used inside recursive types,
where a proof field could not stand; `Table` adds the invariant that no
name occurs twice. The view of both is lookup: `find?_put` says all that
insertion does to it, and `keys_put` all that it does to the order.
-/

namespace LiveDoc

-- ==================================================== entry lists

/-- Named values in order. -/
abbrev Entries (α : Type) := List (String × α)

namespace Entries

variable {α β : Type}

/-- The value under a name: that of its first entry. -/
def find? : Entries α → String → Option α
  | [], _ => none
  | (k, v) :: es, key => if k = key then some v else find? es key

/-- Insert in the place of the first entry of that name, or at the end. -/
def put : Entries α → String → α → Entries α
  | [], key, value => [(key, value)]
  | (k, v) :: es, key, value =>
    if k = key then (k, value) :: es else (k, v) :: put es key value

/-- Remove every entry of a name. -/
def without (es : Entries α) (key : String) : Entries α :=
  es.filter (fun e => e.1 ≠ key)

/-- The names in order. -/
def keys (es : Entries α) : List String :=
  es.map Prod.fst

/-- Apply a function to every value. -/
def mapValues (f : α → β) (es : Entries α) : Entries β :=
  es.map fun e => (e.1, f e.2)

@[simp] theorem find?_nil (key : String) : find? ([] : Entries α) key = none := rfl

/-- What is put under a name is found there, and nothing else changes. -/
theorem find?_put (es : Entries α) (key name : String) (value : α) :
    find? (put es key value) name = if key = name then some value else find? es name := by
  induction es with
  | nil => simp [put, find?]
  | cons e es ih =>
    obtain ⟨k, v⟩ := e
    by_cases hk : k = key
    · subst hk
      by_cases hn : k = name <;> simp [put, find?, hn]
    · by_cases hn : k = name
      · subst hn
        simp [put, find?, hk, Ne.symm hk]
      · simp [put, find?, hk, hn, ih]

/-- A name that is there keeps its place, and a new one comes last. -/
theorem keys_put (es : Entries α) (key : String) (value : α) :
    keys (put es key value) = if key ∈ keys es then keys es else keys es ++ [key] := by
  induction es with
  | nil => simp [put, keys]
  | cons e es ih =>
    obtain ⟨k, v⟩ := e
    by_cases hk : k = key
    · simp [put, keys, hk]
    · simp only [keys] at ih ⊢
      simp only [put, if_neg hk, List.map_cons, ih, List.mem_cons, Ne.symm hk, false_or]
      split <;> simp_all

/-- A new name goes last. -/
theorem put_of_notMem {es : Entries α} {key : String} (h : key ∉ keys es) (value : α) :
    put es key value = es ++ [(key, value)] := by
  induction es with
  | nil => rfl
  | cons e es ih =>
    obtain ⟨k, v⟩ := e
    have hk : k ≠ key := fun heq => h (heq ▸ List.mem_cons_self)
    have hes : key ∉ keys es := fun hmem => h (List.mem_cons_of_mem _ hmem)
    rw [put, if_neg hk, ih hes]
    rfl

/-- So names stay distinct. -/
theorem nodup_keys_put {es : Entries α} (h : (keys es).Nodup) (key : String) (value : α) :
    (keys (put es key value)).Nodup := by
  rw [keys_put]
  split
  · exact h
  · rename_i hk
    rw [List.nodup_append]
    refine ⟨h, by simp, ?_⟩
    intro a ha b hb
    simp only [List.mem_singleton] at hb
    subst hb
    exact fun hab => hk (hab ▸ ha)

theorem nodup_keys_without {es : Entries α} (h : (keys es).Nodup) (key : String) :
    (keys (without es key)).Nodup :=
  h.sublist (List.Sublist.map _ List.filter_sublist)

/-- A name is found exactly when some entry has it. -/
theorem find?_eq_none_iff {es : Entries α} {key : String} :
    find? es key = none ↔ key ∉ keys es := by
  induction es with
  | nil => simp [keys]
  | cons e es ih =>
    obtain ⟨k, v⟩ := e
    by_cases hk : k = key
    · simp [find?, keys, hk]
    · simp [find?, hk, ih, keys, Ne.symm hk]

/-- A name is found in the first of two lists that has it. -/
theorem find?_append (es fs : Entries α) (key : String) :
    find? (es ++ fs) key = (find? es key).or (find? fs key) := by
  induction es with
  | nil => rfl
  | cons e es ih =>
    obtain ⟨k, v⟩ := e
    rw [List.cons_append, find?, find?, ih]
    split <;> rfl

/-- Values given to names in order: as many names have one as there are
values. -/
theorem keys_zip (names : List String) (vs : List α) :
    keys (names.zip vs) = names.take vs.length := by
  induction names generalizing vs with
  | nil => simp [keys]
  | cons name names ih =>
    cases vs with
    | nil => rfl
    | cons v vs => exact congrArg (name :: ·) (ih vs)

/-- Later names get the values that the earlier ones leave. -/
theorem find?_zip_append (names names' : List String) (vs : List α) (key : String) :
    find? ((names ++ names').zip vs) key
      = (find? (names.zip vs) key).or (find? (names'.zip (vs.drop names.length)) key) := by
  induction names generalizing vs with
  | nil => rfl
  | cons name names ih =>
    cases vs with
    | nil =>
      rw [List.drop_nil, List.zip_nil_right, List.zip_nil_right, List.zip_nil_right]
      rfl
    | cons v vs =>
      rw [List.cons_append, List.zip_cons_cons, List.zip_cons_cons, find?, find?, ih]
      split <;> rfl

/-- A filter that lets a name through does not touch what is found under
it. -/
theorem find?_filter {es : Entries α} {p : String × α → Bool} {key : String}
    (hp : ∀ v, p (key, v) = true) : find? (es.filter p) key = find? es key := by
  induction es with
  | nil => rfl
  | cons e es ih =>
    obtain ⟨k, v⟩ := e
    rw [List.filter_cons]
    by_cases hk : k = key
    · rw [hk, if_pos (hp v), find?, find?, if_pos rfl, if_pos rfl]
    · split
      · rw [find?, find?, if_neg hk, if_neg hk, ih]
      · rw [find?, if_neg hk, ih]

/-- What is taken out is not found any more. -/
theorem find?_without (es : Entries α) (key name : String) :
    find? (without es key) name = if key = name then none else find? es name := by
  unfold without
  by_cases hname : key = name
  · have hkeys : name ∉ keys (es.filter fun e => e.1 ≠ key) := by simp [keys, hname]
    rw [if_pos hname, find?_eq_none_iff.2 hkeys]
  · rw [if_neg hname, find?_filter fun _ => by simp [Ne.symm hname]]

/-- What is found is an entry. -/
theorem mem_of_find? {es : Entries α} {key : String} {value : α}
    (h : find? es key = some value) : (key, value) ∈ es := by
  induction es with
  | nil => cases h
  | cons e es ih =>
    obtain ⟨k, v⟩ := e
    rw [find?] at h
    split at h
    case isTrue hk =>
      cases h
      rw [hk]
      exact List.mem_cons_self
    case isFalse => exact List.mem_cons_of_mem _ (ih h)

/-- Among distinct names every entry is found. -/
theorem find?_of_mem {es : Entries α} (hes : (keys es).Nodup) {key : String} {value : α}
    (h : (key, value) ∈ es) : find? es key = some value := by
  induction es with
  | nil => cases h
  | cons e es ih =>
    obtain ⟨k, v⟩ := e
    obtain ⟨hk, hes⟩ := List.nodup_cons.1 hes
    rcases List.mem_cons.1 h with h | h
    · cases h
      exact if_pos rfl
    · have hkey : key ∈ keys es := List.mem_map_of_mem h
      have hne : k ≠ key := fun heq => hk (heq ▸ hkey)
      rw [find?, if_neg hne]
      exact ih hes h

theorem find?_eq_some_iff {es : Entries α} (hes : (keys es).Nodup) {key : String} {value : α} :
    find? es key = some value ↔ (key, value) ∈ es :=
  ⟨mem_of_find?, find?_of_mem hes⟩

/-- Among distinct names what is found does not depend on their order. -/
theorem find?_perm {es fs : Entries α} (hes : (keys es).Nodup) (hperm : fs.Perm es)
    (key : String) : find? fs key = find? es key := by
  have hfs : (keys fs).Nodup := (hperm.map Prod.fst).nodup_iff.2 hes
  ext value
  rw [find?_eq_some_iff hfs, find?_eq_some_iff hes, hperm.mem_iff]

end Entries

-- ==================================================== tables

/-- A finite map in insertion order. -/
structure Table (α : Type) where
  entries : Entries α
  nodup : entries.keys.Nodup

namespace Table

variable {α : Type}

/-- The table without entries. -/
def empty : Table α := ⟨[], by simp [Entries.keys]⟩

instance : EmptyCollection (Table α) := ⟨empty⟩
instance : Inhabited (Table α) := ⟨empty⟩

/-- The value under a name. -/
def find? (t : Table α) (key : String) : Option α :=
  t.entries.find? key

/-- The name is in the table. -/
def contains (t : Table α) (key : String) : Bool :=
  (t.find? key).isSome

/-- Insert a value: a known name keeps its place, a new one goes last. -/
def insert (t : Table α) (key : String) (value : α) : Table α :=
  ⟨t.entries.put key value, Entries.nodup_keys_put t.nodup key value⟩

/-- Remove a name; the others keep their order. -/
def erase (t : Table α) (key : String) : Table α :=
  ⟨t.entries.without key, Entries.nodup_keys_without t.nodup key⟩

/-- Insert entries one after the other. -/
def insertAll (t : Table α) (es : Entries α) : Table α :=
  es.foldl (fun t e => t.insert e.1 e.2) t

/-- The table of a list of entries. -/
def ofList (es : Entries α) : Table α :=
  empty.insertAll es

/-- The names in order. -/
def keys (t : Table α) : List String := t.entries.keys

/-- The number of names. -/
def size (t : Table α) : Nat := t.entries.length

@[simp] theorem find?_empty (key : String) : (∅ : Table α).find? key = none := rfl

/-- What is inserted under a name is found there, and nothing else changes. -/
theorem find?_insert (t : Table α) (key name : String) (value : α) :
    (t.insert key value).find? name = if key = name then some value else t.find? name :=
  Entries.find?_put t.entries key name value

/-- What was found is still found when a new name is added. -/
theorem find?_insert_of_find? {t : Table α} {key name : String} {value : α}
    (hname : t.find? name = some value) (hnew : t.find? key = none) (added : α) :
    (t.insert key added).find? name = some value := by
  have hne : key ≠ name := by
    rintro rfl
    rw [hnew] at hname
    cases hname
  rw [find?_insert, if_neg hne, hname]

theorem find?_erase (t : Table α) (key name : String) :
    (t.erase key).find? name = if key = name then none else t.find? name :=
  Entries.find?_without t.entries key name

/-- Tables, too, keep a name where it first came. -/
theorem keys_insert (t : Table α) (key : String) (value : α) :
    (t.insert key value).keys = if key ∈ t.keys then t.keys else t.keys ++ [key] :=
  Entries.keys_put t.entries key value

theorem mem_keys_insert {t : Table α} {key name : String} {value : α} :
    name ∈ (t.insert key value).keys ↔ name = key ∨ name ∈ t.keys := by
  rw [keys_insert]
  split
  case isTrue h =>
    constructor
    · exact Or.inr
    · rintro (rfl | hn)
      · exact h
      · exact hn
  case isFalse => simp [or_comm]

/-- Nothing is found only under names that are not there. -/
theorem find?_eq_none_iff {t : Table α} {key : String} : t.find? key = none ↔ key ∉ t.keys :=
  Entries.find?_eq_none_iff

/-- Since names are distinct, every entry is found. -/
theorem find?_eq_some_iff {t : Table α} {key : String} {value : α} :
    t.find? key = some value ↔ (key, value) ∈ t.entries :=
  Entries.find?_eq_some_iff t.nodup

theorem contains_iff {t : Table α} {key : String} : t.contains key = true ↔ key ∈ t.keys := by
  rw [contains, Option.isSome_iff_ne_none, ne_eq, find?_eq_none_iff, Decidable.not_not]

/-- New names go last, in order. -/
theorem entries_insertAll {t : Table α} {es : Entries α}
    (h : (Entries.keys (t.entries ++ es)).Nodup) : (t.insertAll es).entries = t.entries ++ es := by
  induction es generalizing t with
  | nil => exact (List.append_nil _).symm
  | cons e es ih =>
    obtain ⟨key, value⟩ := e
    have hnew : key ∉ Entries.keys t.entries := by
      unfold Entries.keys at h ⊢
      rw [List.map_append, List.nodup_append] at h
      intro hmem
      exact h.2.2 key hmem key List.mem_cons_self rfl
    have hinsert : (t.insert key value).entries = t.entries ++ [(key, value)] :=
      Entries.put_of_notMem hnew value
    have hsplit : (t.insert key value).entries ++ es = t.entries ++ (key, value) :: es := by
      rw [hinsert, List.append_assoc]
      rfl
    rw [← hsplit] at h ⊢
    exact ih h

/-- Entries of distinct names are those of their table. -/
theorem entries_ofList {es : Entries α} (h : es.keys.Nodup) : (ofList es).entries = es :=
  entries_insertAll h

/-- A table is the one of its entries. -/
theorem ofList_entries (t : Table α) : ofList t.entries = t := by
  have hentries : (ofList t.entries).entries = t.entries := entries_ofList t.nodup
  revert hentries
  generalize ofList t.entries = u
  intro hentries
  cases u
  cases t
  cases hentries
  rfl

/-- Something is found under every name of the table. -/
theorem exists_find?_iff {t : Table α} {key : String} :
    (∃ value, t.find? key = some value) ↔ key ∈ t.keys := by
  rw [← Option.isSome_iff_exists]
  exact contains_iff

end Table

end LiveDoc
