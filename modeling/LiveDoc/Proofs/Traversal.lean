/-
Traversals that may fail.

Reading a document, checking a value and making an instance are all
sequences of steps that stop at the first failure. What a sequence does
as a whole is said here once, for steps of any kind: it succeeds exactly
when every step does, and it fails with the failure of the first step
that fails. The modules that follow open their sequences with these
statements and never look inside a bind again.
-/
import Mathlib.Data.List.Forall2

namespace LiveDoc.Traversal

variable {ε ε' α β : Type}

-- ==================================================== single steps

/-- A step that succeeded hands its result on. -/
theorem ok_bind (a : α) (f : α → Except ε β) : (Except.ok a >>= f) = f a := rfl

/-- A step that failed ends the sequence. -/
theorem error_bind (e : ε) (f : α → Except ε β) : (Except.error e >>= f) = .error e := rfl

/-- Two steps in sequence succeed when both do. -/
theorem bind_eq_ok {x : Except ε α} {f : α → Except ε β} {b : β} :
    (x >>= f) = .ok b ↔ ∃ a, x = .ok a ∧ f a = .ok b := by
  cases x with
  | error e => exact ⟨fun h => (by cases h), fun ⟨_, h, _⟩ => (by cases h)⟩
  | ok a =>
    constructor
    · intro h
      exact ⟨a, rfl, h⟩
    · intro h
      obtain ⟨a', ha', h⟩ := h
      cases ha'
      exact h

theorem map_bind {γ : Type} (x : Except ε α) (f : α → Except ε β) (g : β → γ) :
    (x >>= f).map g = (x >>= fun a => (f a).map g) := by
  cases x <;> rfl

/-- Two steps in sequence have a result when the first has one from which
the second does. -/
theorem exists_bind_eq_ok {x : Except ε α} {f : α → Except ε β} :
    (∃ b, (x >>= f) = .ok b) ↔ ∃ a, x = .ok a ∧ ∃ b, f a = .ok b := by
  constructor
  · intro h
    obtain ⟨b, h⟩ := h
    obtain ⟨a, ha, hb⟩ := bind_eq_ok.1 h
    exact ⟨a, ha, b, hb⟩
  · intro h
    obtain ⟨a, ha, b, hb⟩ := h
    exact ⟨b, bind_eq_ok.2 ⟨a, ha, hb⟩⟩

theorem pure_eq_ok {a b : α} : (pure a : Except ε α) = .ok b ↔ a = b :=
  ⟨fun h => Except.ok.inj h, fun h => congrArg Except.ok h⟩

/-- A guard before a step. -/
theorem ite_error_eq_ok {p : Prop} [Decidable p] {e : ε} {x : Except ε α} {a : α} :
    (if p then .error e else x) = .ok a ↔ ¬ p ∧ x = .ok a := by
  by_cases hp : p <;> simp [hp]

/-- Naming the failures differently changes no success. -/
theorem mapError_eq_ok {x : Except ε α} {f : ε → ε'} {a : α} :
    x.mapError f = .ok a ↔ x = .ok a := by
  cases x with
  | error e => exact ⟨fun h => (by cases h), fun h => (by cases h)⟩
  | ok b =>
    show Except.ok b = Except.ok a ↔ _
    rw [Except.ok.injEq, Except.ok.injEq]

-- ==================================================== failures that do not occur

/-- Two steps in sequence fail in no way in which neither does. -/
theorem bind_ne_error {x : Except ε α} {f : α → Except ε β} {e : ε} (hx : x ≠ .error e)
    (hf : ∀ a, f a ≠ .error e) : (x >>= f) ≠ .error e := by
  cases x with
  | error e' => exact fun h => hx (congrArg Except.error (Except.error.inj h))
  | ok a => exact hf a

/-- If the first did not fail so, the second did. -/
theorem exists_of_bind_eq_error {x : Except ε α} {f : α → Except ε β} {e : ε}
    (h : (x >>= f) = .error e) (hx : x ≠ .error e) : ∃ a, x = .ok a ∧ f a = .error e := by
  cases x with
  | error e' => exact absurd (congrArg Except.error (Except.error.inj h)) hx
  | ok a => exact ⟨a, rfl, h⟩

/-- A list of readings fails in no way in which none of them does. -/
theorem mapM_ne_error {f : α → Except ε β} {e : ε} (hf : ∀ x, f x ≠ .error e) (xs : List α) :
    xs.mapM f ≠ .error e := by
  induction xs with
  | nil => exact fun h => (by cases h)
  | cons x xs ih =>
    rw [List.mapM_cons]
    exact bind_ne_error (hf x) fun _ => bind_ne_error ih fun _ h => (by cases h)

/-- A failure that was named differently has the new name. -/
theorem mapError_ne_error {x : Except ε α} {f : ε → ε'} {e : ε'} (hf : ∀ e', f e' ≠ e) :
    x.mapError f ≠ .error e := by
  cases x with
  | error e' => exact fun h => hf e' (Except.error.inj h)
  | ok a => exact fun h => (by cases h)

-- ==================================================== checks along a list

/-- A list of checks succeeds when each does. -/
theorem forM_eq_ok {f : α → Except ε Unit} {xs : List α} :
    xs.forM f = .ok () ↔ ∀ x ∈ xs, f x = .ok () := by
  induction xs with
  | nil => exact ⟨fun _ _ h => (by cases h), fun _ => rfl⟩
  | cons x xs ih =>
    show (f x >>= fun _ => xs.forM f) = .ok () ↔ _
    rw [bind_eq_ok, List.forall_mem_cons, ← ih]
    exact ⟨fun ⟨_, hx, hxs⟩ => ⟨hx, hxs⟩, fun ⟨hx, hxs⟩ => ⟨(), hx, hxs⟩⟩

/-- A list of checks fails as its first failing check does. -/
theorem forM_eq_error {f : α → Except ε Unit} {xs : List α} {e : ε} :
    xs.forM f = .error e
      ↔ ∃ before x after, xs = before ++ x :: after
          ∧ (∀ y ∈ before, f y = .ok ()) ∧ f x = .error e := by
  induction xs with
  | nil =>
    constructor
    · intro h
      cases h
    · intro h
      obtain ⟨before, x, after, h, -⟩ := h
      exact absurd h.symm (by simp)
  | cons y ys ih =>
    show (f y >>= fun _ => ys.forM f) = .error e ↔ _
    cases hy : f y with
    | error e' =>
      rw [error_bind]
      constructor
      · intro h
        cases h
        exact ⟨[], y, ys, rfl, fun _ h => (by cases h), hy⟩
      · intro h
        obtain ⟨before, x, after, hxs, hbefore, hx⟩ := h
        -- nothing can stand before the first failure
        cases before with
        | nil =>
          cases hxs
          rw [← hy]
          exact hx
        | cons z zs =>
          cases hxs
          rw [hbefore y List.mem_cons_self] at hy
          cases hy
    | ok u =>
      rw [ok_bind, ih]
      constructor
      · intro h
        obtain ⟨before, x, after, rfl, hbefore, hx⟩ := h
        exact ⟨y :: before, x, after, rfl, List.forall_mem_cons.2 ⟨hy, hbefore⟩, hx⟩
      · intro h
        obtain ⟨before, x, after, hxs, hbefore, hx⟩ := h
        cases before with
        | nil =>
          cases hxs
          rw [hx] at hy
          cases hy
        | cons z zs =>
          cases hxs
          exact ⟨zs, x, after, rfl, (List.forall_mem_cons.1 hbefore).2, hx⟩

theorem forM_append {f : α → Except ε Unit} (xs ys : List α) :
    (xs ++ ys).forM f = (xs.forM f >>= fun _ => ys.forM f) := by
  induction xs with
  | nil => rfl
  | cons x xs ih =>
    show (f x >>= fun _ => (xs ++ ys).forM f) = ((f x >>= fun _ => xs.forM f) >>= fun _ => ys.forM f)
    cases f x with
    | error e => rfl
    | ok u => exact ih

-- ==================================================== lists side by side

section SideBySide

variable {R : α → β → Prop} {xs : List α} {ys : List β}

/-- Lists that are related place by place have something at the same
places. -/
theorem exists_getElem?_of_forall₂ (h : List.Forall₂ R xs ys) {n : Nat} {x : α}
    (hx : xs[n]? = some x) : ∃ y, ys[n]? = some y ∧ R x y := by
  induction h generalizing n with
  | nil => cases hx
  | @cons a b _ _ hab _ ih =>
    cases n with
    | zero =>
      cases hx
      exact ⟨b, rfl, hab⟩
    | succ n => exact ih hx

theorem exists_mem_of_forall₂ (h : List.Forall₂ R xs ys) {x : α} (hx : x ∈ xs) :
    ∃ y ∈ ys, R x y := by
  obtain ⟨n, hn⟩ := List.mem_iff_getElem?.1 hx
  obtain ⟨y, hy, hxy⟩ := exists_getElem?_of_forall₂ h hn
  exact ⟨y, List.mem_of_getElem? hy, hxy⟩

theorem exists_of_mem_forall₂ (h : List.Forall₂ R xs ys) {y : β} (hy : y ∈ ys) :
    ∃ x ∈ xs, R x y :=
  exists_mem_of_forall₂ (R := flip R) h.flip hy

theorem map_eq_of_forall₂ {γ : Type} {k : β → γ} {g : α → γ}
    (h : List.Forall₂ (fun x y => k y = g x) xs ys) : ys.map k = xs.map g := by
  induction h with
  | nil => rfl
  | cons hxy _ ih => rw [List.map_cons, List.map_cons, hxy, ih]

end SideBySide

-- ==================================================== results along a list

/-- A list of readings succeeds when each does, result for result. -/
theorem mapM_eq_ok {f : α → Except ε β} {xs : List α} {ys : List β} :
    xs.mapM f = .ok ys ↔ List.Forall₂ (fun x y => f x = .ok y) xs ys := by
  induction xs generalizing ys with
  | nil =>
    rw [List.forall₂_nil_left_iff]
    exact ⟨fun h => (Except.ok.inj h).symm, fun h => h ▸ rfl⟩
  | cons x xs ih =>
    rw [List.mapM_cons, bind_eq_ok, List.forall₂_cons_left_iff]
    constructor
    · intro h
      obtain ⟨y, hy, h⟩ := h
      obtain ⟨ys', hys', h⟩ := bind_eq_ok.1 h
      cases h
      exact ⟨y, ys', hy, ih.1 hys', rfl⟩
    · intro h
      obtain ⟨y, ys', hy, hys', rfl⟩ := h
      exact ⟨y, hy, bind_eq_ok.2 ⟨ys', ih.2 hys', rfl⟩⟩

/-- A list of readings succeeds when each has a result. -/
theorem exists_mapM_eq_ok {f : α → Except ε β} {xs : List α} :
    (∃ ys, xs.mapM f = .ok ys) ↔ ∀ x ∈ xs, ∃ y, f x = .ok y := by
  induction xs with
  | nil => exact ⟨fun _ _ h => (by cases h), fun _ => ⟨[], rfl⟩⟩
  | cons x xs ih =>
    rw [List.forall_mem_cons, ← ih]
    constructor
    · intro h
      obtain ⟨ys, h⟩ := h
      obtain ⟨y, ys', hy, hys', rfl⟩ := List.forall₂_cons_left_iff.1 (mapM_eq_ok.1 h)
      exact ⟨⟨y, hy⟩, ys', mapM_eq_ok.2 hys'⟩
    · intro h
      obtain ⟨⟨y, hy⟩, ys, hys⟩ := h
      exact ⟨y :: ys, mapM_eq_ok.2 (.cons hy (mapM_eq_ok.1 hys))⟩

/-- Every result is that of some element. -/
theorem exists_of_mem_mapM {f : α → Except ε β} {xs : List α} {ys : List β}
    (h : xs.mapM f = .ok ys) {y : β} (hy : y ∈ ys) : ∃ x ∈ xs, f x = .ok y :=
  exists_of_mem_forall₂ (mapM_eq_ok.1 h) hy

/-- Every element has its result among the results. -/
theorem exists_mem_of_mapM {f : α → Except ε β} {xs : List α} {ys : List β}
    (h : xs.mapM f = .ok ys) {x : α} (hx : x ∈ xs) : ∃ y ∈ ys, f x = .ok y :=
  exists_mem_of_forall₂ (mapM_eq_ok.1 h) hx

/-- What every reading keeps of its element, the list of readings keeps
in order. -/
theorem map_eq_of_mapM {γ : Type} {f : α → Except ε β} {xs : List α} {ys : List β}
    (h : xs.mapM f = .ok ys) {g : α → γ} {k : β → γ}
    (hf : ∀ x y, f x = .ok y → k y = g x) : ys.map k = xs.map g :=
  map_eq_of_forall₂ ((mapM_eq_ok.1 h).imp hf)

-- ==================================================== results that may be missing

/-- A list of look-ups has results when each has one, result for result. -/
theorem mapM_eq_some {f : α → Option β} {xs : List α} {ys : List β} :
    xs.mapM f = some ys ↔ List.Forall₂ (fun x y => f x = some y) xs ys := by
  induction xs generalizing ys with
  | nil =>
    rw [List.forall₂_nil_left_iff]
    exact ⟨fun h => (Option.some.inj h).symm, fun h => h ▸ rfl⟩
  | cons x xs ih =>
    rw [List.mapM_cons, List.forall₂_cons_left_iff]
    constructor
    · intro h
      obtain ⟨y, hy, h⟩ := Option.bind_eq_some_iff.1 h
      obtain ⟨ys', hys', h⟩ := Option.bind_eq_some_iff.1 h
      cases h
      exact ⟨y, ys', hy, ih.1 hys', rfl⟩
    · intro h
      obtain ⟨y, ys', hy, hys', rfl⟩ := h
      exact Option.bind_eq_some_iff.2 ⟨y, hy, Option.bind_eq_some_iff.2 ⟨ys', ih.2 hys', rfl⟩⟩

/-- It has none when one of them has none. -/
theorem mapM_eq_none {f : α → Option β} {xs : List α} :
    xs.mapM f = none ↔ ∃ x ∈ xs, f x = none := by
  induction xs with
  | nil => exact ⟨fun h => (by cases h), fun ⟨_, h, _⟩ => (by cases h)⟩
  | cons x xs ih =>
    rw [List.mapM_cons, List.exists_mem_cons_iff, ← ih]
    cases hx : f x with
    | none => exact ⟨fun _ => .inl rfl, fun _ => rfl⟩
    | some y =>
      cases hxs : xs.mapM f with
      | none => exact ⟨fun _ => .inr rfl, fun _ => rfl⟩
      | some ys => simp

end LiveDoc.Traversal
