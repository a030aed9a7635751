import Mathlib

/-! Computations that end with a value or an error. A chain of them succeeds exactly when every link
    does, each with the value the next one is handed; proofs peel a chain apart with these rules and
    never unfold its binds. -/

namespace Fallible

universe u v

variable {ε : Type u} {α β : Type v}

@[simp] theorem pure_eq_ok {a b : α} : (pure a : Except ε α) = .ok b ↔ a = b := by
  simp [pure, Except.pure]

@[simp] theorem bind_eq_ok {x : Except ε α} {f : α → Except ε β} {b : β} :
    (x >>= f) = .ok b ↔ ∃ a, x = .ok a ∧ f a = .ok b := by
  cases x <;> simp [bind, Except.bind]

@[simp] theorem ok_bind (a : α) (f : α → Except ε β) : (Except.ok a >>= f) = f a := rfl

@[simp] theorem error_bind (e : ε) (f : α → Except ε β) : (Except.error e >>= f) = .error e := rfl

/-- A check that raises lets through what fails its condition. -/
@[simp] theorem ite_error_eq_ok {c : Prop} [Decidable c] {e : ε} {x : Except ε α} {a : α} :
    (if c then .error e else x) = .ok a ↔ ¬c ∧ x = .ok a := by
  by_cases h : c <;> simp [h]

@[simp] theorem mapError_eq_ok {ε' : Type*} {f : ε → ε'} {x : Except ε α} {a : α} :
    x.mapError f = .ok a ↔ x = .ok a := by
  cases x with
  | error e => exact iff_of_false (fun h => by cases h) fun h => by cases h
  | ok b => exact ⟨fun h => by cases h; rfl, fun h => by cases h; rfl⟩

@[simp] theorem map_eq_ok {x : Except ε α} {f : α → β} {b : β} :
    x.map f = .ok b ↔ ∃ a, x = .ok a ∧ f a = b := by
  cases x <;> simp [Except.map]

theorem exists_map_eq_ok {x : Except ε α} {f : α → β} :
    (∃ b, f <$> x = .ok b) ↔ ∃ a, x = .ok a := by
  cases x <;> simp [Functor.map, Except.map]

theorem mapM_eq_ok {α β : Type v} {f : α → Except ε β} {xs : List α} {ys : List β} :
    xs.mapM f = .ok ys ↔ List.Forall₂ (fun x y => f x = .ok y) xs ys := by
  induction xs generalizing ys with
  | nil => rw [List.mapM_nil, pure_eq_ok, List.forall₂_nil_left_iff, eq_comm]
  | cons x xs ih =>
    simp only [List.mapM_cons, bind_eq_ok, pure_eq_ok, ih]
    constructor
    · rintro ⟨y, hy, ys, hys, rfl⟩
      exact .cons hy hys
    · rintro (_ | ⟨hy, hys⟩)
      exact ⟨_, hy, _, hys, rfl⟩

/-- A chain over a list succeeds if every link does. -/
theorem exists_mapM_eq_ok {α β : Type v} {f : α → Except ε β} {xs : List α}
    (h : ∀ x ∈ xs, ∃ y, f x = .ok y) : ∃ ys, xs.mapM f = .ok ys := by
  induction xs with
  | nil => exact ⟨[], rfl⟩
  | cons x xs ih =>
    obtain ⟨y, hy⟩ := h x List.mem_cons_self
    obtain ⟨ys, hys⟩ := ih fun x hx => h x (List.mem_cons_of_mem _ hx)
    exact ⟨y :: ys, mapM_eq_ok.mpr (.cons hy (mapM_eq_ok.mp hys))⟩

/-- What a chain over a list collects. -/
theorem mem_of_mapM_eq_ok {α β : Type v} {f : α → Except ε β} {xs : List α} {ys : List β}
    (h : xs.mapM f = .ok ys) {y : β} : y ∈ ys ↔ ∃ x ∈ xs, f x = .ok y := by
  replace h := mapM_eq_ok.mp h
  induction h with
  | nil => simp
  | cons hxy _ ih => simp [hxy, ih, eq_comm]

theorem mapM_congr {α β : Type v} {f g : α → Except ε β} {xs : List α} (h : ∀ x ∈ xs, f x = g x) :
    xs.mapM f = xs.mapM g := by
  induction xs with
  | nil => rfl
  | cons x xs ih =>
    rw [List.mapM_cons, List.mapM_cons, h x List.mem_cons_self,
      ih fun y hy => h y (List.mem_cons_of_mem _ hy)]

/-- Every link contributes to what is collected. -/
theorem exists_mem_of_mapM_eq_ok {α β : Type v} {f : α → Except ε β} {xs : List α} {ys : List β}
    (h : xs.mapM f = .ok ys) {x : α} (hx : x ∈ xs) : ∃ y ∈ ys, f x = .ok y := by
  replace h := mapM_eq_ok.mp h
  induction h with
  | nil => cases hx
  | cons hxy _ ih =>
    rcases List.mem_cons.mp hx with rfl | hx
    · exact ⟨_, List.mem_cons_self, hxy⟩
    · obtain ⟨y, hy, hfy⟩ := ih hx
      exact ⟨y, List.mem_cons_of_mem _ hy, hfy⟩

/-- A label that each link keeps is kept by the chain. -/
theorem map_eq_of_mapM_eq_ok {α β : Type v} {γ : Type*} {f : α → Except ε β} {xs : List α} {ys : List β}
    {k : β → γ} {j : α → γ} (hf : ∀ x y, f x = .ok y → k y = j x) (h : xs.mapM f = .ok ys) :
    ys.map k = xs.map j := by
  replace h := mapM_eq_ok.mp h
  induction h with
  | nil => rfl
  | cons hxy _ ih => rw [List.map_cons, List.map_cons, hf _ _ hxy, ih]

/-- A loop that stops at the first item it refuses is the plain loop, if it refuses none. -/
theorem foldlM_ite_none {α β : Type*} (accepts : β → Bool) (f : α → β → α) (xs : List β) (a : α) :
    xs.foldlM (fun a x => if accepts x then some (f a x) else none) a =
      if xs.all accepts then some (xs.foldl f a) else none := by
  induction xs generalizing a with
  | nil => rfl
  | cons x xs ih =>
    rw [List.foldlM_cons, List.all_cons, List.foldl_cons]
    cases accepts x with
    | true => exact ih (f a x)
    | false => rfl

/-! ### How a computation fails -/

/-- Whatever error the computation ends with, it is of this kind. -/
def FailsOnly (kind : ε → Prop) (x : Except ε α) : Prop := ∀ e, x = .error e → kind e

section failsOnly
variable {ε' : Type*} {kind : ε → Prop} {x : Except ε α}

@[simp] theorem failsOnly_ok (a : α) : FailsOnly kind (.ok a : Except ε α) := fun _ h => by cases h

@[simp] theorem failsOnly_pure (a : α) : FailsOnly kind (pure a : Except ε α) := failsOnly_ok a

@[simp] theorem failsOnly_error {e : ε} : FailsOnly kind (.error e : Except ε α) ↔ kind e :=
  ⟨fun h => h e rfl, fun h e' he => by cases he; exact h⟩

/-- A chain fails this way if its first link does and, after it, the rest. -/
@[simp] theorem failsOnly_bind {f : α → Except ε β} :
    FailsOnly kind (x >>= f) ↔ FailsOnly kind x ∧ ∀ a, x = .ok a → FailsOnly kind (f a) := by
  cases x <;> simp

@[simp] theorem failsOnly_mapError {f : ε' → ε} {x : Except ε' α} :
    FailsOnly kind (x.mapError f) ↔ FailsOnly (fun e => kind (f e)) x := by
  cases x <;> simp [Except.mapError]

@[simp] theorem failsOnly_ite {c : Prop} [Decidable c] {y : Except ε α} :
    FailsOnly kind (if c then x else y) ↔ (c → FailsOnly kind x) ∧ (¬c → FailsOnly kind y) := by
  by_cases h : c <;> simp [h]

theorem failsOnly_congr {kind' : ε → Prop} (h : ∀ e, kind e ↔ kind' e) :
    FailsOnly kind x ↔ FailsOnly kind' x :=
  forall_congr' fun e => imp_congr_right fun _ => h e

/-- What can fail in no way succeeds. -/
theorem failsOnly_false : FailsOnly (fun _ => False) x ↔ ∃ a, x = .ok a := by
  cases x <;> simp

end failsOnly

end Fallible
