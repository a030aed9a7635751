import Mathlib

/-! Reading from rankings that change as more is known. In round `n` the ranking is `ranking n`, and what was
    not put out in an earlier round is put out in its order. `Precedes` says of two items, by the rankings
    alone, which one comes out first, and `take_eq_take_iff` when the first items put out are those of
    another order. -/

namespace Ranking

variable {α : Type*}

/-! ### Two orders of the same items -/

/-- The first `n` items of a list come before all that follow them in the sense of `R`. -/
def Agrees (R : α → α → Prop) (n : ℕ) (l : List α) : Prop :=
  ∀ i j x y, i < j → i < n → l[i]? = some x → l[j]? = some y → R x y

theorem agrees_cons {R : α → α → Prop} {n : ℕ} {a : α} {l : List α} :
    Agrees R (n + 1) (a :: l) ↔ (∀ y ∈ l, R a y) ∧ Agrees R n l := by
  constructor
  · intro h
    refine ⟨fun y hy => ?_, fun i j x y hij hi hx hy => ?_⟩
    · obtain ⟨j, hj⟩ := List.mem_iff_getElem?.mp hy
      exact h 0 (j + 1) a y (Nat.succ_pos j) (Nat.succ_pos n) rfl (by rw [List.getElem?_cons_succ, hj])
    · exact h (i + 1) (j + 1) x y (by omega) (by omega) (by rw [List.getElem?_cons_succ, hx])
        (by rw [List.getElem?_cons_succ, hy])
  · rintro ⟨ha, hl⟩ i j x y hij hi hx hy
    obtain ⟨j, rfl⟩ : ∃ k, j = k + 1 := ⟨j - 1, by omega⟩
    rw [List.getElem?_cons_succ] at hy
    cases i with
    | zero =>
      cases hx
      exact ha y (List.mem_of_getElem? hy)
    | succ i =>
      rw [List.getElem?_cons_succ] at hx
      exact hl i j x y (by omega) (by omega) hx hy

/-- Of two lists of the same items, the first ordered by `R`, the first `n` items are the same exactly when
    the second list agrees with `R` on them. -/
theorem take_eq_take_iff {R : α → α → Prop} (hasymm : ∀ x y, R x y → ¬R y x) {l m : List α}
    (hl : l.Pairwise R) (hp : l.Perm m) (n : ℕ) : l.take n = m.take n ↔ Agrees R n m := by
  induction n generalizing l m with
  | zero => exact iff_of_true rfl fun _ _ _ _ _ hi => absurd hi (Nat.not_lt_zero _)
  | succ n ih =>
    cases l with
    | nil =>
      rw [List.nil_perm.mp hp]
      exact iff_of_true rfl fun _ _ _ _ _ _ hx => by cases hx
    | cons a l =>
      cases m with
      | nil => exact absurd (List.perm_nil.mp hp) (List.cons_ne_nil a l)
      | cons b m =>
        rw [List.pairwise_cons] at hl
        rw [agrees_cons, List.take_succ_cons, List.take_succ_cons, List.cons.injEq]
        -- where the second list agrees, neither head can stand behind the other
        have hhead : (∀ y ∈ m, R b y) → a = b := by
          intro hb
          by_contra hne
          have hbl : b ∈ l := List.mem_of_ne_of_mem (Ne.symm hne) (hp.symm.subset List.mem_cons_self)
          have ham : a ∈ m := List.mem_of_ne_of_mem hne (hp.subset List.mem_cons_self)
          exact hasymm a b (hl.1 b hbl) (hb a ham)
        constructor
        · rintro ⟨rfl, htake⟩
          have hperm := (List.perm_cons a).mp hp
          exact ⟨fun y hy => hl.1 y (hperm.symm.subset hy), (ih hl.2 hperm).mp htake⟩
        · rintro ⟨hb, hrest⟩
          obtain rfl := hhead hb
          exact ⟨rfl, (ih hl.2 ((List.perm_cons a).mp hp)).mpr hrest⟩

/-! ### Rounds -/

variable [DecidableEq α] {ranking : ℕ → List α}

/-- What the rounds before `n` put out. -/
def emit (ranking : ℕ → List α) : ℕ → List α
  | 0 => []
  | n + 1 => emit ranking n ++ (ranking n).filter (· ∉ emit ranking n)

/-- `x` is ranked in a round before which neither is, and there `y` is missing or ranked behind it. -/
def Precedes (ranking : ℕ → List α) (x y : α) : Prop :=
  ∃ n, x ∈ ranking n ∧ (∀ j < n, x ∉ ranking j ∧ y ∉ ranking j) ∧
    (y ∈ ranking n → (ranking n).idxOf x < (ranking n).idxOf y)

theorem precedes_asymm {x y : α} (h : Precedes ranking x y) : ¬Precedes ranking y x := by
  rintro ⟨k, hy, hbefore', hlt'⟩
  obtain ⟨n, hx, hbefore, hlt⟩ := h
  rcases Nat.lt_trichotomy n k with hnk | rfl | hkn
  · exact (hbefore' n hnk).2 hx
  · exact absurd (hlt hy) (not_lt.mpr (hlt' hx).le)
  · exact (hbefore k hkn).2 hy

theorem mem_emit {n : ℕ} {x : α} : x ∈ emit ranking n ↔ ∃ j < n, x ∈ ranking j := by
  induction n with
  | zero => simp [emit]
  | succ n ih =>
    rw [emit, List.mem_append, List.mem_filter, decide_eq_true_eq, ih]
    constructor
    · rintro (⟨j, hj, hx⟩ | ⟨hx, -⟩)
      · exact ⟨j, by omega, hx⟩
      · exact ⟨n, Nat.lt_succ_self n, hx⟩
    · rintro ⟨j, hj, hx⟩
      by_cases hout : ∃ j < n, x ∈ ranking j
      · exact Or.inl hout
      · obtain rfl : j = n := by
          by_contra hne
          exact hout ⟨j, by omega, hx⟩
        exact Or.inr ⟨hx, hout⟩

/-- Later rounds only add. -/
theorem emit_prefix {n k : ℕ} (h : n ≤ k) : emit ranking n <+: emit ranking k := by
  induction k, h using Nat.le_induction with
  | base => exact List.prefix_refl _
  | succ k _ ih => exact ih.trans (List.prefix_append _ _)

/-- Rounds with nothing new change nothing. -/
theorem emit_eq_of_subset {n k : ℕ} (h : n ≤ k) (hsub : ∀ j, n ≤ j → j < k → ∀ x ∈ ranking j, x ∈ emit ranking n) :
    emit ranking k = emit ranking n := by
  induction k, h using Nat.le_induction with
  | base => rfl
  | succ k hk ih =>
    have hsame := ih fun j hj hjk => hsub j hj (by omega)
    rw [emit, hsame, List.filter_eq_nil_iff.mpr, List.append_nil]
    intro x hx
    simpa using hsub k hk (Nat.lt_succ_self k) x hx

/-- A list without repeats is in the order of its indices. -/
theorem pairwise_idxOf {l : List α} (h : l.Nodup) : l.Pairwise (fun x y => l.idxOf x < l.idxOf y) := by
  rw [List.pairwise_iff_getElem]
  intro i j hi hj hij
  rw [h.idxOf_getElem, h.idxOf_getElem]
  exact hij

/-- What comes out is in the order of `Precedes`. -/
theorem pairwise_emit (hnodup : ∀ n, (ranking n).Nodup) (n : ℕ) :
    (emit ranking n).Pairwise (Precedes ranking) := by
  induction n with
  | zero => exact List.Pairwise.nil
  | succ n ih =>
    have hnew : ∀ y, y ∉ emit ranking n → ∀ j < n, y ∉ ranking j :=
      fun y hy j hj hmem => hy (mem_emit.mpr ⟨j, hj, hmem⟩)
    rw [emit, List.pairwise_append]
    refine ⟨ih, ?_, fun x hx y hy => ?_⟩
    · -- two items of the same round
      refine ((pairwise_idxOf (hnodup n)).filter _).imp_of_mem fun {x y} hx hy hxy => ?_
      rw [List.mem_filter, decide_eq_true_eq] at hx hy
      exact ⟨n, hx.1, fun j hj => ⟨hnew x hx.2 j hj, hnew y hy.2 j hj⟩, fun _ => hxy⟩
    · -- an item of an earlier round and a new one
      rw [List.mem_filter, decide_eq_true_eq] at hy
      have hex := mem_emit.mp hx
      obtain ⟨hlt, hmem⟩ := Nat.find_spec hex
      refine ⟨Nat.find hex, hmem, fun j hj => ⟨fun hxj => ?_, hnew y hy.2 j (by omega)⟩, fun hyn => ?_⟩
      · exact Nat.find_min hex hj ⟨by omega, hxj⟩
      · exact absurd hyn (hnew y hy.2 _ hlt)

theorem nodup_emit (hnodup : ∀ n, (ranking n).Nodup) (n : ℕ) : (emit ranking n).Nodup := by
  refine List.nodup_iff_pairwise_ne.mpr ((pairwise_emit hnodup n).imp ?_)
  rintro x _ h rfl
  exact precedes_asymm h h

end Ranking
