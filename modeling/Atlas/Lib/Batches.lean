import Mathlib

/-! Working off a list in batches. A round takes at most `size` of the items still pending, in an order
    nobody controls, and is done with the keys it took. No item is taken twice (`not_mem_batch`), with keys
    that tell the items apart none is lost (`mem_pending_or_taken`), and the rounds come to an end
    (`exists_pending_nil`), since each leaves fewer items (`length_pending_succ`). -/

/-- The order in which the items still pending are found, round by round. -/
structure Scan (α : Type*) where
  order : ℕ → List α → List α
  perm : ∀ n l, (order n l).Perm l

namespace Scan

variable {α κ : Type*} (scan : Scan α)

/-- The first items of a round. -/
def take (size n : ℕ) (l : List α) : List α := (scan.order n l).take size

variable {scan} {size n : ℕ} {l : List α} {a : α}

theorem mem_of_mem_take (h : a ∈ scan.take size n l) : a ∈ l :=
  (scan.perm n l).subset (List.mem_of_mem_take h)

theorem length_take : (scan.take size n l).length = min size l.length := by
  rw [take, List.length_take, (scan.perm n l).length_eq]

theorem nodup_take {key : α → κ} (h : (l.map key).Nodup) : ((scan.take size n l).map key).Nodup := by
  have hfound : ((scan.order n l).map key).Nodup := ((scan.perm n l).map key).nodup_iff.mpr h
  exact hfound.sublist ((List.take_sublist _ _).map key)

end Scan

namespace Batches

variable {α κ : Type*} [DecidableEq κ] (scan : Scan α) (key : α → κ) (size : ℕ) (items : List α)

/-- What is pending after some rounds. -/
def pending : ℕ → List α
  | 0 => items
  | n + 1 => (pending n).filter (fun a => key a ∉ (scan.take size n (pending n)).map key)

/-- What a round takes. -/
def batch (n : ℕ) : List α := scan.take size n (pending scan key size items n)

variable {scan key size items} {n m : ℕ} {a : α}

/-! ### One round -/

theorem mem_pending_succ : a ∈ pending scan key size items (n + 1) ↔
    a ∈ pending scan key size items n ∧ key a ∉ (batch scan key size items n).map key := by
  simp [pending, batch]

theorem mem_pending_of_mem_batch (h : a ∈ batch scan key size items n) :
    a ∈ pending scan key size items n := Scan.mem_of_mem_take h

/-- A round without items finds none pending. -/
theorem batch_eq_nil_iff (hsize : 0 < size) :
    batch scan key size items n = [] ↔ pending scan key size items n = [] := by
  rw [← List.length_eq_zero_iff, ← List.length_eq_zero_iff, batch, Scan.length_take]
  omega

theorem length_pending_succ (hsize : 0 < size) (h : pending scan key size items n ≠ []) :
    (pending scan key size items (n + 1)).length < (pending scan key size items n).length := by
  obtain ⟨a, ha⟩ := List.exists_mem_of_ne_nil _ (mt (batch_eq_nil_iff hsize).mp h)
  refine List.length_filter_lt_length_iff_exists.mpr ⟨a, mem_pending_of_mem_batch ha, ?_⟩
  simpa using ⟨a, ha, rfl⟩

/-! ### Rounds -/

theorem pending_sublist (h : m ≤ n) :
    (pending scan key size items n).Sublist (pending scan key size items m) := by
  induction n, h using Nat.le_induction with
  | base => exact List.Sublist.refl _
  | succ n _ ih => exact List.filter_sublist.trans ih

/-- A round that takes something comes after rounds that do. -/
theorem batch_ne_nil_of_le (hsize : 0 < size) (h : m ≤ n) (hn : batch scan key size items n ≠ []) :
    batch scan key size items m ≠ [] := by
  rw [Ne, batch_eq_nil_iff hsize] at hn ⊢
  intro hm
  exact hn (List.sublist_nil.mp (hm ▸ pending_sublist h))

theorem mem_of_mem_batch (h : a ∈ batch scan key size items n) : a ∈ items :=
  (pending_sublist (Nat.zero_le n)).subset (mem_pending_of_mem_batch h)

/-- No item is taken again. -/
theorem not_mem_batch (ha : a ∈ batch scan key size items m) (h : m < n) :
    a ∉ batch scan key size items n := by
  intro hmem
  have hsucc := (pending_sublist (Nat.succ_le_of_lt h)).subset (mem_pending_of_mem_batch hmem)
  exact (mem_pending_succ.mp hsucc).2 (List.mem_map_of_mem ha)

/-- What is no longer pending was taken in some round. -/
theorem mem_pending_or_taken (hkey : (items.map key).Nodup) (ha : a ∈ items) (n : ℕ) :
    a ∈ pending scan key size items n ∨ ∃ m < n, a ∈ batch scan key size items m := by
  induction n with
  | zero => exact Or.inl ha
  | succ n ih =>
    rcases ih with hpending | ⟨m, hm, htaken⟩
    · by_cases hmem : key a ∈ (batch scan key size items n).map key
      · obtain ⟨b, hb, heq⟩ := List.mem_map.mp hmem
        obtain rfl : b = a := List.inj_on_of_nodup_map hkey (mem_of_mem_batch hb) ha heq
        exact Or.inr ⟨n, Nat.lt_succ_self n, hb⟩
      · exact Or.inl (mem_pending_succ.mpr ⟨hpending, hmem⟩)
    · exact Or.inr ⟨m, Nat.lt_succ_of_lt hm, htaken⟩

/-- Every round that found something left one item fewer at least. -/
theorem length_pending_add (hsize : 0 < size) (h : ∀ m < n, pending scan key size items m ≠ []) :
    (pending scan key size items n).length + n ≤ items.length := by
  induction n with
  | zero => simp [pending]
  | succ n ih =>
    have hless := length_pending_succ hsize (h n (Nat.lt_succ_self n))
    have hbound := ih (fun m hm => h m (Nat.lt_succ_of_lt hm))
    omega

/-- The rounds end, and every round before the end takes something. -/
theorem exists_pending_nil (scan : Scan α) (key : α → κ) (items : List α) (hsize : 0 < size) :
    ∃ n, pending scan key size items n = [] ∧ ∀ m < n, batch scan key size items m ≠ [] := by
  have hend : ∃ n, pending scan key size items n = [] := by
    by_contra hnone
    rw [not_exists] at hnone
    have hover := length_pending_add (n := items.length + 1) hsize (fun m _ => hnone m)
    omega
  classical
  refine ⟨Nat.find hend, Nat.find_spec hend, fun m hm => ?_⟩
  exact mt (batch_eq_nil_iff hsize).mp (Nat.find_min hend hm)

end Batches
