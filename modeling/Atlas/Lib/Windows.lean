import Mathlib

/-! Cutting a list into overlapping windows: each is `size` long but the last, and starts `step` after the
    one before it. Nothing is lost and nothing is read twice beyond the overlap of `size - step`: that is
    `join_windows`, for every length and every pair of sizes with `0 < step ≤ size`. -/

namespace Windows

variable {α : Type*}

/-- The windows of a list. -/
def windows (size step : ℕ) (hstep : 0 < step) (l : List α) : List (List α) :=
  if l.length ≤ size then [l] else l.take size :: windows size step hstep (l.drop step)
termination_by l.length
decreasing_by
  rw [List.length_drop]
  omega

variable {size step : ℕ} {hstep : 0 < step}

theorem windows_of_le {l : List α} (h : l.length ≤ size) : windows size step hstep l = [l] := by
  rw [windows, if_pos h]

theorem windows_of_lt {l : List α} (h : size < l.length) :
    windows size step hstep l = l.take size :: windows size step hstep (l.drop step) := by
  rw [windows, if_neg (by omega)]

/-- The first window is the front of the list. -/
theorem exists_windows (size step : ℕ) (hstep : 0 < step) (l : List α) :
    ∃ ws, windows size step hstep l = l.take size :: ws := by
  by_cases h : l.length ≤ size
  · exact ⟨[], by rw [windows_of_le h, List.take_of_length_le h]⟩
  · exact ⟨_, windows_of_lt (by omega)⟩

/-- The window in place `i` starts at `i * step`. -/
theorem getElem_windows {l : List α} {i : ℕ} (h : i < (windows size step hstep l).length) :
    (windows size step hstep l)[i] = (l.drop (i * step)).take size := by
  induction l using windows.induct size step hstep generalizing i with
  | case1 l hle =>
    simp only [windows_of_le hle, List.length_singleton] at h ⊢
    obtain rfl : i = 0 := by omega
    rw [List.getElem_cons_zero, Nat.zero_mul, List.drop_zero, List.take_of_length_le hle]
  | case2 l hlt ih =>
    simp only [windows_of_lt (by omega : size < l.length)] at h ⊢
    cases i with
    | zero => rw [List.getElem_cons_zero, Nat.zero_mul, List.drop_zero]
    | succ i =>
      rw [List.getElem_cons_succ, ih (by simpa using h), List.drop_drop]
      congr 2
      ring

/-- No window is empty or too long. -/
theorem length_windows {l w : List α} (hsize : step ≤ size) (hl : l ≠ [])
    (h : w ∈ windows size step hstep l) : w ≠ [] ∧ w.length ≤ size := by
  induction l using windows.induct size step hstep with
  | case1 l hle =>
    rw [windows_of_le hle, List.mem_singleton] at h
    subst h
    exact ⟨hl, hle⟩
  | case2 l hlt ih =>
    rw [windows_of_lt (by omega), List.mem_cons] at h
    rcases h with rfl | h
    · refine ⟨?_, List.length_take_le _ _⟩
      rw [← List.length_pos_iff, List.length_take]
      omega
    · refine ih ?_ h
      rw [← List.length_pos_iff, List.length_drop]
      omega

/-- `b` starts `step` after `a` and goes on past its end: they share what is left of `a`, `overlap` long. -/
structure Continues (step overlap : ℕ) (a b : List α) : Prop where
  shared : b.take overlap = a.drop step
  step_overlap : a.length = step + overlap
  new : overlap < b.length

/-- Each window continues the one before it. -/
theorem isChain_windows {l : List α} {overlap : ℕ} (hsize : size = step + overlap) :
    (windows size step hstep l).IsChain (Continues step overlap) := by
  induction l using windows.induct size step hstep with
  | case1 l hle => rw [windows_of_le hle]; exact List.isChain_singleton l
  | case2 l hlt ih =>
    obtain ⟨ws, hw⟩ := exists_windows size step hstep (l.drop step)
    rw [hw] at ih
    rw [windows_of_lt (by omega), hw, List.isChain_cons_cons]
    refine ⟨⟨?_, ?_, ?_⟩, ih⟩
    · rw [List.take_take, List.drop_take, hsize, min_eq_left (by omega), Nat.add_sub_cancel_left]
    · rw [List.length_take]
      omega
    · rw [List.length_take, List.length_drop]
      omega

/-- The first window and what each later one adds. -/
def join (overlap : ℕ) : List (List α) → List α
  | [] => []
  | w :: ws => w ++ (ws.map (List.drop overlap)).flatten

/-- Together they are the list. -/
theorem join_windows {overlap : ℕ} (hsize : size = step + overlap) (l : List α) :
    join overlap (windows size step hstep l) = l := by
  induction l using windows.induct size step hstep with
  | case1 l hle => rw [windows_of_le hle, join, List.map_nil, List.flatten_nil, List.append_nil]
  | case2 l hlt ih =>
    have hfront : l.take size = l.take step ++ (l.drop step).take overlap := by
      rw [hsize, List.take_add]
    obtain ⟨ws, hw⟩ := exists_windows size step hstep (l.drop step)
    have hshared : ((l.drop step).take size).take overlap = (l.drop step).take overlap := by
      rw [List.take_take, min_eq_left (by omega)]
    rw [windows_of_lt (by omega)]
    rw [hw] at ih ⊢
    calc l.take size ++ (((l.drop step).take size :: ws).map (List.drop overlap)).flatten
        = l.take step ++ (((l.drop step).take size).take overlap ++
            ((l.drop step).take size).drop overlap ++ (ws.map (List.drop overlap)).flatten) := by
          rw [hshared, hfront, List.map_cons, List.flatten_cons]
          simp only [List.append_assoc]
      _ = l.take step ++ join overlap ((l.drop step).take size :: ws) := by
          rw [List.take_append_drop, join]
      _ = l := by rw [ih, List.take_append_drop]

end Windows
