import Mathlib

/-! Reading a list in pages of a fixed size: an offset and a limit select a window, an empty window means
    the offset is at the end, a short one that the window reaches it, and the windows read so far are a
    prefix of the list. -/

namespace Paging

variable {α : Type*}

/-- `LIMIT batch OFFSET offset`. -/
def page (l : List α) (offset batch : ℕ) : List α := (l.drop offset).take batch

theorem length_page (l : List α) (offset batch : ℕ) :
    (page l offset batch).length = min batch (l.length - offset) := by
  rw [page, List.length_take, List.length_drop]

/-- With a positive page size, an empty page means that everything was read. -/
theorem page_eq_nil_iff {l : List α} {offset batch : ℕ} (hbatch : 0 < batch) :
    page l offset batch = [] ↔ l.length ≤ offset := by
  rw [← List.length_eq_zero_iff, length_page]
  omega

/-- What was read before a page and the page itself are what was read after it. -/
theorem take_append_page (l : List α) (offset batch : ℕ) :
    l.take offset ++ page l offset batch = l.take (offset + batch) := by
  rw [page, List.take_add]

/-- A short page is the last one. -/
theorem length_le_of_short {l : List α} {offset batch : ℕ} (h : (page l offset batch).length < batch) :
    l.length ≤ offset + (page l offset batch).length := by
  rw [length_page] at h ⊢
  omega

theorem take_offset_add_length {l : List α} {offset batch : ℕ} :
    l.take offset ++ page l offset batch = l.take (offset + (page l offset batch).length) := by
  rw [take_append_page, length_page]
  rcases Nat.le_total batch (l.length - offset) with h | h
  · rw [min_eq_left h]
  · rw [min_eq_right h, List.take_of_length_le (by omega), List.take_of_length_le (by omega)]

end Paging
