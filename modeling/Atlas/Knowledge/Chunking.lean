import Atlas.Knowledge.Ingestion
import Atlas.Lib.Windows

/-! The windows of `chunk_text`. Its loop, bounded by the number of characters, runs to its own end
    (`chunkFrom_eq_windows`), and what it cuts is the stripped text: windows of the chunk size, each
    starting a step after the one before it, that put together without their overlaps give the text back
    (`chunkText_covers`). -/

namespace Atlas

open Text Windows

/-- The loop of `chunk_text` ends by itself before its bound. -/
theorem chunkFrom_eq_windows {t : List Char} {size step fuel start : ℕ} (hstep : 0 < step)
    (hsize : step ≤ size) (hstart : start < t.length) (hfuel : t.length ≤ start + fuel) :
    chunkFrom t size step fuel start = (windows size step hstep (t.drop start)).map String.ofList := by
  induction fuel generalizing start with
  | zero => omega
  | succ fuel ih =>
    rw [chunkFrom, if_pos hstart]
    by_cases hlast : t.length ≤ start + size
    · have hle : (t.drop start).length ≤ size := by rw [List.length_drop]; omega
      rw [if_pos hlast, windows_of_le hle, List.take_of_length_le hle]
      rfl
    · have hlt : size < (t.drop start).length := by rw [List.length_drop]; omega
      rw [if_neg hlast, windows_of_lt hlt, List.drop_drop, ih (by omega) (by omega)]
      rfl

/-- What `chunk_text` returns, in one case: the windows of the stripped text, if there is any. -/
theorem chunkText_eq {text : String} {chunkSize overlap : ℤ} (hsize : 0 < chunkSize) (hoverlap : 0 ≤ overlap)
    (hlt : overlap < chunkSize) :
    chunkText text chunkSize overlap = .ok (if strip text = "" then [] else
      (windows chunkSize.toNat (chunkSize - overlap).toNat (by omega) (strip text).toList).map
        String.ofList) := by
  rw [chunkText, if_neg (by omega), if_neg (by simp [hoverlap, hlt])]
  simp only
  split
  next => rfl
  next hne =>
    have hpos : 0 < (strip text).toList.length := by
      rw [List.length_pos_iff]
      exact fun h => hne (String.toList_injective h)
    by_cases hle : (strip text).length ≤ chunkSize.toNat
    · rw [if_pos hle, windows_of_le (by rwa [String.length_toList])]
      simp only [List.map_cons, List.map_nil, String.ofList_toList]
    · rw [if_neg hle, chunkFrom_eq_windows (by omega) (by omega) hpos
        (by rw [String.length_toList]; omega), List.drop_zero]

/-- The first chunk and each later one without its first `overlap` characters. -/
def rejoin (overlap : ℕ) : List String → String
  | [] => ""
  | chunk :: chunks => chunk ++ String.join (chunks.map (dropChars overlap))

/-- The chunks are windows over a text: each starts a step after the one before it, shares exactly
    `overlap` characters with it and goes on past its end, and together they are the text. -/
structure SlidingWindows (size overlap : ℕ) (text : String) (chunks : List String) : Prop where
  position : ∀ i (h : i < chunks.length),
    chunks[i] = String.ofList ((text.toList.drop (i * (size - overlap))).take size)
  bounded : ∀ chunk ∈ chunks, chunk ≠ "" ∧ chunk.length ≤ size
  shares : chunks.IsChain (fun chunk next => ∃ before shared new, chunk = before ++ shared ∧
    next = shared ++ new ∧ before.length = size - overlap ∧ shared.length = overlap ∧ new ≠ "")
  joined : rejoin overlap chunks = text

theorem rejoin_map_ofList (overlap : ℕ) (ws : List (List Char)) :
    rejoin overlap (ws.map String.ofList) = String.ofList (join overlap ws) := by
  cases ws with
  | nil => rfl
  | cons w ws =>
    have hdrop : ((ws.map String.ofList).map (dropChars overlap)).map String.toList =
        ws.map (List.drop overlap) := by
      rw [List.map_map, List.map_map]
      refine List.map_congr_left fun v _ => ?_
      simp only [Function.comp_apply, dropChars, String.toList_ofList]
    rw [List.map_cons, rejoin, String.join_eq, hdrop, join, String.ofList_append]

/-- A window of a non-empty text has a character, and not too many. -/
theorem bounded_window {size step : ℕ} {hstep : 0 < step} (hsize : step ≤ size) {text : String}
    (htext : text ≠ "") {w : List Char} (hw : w ∈ windows size step hstep text.toList) :
    String.ofList w ≠ "" ∧ (String.ofList w).length ≤ size := by
  obtain ⟨hne, hlen⟩ := length_windows hsize (fun h => htext (String.toList_injective h)) hw
  refine ⟨fun h => hne ?_, by rwa [String.length_ofList]⟩
  rw [← String.toList_ofList (l := w), h, String.toList_empty]

/-- Windows of a non-empty text slide over it. -/
theorem slidingWindows_map {size step overlap : ℕ} {hstep : 0 < step} {text : String}
    (hsize : size = step + overlap) (htext : text ≠ "") :
    SlidingWindows size overlap text ((windows size step hstep text.toList).map String.ofList) where
  position i h := by
    have hi : size - overlap = step := by omega
    rw [List.getElem_map, getElem_windows, hi]
  bounded := List.forall_mem_map.mpr fun _ hw => bounded_window (by omega) htext hw
  shares := by
    rw [List.isChain_map]
    refine (isChain_windows hsize).imp fun a b h => ?_
    refine ⟨String.ofList (a.take step), String.ofList (a.drop step), String.ofList (b.drop overlap),
      ?_, ?_, ?_, ?_, ?_⟩
    · rw [← String.ofList_append, List.take_append_drop]
    · rw [← String.ofList_append, ← h.shared, List.take_append_drop]
    · rw [String.length_ofList, List.length_take, h.step_overlap]
      omega
    · rw [String.length_ofList, List.length_drop, h.step_overlap, Nat.add_sub_cancel_left]
    · intro hempty
      have hlen := congrArg String.length hempty
      rw [String.length_ofList, List.length_drop, String.length_empty] at hlen
      have hnew := h.new
      omega
  joined := by rw [rejoin_map_ofList, join_windows hsize, String.ofList_toList]

/-- No window is empty. -/
theorem ne_empty_of_mem_chunkText {text : String} {chunkSize overlap : ℤ} {chunks : List String}
    (h : chunkText text chunkSize overlap = .ok chunks) {x : String} (hx : x ∈ chunks) : x ≠ "" := by
  obtain ⟨hsize, hoverlap, hlt⟩ : 0 < chunkSize ∧ 0 ≤ overlap ∧ overlap < chunkSize := by
    simp only [chunkText, Fallible.ite_error_eq_ok] at h
    exact ⟨not_le.mp h.1, not_not.mp h.2.1⟩
  rw [chunkText_eq hsize hoverlap hlt, Except.ok.injEq] at h
  subst h
  split at hx
  next => cases hx
  next hne =>
    obtain ⟨w, hw, rfl⟩ := List.mem_map.mp hx
    exact (bounded_window (by omega) hne hw).1

/-- `chunk_text` terminates, returns nothing exactly for a text that strips to nothing, and otherwise
    slides over the stripped text from its first character to its last. -/
theorem chunkText_covers (text : String) (chunkSize overlap : ℤ) (hsize : 0 < chunkSize)
    (hoverlap : 0 ≤ overlap) (hlt : overlap < chunkSize) :
    ∃ chunks, chunkText text chunkSize overlap = .ok chunks ∧ (chunks = [] ↔ strip text = "") ∧
      SlidingWindows chunkSize.toNat overlap.toNat (strip text) chunks ∧
      ∀ fuel, (strip text).length ≤ fuel →
        chunkFrom (strip text).toList chunkSize.toNat (chunkSize - overlap).toNat fuel 0 =
          chunkFrom (strip text).toList chunkSize.toNat (chunkSize - overlap).toNat (strip text).length 0 := by
  refine ⟨_, chunkText_eq hsize hoverlap hlt, ?_⟩
  by_cases hempty : strip text = ""
  · rw [if_pos hempty, hempty]
    refine ⟨by simp, ⟨fun i h => ?_, by simp, List.isChain_nil, rfl⟩, fun fuel _ => ?_⟩
    · exact absurd h (Nat.not_lt_zero i)
    · cases fuel <;> rfl
  · have hpos : 0 < (strip text).toList.length := by
      rw [List.length_pos_iff]
      exact fun h => hempty (String.toList_injective h)
    rw [if_neg hempty]
    refine ⟨?_, slidingWindows_map (by omega) hempty, fun fuel hfuel => ?_⟩
    · obtain ⟨ws, hws⟩ := exists_windows chunkSize.toNat (chunkSize - overlap).toNat (by omega)
        (strip text).toList
      rw [hws]
      exact iff_of_false (List.cons_ne_nil _ _) hempty
    · rw [chunkFrom_eq_windows (by omega) (by omega) hpos
          (by rw [String.length_toList]; omega),
        chunkFrom_eq_windows (by omega) (by omega) hpos (by rw [String.length_toList]; omega)]

/-- Three windows of four characters over eight. -/
theorem chunkText_covers_letters :
    SlidingWindows 4 2 "abcdefgh" ["abcd", "cdef", "efgh"] := by
  obtain ⟨chunks, hchunks, -, h, -⟩ := chunkText_covers " abcdefgh\n" 4 2 (by decide) (by decide) (by decide)
  obtain rfl : chunks = ["abcd", "cdef", "efgh"] := Except.ok.inj (hchunks.symm.trans rfl)
  exact h

end Atlas
