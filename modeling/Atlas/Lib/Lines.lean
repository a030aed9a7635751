import Atlas.Lib.Text

/-! The lines of a text. Texts put together with line breaks between them are the lines of the whole exactly
    when none of them has a break of its own (`lines_intercalate_iff`). -/

namespace Text

/-- `s.split("\n")`. -/
def lines (s : String) : List String := splitOn (· == '\n') s

/-- A part between separators has none. -/
theorem not_mem_of_mem_splitOnP {c : Char} {part cs : List Char} (h : part ∈ cs.splitOnP (· == c)) :
    c ∉ part := by
  induction cs generalizing part with
  | nil =>
    rw [List.splitOnP_nil, List.mem_singleton] at h
    rw [h]
    exact List.not_mem_nil
  | cons d cs ih =>
    rw [List.splitOnP_cons_eq_if_modifyHead] at h
    split at h
    next =>
      rcases List.mem_cons.mp h with rfl | h
      · exact List.not_mem_nil
      · exact ih h
    next hd =>
      cases hparts : cs.splitOnP (· == c) with
      | nil => exact absurd hparts (List.splitOnP_ne_nil _ _)
      | cons first rest =>
        rw [hparts, List.modifyHead_cons] at h
        rcases List.mem_cons.mp h with rfl | h
        · rw [List.mem_cons, not_or]
          exact ⟨fun heq => hd (by simp [heq]), ih (hparts ▸ List.mem_cons_self)⟩
        · exact ih (hparts ▸ List.mem_cons_of_mem _ h)

/-- A line has no break. -/
theorem not_mem_of_mem_lines {line s : String} (h : line ∈ lines s) : '\n' ∉ line.toList := by
  obtain ⟨part, hpart, rfl⟩ := List.mem_map.mp h
  rw [String.toList_ofList]
  exact not_mem_of_mem_splitOnP hpart

/-- Texts with breaks between them are lines if they have none themselves, and only then. -/
theorem lines_intercalate_iff {texts : List String} (hne : texts ≠ []) :
    lines ("\n".intercalate texts) = texts ↔ ∀ text ∈ texts, '\n' ∉ text.toList := by
  constructor
  · intro h text htext
    rw [← h] at htext
    exact not_mem_of_mem_lines htext
  · intro h
    have hbreak : "\n".toList = ['\n'] := by decide
    have hsplit : (['\n'].intercalate (texts.map String.toList)).splitOn '\n' = texts.map String.toList :=
      List.splitOn_intercalate '\n' (by simpa using h) (by simpa using hne)
    rw [List.splitOn_eq_splitOnP] at hsplit
    rw [lines, splitOn, String.toList_intercalate, hbreak, hsplit, List.map_map]
    exact (List.map_congr_left fun text _ => String.ofList_toList).trans (List.map_id texts)

end Text
