import Mathlib

/-! Lists of parties that move one at a time. A system of any number of parties is a list; party `i` moves
    by a change at index `i`. What a move does to a count and to a fact about all parties is all that an
    invariant over the parties needs. -/

namespace Parties

variable {α : Type*} {l : List α} {i : ℕ} {x y : α}

theorem lt_length_of_get (h : l[i]? = some x) : i < l.length :=
  (List.getElem?_eq_some_iff.mp h).1

/-- A count before and after party `i` moves from `x` to `y`. -/
theorem countP_move (p : α → Bool) (y : α) (h : l[i]? = some x) :
    (l.set i y).countP p + (p x).toNat = l.countP p + (p y).toNat := by
  obtain ⟨hi, rfl⟩ := List.getElem?_eq_some_iff.mp h
  rw [List.countP_set hi]
  have hle : (p l[i]).toNat ≤ l.countP p := by
    cases hx : p l[i] with
    | false => exact Nat.zero_le _
    | true => exact List.countP_pos_iff.mpr ⟨_, List.getElem_mem hi, hx⟩
  generalize p l[i] = b at hle ⊢
  cases b <;> cases p y <;>
    simp only [Bool.toNat_false, Bool.toNat_true, Bool.false_eq_true, if_true, if_false] at hle ⊢ <;> omega

/-- What stands around a party stays as it is when the party moves. -/
theorem exists_around (h : l[i]? = some x) : ∃ before after, l = before ++ x :: after ∧
    ∀ y, l.set i y = before ++ y :: after := by
  obtain ⟨hi, rfl⟩ := List.getElem?_eq_some_iff.mp h
  refine ⟨l.take i, l.drop (i + 1), ?_, fun y => ?_⟩
  · rw [← List.drop_eq_getElem_cons hi, List.take_append_drop]
  · rw [List.set_eq_take_append_cons_drop, if_pos hi]

/-- A party that stays uncounted changes nothing for the counted ones. -/
theorem filter_move {p : α → Bool} (h : l[i]? = some x) (hx : p x = false) (hy : p y = false) :
    (l.set i y).filter p = l.filter p := by
  obtain ⟨before, after, hl, hmove⟩ := exists_around h
  rw [hmove, hl, List.filter_append, List.filter_append, List.filter_cons_of_neg (by simp [hy]),
    List.filter_cons_of_neg (by simp [hx])]

/-- A party that comes to count joins the counted ones. -/
theorem filter_move_perm {p : α → Bool} (h : l[i]? = some x) (hx : p x = false) (hy : p y = true) :
    ((l.set i y).filter p).Perm (y :: l.filter p) := by
  obtain ⟨before, after, hl, hmove⟩ := exists_around h
  rw [hmove, hl, List.filter_append, List.filter_append, List.filter_cons_of_pos hy,
    List.filter_cons_of_neg (by simp [hx])]
  exact List.perm_middle

/-- A fact about every party survives a move to a value that has it. -/
theorem forall_move {P : α → Prop} (h : ∀ a ∈ l, P a) (hy : P y) : ∀ a ∈ l.set i y, P a := by
  intro a ha
  rcases List.mem_or_eq_of_mem_set ha with ha | rfl
  · exact h a ha
  · exact hy

theorem get_move (h : l[i]? = some x) (y : α) (j : ℕ) :
    (l.set i y)[j]? = if j = i then some y else l[j]? := by
  rw [List.getElem?_set]
  by_cases hj : i = j
  · subst hj; simp [lt_length_of_get h]
  · rw [if_neg hj, if_neg (Ne.symm hj)]

/-- A party of an extended list is an old one, at its place, or the new one. -/
theorem get_concat {a : α} (h : (l ++ [a])[i]? = some x) : l[i]? = some x ∨ x = a := by
  rw [List.getElem?_append] at h
  split at h
  next => exact Or.inl h
  next => exact Or.inr (List.mem_singleton.mp (List.mem_of_getElem? h))

/-- A party after a move is the one that moved or an old one that did not. -/
theorem get_move_cases {j : ℕ} (h : (l.set i y)[j]? = some x) (hi : l[i]? ≠ none) :
    j = i ∧ x = y ∨ j ≠ i ∧ l[j]? = some x := by
  obtain ⟨z, hz⟩ := Option.ne_none_iff_exists'.mp hi
  rw [get_move hz] at h
  split at h
  next hj => exact Or.inl ⟨hj, (Option.some.inj h).symm⟩
  next hj => exact Or.inr ⟨hj, h⟩

/-- A counted party is there. -/
theorem countP_pos_of_get (p : α → Bool) (h : l[i]? = some x) (hp : p x = true) : 0 < l.countP p :=
  List.countP_pos_iff.mpr ⟨x, List.mem_of_getElem? h, hp⟩

/-- A party that is not counted may be left out. -/
theorem countP_eraseIdx {p : α → Bool} (h : l[i]? = some x) (hx : p x = false) :
    (l.eraseIdx i).countP p = l.countP p := by
  obtain ⟨hi, rfl⟩ := List.getElem?_eq_some_iff.mp h
  rw [← (List.getElem_cons_eraseIdx_perm hi).countP_eq, List.countP_cons_of_neg (by simp [hx])]

/-- Where at most one party is counted, two counted parties are one. -/
theorem eq_of_countP_le_one {p : α → Bool} : ∀ {l : List α} {i j : ℕ} {x y : α},
    l.countP p ≤ 1 → l[i]? = some x → l[j]? = some y → p x = true → p y = true → i = j
  | [], i, _, _, _, _, hx, _, _, _ => by simp at hx
  | a :: l, 0, 0, _, _, _, _, _, _, _ => rfl
  | a :: l, 0, j + 1, x, y, hle, hx, hy, hpx, hpy => by
      obtain rfl : a = x := by simpa using hx
      have hpos : 0 < l.countP p := countP_pos_of_get p (by simpa using hy) hpy
      rw [List.countP_cons_of_pos hpx] at hle
      omega
  | a :: l, i + 1, 0, x, y, hle, hx, hy, hpx, hpy => by
      obtain rfl : a = y := by simpa using hy
      have hpos : 0 < l.countP p := countP_pos_of_get p (by simpa using hx) hpx
      rw [List.countP_cons_of_pos hpy] at hle
      omega
  | a :: l, i + 1, j + 1, x, y, hle, hx, hy, hpx, hpy => by
      rw [List.countP_cons] at hle
      have := eq_of_countP_le_one (Nat.le_of_add_right_le hle) (by simpa using hx) (by simpa using hy) hpx hpy
      omega

end Parties
