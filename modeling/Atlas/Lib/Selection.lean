import Mathlib

/-! A loop that keeps the items no kept item repeats and breaks at a cap. Whatever the repeats and wherever
    the break falls, it keeps the first `cap` of the first occurrences (`collect_eq`), and two loops that
    share what they keep are one loop over both lists (`collect_append`). -/

namespace Selection

variable {α β : Type*}

/-- The loop; `acc` is what it has kept so far. -/
def collect (repeats : α → α → Bool) (cap : ℕ) : List α → List α → List α
  | [], acc => acc
  | x :: xs, acc =>
    if cap ≤ acc.length then acc
    else if acc.any (repeats x) then collect repeats cap xs acc
    else collect repeats cap xs (acc ++ [x])

variable {repeats : α → α → Bool} {cap : ℕ}

/-- A loop that starts full keeps what it has. -/
theorem collect_of_full {xs acc : List α} (h : cap ≤ acc.length) : collect repeats cap xs acc = acc := by
  cases xs with
  | nil => rfl
  | cons x xs => rw [collect, if_pos h]

/-- The loop keeps the first occurrences of what was not kept before, as far as the cap allows. -/
theorem collect_eq {xs acc : List α} (h : acc.length ≤ cap) :
    collect repeats cap xs acc =
      (acc ++ (xs.filter (fun x => !acc.any (repeats x))).eraseDupsBy repeats).take cap := by
  induction xs generalizing acc with
  | nil =>
    rw [collect, List.filter_nil, List.eraseDupsBy_nil, List.append_nil, List.take_of_length_le h]
  | cons x xs ih =>
    by_cases hfull : cap ≤ acc.length
    · rw [collect_of_full hfull, List.take_append_of_le_length hfull,
        List.take_of_length_le h]
    · rw [collect, if_neg hfull]
      cases hany : acc.any (repeats x) with
      | true => rw [if_pos rfl, ih h, List.filter_cons, hany]; rfl
      | false =>
        have hlen : (acc ++ [x]).length ≤ cap := by
          rw [List.length_append, List.length_singleton]
          omega
        have hfilter : xs.filter (fun y => !(acc ++ [x]).any (repeats y)) =
            (xs.filter (fun y => !acc.any (repeats y))).filter (fun y => repeats y x = false) := by
          rw [List.filter_filter]
          refine List.filter_congr fun y _ => ?_
          rw [List.any_append, List.any_cons, List.any_nil, Bool.or_false, Bool.not_or, Bool.and_comm]
          cases repeats y x <;> simp
        rw [if_neg (by simp), ih hlen, List.filter_cons, hany, if_pos (by rfl), List.eraseDupsBy_cons,
          hfilter, List.append_assoc, List.singleton_append]

/-- From nothing: the first occurrences, cut at the cap. -/
theorem collect_nil (xs : List α) : collect repeats cap xs [] = (xs.eraseDupsBy repeats).take cap := by
  have hall : xs.filter (fun x => !([] : List α).any (repeats x)) = xs :=
    List.filter_eq_self.mpr fun _ _ => rfl
  rw [collect_eq (Nat.zero_le cap), hall, List.nil_append]

/-- Two loops one after the other are one loop over both lists. -/
theorem collect_append (xs ys acc : List α) :
    collect repeats cap (xs ++ ys) acc = collect repeats cap ys (collect repeats cap xs acc) := by
  induction xs generalizing acc with
  | nil => rfl
  | cons x xs ih =>
    rw [List.cons_append, collect, collect]
    split
    next h => rw [collect_of_full h]
    next =>
      split
      next => exact ih acc
      next => exact ih (acc ++ [x])

/-- To prove something of every list, prove it of one whose tail, less the repeats of its head, has it. -/
theorem firsts_induction {motive : List α → Prop} (repeats : α → α → Bool) (nil : motive [])
    (cons : ∀ x xs, motive (xs.filter (fun y => repeats y x = false)) → motive (x :: xs)) :
    ∀ xs, motive xs := by
  intro xs
  induction hlen : xs.length using Nat.strong_induction_on generalizing xs with
  | h n ih =>
    cases xs with
    | nil => exact nil
    | cons x xs =>
      refine cons x xs (ih _ ?_ _ rfl)
      have hle := List.length_filter_le (fun y => decide (repeats y x = false)) xs
      rw [List.length_cons] at hlen
      omega

theorem eraseDupsBy_sublist (xs : List α) : (xs.eraseDupsBy repeats).Sublist xs := by
  induction xs using firsts_induction repeats with
  | nil => exact List.Sublist.refl []
  | cons x xs ih =>
    rw [List.eraseDupsBy_cons]
    exact (ih.trans List.filter_sublist).cons_cons x

/-- First occurrences do not repeat one another. -/
theorem pairwise_eraseDupsBy (xs : List α) :
    (xs.eraseDupsBy repeats).Pairwise (fun x y => repeats y x = false) := by
  induction xs using firsts_induction repeats with
  | nil => exact List.Pairwise.nil
  | cons x xs ih =>
    rw [List.eraseDupsBy_cons, List.pairwise_cons]
    refine ⟨fun y hy => ?_, ih⟩
    simpa using List.of_mem_filter ((eraseDupsBy_sublist _).subset hy)

/-- They are found through any map that keeps the test. -/
theorem eraseDupsBy_map (f : β → α) (xs : List β) :
    (xs.map f).eraseDupsBy repeats = (xs.eraseDupsBy (fun x y => repeats (f x) (f y))).map f := by
  induction xs using firsts_induction (fun x y => repeats (f x) (f y)) with
  | nil => rfl
  | cons x xs ih =>
    rw [List.map_cons, List.eraseDupsBy_cons, List.eraseDupsBy_cons, List.map_cons, ← ih, List.filter_map]
    rfl

/-- The first occurrences by a key have distinct keys. -/
theorem nodup_map_eraseDupsBy [BEq β] [LawfulBEq β] (key : α → β) (xs : List α) :
    ((xs.eraseDupsBy (fun x y => key x == key y)).map key).Nodup := by
  rw [List.nodup_iff_pairwise_ne, List.pairwise_map]
  exact (pairwise_eraseDupsBy xs).imp fun h heq => by simp [heq] at h

/-- No key gets lost. -/
theorem exists_mem_eraseDupsBy_key [BEq β] [LawfulBEq β] (key : α → β) {xs : List α} {x : α} (hx : x ∈ xs) :
    ∃ y ∈ xs.eraseDupsBy (fun x y => key x == key y), key y = key x := by
  induction xs using firsts_induction (fun x y => key x == key y) with
  | nil => cases hx
  | cons a xs ih =>
    rw [List.eraseDupsBy_cons]
    by_cases hkey : key x = key a
    · exact ⟨a, List.mem_cons_self, hkey.symm⟩
    · have hrest : x ∈ xs := by
        rcases List.mem_cons.mp hx with rfl | hx
        · exact absurd rfl hkey
        · exact hx
      obtain ⟨y, hy, hyx⟩ := ih (List.mem_filter.mpr ⟨hrest, by simpa using hkey⟩)
      exact ⟨y, List.mem_cons_of_mem _ hy, hyx⟩

theorem nodup_eraseDups [BEq α] [LawfulBEq α] (xs : List α) : xs.eraseDups.Nodup :=
  (pairwise_eraseDupsBy xs).imp fun h heq => by simp [heq] at h

end Selection
