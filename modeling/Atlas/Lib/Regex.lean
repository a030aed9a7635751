import Mathlib

/-! Regular expressions that are sequences of character classes, each taken once or as often as possible.
    They are matched by backtracking: the longest run of a class is tried first, and a search takes the
    first position at which the pattern matches. What is found is in the language of the pattern
    (`search_eq_some`), and something is found whenever the text has a part in it (`isSome_search_iff`). -/

namespace Regex

/-- A class of characters, once, or once or more. -/
inductive Piece where
  | one (p : Char → Bool)
  | many1 (p : Char → Bool)

/-- What a piece may take. -/
def Piece.Takes : Piece → List Char → Prop
  | .one p, span => ∃ c, span = [c] ∧ p c = true
  | .many1 p, span => span ≠ [] ∧ ∀ c ∈ span, p c = true

/-- The parts of a text that the pieces of a pattern may take in turn. -/
def Matches (ps : List Piece) (spans : List (List Char)) : Prop := List.Forall₂ Piece.Takes ps spans

/-- The first of the lengths `n`, .., 1 with a result. -/
def longest {α : Type*} (f : ℕ → Option α) : ℕ → Option α
  | 0 => none
  | n + 1 => (f (n + 1)).or (longest f n)

/-- Match a pattern at the beginning of a text: what each piece takes. -/
def matchAt : List Piece → List Char → Option (List (List Char))
  | [], _ => some []
  | .one _ :: _, [] => none
  | .one p :: ps, c :: cs => if p c then (matchAt ps cs).map ([c] :: ·) else none
  | .many1 p :: ps, cs =>
    longest (fun n => (matchAt ps (cs.drop n)).map (cs.take n :: ·)) (cs.takeWhile p).length

/-- `pattern.search(text)`. -/
def search (ps : List Piece) : List Char → Option (List (List Char))
  | [] => matchAt ps []
  | c :: cs => (matchAt ps (c :: cs)).or (search ps cs)

section longest
variable {α : Type*} {f : ℕ → Option α}

theorem longest_eq_some {n : ℕ} {a : α} (h : longest f n = some a) : ∃ k, 1 ≤ k ∧ k ≤ n ∧ f k = some a := by
  induction n with
  | zero => cases h
  | succ n ih =>
    rw [longest, Option.or_eq_some_iff] at h
    rcases h with h | ⟨-, h⟩
    · exact ⟨n + 1, by omega, le_rfl, h⟩
    · obtain ⟨k, hpos, hle, hk⟩ := ih h
      exact ⟨k, hpos, by omega, hk⟩

theorem isSome_longest {n k : ℕ} (hpos : 1 ≤ k) (hle : k ≤ n) (h : (f k).isSome = true) :
    (longest f n).isSome = true := by
  induction n with
  | zero => omega
  | succ n ih =>
    rw [longest, Option.isSome_or, Bool.or_eq_true]
    by_cases hk : k = n + 1
    · exact Or.inl (hk ▸ h)
    · exact Or.inr (ih (by omega))

end longest

section search
variable {ps : List Piece} {cs : List Char} {spans : List (List Char)}

/-- A match is in the language of the pattern, and stands at the beginning. -/
theorem matchAt_eq_some (h : matchAt ps cs = some spans) : Matches ps spans ∧ spans.flatten <+: cs := by
  induction ps generalizing cs spans with
  | nil =>
    cases h
    exact ⟨.nil, List.nil_prefix⟩
  | cons piece ps ih =>
    cases piece with
    | one p =>
      cases cs with
      | nil => cases h
      | cons c cs =>
        simp only [matchAt] at h
        split at h
        next hp =>
          obtain ⟨rest, hrest, rfl⟩ := Option.map_eq_some_iff.mp h
          obtain ⟨hmatches, hbegins⟩ := ih hrest
          exact ⟨.cons ⟨c, rfl, hp⟩ hmatches, (List.prefix_cons_inj c).mpr hbegins⟩
        next => cases h
    | many1 p =>
      obtain ⟨n, hpos, hle, hn⟩ := longest_eq_some h
      obtain ⟨rest, hrest, rfl⟩ := Option.map_eq_some_iff.mp hn
      obtain ⟨hmatches, hbegins⟩ := ih hrest
      have hlength : (cs.takeWhile p).length ≤ cs.length := (List.takeWhile_prefix p).length_le
      refine ⟨.cons ⟨?_, fun c hc => ?_⟩ hmatches, ?_⟩
      · intro hnil
        have hzero := congrArg List.length hnil
        rw [List.length_take, List.length_nil] at hzero
        omega
      · have htake : cs.take n = (cs.takeWhile p).take n := by
          conv_lhs => rw [← List.takeWhile_append_dropWhile (p := p) (l := cs)]
          exact List.take_append_of_le_length hle
        rw [htake] at hc
        exact List.mem_takeWhile_imp (List.mem_of_mem_take hc)
      · conv_rhs => rw [← List.take_append_drop n cs]
        exact (List.prefix_append_right_inj _).mpr hbegins

/-- A text that begins with a part in the language of the pattern has a match. -/
theorem isSome_matchAt (h : Matches ps spans) (rest : List Char) :
    (matchAt ps (spans.flatten ++ rest)).isSome = true := by
  induction h with
  | nil => rfl
  | @cons piece span ps spans htakes _ ih =>
    rw [List.flatten_cons, List.append_assoc]
    cases piece with
    | one p =>
      obtain ⟨c, rfl, hp⟩ := htakes
      simpa [matchAt, hp] using ih
    | many1 p =>
      obtain ⟨hne, hall⟩ := htakes
      have hpos := List.length_pos_of_ne_nil hne
      refine isSome_longest hpos ?_ (k := span.length) ?_
      · rw [List.takeWhile_append_of_pos hall, List.length_append]
        omega
      · simpa using ih

/-- What a search finds is a part of the text in the language of the pattern. -/
theorem search_eq_some (h : search ps cs = some spans) : Matches ps spans ∧ spans.flatten <:+: cs := by
  induction cs with
  | nil => exact (matchAt_eq_some h).imp_right List.IsPrefix.isInfix
  | cons c cs ih =>
    rw [search, Option.or_eq_some_iff] at h
    rcases h with h | ⟨-, h⟩
    · exact (matchAt_eq_some h).imp_right List.IsPrefix.isInfix
    · exact (ih h).imp_right List.infix_cons

/-- A search finds something exactly in a text that has such a part. -/
theorem isSome_search_iff :
    (search ps cs).isSome = true ↔ ∃ spans, Matches ps spans ∧ spans.flatten <:+: cs := by
  constructor
  · intro h
    obtain ⟨spans, hspans⟩ := Option.isSome_iff_exists.mp h
    exact ⟨spans, search_eq_some hspans⟩
  · rintro ⟨spans, hmatches, before, rest, rfl⟩
    have hhere := isSome_matchAt hmatches rest
    induction before with
    | nil =>
      rw [List.nil_append]
      cases hcs : spans.flatten ++ rest with
      | nil => rwa [hcs] at hhere
      | cons c cs =>
        rw [hcs] at hhere
        rw [search, Option.isSome_or, hhere, Bool.true_or]
    | cons c before ih =>
      rw [List.cons_append, List.cons_append, search, Option.isSome_or, ih, Bool.or_true]

end search

end Regex
