import Atlas.Lib.Fusion
import Atlas.Persistence.KnowledgeStore

/-! Reciprocal rank fusion. The dictionary of the sums is filled id by id, so its keys stand in the order in
    which the rankings first show them and its values are the sums of what each ranking gives an id
    (`rrfScores_firstSeen`, `score_rrfScores`); the sort is stable. In exact arithmetic the result is thus
    the list of all ids in the order `Ranking.Ahead`, and there is only one (`rrfFuse_fuses`). -/

namespace Atlas

open Ranking

section keys
variable {S : Type} {sc : Scores S} {k : ℕ}

/-- The last ranking is added last. -/
theorem rrfScores_concat (rankings : List (List String)) (ranking : List String) :
    rrfScores sc k (rankings ++ [ranking]) = addRanking sc k 0 ranking (rrfScores sc k rankings) := by
  rw [rrfScores, List.foldl_append]
  rfl

/-! ### Keys -/

theorem firstSeen_set {seen : List String} {scores : Dict String S} (h : FirstSeen seen scores.keys)
    (id : String) (value : S) : FirstSeen (seen ++ [id]) (scores.set id value).keys := by
  by_cases hid : id ∈ scores.keys
  · rw [Dict.keys_set_of_mem _ hid]
    exact h.old hid
  · rw [Dict.keys_set_of_not_mem _ hid]
    exact h.new hid

theorem firstSeen_addRanking {rank : ℕ} {ids seen : List String} {scores : Dict String S}
    (h : FirstSeen seen scores.keys) : FirstSeen (seen ++ ids) (addRanking sc k rank ids scores).keys := by
  induction ids generalizing rank seen scores with
  | nil => simpa [addRanking] using h
  | cons id ids ih =>
    rw [addRanking, ← List.singleton_append, ← List.append_assoc]
    exact ih (firstSeen_set h id _)

/-- The keys of the sums are the ids in the order in which they first appear. -/
theorem firstSeen_rrfScores (rankings : List (List String)) :
    FirstSeen rankings.flatten (rrfScores sc k rankings).keys := by
  induction rankings using List.reverseRecOn with
  | nil => exact firstSeen_nil
  | append_singleton rankings ranking ih =>
    rw [rrfScores_concat, List.flatten_append, List.flatten_singleton]
    exact firstSeen_addRanking ih

theorem nodup_rrfFuse (k : ℕ) (rankings : List (List String)) : (rrfFuse sc k rankings).Nodup :=
  (List.perm_insertionSort _ _).nodup_iff.mpr (rrfScores sc k rankings).nodup

/-- Fusion keeps exactly the ids of its rankings. -/
theorem mem_rrfFuse {x : String} {rankings : List (List String)} :
    x ∈ rrfFuse sc k rankings ↔ ∃ ranking ∈ rankings, x ∈ ranking := by
  rw [rrfFuse, List.mem_insertionSort, (firstSeen_rrfScores rankings).mem, List.mem_flatten]

end keys

/-! ### Sums -/

/-- Exact scores. -/
def ratScores : Scores ℚ where
  zero := 0
  add := (· + ·)
  recip := fun n => 1 / n
  le := fun x y => decide (x ≤ y)

/-- What a ranking gives the id at a place. -/
def reciprocalRank (k rank : ℕ) : ℚ := 1 / (k + rank + 1)

section sums
variable {k : ℕ}

theorem reciprocalRank_pos (k rank : ℕ) : 0 < reciprocalRank k rank := by
  rw [reciprocalRank]
  positivity

theorem reciprocalRank_strictAnti (k : ℕ) : StrictAnti (reciprocalRank k) := by
  intro m n hmn
  have hcast : (m : ℚ) < n := by exact_mod_cast hmn
  exact one_div_lt_one_div_of_lt (by positivity) (by linarith)

/-- The sum of an id after one more ranking. -/
theorem sum_addRanking (rank : ℕ) {ids : List String} (h : ids.Nodup) (scores : Dict String ℚ) (x : String) :
    ((addRanking ratScores k rank ids scores).get? x).getD 0 =
      (scores.get? x).getD 0 + placeScore (fun place => reciprocalRank k (rank + place)) ids x := by
  induction ids generalizing rank scores with
  | nil => simp [addRanking, placeScore]
  | cons id ids ih =>
    obtain ⟨hid, hids⟩ := List.nodup_cons.mp h
    rw [addRanking, ih (rank + 1) hids, Dict.get?_set, placeScore, placeScore]
    by_cases hx : x = id
    · subst hx
      have hrecip : ratScores.recip (k + rank + 1) = reciprocalRank k rank := by
        simp [ratScores, reciprocalRank]
      rw [if_pos rfl, if_neg hid, if_pos List.mem_cons_self, List.idxOf_cons_self, hrecip]
      exact add_zero _
    · have hplace : ∀ place, rank + 1 + place = rank + (place + 1) := fun place => by omega
      simp [hx, List.idxOf_cons_ne _ (Ne.symm hx), hplace]

theorem sum_rrfScores {rankings : List (List String)} (h : ∀ ranking ∈ rankings, ranking.Nodup) (x : String) :
    ((rrfScores ratScores k rankings).get? x).getD 0 = score (reciprocalRank k) rankings x := by
  induction rankings using List.reverseRecOn with
  | nil => rfl
  | append_singleton rankings ranking ih =>
    rw [List.forall_mem_append, List.forall_mem_singleton] at h
    rw [rrfScores_concat, score_concat, ← ih h.1, sum_addRanking 0 h.2]
    simp only [Nat.zero_add]

end sums

/-! ### The fused order -/

/-- What the fusion of some rankings is: every id once, by falling sums and then by first appearance. A
    single ranking is its own fusion, and an id that all rankings hold stands before the ids that it
    precedes wherever they are ranked. -/
structure FusesRankings (k : ℕ) (rankings : List (List String)) (fused : List String) : Prop where
  nodup : fused.Nodup
  mem : ∀ x, x ∈ fused ↔ ∃ ranking ∈ rankings, x ∈ ranking
  ordered : fused.Pairwise (Ahead (reciprocalRank k) rankings)
  single : ∀ ranking, rankings = [ranking] → fused = ranking
  dominant : ∀ x y, (∀ ranking ∈ rankings, x ∈ ranking) →
    (∀ ranking ∈ rankings, y ∈ ranking → ranking.idxOf x < ranking.idxOf y) →
    y ∈ fused → fused.idxOf x < fused.idxOf y

section fuses
variable {k : ℕ} {rankings : List (List String)}

theorem ahead_rrfFuse (h : ∀ ranking ∈ rankings, ranking.Nodup) :
    (rrfFuse ratScores k rankings).Pairwise (Ahead (reciprocalRank k) rankings) := by
  refine (firstSeen_rrfScores rankings).ahead fun a b => ?_
  rw [← sum_rrfScores h, ← sum_rrfScores h]
  exact decide_eq_true_iff

/-- In exact arithmetic the fusion of rankings without repeats is what it is to be. -/
theorem rrfFuse_fuses (k : ℕ) (rankings : List (List String)) (h : ∀ ranking ∈ rankings, ranking.Nodup) :
    FusesRankings k rankings (rrfFuse ratScores k rankings) where
  nodup := nodup_rrfFuse k rankings
  mem _ := mem_rrfFuse
  ordered := ahead_rrfFuse h
  single := by
    rintro ranking rfl
    have hnodup := h ranking List.mem_cons_self
    refine eq_of_ahead (ahead_rrfFuse h) (ahead_single (reciprocalRank_strictAnti k) hnodup) ?_
    refine (List.perm_ext_iff_of_nodup (nodup_rrfFuse k _) hnodup).mpr fun x => ?_
    simp [mem_rrfFuse]
  dominant := by
    intro x y hx hbefore hy
    obtain ⟨ranking, hranking, hmem⟩ := mem_rrfFuse.mp hy
    have hscore := score_lt_of_dominates (reciprocalRank_strictAnti k) (reciprocalRank_pos k) hx hbefore
      ⟨ranking, hranking, hmem⟩
    exact idxOf_lt_of_ahead (ahead_rrfFuse h) (mem_rrfFuse.mpr ⟨ranking, hranking, hx ranking hranking⟩) hy
      (Or.inl hscore)

end fuses

/-- The id that both rankings hold near the top leads. -/
theorem rrfFuse_fuses_agreement :
    FusesRankings 60 [["a", "b", "c"], ["b", "d", "a"]] ["b", "a", "d", "c"] := by
  have hfuse : rrfFuse ratScores 60 [["a", "b", "c"], ["b", "d", "a"]] = ["b", "a", "d", "c"] := by
    decide +kernel
  rw [← hfuse]
  exact rrfFuse_fuses 60 _ (by decide)

end Atlas
