import Atlas.Lib.Ranking

/-! Fusing rankings by score. Every ranking gives an item the weight of its place, and the items of all
    rankings are put in the order of their sums, ties in the order in which they first appear. The order is
    strict (`ahead_asymm`), so it determines the fusion; a stable sort of the items in the order of their
    first appearance produces it (`pairwise_insertionSort`). -/

namespace Ranking

variable {α K : Type*}

/-! ### Sorting -/

section sorting
variable [LinearOrder K] {key : α → K} {r R : α → α → Prop} [DecidableRel r] {l : List α}

/-- By decreasing key, and by another order where the keys are equal. -/
def Descending (key : α → K) (R : α → α → Prop) (a b : α) : Prop := key b < key a ∨ key a = key b ∧ R a b

theorem Descending.le {a b : α} (h : Descending key R a b) : key b ≤ key a := by
  rcases h with hlt | ⟨heq, -⟩
  · exact hlt.le
  · exact heq.ge

/-- An item that comes before all others is inserted before the others of its key. -/
theorem pairwise_orderedInsert (hr : ∀ a b, r a b ↔ key b ≤ key a) {a : α} (ha : ∀ b ∈ l, R a b)
    (h : l.Pairwise (Descending key R)) : (l.orderedInsert r a).Pairwise (Descending key R) := by
  induction l with
  | nil => simp
  | cons b l ih =>
    obtain ⟨hb, hl⟩ := List.pairwise_cons.mp h
    rw [List.orderedInsert_cons]
    split
    next hab =>
      refine List.pairwise_cons.mpr ⟨fun c hc => ?_, h⟩
      have hca : key c ≤ key a := by
        rcases List.mem_cons.mp hc with rfl | hc
        · exact (hr a c).mp hab
        · exact (hb c hc).le.trans ((hr a b).mp hab)
      rcases hca.lt_or_eq with hlt | heq
      · exact Or.inl hlt
      · exact Or.inr ⟨heq.symm, ha c hc⟩
    next hab =>
      refine List.pairwise_cons.mpr ⟨fun c hc => ?_, ih (fun c hc => ha c (List.mem_cons_of_mem _ hc)) hl⟩
      rcases (List.mem_orderedInsert _).mp hc with rfl | hc
      · exact Or.inl (not_le.mp fun hle => hab ((hr c b).mpr hle))
      · exact hb c hc

/-- A stable sort by decreasing key keeps the order of the items of one key. -/
theorem pairwise_insertionSort (hr : ∀ a b, r a b ↔ key b ≤ key a) (h : l.Pairwise R) :
    (l.insertionSort r).Pairwise (Descending key R) := by
  induction l with
  | nil => simp
  | cons a l ih =>
    obtain ⟨ha, hl⟩ := List.pairwise_cons.mp h
    rw [List.insertionSort_cons]
    exact pairwise_orderedInsert hr (fun b hb => ha b ((List.mem_insertionSort r).mp hb)) (ih hl)

end sorting

variable [DecidableEq α]

/-! ### First appearance -/

/-- The items of a list, in the order in which they first appear in it. -/
structure FirstSeen (l items : List α) : Prop where
  mem : ∀ x, x ∈ items ↔ x ∈ l
  order : items.Pairwise (fun x y => l.idxOf x < l.idxOf y)

section firstSeen
variable {l items : List α} {x : α}

theorem firstSeen_nil : FirstSeen ([] : List α) [] := ⟨fun _ => Iff.rfl, .nil⟩

/-- Appending to the list leaves the places of the items. -/
theorem FirstSeen.order_append (h : FirstSeen l items) (x : α) :
    items.Pairwise (fun y z => (l ++ [x]).idxOf y < (l ++ [x]).idxOf z) := by
  refine h.order.imp_of_mem fun {y z} hy hz hlt => ?_
  rwa [List.idxOf_append_of_mem ((h.mem y).mp hy), List.idxOf_append_of_mem ((h.mem z).mp hz)]

theorem FirstSeen.old (h : FirstSeen l items) (hx : x ∈ items) : FirstSeen (l ++ [x]) items where
  mem y := by
    rw [List.mem_append, List.mem_singleton, h.mem]
    exact ⟨Or.inl, fun hy => hy.elim id fun heq => heq ▸ (h.mem x).mp hx⟩
  order := h.order_append x

theorem FirstSeen.new (h : FirstSeen l items) (hx : x ∉ items) : FirstSeen (l ++ [x]) (items ++ [x]) where
  mem y := by rw [List.mem_append, List.mem_append, h.mem]
  order := by
    refine List.pairwise_append.mpr ⟨h.order_append x, List.pairwise_singleton _ _, fun y hy z hz => ?_⟩
    obtain rfl := List.mem_singleton.mp hz
    have hnew : z ∉ l := fun hz => hx ((h.mem z).mpr hz)
    rw [List.idxOf_append_of_mem ((h.mem y).mp hy), List.idxOf_append_of_notMem hnew]
    exact lt_of_lt_of_le (List.idxOf_lt_length_iff.mpr ((h.mem y).mp hy)) (Nat.le_add_right _ _)

end firstSeen

/-! ### Scores -/

section score
variable [AddCommMonoid K] (weight : ℕ → K)

/-- What a ranking gives an item: the weight of its place. -/
def placeScore (ranking : List α) (x : α) : K := if x ∈ ranking then weight (ranking.idxOf x) else 0

/-- What all rankings give it. -/
def score (rankings : List (List α)) (x : α) : K := (rankings.map (placeScore weight · x)).sum

/-- The order of the fusion. -/
def Ahead [LinearOrder K] (rankings : List (List α)) : α → α → Prop :=
  Descending (score weight rankings) fun x y => rankings.flatten.idxOf x < rankings.flatten.idxOf y

variable {weight} {rankings : List (List α)} {x y : α}

@[simp] theorem score_nil : score weight ([] : List (List α)) x = 0 := rfl

@[simp] theorem score_concat (rankings : List (List α)) (ranking : List α) (x : α) :
    score weight (rankings ++ [ranking]) x = score weight rankings x + placeScore weight ranking x := by
  simp [score]

variable [LinearOrder K]

theorem ahead_asymm (h : Ahead weight rankings x y) : ¬Ahead weight rankings y x := by
  rintro (hlt | ⟨heq, hidx⟩)
  · rcases h with hlt' | ⟨heq', -⟩
    · exact lt_asymm hlt hlt'
    · exact hlt.ne heq'
  · rcases h with hlt' | ⟨-, hidx'⟩
    · exact hlt'.ne heq
    · exact lt_asymm hidx hidx'

/-- Items in the order of the fusion are found in that order. -/
theorem idxOf_lt_of_ahead {fused : List α} (h : fused.Pairwise (Ahead weight rankings)) (hx : x ∈ fused)
    (hy : y ∈ fused) (hxy : Ahead weight rankings x y) : fused.idxOf x < fused.idxOf y := by
  by_contra hle
  have hxlt := List.idxOf_lt_length_iff.mpr hx
  have hylt := List.idxOf_lt_length_iff.mpr hy
  rcases (not_lt.mp hle).lt_or_eq with hlt | heq
  · have hyx := List.pairwise_iff_getElem.mp h _ _ hylt hxlt hlt
    rw [List.getElem_idxOf, List.getElem_idxOf] at hyx
    exact ahead_asymm hxy hyx
  · obtain rfl := (List.idxOf_inj hy).mp heq
    exact ahead_asymm hxy hxy

/-- There is one list of the items in the order of the fusion. -/
theorem eq_of_ahead {fused fused' : List α} (h : fused.Pairwise (Ahead weight rankings))
    (h' : fused'.Pairwise (Ahead weight rankings)) (hp : fused.Perm fused') : fused = fused' :=
  hp.eq_of_pairwise (fun _ _ _ _ hab hba => absurd hba (ahead_asymm hab)) h h'

/-- The stable sort by score of the items as they first appear. -/
theorem FirstSeen.ahead {items : List α} (h : FirstSeen rankings.flatten items) {r : α → α → Prop}
    [DecidableRel r] (hr : ∀ a b, r a b ↔ score weight rankings b ≤ score weight rankings a) :
    (items.insertionSort r).Pairwise (Ahead weight rankings) :=
  pairwise_insertionSort hr h.order

/-- With falling weights a single ranking is in the order of its fusion. -/
theorem ahead_single (hweight : StrictAnti weight) {ranking : List α} (h : ranking.Nodup) :
    ranking.Pairwise (Ahead weight [ranking]) := by
  refine (pairwise_idxOf h).imp_of_mem fun {x y} hx hy hlt => Or.inl ?_
  simpa [score, placeScore, hx, hy] using hweight hlt

variable [IsOrderedCancelAddMonoid K]

/-- An item that all rankings place, and before another one wherever that is placed, has the higher score. -/
theorem score_lt_of_dominates (hweight : StrictAnti weight) (hpos : ∀ n, 0 < weight n)
    (hx : ∀ ranking ∈ rankings, x ∈ ranking)
    (hbefore : ∀ ranking ∈ rankings, y ∈ ranking → ranking.idxOf x < ranking.idxOf y)
    (hy : ∃ ranking ∈ rankings, y ∈ ranking) : score weight rankings y < score weight rankings x := by
  have hplace : ∀ ranking ∈ rankings, y ∈ ranking →
      placeScore weight ranking y < placeScore weight ranking x := by
    intro ranking hranking hy
    rw [placeScore, placeScore, if_pos hy, if_pos (hx ranking hranking)]
    exact hweight (hbefore ranking hranking hy)
  refine List.sum_lt_sum _ _ (fun ranking hranking => ?_) ?_
  · by_cases hy : y ∈ ranking
    · exact (hplace ranking hranking hy).le
    · rw [placeScore, placeScore, if_neg hy, if_pos (hx ranking hranking)]
      exact (hpos _).le
  · obtain ⟨ranking, hranking, hy⟩ := hy
    exact ⟨ranking, hranking, hplace ranking hranking hy⟩

end score

end Ranking
