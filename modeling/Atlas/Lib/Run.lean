import Mathlib

/-! Runs of a system that takes labelled steps. `step s l` is the state after step `l`, or `none` where
    `l` is not enabled; a run is a list of labels, so a theorem about every list of labels is one about
    every interleaving. A condition on steps is met along a run when every step meets it in the state it
    is taken in. The rule for both: what each step keeps, the whole run keeps. -/

namespace LabelledRun

variable {S L : Type*} (step : S → L → Option S)

/-- The state after a run, if every step of it is enabled. -/
def exec : S → List L → Option S
  | s, [] => some s
  | s, l :: ls => (step s l).bind (fun s' => exec s' ls)

/-- Every step of the run meets the condition where it is taken. -/
def Respects (ok : S → L → Prop) : S → List L → Prop
  | _, [] => True
  | s, l :: ls => ok s l ∧ ∀ s', step s l = some s' → Respects ok s' ls

/-- The property holds in every state the run comes through. -/
def Always (P : S → Prop) (s : S) (ls : List L) : Prop :=
  ∀ done s', done <+: ls → exec step s done = some s' → P s'

variable {step}

theorem exec_cons_eq_some {s s'' : S} {l : L} {ls : List L} :
    exec step s (l :: ls) = some s'' ↔ ∃ s', step s l = some s' ∧ exec step s' ls = some s'' :=
  Option.bind_eq_some_iff

theorem exec_append {s s'' : S} {ls ms : List L} :
    exec step s (ls ++ ms) = some s'' ↔ ∃ s', exec step s ls = some s' ∧ exec step s' ms = some s'' := by
  induction ls generalizing s with
  | nil => simp [exec]
  | cons l ls ih =>
    rw [List.cons_append, exec_cons_eq_some]
    constructor
    · rintro ⟨t, ht, h⟩
      obtain ⟨u, hu, hms⟩ := ih.mp h
      exact ⟨u, exec_cons_eq_some.mpr ⟨t, ht, hu⟩, hms⟩
    · rintro ⟨u, hu, hms⟩
      obtain ⟨t, ht, h⟩ := exec_cons_eq_some.mp hu
      exact ⟨t, ht, ih.mpr ⟨u, h, hms⟩⟩

theorem Respects.nil {ok : S → L → Prop} {s : S} : Respects step ok s [] := trivial

theorem Respects.cons {ok : S → L → Prop} {s s' : S} {l : L} {ls : List L} (hstep : step s l = some s')
    (hok : ok s l) (hrest : Respects step ok s' ls) : Respects step ok s (l :: ls) := by
  refine ⟨hok, fun t ht => ?_⟩
  rw [hstep, Option.some.injEq] at ht
  exact ht ▸ hrest

theorem Always.head {P : S → Prop} {s : S} {ls : List L} (h : Always step P s ls) : P s :=
  h [] s List.nil_prefix rfl

theorem always_cons {P : S → Prop} {s : S} {l : L} {ls : List L} :
    Always step P s (l :: ls) ↔ P s ∧ ∀ s', step s l = some s' → Always step P s' ls := by
  constructor
  · refine fun h => ⟨h.head, fun s' hs' done t hdone ht => ?_⟩
    exact h (l :: done) t (List.prefix_cons_iff.mpr (Or.inr ⟨done, rfl, hdone⟩))
      (exec_cons_eq_some.mpr ⟨s', hs', ht⟩)
  · rintro ⟨hs, h⟩ done t hdone ht
    rcases List.prefix_cons_iff.mp hdone with rfl | ⟨done, rfl, hrest⟩
    · cases ht
      exact hs
    · obtain ⟨s', hs', ht⟩ := exec_cons_eq_some.mp ht
      exact h s' hs' done t hrest ht

/-- Where a step keeps the property exactly when it meets the condition, a run keeps it throughout exactly
    when all its steps meet the condition. -/
theorem always_iff_respects {P : S → Prop} {ok : S → L → Prop}
    (hstep : ∀ s l s', P s → step s l = some s' → (P s' ↔ ok s l))
    (hdisabled : ∀ s l, step s l = none → ok s l) {s : S} {ls : List L} (hs : P s) :
    Always step P s ls ↔ Respects step ok s ls := by
  induction ls generalizing s with
  | nil =>
    refine iff_of_true (fun done s' hdone hrun => ?_) trivial
    rw [List.prefix_nil.mp hdone] at hrun
    cases hrun
    exact hs
  | cons l ls ih =>
    rw [always_cons, Respects, and_iff_right hs]
    constructor
    · intro h
      refine ⟨?_, fun s' hs' => (ih (h s' hs').head).mp (h s' hs')⟩
      cases hl : step s l with
      | none => exact hdisabled s l hl
      | some s' => exact (hstep s l s' hs hl).mp (h s' hl).head
    · rintro ⟨hok, h⟩ s' hs'
      exact (ih ((hstep s l s' hs hs').mpr hok)).mpr (h s' hs')

/-- The invariant rule for runs whose steps all meet a condition. -/
theorem invariant_of_respects {inv : S → Prop} {ok : S → L → Prop}
    (hstep : ∀ s l s', inv s → ok s l → step s l = some s' → inv s') {s s' : S} {ls : List L}
    (hinv : inv s) (hok : Respects step ok s ls) (hrun : exec step s ls = some s') : inv s' := by
  induction ls generalizing s with
  | nil => cases hrun; exact hinv
  | cons l ls ih =>
    obtain ⟨t, ht, hrest⟩ := exec_cons_eq_some.mp hrun
    exact ih (hstep s l t hinv hok.1 ht) (hok.2 t ht) hrest

/-- A condition on labels that all labels of a run meet. -/
theorem respects_of_forall {ok : L → Prop} {ls : List L} (h : ∀ l ∈ ls, ok l) (s : S) :
    Respects step (fun _ l => ok l) s ls := by
  induction ls generalizing s with
  | nil => exact Respects.nil
  | cons l ls ih =>
    rw [List.forall_mem_cons] at h
    exact ⟨h.1, fun s' _ => ih h.2 s'⟩

/-- Where an invariant makes every step meet a condition, the steps of a run all do. -/
theorem respects_of_invariant {inv : S → Prop} {ok : S → L → Prop} (hok : ∀ s l, inv s → ok s l)
    (hstep : ∀ s l s', inv s → step s l = some s' → inv s') {s : S} (hinv : inv s) (ls : List L) :
    Respects step ok s ls := by
  induction ls generalizing s with
  | nil => exact Respects.nil
  | cons l ls ih => exact ⟨hok s l hinv, fun s' hs' => ih (hstep s l s' hinv hs')⟩

/-- Where a step that meets a condition leaves the state, the steps of a run all meet it exactly when each
    would as the first one. -/
theorem respects_iff_forall {ok : S → L → Prop} {s : S} (hstay : ∀ l, ok s l → step s l = some s)
    {ls : List L} : Respects step ok s ls ↔ ∀ l ∈ ls, ok s l := by
  induction ls with
  | nil => simp [Respects]
  | cons l ls ih =>
    rw [Respects, List.forall_mem_cons]
    refine and_congr_right fun hok => ?_
    rw [hstay l hok]
    simp [ih]

/-- Along a run whose steps all meet a condition, what the invariant implies holds throughout. -/
theorem always_of_respects {inv P : S → Prop} {ok : S → L → Prop}
    (hstep : ∀ s l s', inv s → ok s l → step s l = some s' → inv s') (himp : ∀ s, inv s → P s) {s : S}
    {ls : List L} (hinv : inv s) (hok : Respects step ok s ls) : Always step P s ls := by
  induction ls generalizing s with
  | nil =>
    intro done s' hdone hrun
    rw [List.prefix_nil.mp hdone] at hrun
    cases hrun
    exact himp s hinv
  | cons l ls ih =>
    rw [always_cons]
    exact ⟨himp s hinv, fun s' hs' => ih (hstep s l s' hinv hok.1 hs') (hok.2 s' hs')⟩

/-- The invariant rule for all runs. -/
theorem invariant_of_exec {inv : S → Prop} (hstep : ∀ s l s', inv s → step s l = some s' → inv s')
    {s s' : S} {ls : List L} (hinv : inv s) (hrun : exec step s ls = some s') : inv s' := by
  induction ls generalizing s with
  | nil => cases hrun; exact hinv
  | cons l ls ih =>
    obtain ⟨t, ht, hrest⟩ := exec_cons_eq_some.mp hrun
    exact ih (hstep s l t hinv ht) hrest

/-- The invariant rule for a state and the steps that led to it. -/
theorem invariant_of_history {inv : List L → S → Prop}
    (hstep : ∀ done s l s', inv done s → step s l = some s' → inv (done ++ [l]) s') {done : List L}
    {s s' : S} {ls : List L} (hinv : inv done s) (hrun : exec step s ls = some s') :
    inv (done ++ ls) s' := by
  induction ls generalizing done s with
  | nil => cases hrun; rw [List.append_nil]; exact hinv
  | cons l ls ih =>
    obtain ⟨t, ht, hrest⟩ := exec_cons_eq_some.mp hrun
    rw [List.append_cons]
    exact ih (hstep done s l t hinv ht) hrest

/-- The same rule for runs whose steps all meet a condition. -/
theorem invariant_of_respects_history {inv : List L → S → Prop} {ok : S → L → Prop}
    (hstep : ∀ done s l s', inv done s → ok s l → step s l = some s' → inv (done ++ [l]) s') {done : List L}
    {s s' : S} {ls : List L} (hinv : inv done s) (hok : Respects step ok s ls)
    (hrun : exec step s ls = some s') : inv (done ++ ls) s' := by
  induction ls generalizing done s with
  | nil => cases hrun; rw [List.append_nil]; exact hinv
  | cons l ls ih =>
    obtain ⟨t, ht, hrest⟩ := exec_cons_eq_some.mp hrun
    rw [List.append_cons]
    exact ih (hstep done s l t hinv hok.1 ht) (hok.2 t ht) hrest

/-- Unwinding: where the steps that are not kept leave the observer's view of the state, and the kept ones
    do the same in any two states of one view, a run without the others ends in the same view. -/
theorem exec_filter {view : S → S → Prop} {keep : L → Bool} {ok : L → Prop}
    (hkeep : ∀ s s' l t, view s s' → ok l → keep l = true → step s l = some t →
      ∃ t', step s' l = some t' ∧ view t t')
    (hdrop : ∀ s s' l t, view s s' → keep l = false → step s l = some t → view t s') {s s' t : S}
    {ls : List L} (hview : view s s') (hok : ∀ l ∈ ls, ok l) (hrun : exec step s ls = some t) :
    ∃ t', exec step s' (ls.filter keep) = some t' ∧ view t t' := by
  induction ls generalizing s s' with
  | nil => cases hrun; exact ⟨s', rfl, hview⟩
  | cons l ls ih =>
    rw [List.forall_mem_cons] at hok
    obtain ⟨u, hu, hrest⟩ := exec_cons_eq_some.mp hrun
    cases hl : keep l with
    | false =>
      rw [List.filter_cons_of_neg (by rw [hl]; exact Bool.false_ne_true)]
      exact ih (hdrop s s' l u hview hl hu) hok.2 hrest
    | true =>
      obtain ⟨u', hu', hview'⟩ := hkeep s s' l u hview hok.1 hl hu
      obtain ⟨t', ht', hend⟩ := ih hview' hok.2 hrest
      rw [List.filter_cons_of_pos hl]
      exact ⟨t', exec_cons_eq_some.mpr ⟨u', hu', ht'⟩, hend⟩

/-! ### Termination -/

/-- Where every step lowers a measure, a run is no longer than the measure was. -/
theorem length_le_of_exec {measure : S → ℕ}
    (hstep : ∀ s l s', step s l = some s' → measure s' < measure s) {s s' : S} {ls : List L}
    (hrun : exec step s ls = some s') : ls.length + measure s' ≤ measure s := by
  induction ls generalizing s with
  | nil => cases hrun; simp
  | cons l ls ih =>
    obtain ⟨t, ht, hrest⟩ := exec_cons_eq_some.mp hrun
    have hlower := hstep s l t ht
    have hle := ih hrest
    rw [List.length_cons]
    omega

/-- Where every step lowers a measure and one is enabled in every state that is not done, a run can be
    continued until it is. -/
theorem exists_exec_done {inv done : S → Prop} {measure : S → ℕ}
    (hkeep : ∀ s l s', inv s → step s l = some s' → inv s')
    (hstep : ∀ s l s', step s l = some s' → measure s' < measure s)
    (hprogress : ∀ s, inv s → done s ∨ ∃ l s', step s l = some s') {s : S} (hinv : inv s) :
    ∃ ls s', exec step s ls = some s' ∧ done s' := by
  induction hm : measure s using Nat.strong_induction_on generalizing s with
  | h m ih =>
    rcases hprogress s hinv with hdone | ⟨l, t, ht⟩
    · exact ⟨[], s, rfl, hdone⟩
    · obtain ⟨ls, s', hrun, hdone⟩ := ih (measure t) (hm ▸ hstep s l t ht) (hkeep s l t hinv ht) rfl
      exact ⟨l :: ls, s', exec_cons_eq_some.mpr ⟨t, ht, hrun⟩, hdone⟩

/-! ### Histories -/

section outputs
variable {O : Type*}

/-- What the steps of a run put out, in their order. -/
def outputs (step : S → L → Option S) (out : S → L → List O) : S → List L → List O
  | _, [] => []
  | s, l :: ls => out s l ++ ((step s l).map (fun s' => outputs step out s' ls)).getD []

theorem outputs_append {out : S → L → List O} {s s' : S} {ls : List L} (ms : List L)
    (hrun : exec step s ls = some s') :
    outputs step out s (ls ++ ms) = outputs step out s ls ++ outputs step out s' ms := by
  induction ls generalizing s with
  | nil => cases hrun; rfl
  | cons l ls ih =>
    obtain ⟨t, ht, hrest⟩ := exec_cons_eq_some.mp hrun
    rw [List.cons_append, outputs, outputs, ht, Option.map_some, Option.map_some, Option.getD_some,
      Option.getD_some, ih hrest, List.append_assoc]

/-- The invariant rule for a state and the history that led to it. -/
theorem invariant_of_outputs {out : S → L → List O} {inv : List O → S → Prop}
    (hstep : ∀ os s l s', inv os s → step s l = some s' → inv (os ++ out s l) s') {os : List O} {s s' : S}
    {ls : List L} (hinv : inv os s) (hrun : exec step s ls = some s') :
    inv (os ++ outputs step out s ls) s' := by
  induction ls generalizing os s with
  | nil => cases hrun; rw [outputs, List.append_nil]; exact hinv
  | cons l ls ih =>
    obtain ⟨t, ht, hrest⟩ := exec_cons_eq_some.mp hrun
    rw [outputs, ht, ← List.append_assoc]
    exact ih (hstep os s l t hinv ht) hrest

end outputs

end LabelledRun
