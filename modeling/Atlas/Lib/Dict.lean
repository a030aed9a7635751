import Mathlib

/-! Insertion-ordered dictionaries, the mapping type of a scripting language: keys are unique, an
    assignment to a present key keeps its place, an assignment to a new key goes to the end, and
    iteration follows the order of first insertion. Uniqueness of the keys is carried by the
    structure, so a lookup and a membership are two readings of one fact (`get?_eq_some_iff`). -/

structure Dict (α β : Type*) where
  entries : List (α × β)
  nodup : (entries.map (·.1)).Nodup

namespace Dict

variable {α β : Type*}

def empty : Dict α β := ⟨[], List.nodup_nil⟩

/-- The values in iteration order. -/
def values (d : Dict α β) : List β := d.entries.map (·.2)

def keys (d : Dict α β) : List α := d.entries.map (·.1)

/-- A dictionary comprehension that keeps the entries whose key passes `p`. -/
def filterKeys (d : Dict α β) (p : α → Bool) : Dict α β :=
  ⟨d.entries.filter (fun e => p e.1), d.nodup.sublist (List.filter_sublist.map _)⟩

theorem ext_entries {d d' : Dict α β} (h : d.entries = d'.entries) : d = d' := by
  cases d; cases d'; cases h; rfl

theorem filterKeys_comm (d : Dict α β) (p q : α → Bool) :
    (d.filterKeys p).filterKeys q = (d.filterKeys q).filterKeys p := by
  refine ext_entries ?_
  simp only [filterKeys, List.filter_filter, Bool.and_comm]

/-- Keys outside the part may be dropped first. -/
theorem filterKeys_filterKeys (d : Dict α β) {p q : α → Bool} (h : ∀ k, p k = true → q k = true) :
    (d.filterKeys q).filterKeys p = d.filterKeys p := by
  refine ext_entries ?_
  simp only [filterKeys, List.filter_filter]
  refine List.filter_congr fun e _ => ?_
  cases hp : p e.1 with
  | false => rfl
  | true => simp [h e.1 hp]

section lookup
variable [DecidableEq α]

/-- `d.get(k)`. -/
def get? (d : Dict α β) (k : α) : Option β := d.entries.lookup k

/-- Entries after `d[k] = v`. -/
def setEntries (k : α) (v : β) : List (α × β) → List (α × β)
  | [] => [(k, v)]
  | e :: es => if e.1 = k then (k, v) :: es else e :: setEntries k v es

theorem mem_keys_setEntries {k : α} {v : β} {x : α} : ∀ {es : List (α × β)},
    x ∈ (setEntries k v es).map (·.1) ↔ x = k ∨ x ∈ es.map (·.1)
  | [] => by simp [setEntries]
  | e :: es => by
      rw [setEntries]
      split
      next h => simp [h]
      next h =>
        rw [List.map_cons, List.mem_cons, mem_keys_setEntries, List.map_cons, List.mem_cons]
        tauto

theorem nodup_setEntries {k : α} {v : β} : ∀ {es : List (α × β)}, (es.map (·.1)).Nodup →
    ((setEntries k v es).map (·.1)).Nodup
  | [], _ => by simp [setEntries]
  | e :: es, h => by
      rw [setEntries]
      rw [List.map_cons, List.nodup_cons] at h
      split
      next he => rw [List.map_cons, List.nodup_cons, ← he]; exact h
      next he =>
        rw [List.map_cons, List.nodup_cons, mem_keys_setEntries]
        exact ⟨by rintro (hk | hk); exacts [he hk, h.1 hk], nodup_setEntries h.2⟩

/-- `d[k] = v`. -/
def set (d : Dict α β) (k : α) (v : β) : Dict α β := ⟨setEntries k v d.entries, nodup_setEntries d.nodup⟩

@[simp] theorem get?_empty (k : α) : (empty : Dict α β).get? k = none := rfl

theorem lookup_eq_some_iff {k : α} {v : β} : ∀ {es : List (α × β)}, (es.map (·.1)).Nodup →
    (es.lookup k = some v ↔ (k, v) ∈ es)
  | [], _ => by simp
  | (k', v') :: es, h => by
      rw [List.map_cons, List.nodup_cons] at h
      rw [List.lookup_cons, List.mem_cons]
      by_cases hk : k = k'
      · subst hk
        have hnot : (k, v) ∉ es := fun hm => h.1 (List.mem_map.mpr ⟨_, hm, rfl⟩)
        simp [hnot, eq_comm]
      · have hb : (k == k') = false := by simpa using hk
        simp only [hb, lookup_eq_some_iff h.2, Prod.mk.injEq, hk, false_and, false_or]

/-- Under unique keys the order of the entries plays no part. -/
theorem lookup_perm {es es' : List (α × β)} (hperm : es.Perm es') (h : (es.map (·.1)).Nodup) (k : α) :
    es.lookup k = es'.lookup k := by
  have h' : (es'.map (·.1)).Nodup := (hperm.map (·.1)).nodup_iff.mp h
  refine Option.ext fun v => ?_
  rw [lookup_eq_some_iff h, lookup_eq_some_iff h', hperm.mem_iff]

theorem lookup_map_values {γ : Type*} (f : β → γ) (k : α) (es : List (α × β)) :
    (es.map (fun e => (e.1, f e.2))).lookup k = (es.lookup k).map f := by
  induction es with
  | nil => rfl
  | cons e es ih =>
    rw [List.map_cons, List.lookup_cons, List.lookup_cons, ih]
    cases k == e.1 <;> rfl

theorem get?_eq_some_iff {d : Dict α β} {k : α} {v : β} : d.get? k = some v ↔ (k, v) ∈ d.entries :=
  lookup_eq_some_iff d.nodup

theorem mem_values_iff {d : Dict α β} {v : β} : v ∈ d.values ↔ ∃ k, d.get? k = some v := by
  simp only [values, List.mem_map, get?_eq_some_iff, Prod.exists, exists_eq_right]

theorem mem_keys_iff {d : Dict α β} {k : α} : k ∈ d.keys ↔ (d.get? k).isSome = true := by
  simp only [keys, List.mem_map, Option.isSome_iff_exists, get?_eq_some_iff, Prod.exists, exists_and_right,
    exists_eq_right]

theorem lookup_setEntries {k j : α} {v : β} : ∀ {es : List (α × β)},
    (setEntries k v es).lookup j = if j = k then some v else es.lookup j
  | [] => by
      by_cases h : j = k <;> simp [setEntries, h]
  | e :: es => by
      rw [setEntries]
      by_cases he : e.1 = k
      · rw [if_pos he, List.lookup_cons, List.lookup_cons, he]
        by_cases h : j = k
        · simp [h]
        · have hb : (j == k) = false := by simpa using h
          simp [hb, h]
      · rw [if_neg he, List.lookup_cons, List.lookup_cons, lookup_setEntries]
        by_cases h : j = k
        · subst h
          have hb : (j == e.1) = false := by simpa using fun h => he h.symm
          simp [hb]
        · simp [h]

theorem mem_keys_set {d : Dict α β} {k j : α} {v : β} : j ∈ (d.set k v).keys ↔ j = k ∨ j ∈ d.keys :=
  mem_keys_setEntries

theorem get?_set (d : Dict α β) (k j : α) (v : β) :
    (d.set k v).get? j = if j = k then some v else d.get? j := lookup_setEntries

@[simp] theorem get?_set_self (d : Dict α β) (k : α) (v : β) : (d.set k v).get? k = some v := by
  rw [get?_set, if_pos rfl]

theorem get?_set_ne (d : Dict α β) {k j : α} (v : β) (h : j ≠ k) : (d.set k v).get? j = d.get? j := by
  rw [get?_set, if_neg h]

/-- Filtering entries by their key hides exactly the keys that fail the test. -/
theorem lookup_filter (p : α → Bool) (k : α) : ∀ es : List (α × β),
    (es.filter (fun e => p e.1)).lookup k = if p k = true then es.lookup k else none
  | [] => by simp
  | (j, v) :: es => by
      have ih := lookup_filter p k es
      rw [List.filter_cons, List.lookup_cons]
      by_cases hk : k = j
      · subst hk
        by_cases hp : p k = true <;> simp [hp] at ih ⊢
        exact ih
      · have hb : (k == j) = false := by simpa using hk
        split
        · rw [List.lookup_cons, hb, ih]
        · rw [hb, ih]

theorem get?_filterKeys (d : Dict α β) (p : α → Bool) (k : α) :
    (d.filterKeys p).get? k = if p k = true then d.get? k else none := lookup_filter p k d.entries

/-- `{**a, **b}`: entries of `a` with the values of `b` where both have the key, then the rest of `b`. -/
def mergeEntries (a b : List (α × β)) : List (α × β) :=
  a.map (fun e => (e.1, (b.lookup e.1).getD e.2)) ++ b.filter (fun e => !(a.any (·.1 == e.1)))

theorem lookup_map_getD (b : List (α × β)) (k : α) : ∀ a : List (α × β),
    (a.map (fun e => (e.1, (b.lookup e.1).getD e.2))).lookup k =
      (a.lookup k).map (fun v => (b.lookup k).getD v)
  | [] => rfl
  | e :: es => by
      rw [List.map_cons, List.lookup_cons, List.lookup_cons, lookup_map_getD b k es]
      by_cases hk : k = e.1
      · subst hk; simp
      · have hb : (k == e.1) = false := by simpa using hk
        simp [hb]

theorem any_key_eq (k : α) : ∀ es : List (α × β), es.any (·.1 == k) = (es.lookup k).isSome
  | [] => rfl
  | (j, v) :: es => by
      rw [List.any_cons, List.lookup_cons, any_key_eq k es]
      by_cases hk : k = j
      · simp [hk]
      · have hb : (k == j) = false := by simpa using hk
        have hb' : (j == k) = false := by simpa using fun h => hk h.symm
        simp [hb, hb']

/-- A merged mapping answers from the right operand first. -/
theorem lookup_mergeEntries (a b : List (α × β)) (k : α) :
    (mergeEntries a b).lookup k = (b.lookup k).or (a.lookup k) := by
  rw [mergeEntries, List.lookup_append, lookup_map_getD,
    lookup_filter (fun k => !(a.any (·.1 == k))), any_key_eq]
  cases a.lookup k <;> cases b.lookup k <;> rfl

/-- Assigning a list of values, each under its own key. -/
def setAll (key : β → α) (d : Dict α β) (vs : List β) : Dict α β :=
  vs.foldl (fun d v => d.set (key v) v) d

@[simp] theorem setAll_cons (key : β → α) (d : Dict α β) (v : β) (vs : List β) :
    d.setAll key (v :: vs) = (d.set (key v) v).setAll key vs := rfl

/-- A key none of the assigned values has keeps what it had. -/
theorem get?_setAll_of_not_mem (key : β → α) {k : α} : ∀ (vs : List β) (d : Dict α β),
    k ∉ vs.map key → (d.setAll key vs).get? k = d.get? k
  | [], _, _ => rfl
  | v :: vs, d, h => by
      rw [List.map_cons, List.mem_cons, not_or] at h
      rw [setAll_cons, get?_setAll_of_not_mem key vs _ h.2, get?_set_ne _ _ h.1]

/-- A key one of the assigned values has ends with such a value. -/
theorem get?_setAll_of_mem (key : β → α) {k : α} : ∀ (vs : List β) (d : Dict α β),
    k ∈ vs.map key → ∃ v ∈ vs, key v = k ∧ (d.setAll key vs).get? k = some v
  | v :: vs, d, h => by
      rw [setAll_cons]
      by_cases hk : k ∈ vs.map key
      · obtain ⟨w, hw, hkey, hget⟩ := get?_setAll_of_mem key vs (d.set (key v) v) hk
        exact ⟨w, List.mem_cons_of_mem _ hw, hkey, hget⟩
      · rw [List.map_cons, List.mem_cons, or_iff_left hk] at h
        refine ⟨v, List.mem_cons_self, h.symm, ?_⟩
        rw [get?_setAll_of_not_mem key vs _ hk, h, get?_set_self]

/-- Of the assigned values with one key the last is kept. -/
theorem get?_setAll (key : β → α) (k : α) : ∀ (vs : List β) (d : Dict α β),
    (d.setAll key vs).get? k = (vs.reverse.find? (fun v => key v = k)).or (d.get? k)
  | [], _ => rfl
  | v :: vs, d => by
      rw [setAll_cons, get?_setAll key k vs, List.reverse_cons, List.find?_append, Option.or_assoc, get?_set]
      by_cases hk : key v = k
      · simp [hk]
      · simp [hk, Ne.symm hk]

theorem setEntries_of_not_mem {k : α} {v : β} : ∀ {es : List (α × β)}, k ∉ es.map (·.1) →
    setEntries k v es = es ++ [(k, v)]
  | [], _ => rfl
  | e :: es, h => by
      rw [List.map_cons, List.mem_cons, not_or] at h
      rw [setEntries, if_neg (fun he => h.1 he.symm), setEntries_of_not_mem h.2, List.cons_append]

/-- Assigning to a key keeps the order of the keys; a new one goes to the end. -/
theorem keys_set_of_mem {d : Dict α β} {k : α} (v : β) (h : k ∈ d.keys) : (d.set k v).keys = d.keys := by
  have hkeys : ∀ {es : List (α × β)}, k ∈ es.map (·.1) → (setEntries k v es).map (·.1) = es.map (·.1) := by
    intro es
    induction es with
    | nil => simp
    | cons e es ih =>
      intro hk
      rw [setEntries]
      split
      next he => simp [he]
      next he => simpa using ih ((List.mem_cons.mp hk).resolve_left (Ne.symm he))
  exact hkeys h

theorem keys_set_of_not_mem {d : Dict α β} {k : α} (v : β) (h : k ∉ d.keys) :
    (d.set k v).keys = d.keys ++ [k] := by
  change (setEntries k v d.entries).map (·.1) = _
  rw [setEntries_of_not_mem h, List.map_append]
  rfl

/-- Values under new keys, no two of them the same, go to the end in order. -/
theorem entries_setAll_of_new (key : β → α) : ∀ (vs : List β) (d : Dict α β),
    (vs.map key).Nodup → (∀ v ∈ vs, key v ∉ d.keys) →
      (d.setAll key vs).entries = d.entries ++ vs.map (fun v => (key v, v))
  | [], d, _, _ => (List.append_nil _).symm
  | v :: vs, d, hnodup, hnew => by
      rw [List.map_cons, List.nodup_cons] at hnodup
      have hv : (d.set (key v) v).entries = d.entries ++ [(key v, v)] :=
        setEntries_of_not_mem (hnew v List.mem_cons_self)
      rw [setAll_cons, entries_setAll_of_new key vs _ hnodup.2, hv, List.append_assoc,
        List.singleton_append, List.map_cons]
      intro w hw
      rw [mem_keys_set, not_or]
      exact ⟨fun he => hnodup.1 (he ▸ List.mem_map_of_mem hw), hnew w (List.mem_cons_of_mem _ hw)⟩

/-- What a key ends with depends on what was there only if none of the assigned values has it. -/
theorem get?_setAll_congr (key : β → α) {k : α} {vs : List β} {d d' : Dict α β}
    (h : k ∈ vs.map key ∨ d.get? k = d'.get? k) : (d.setAll key vs).get? k = (d'.setAll key vs).get? k := by
  induction vs generalizing d d' with
  | nil => exact h.resolve_left List.not_mem_nil
  | cons v vs ih =>
    rw [setAll_cons, setAll_cons]
    refine ih ?_
    by_cases hk : k = key v
    · subst hk
      exact Or.inr (by rw [get?_set_self, get?_set_self])
    · rw [List.map_cons, List.mem_cons, or_iff_right hk] at h
      exact h.imp id (fun h => by rw [get?_set_ne _ _ hk, get?_set_ne _ _ hk, h])

/-! ### Parts by key -/

theorem filter_setEntries (p : α → Bool) (k : α) (v : β) : ∀ es : List (α × β),
    (setEntries k v es).filter (fun e => p e.1) =
      if p k = true then setEntries k v (es.filter fun e => p e.1) else es.filter fun e => p e.1
  | [] => by cases hk : p k <;> simp [setEntries, hk]
  | e :: es => by
      rw [setEntries]
      split
      next he =>
        cases hk : p k with
        | false => simp [hk, he]
        | true => simp [setEntries, hk, he]
      next he =>
        rw [List.filter_cons, filter_setEntries p k v es]
        cases hk : p k <;> cases hp : p e.1 <;> simp [setEntries, hp, he]

/-- Setting a key changes the part that has it, and no other. -/
theorem filterKeys_set (d : Dict α β) (p : α → Bool) (k : α) (v : β) :
    (d.set k v).filterKeys p = if p k = true then (d.filterKeys p).set k v else d.filterKeys p := by
  refine ext_entries ((filter_setEntries p k v d.entries).trans ?_)
  split <;> rfl

/-- Dropping keys under which nothing passes the test. -/
theorem filter_values_filterKeys {d : Dict α β} {keep : α → Bool} {p : β → Bool}
    (h : ∀ k v, d.get? k = some v → p v = true → keep k = true) :
    (d.filterKeys keep).values.filter p = d.values.filter p := by
  rw [values, values, filterKeys, List.filter_map, List.filter_map, List.filter_filter]
  congr 1
  refine List.filter_congr fun e he => ?_
  cases hp : p e.2 with
  | false => simp [hp]
  | true => simp [hp, h e.1 e.2 (get?_eq_some_iff.mpr he) hp]

end lookup

end Dict
