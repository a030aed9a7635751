import Mathlib

/-! Tables with a primary key: rows in some order, each under a key of its own. The writes of a relational
    store keep the key unique, so every table that can be built is well-formed, and each write comes with
    what its rows are afterwards. -/

/-- Rows under unique keys. -/
structure Table {α κ : Type*} (key : α → κ) where
  rows : List α
  nodup : (rows.map key).Nodup

namespace Table

variable {α κ : Type*} {key : α → κ}

def empty : Table key := ⟨[], List.nodup_nil⟩

theorem eq_of_rows {t t' : Table key} (h : t.rows = t'.rows) : t = t' := by
  cases t
  cases t'
  cases h
  rfl

/-- A key identifies its row. -/
theorem eq_of_key {t : Table key} {a b : α} (ha : a ∈ t.rows) (hb : b ∈ t.rows) (h : key a = key b) :
    a = b := List.inj_on_of_nodup_map t.nodup ha hb h

/-- `DELETE`: the rows that pass `keep` stay. -/
def delete (t : Table key) (keep : α → Bool) : Table key :=
  ⟨t.rows.filter keep, t.nodup.sublist (List.filter_sublist.map key)⟩

@[simp] theorem mem_delete {t : Table key} {keep : α → Bool} {a : α} :
    a ∈ (t.delete keep).rows ↔ a ∈ t.rows ∧ keep a = true := List.mem_filter

/-! ### Lookups -/

/-- The row under a key. -/
def get? [DecidableEq κ] (t : Table key) (k : κ) : Option α := t.rows.find? (fun a => key a = k)

theorem get?_eq_some_iff [DecidableEq κ] {t : Table key} {k : κ} {a : α} :
    t.get? k = some a ↔ a ∈ t.rows ∧ key a = k := by
  constructor
  · intro h
    exact ⟨List.mem_of_find?_eq_some h, by simpa using List.find?_some h⟩
  · rintro ⟨ha, hk⟩
    cases hf : t.get? k with
    | none => exact absurd hk (by simpa using List.find?_eq_none.mp hf a ha)
    | some b =>
      have hb : key b = k := by simpa using List.find?_some hf
      rw [eq_of_key (List.mem_of_find?_eq_some hf) ha (hb.trans hk.symm)]

theorem get?_eq_none_iff [DecidableEq κ] {t : Table key} {k : κ} :
    t.get? k = none ↔ ∀ a ∈ t.rows, key a ≠ k := by
  simp [get?, List.find?_eq_none]

@[simp] theorem get?_empty [DecidableEq κ] (k : κ) : (empty : Table key).get? k = none := rfl

/-- Deleting by a test on the key hides exactly the keys that fail it. -/
theorem get?_delete [DecidableEq κ] {t : Table key} {keep : α → Bool} {p : κ → Bool}
    (hkeep : ∀ a, keep a = p (key a)) (k : κ) :
    (t.delete keep).get? k = if p k = true then t.get? k else none := by
  refine Option.ext fun a => ?_
  rw [get?_eq_some_iff, mem_delete, hkeep]
  by_cases hp : p k = true
  · rw [if_pos hp, get?_eq_some_iff]
    constructor
    · rintro ⟨⟨ha, -⟩, hk⟩; exact ⟨ha, hk⟩
    · rintro ⟨ha, hk⟩; exact ⟨⟨ha, by rw [hk, hp]⟩, hk⟩
  · rw [if_neg hp]
    refine iff_of_false ?_ (Option.some_ne_none a).symm
    rintro ⟨⟨-, h⟩, hk⟩
    exact hp (hk ▸ h)

/-! ### Reading in order -/

/-- `ORDER BY key ASC`. -/
def orderBy [LinearOrder κ] (key : α → κ) (rows : List α) : List α :=
  rows.insertionSort (fun a b => key a ≤ key b)

/-- `ORDER BY key DESC`. -/
def orderByDesc [LinearOrder κ] (key : α → κ) (rows : List α) : List α :=
  rows.insertionSort (fun a b => key b ≤ key a)

/-- In an order without ties a list is read in one way, whatever order it is kept in. -/
theorem insertionSort_eq_of_perm {r : α → α → Prop} [DecidableRel r] [Std.Total r] [IsTrans α r]
    {l m : List α} (hp : l.Perm m) (hties : ∀ a ∈ m, ∀ b ∈ m, r a b → r b a → a = b) :
    l.insertionSort r = m.insertionSort r := by
  refine List.Perm.eq_of_pairwise ?_ (List.pairwise_insertionSort _ l) (List.pairwise_insertionSort _ m)
    ((List.perm_insertionSort _ l).trans (hp.trans (List.perm_insertionSort _ m).symm))
  intro a b ha hb hab hba
  exact hties a (hp.mem_iff.mp ((List.mem_insertionSort _).mp ha)) b ((List.mem_insertionSort _).mp hb)
    hab hba

/-- And what passes a test is read in the order it has among all. -/
theorem filter_insertionSort {r : α → α → Prop} [DecidableRel r] [Std.Total r] [IsTrans α r] {l : List α}
    (p : α → Bool) (hties : ∀ a ∈ l, ∀ b ∈ l, r a b → r b a → a = b) :
    (l.insertionSort r).filter p = (l.filter p).insertionSort r := by
  refine List.Perm.eq_of_pairwise ?_ ((List.pairwise_insertionSort _ l).filter p)
    (List.pairwise_insertionSort _ _)
    (((List.perm_insertionSort _ l).filter p).trans (List.perm_insertionSort _ _).symm)
  intro a b ha hb hab hba
  exact hties a ((List.mem_insertionSort _).mp (List.mem_of_mem_filter ha)) b
    (List.mem_of_mem_filter ((List.mem_insertionSort _).mp hb)) hab hba

theorem orderBy_of_ascending [LinearOrder κ] {rows : List α}
    (h : rows.Pairwise (fun a b => key a < key b)) : orderBy key rows = rows :=
  (h.imp le_of_lt).insertionSort_eq

/-- Rows under distinct keys come in one order, whatever order they are kept in. -/
theorem orderBy_eq_of_perm [LinearOrder κ] {l m : List α} (hp : l.Perm m) (hnodup : (m.map key).Nodup) :
    orderBy key l = orderBy key m := by
  have htotal : Std.Total (fun a b : α => key a ≤ key b) := ⟨fun a b => le_total (key a) (key b)⟩
  have htrans : IsTrans α (fun a b => key a ≤ key b) := ⟨fun _ _ _ => le_trans⟩
  exact insertionSort_eq_of_perm hp fun a ha b hb hab hba =>
    List.inj_on_of_nodup_map hnodup ha hb (le_antisymm hab hba)

/-- Rows in ascending order, read in descending order, come in reverse. -/
theorem orderByDesc_of_ascending [LinearOrder κ] {rows : List α}
    (h : rows.Pairwise (fun a b => key a < key b)) : orderByDesc key rows = rows.reverse := by
  have hnodup : (rows.reverse.map (OrderDual.toDual ∘ key)).Nodup := by
    refine List.pairwise_map.mpr (List.pairwise_reverse.mpr (h.imp fun hab heq => ?_))
    exact hab.ne (OrderDual.toDual.injective heq).symm
  calc orderByDesc key rows = orderBy (OrderDual.toDual ∘ key) rows := rfl
    _ = orderBy (OrderDual.toDual ∘ key) rows.reverse :=
        orderBy_eq_of_perm (List.reverse_perm rows).symm hnodup
    _ = rows.reverse := orderBy_of_ascending (List.pairwise_reverse.mpr h)

section write
variable [DecidableEq κ]

/-- Change the row under a key; the others stay. -/
def changeAt (key : α → κ) (k : κ) (change : α → α) (a : α) : α := if key a = k then change a else a

theorem key_changeAt {k : κ} {change : α → α} (hchange : ∀ a, key a = k → key (change a) = k) (a : α) :
    key (changeAt key k change a) = key a := by
  rw [changeAt]
  split
  next h => rw [hchange a h, h]
  next => rfl

theorem map_key_changeAt {k : κ} {change : α → α} (hchange : ∀ a, key a = k → key (change a) = k)
    (rows : List α) : (rows.map (changeAt key k change)).map key = rows.map key := by
  rw [List.map_map]
  exact List.map_congr_left fun a _ => key_changeAt hchange a

/-- `UPDATE … WHERE key = k`. -/
def update (t : Table key) (k : κ) (change : α → α) (hchange : ∀ a, key a = k → key (change a) = k) :
    Table key :=
  ⟨t.rows.map (changeAt key k change), by rw [map_key_changeAt hchange]; exact t.nodup⟩

theorem mem_update {t : Table key} {k : κ} {change : α → α}
    {hchange : ∀ a, key a = k → key (change a) = k} {b : α} : b ∈ (t.update k change hchange).rows ↔
      (b ∈ t.rows ∧ key b ≠ k) ∨ ∃ a ∈ t.rows, key a = k ∧ b = change a := by
  rw [update, List.mem_map]
  constructor
  · rintro ⟨a, ha, rfl⟩
    by_cases hk : key a = k
    · exact Or.inr ⟨a, ha, hk, if_pos hk⟩
    · rw [changeAt, if_neg hk]
      exact Or.inl ⟨ha, hk⟩
  · rintro (⟨hb, hk⟩ | ⟨a, ha, hk, rfl⟩)
    · exact ⟨b, hb, if_neg hk⟩
    · exact ⟨a, ha, if_pos hk⟩

/-- `INSERT … ON CONFLICT (key) DO UPDATE`: `merge` makes the new row of the one in the way. -/
def upsert (t : Table key) (fresh : α) (merge : α → α) (hmerge : ∀ a, key (merge a) = key fresh) :
    Table key :=
  if h : key fresh ∈ t.rows.map key then t.update (key fresh) merge (fun a _ => hmerge a)
  else
    ⟨t.rows ++ [fresh], by
      rw [List.map_append]
      exact t.nodup.append (List.nodup_singleton _) (by simpa using h)⟩

/-- The rows after an upsert: the others, and the merged row or, without a conflict, the new one. -/
theorem mem_upsert {t : Table key} {fresh : α} {merge : α → α}
    {hmerge : ∀ a, key (merge a) = key fresh} {b : α} : b ∈ (t.upsert fresh merge hmerge).rows ↔
      (b ∈ t.rows ∧ key b ≠ key fresh) ∨ (∃ a ∈ t.rows, key a = key fresh ∧ b = merge a) ∨
        (∀ a ∈ t.rows, key a ≠ key fresh) ∧ b = fresh := by
  rw [upsert]
  split
  next h =>
    obtain ⟨a, ha, hk⟩ := List.mem_map.mp h
    rw [mem_update]
    exact or_congr Iff.rfl ⟨Or.inl, fun h => h.resolve_right fun hno => hno.1 a ha hk⟩
  next h =>
    have hno : ∀ a ∈ t.rows, key a ≠ key fresh := fun a ha hk => h (List.mem_map.mpr ⟨a, ha, hk⟩)
    rw [List.mem_append, List.mem_singleton]
    constructor
    · rintro (hb | rfl)
      · exact Or.inl ⟨hb, hno b hb⟩
      · exact Or.inr (Or.inr ⟨hno, rfl⟩)
    · rintro (⟨hb, -⟩ | ⟨a, ha, hk, -⟩ | ⟨-, rfl⟩)
      · exact Or.inl hb
      · exact absurd hk (hno a ha)
      · exact Or.inr rfl

/-- An upsert changes what its own key finds, and nothing else. -/
theorem get?_upsert {t : Table key} {fresh : α} {merge : α → α}
    {hmerge : ∀ a, key (merge a) = key fresh} (k : κ) : (t.upsert fresh merge hmerge).get? k =
      if k = key fresh then some ((t.get? k).elim fresh merge) else t.get? k := by
  refine Option.ext fun b => ?_
  rw [get?_eq_some_iff, mem_upsert]
  by_cases hk : k = key fresh
  · subst hk
    rw [if_pos rfl, Option.some.injEq]
    cases hget : t.get? (key fresh) with
    | none =>
      rw [get?_eq_none_iff] at hget
      rw [Option.elim_none]
      constructor
      · rintro ⟨⟨-, hne⟩ | ⟨a, ha, hka, -⟩ | ⟨-, rfl⟩, hkb⟩
        · exact absurd hkb hne
        · exact absurd hka (hget a ha)
        · rfl
      · rintro rfl
        exact ⟨Or.inr (Or.inr ⟨hget, rfl⟩), rfl⟩
    | some a =>
      obtain ⟨ha, hka⟩ := get?_eq_some_iff.mp hget
      rw [Option.elim_some]
      constructor
      · rintro ⟨⟨-, hne⟩ | ⟨a', ha', hka', rfl⟩ | ⟨hno, -⟩, hkb⟩
        · exact absurd hkb hne
        · rw [eq_of_key ha ha' (hka.trans hka'.symm)]
        · exact absurd hka (hno a ha)
      · rintro rfl
        exact ⟨Or.inr (Or.inl ⟨a, ha, hka, rfl⟩), hmerge a⟩
  · rw [if_neg hk, get?_eq_some_iff]
    constructor
    · rintro ⟨⟨hb, -⟩ | ⟨a, -, -, rfl⟩ | ⟨-, rfl⟩, hkb⟩
      · exact ⟨hb, hkb⟩
      · exact absurd (hkb.symm.trans (hmerge a)) hk
      · exact absurd hkb.symm hk
    · rintro ⟨hb, hkb⟩
      exact ⟨Or.inl ⟨hb, fun hne => hk (hkb.symm.trans hne)⟩, hkb⟩

/-- `INSERT … ON CONFLICT (key) DO NOTHING`. -/
def insertNew (t : Table key) (fresh : α) : Table key :=
  if h : key fresh ∈ t.rows.map key then t
  else
    ⟨t.rows ++ [fresh], by
      rw [List.map_append]
      exact t.nodup.append (List.nodup_singleton _) (by simpa using h)⟩

/-- Where a row is its own key, an insert makes sure that it is there. -/
theorem mem_insertNew [DecidableEq α] {t : Table (fun a : α => a)} {fresh b : α} :
    b ∈ (t.insertNew fresh).rows ↔ b ∈ t.rows ∨ b = fresh := by
  rw [insertNew]
  split
  next h =>
    rw [List.map_id'] at h
    exact ⟨Or.inl, fun hb => hb.elim id (fun he => he ▸ h)⟩
  next => rw [List.mem_append, List.mem_singleton]

end write

end Table
