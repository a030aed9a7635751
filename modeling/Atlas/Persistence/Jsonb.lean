import Atlas.Lib.Table
import Atlas.Json

/-! The way of a value through a `jsonb` column and back. Numbers are kept as exact decimals with the
    number of fractional digits they were written with; one that is printed without any reads back as an
    `int`. Strings, booleans and null come back as they went in, and an object comes back with its
    members in the column's own order. `dumps_restore` says that the canonical text survives where every
    float in the value does, and `signs_restore` that it does not elsewhere: each float that is changed
    loses one sign character of the text, and nothing else gains one. -/

namespace Atlas

/-! ### Numbers -/

/-- Digits before the decimal point, as `repr` counts them. -/
def PyFloat.point (x : PyFloat) : ℤ := (toString x.digits).toList.length + x.exponent

/-- `repr` prints the float without a power of ten. -/
def PyFloat.Positional (x : PyFloat) : Prop := x.digits = 0 ∨ -4 < x.point ∧ x.point ≤ 16

instance (x : PyFloat) : Decidable x.Positional := inferInstanceAs (Decidable (_ ∨ _))

/-- The decimal of a float is its shortest: no trailing zero, and at most 17 digits. -/
structure PyFloat.Shortest (x : PyFloat) : Prop where
  digits_lt : x.digits < 10 ^ 17
  trimmed : x.digits % 10 = 0 → x.digits = 0 ∧ x.exponent = 0

instance (x : PyFloat) : Decidable x.Shortest :=
  decidable_of_iff (x.digits < 10 ^ 17 ∧ (x.digits % 10 = 0 → x.digits = 0 ∧ x.exponent = 0))
    ⟨fun h => ⟨h.1, h.2⟩, fun h => ⟨h.1, h.2⟩⟩

/-- Digits after the decimal point in `repr`. -/
def PyFloat.fractionDigits (x : PyFloat) : ℕ :=
  if x.digits = 0 then 1
  else if x.Positional then (max 1 (-x.exponent)).toNat
  else (toString x.digits).toList.length - 1

/-- The power of ten in `repr`. -/
def PyFloat.printedExponent (x : PyFloat) : ℤ := if x.Positional then 0 else x.point - 1

/-- A `numeric`: `coefficient / 10 ^ scale`, printed with `scale` digits after the point. -/
structure Numeric where
  coefficient : ℤ
  scale : ℕ
  deriving DecidableEq, Repr

/-- `numeric_in` on the text of an `int`. -/
def Numeric.ofInt (n : ℤ) : Numeric := ⟨n, 0⟩

/-- `numeric_in` on the text of a float: the digits after the point, less the power of ten, make the
    scale. There is no negative zero. -/
def Numeric.ofFloat (x : PyFloat) : Numeric :=
  let scale := (x.fractionDigits - x.printedExponent).toNat
  ⟨(if x.negative then -1 else 1) * (x.digits * 10 ^ (x.exponent + scale).toNat : ℕ), scale⟩

/-- Take the zeros off the end of a number, into the exponent. -/
def stripZeros : ℕ → ℕ → ℤ → ℕ × ℤ
  | 0, digits, exponent => (digits, exponent)
  | fuel + 1, digits, exponent =>
    if digits % 10 = 0 then stripZeros fuel (digits / 10) (exponent + 1) else (digits, exponent)

/-- `float` of a plain decimal that is some float's. -/
def PyFloat.ofDecimal (coefficient : ℤ) (scale : ℕ) : PyFloat :=
  if coefficient = 0 then ⟨false, 0, 0⟩
  else
    let stripped := stripZeros coefficient.natAbs coefficient.natAbs (-scale)
    ⟨decide (coefficient < 0), stripped.1, stripped.2⟩

/-- `json.loads` on the printed number: an `int` where it has no fractional part. -/
def Numeric.read (n : Numeric) : Json :=
  if n.scale = 0 then .int n.coefficient else .float (PyFloat.ofDecimal n.coefficient n.scale)

def PyFloat.magnitude (x : PyFloat) : ℚ := x.digits * 10 ^ x.exponent

/-- The floats that come back from a `jsonb` column: none of `-0.0` and of the floats from `1e16` on. -/
def PyFloat.Survives (x : PyFloat) : Prop :=
  ¬(x.negative = true ∧ x.digits = 0) ∧ x.magnitude < 10 ^ 16

instance (x : PyFloat) : Decidable x.Survives := inferInstanceAs (Decidable (_ ∧ _))

theorem PyFloat.length_pos (x : PyFloat) : 0 < (toString x.digits).toList.length := by
  rw [Nat.toString_eq_repr, Nat.toList_repr]; exact Nat.length_toDigits_pos

theorem PyFloat.length_le_iff (x : PyFloat) {k : ℕ} (hk : 0 < k) :
    (toString x.digits).toList.length ≤ k ↔ x.digits < 10 ^ k := by
  rw [Nat.toString_eq_repr, Nat.toList_repr, Nat.length_toDigits_le_iff (by decide) hk]

/-- A number lies between the powers of ten that its number of digits says. -/
theorem PyFloat.digits_bounds {x : PyFloat} (h0 : x.digits ≠ 0) :
    10 ^ ((toString x.digits).toList.length - 1) ≤ x.digits ∧
      x.digits < 10 ^ (toString x.digits).toList.length := by
  have hpos := x.length_pos
  refine ⟨?_, (x.length_le_iff hpos).mp le_rfl⟩
  rcases Nat.eq_zero_or_pos ((toString x.digits).toList.length - 1) with hone | hmore
  · rw [hone]; exact Nat.one_le_iff_ne_zero.mpr h0
  · have hnot := mt (x.length_le_iff hmore).mpr (by omega)
    exact not_lt.mp hnot

/-- The magnitude of a float is below a power of ten where its decimal point is. -/
theorem PyFloat.magnitude_lt_iff {x : PyFloat} (h0 : x.digits ≠ 0) (k : ℕ) :
    x.magnitude < 10 ^ k ↔ x.point ≤ k := by
  have hpos := x.length_pos
  obtain ⟨hlo, hhi⟩ := PyFloat.digits_bounds h0
  rw [PyFloat.magnitude, PyFloat.point]
  generalize (toString x.digits).toList.length = len at *
  constructor
  · intro hlt
    have hlo' : (10 : ℚ) ^ ((len - 1 : ℕ) : ℤ) ≤ x.digits := by exact_mod_cast hlo
    have h : (10 : ℚ) ^ (((len - 1 : ℕ) : ℤ) + x.exponent) < 10 ^ (k : ℤ) := by
      rw [zpow_add₀ (by norm_num)]
      refine lt_of_le_of_lt (mul_le_mul_of_nonneg_right hlo' (by positivity)) ?_
      rwa [zpow_natCast]
    have := (zpow_lt_zpow_iff_right₀ (by norm_num : (1 : ℚ) < 10)).mp h
    omega
  · intro hle
    have hhi' : (x.digits : ℚ) < 10 ^ (len : ℤ) := by exact_mod_cast hhi
    have h : (10 : ℚ) ^ (len : ℤ) * 10 ^ x.exponent ≤ 10 ^ (k : ℤ) := by
      rw [← zpow_add₀ (by norm_num)]
      exact zpow_le_zpow_right₀ (by norm_num) hle
    rw [← zpow_natCast]
    exact lt_of_lt_of_le (mul_lt_mul_of_pos_right hhi' (by positivity)) h

theorem PyFloat.survives_iff {x : PyFloat} (h0 : x.digits ≠ 0) : x.Survives ↔ x.point ≤ 16 := by
  rw [PyFloat.Survives, show (10 : ℚ) ^ 16 = 10 ^ (16 : ℕ) by norm_num, PyFloat.magnitude_lt_iff h0]
  exact and_iff_right (fun h => h0 h.2)

theorem PyFloat.survives_zero {x : PyFloat} (h0 : x.digits = 0) : x.Survives ↔ x.negative = false := by
  rw [PyFloat.Survives, PyFloat.magnitude, h0]
  simp

theorem stripZeros_mul_pow {d : ℕ} (hd : d % 10 ≠ 0) : ∀ (k fuel : ℕ) (e : ℤ), k ≤ fuel →
    stripZeros fuel (d * 10 ^ k) e = (d, e + k)
  | 0, 0, e, _ => by simp [stripZeros]
  | 0, fuel + 1, e, _ => by simp [stripZeros, hd]
  | k + 1, fuel + 1, e, hk => by
      have hmod : d * 10 ^ (k + 1) % 10 = 0 := by rw [pow_succ, ← mul_assoc]; exact Nat.mul_mod_left _ _
      have hdiv : d * 10 ^ (k + 1) / 10 = d * 10 ^ k := by
        rw [pow_succ, ← mul_assoc]; exact Nat.mul_div_cancel _ (by decide)
      rw [stripZeros, if_pos hmod, hdiv, stripZeros_mul_pow hd k fuel (e + 1) (Nat.le_of_succ_le_succ hk)]
      push_cast
      rw [add_assoc, add_comm 1 (k : ℤ)]

/-- A float read back from its decimal, however many zeros that was written with. -/
theorem PyFloat.ofDecimal_of_shortest {x : PyFloat} (hx : x.Shortest) (h0 : x.digits ≠ 0) (k : ℕ)
    (scale : ℕ) (hk : x.exponent = k - scale) :
    PyFloat.ofDecimal ((if x.negative then -1 else 1) * (x.digits * 10 ^ k : ℕ)) scale = x := by
  have hd : x.digits % 10 ≠ 0 := fun h => h0 (hx.trimmed h).1
  have hpos : 0 < x.digits * 10 ^ k := Nat.mul_pos (Nat.pos_of_ne_zero h0) (Nat.pow_pos (by decide))
  have hfuel : k ≤ x.digits * 10 ^ k :=
    (Nat.lt_pow_self (by decide : 1 < 10)).le.trans (Nat.le_mul_of_pos_left _ (Nat.pos_of_ne_zero h0))
  have hstrip := stripZeros_mul_pow hd k (x.digits * 10 ^ k) (-scale) hfuel
  obtain ⟨negative, digits, exponent⟩ := x
  simp only at *
  rw [PyFloat.ofDecimal]
  cases negative with
  | false =>
    rw [if_neg Bool.false_ne_true, one_mul, if_neg (by omega), Int.natAbs_natCast, hstrip]
    rw [decide_eq_false (by omega), hk, neg_add_eq_sub]
  | true =>
    rw [if_pos rfl, neg_one_mul, if_neg (by omega), Int.natAbs_neg, Int.natAbs_natCast, hstrip]
    rw [decide_eq_true (by omega), hk, neg_add_eq_sub]

/-- The scale a float is stored with: its fractional digits, one where they are only the printed `.0`,
    and none where `repr` prints a whole number with a power of ten. -/
theorem Numeric.scale_ofFloat {x : PyFloat} (h0 : x.digits ≠ 0) :
    (Numeric.ofFloat x).scale =
      if x.exponent < 0 then (-x.exponent).toNat else if x.point ≤ 16 then 1 else 0 := by
  have hlen := x.length_pos
  have hpoint : x.point = (toString x.digits).toList.length + x.exponent := rfl
  change ((x.fractionDigits : ℤ) - x.printedExponent).toNat = _
  rw [PyFloat.fractionDigits, PyFloat.printedExponent, if_neg h0]
  by_cases hp : x.Positional
  · obtain ⟨hlo, hhi⟩ := hp.resolve_left h0
    rw [if_pos hp, if_pos hp, if_pos hhi, sub_zero, Int.toNat_natCast]
    split
    next hneg => rw [max_eq_right (by omega)]
    next hneg => rw [max_eq_left (by omega)]; rfl
  · have hrange : ¬(-4 < x.point ∧ x.point ≤ 16) := fun h => hp (Or.inr h)
    rw [if_neg hp, if_neg hp]
    split
    next hneg => congr 1; omega
    next hneg => rw [if_neg (by omega)]; omega

/-- A float of moderate size comes back as it was. -/
theorem Numeric.read_ofFloat {x : PyFloat} (hx : x.Shortest) (hs : x.Survives) :
    (Numeric.ofFloat x).read = .float x := by
  by_cases h0 : x.digits = 0
  · have hneg := (PyFloat.survives_zero h0).mp hs
    obtain ⟨negative, digits, exponent⟩ := x
    simp only at h0 hneg
    obtain rfl : exponent = 0 := (hx.trimmed (by simp [h0])).2
    subst h0 hneg
    rfl
  · have hpoint := (PyFloat.survives_iff h0).mp hs
    have hscale := Numeric.scale_ofFloat h0
    rw [if_pos hpoint] at hscale
    have hne : (Numeric.ofFloat x).scale ≠ 0 := by rw [hscale]; split <;> omega
    rw [Numeric.read, if_neg hne]
    refine congrArg Json.float (PyFloat.ofDecimal_of_shortest hx h0 _ _ ?_)
    rw [Int.toNat_of_nonneg]
    · exact (add_sub_cancel_right x.exponent _).symm
    · change 0 ≤ x.exponent + ((Numeric.ofFloat x).scale : ℤ)
      rw [hscale]
      split <;> omega

/-- A float from `1e16` on comes back as an `int`. -/
theorem Numeric.read_ofFloat_huge {x : PyFloat} (hx : x.Shortest) (h0 : x.digits ≠ 0) (hbig : 16 < x.point) :
    (Numeric.ofFloat x).read =
      .int ((if x.negative then -1 else 1) * (x.digits * 10 ^ x.exponent.toNat : ℕ)) := by
  have hlen := (x.length_le_iff (by decide)).mpr hx.digits_lt
  have hexp : ¬x.exponent < 0 := by rw [PyFloat.point] at hbig; omega
  have hscale : (Numeric.ofFloat x).scale = 0 := by
    rw [Numeric.scale_ofFloat h0, if_neg hexp, if_neg (not_le.mpr hbig)]
  rw [Numeric.read, if_pos hscale]
  change Json.int (_ * (x.digits * 10 ^ (x.exponent + ((Numeric.ofFloat x).scale : ℤ)).toNat : ℕ)) = _
  rw [hscale, Nat.cast_zero, add_zero]

/-! ### Sign characters -/

def isSign (c : Char) : Bool := c == '+' || c == '-'

/-- The number of sign characters in a text. -/
def signs (s : String) : ℕ := s.toList.countP isSign

@[simp] theorem signs_append (s t : String) : signs (s ++ t) = signs s + signs t := by
  rw [signs, String.toList_append, List.countP_append]; rfl

theorem signs_intercalate : ∀ l : List String, signs (",".intercalate l) = (l.map signs).sum
  | [] => rfl
  | s :: l => by
      by_cases hl : l = []
      · subst hl; simp
      · rw [String.intercalate_cons_of_ne_nil hl, signs_append, signs_append, signs_intercalate l]
        simp only [show signs "," = 0 from rfl, add_zero, List.map_cons, List.sum_cons]

/-- Digits are no sign characters. -/
theorem countP_isSign_digits {n : ℕ} {l : List Char} (hl : l ⊆ (toString n).toList) :
    l.countP isSign = 0 := by
  rw [List.countP_eq_zero]
  intro c hc
  have hdigit : c.isDigit = true := by
    have hmem := hl hc
    rw [Nat.toString_eq_repr, Nat.toList_repr] at hmem
    exact Nat.isDigit_of_mem_toDigits (by decide) (by decide) hmem
  intro hsign
  rw [isSign, Bool.or_eq_true, beq_iff_eq, beq_iff_eq] at hsign
  rcases hsign with rfl | rfl <;> exact absurd hdigit (by decide)

theorem signs_repr_nat (n : ℕ) : signs n.repr = 0 :=
  countP_isSign_digits (n := n) (List.Subset.refl _)

theorem signs_toString_int (b : Bool) {n : ℕ} (hn : n ≠ 0) :
    signs (toString ((if b then -1 else 1) * (n : ℤ))) = b.toNat := by
  rw [Int.toString_eq_repr, Int.repr_eq_if]
  cases b with
  | false =>
    rw [if_neg Bool.false_ne_true, one_mul, if_pos (by omega), signs_repr_nat]; rfl
  | true =>
    rw [if_pos rfl, neg_one_mul, if_neg (by omega), signs_append, signs_repr_nat]; rfl

/-- A large float prints one sign character for its power of ten. -/
theorem PyFloat.signs_repr_huge {x : PyFloat} (h0 : x.digits ≠ 0) (hbig : 16 < x.point) :
    signs x.repr = x.negative.toNat + 1 := by
  have hpower : ∀ n : ℕ, ((if (toString n).toList.length = 1 then '0' :: (toString n).toList
      else (toString n).toList).countP isSign) = 0 := by
    intro n
    split
    · rw [List.countP_cons_of_neg (by decide), countP_isSign_digits (List.Subset.refl _)]
    · exact countP_isSign_digits (List.Subset.refl _)
  have hmantissa : (if (toString x.digits).toList.length = 1 then (toString x.digits).toList
      else (toString x.digits).toList.take 1 ++ ['.'] ++ (toString x.digits).toList.drop 1).countP
        isSign = 0 := by
    split
    · exact countP_isSign_digits (List.Subset.refl _)
    · rw [List.countP_append, List.countP_append, countP_isSign_digits (List.take_subset _ _),
        countP_isSign_digits (List.drop_subset _ _)]
      rfl
  have hrange : ¬(-4 < x.point ∧ x.point ≤ 16) := by omega
  have hexp : ¬x.point - 1 < 0 := by omega
  rw [PyFloat.point] at hrange hexp
  simp only [signs, PyFloat.repr, if_neg h0, if_neg hrange, if_neg hexp, String.toList_ofList]
  cases x.negative with
  | false =>
    rw [if_neg Bool.false_ne_true, List.countP_append, List.countP_append, hmantissa, hpower]; rfl
  | true =>
    rw [if_pos rfl, List.countP_cons_of_pos (by decide), List.countP_append, List.countP_append, hmantissa,
      hpower]
    rfl

/-- What a stored float loses in sign characters: one where it does not survive, none where it does. -/
theorem Numeric.signs_read_ofFloat {x : PyFloat} (hx : x.Shortest) :
    signs (Numeric.ofFloat x).read.dumps + (decide ¬x.Survives).toNat = signs x.repr := by
  by_cases hs : x.Survives
  · rw [Numeric.read_ofFloat hx hs, Json.dumps, decide_eq_false (not_not.mpr hs)]; rfl
  rw [decide_eq_true hs]
  by_cases h0 : x.digits = 0
  · have hneg : x.negative = true := by
      rw [PyFloat.survives_zero h0, Bool.not_eq_false] at hs; exact hs
    have hexp := (hx.trimmed (by simp [h0])).2
    obtain ⟨negative, digits, exponent⟩ := x
    simp only at h0 hneg hexp
    subst h0 hneg hexp
    decide
  · have hbig : 16 < x.point := by rw [PyFloat.survives_iff h0, not_le] at hs; exact hs
    have hne : x.digits * 10 ^ x.exponent.toNat ≠ 0 := Nat.mul_ne_zero h0 (by positivity)
    rw [Numeric.read_ofFloat_huge hx h0 hbig, Json.dumps, signs_toString_int _ hne,
      PyFloat.signs_repr_huge h0 hbig]
    rfl

/-! ### Values -/

inductive Jsonb where
  | null
  | bool (b : Bool)
  | num (n : Numeric)
  | str (s : String)
  | arr (items : List Jsonb)
  | obj (members : List (String × Jsonb))

/-- The order in which the column lists the members of an object: it keeps each of them. -/
structure MemberOrder where
  arrange : List (String × Jsonb) → List (String × Jsonb)
  perm : ∀ members, (arrange members).Perm members

mutual
/-- A value as the column keeps it. -/
def Jsonb.store (order : MemberOrder) : Json → Jsonb
  | .null => .null
  | .bool b => .bool b
  | .int n => .num (Numeric.ofInt n)
  | .float x => .num (Numeric.ofFloat x)
  | .str s => .str s
  | .arr items => .arr (Jsonb.storeItems order items)
  | .obj fields => .obj (order.arrange (Jsonb.storeFields order fields))

def Jsonb.storeItems (order : MemberOrder) : List Json → List Jsonb
  | [] => []
  | v :: vs => Jsonb.store order v :: Jsonb.storeItems order vs

def Jsonb.storeFields (order : MemberOrder) : List (String × Json) → List (String × Jsonb)
  | [] => []
  | (k, v) :: fs => (k, Jsonb.store order v) :: Jsonb.storeFields order fs
end

mutual
/-- A stored value as `json.loads` reads it. -/
def Jsonb.load : Jsonb → Json
  | .null => .null
  | .bool b => .bool b
  | .num n => n.read
  | .str s => .str s
  | .arr items => .arr (Jsonb.loadItems items)
  | .obj members => .obj (Jsonb.loadFields members)

def Jsonb.loadItems : List Jsonb → List Json
  | [] => []
  | v :: vs => v.load :: Jsonb.loadItems vs

def Jsonb.loadFields : List (String × Jsonb) → List (String × Json)
  | [] => []
  | (k, v) :: fs => (k, v.load) :: Jsonb.loadFields fs
end

/-- A text with a NUL, which neither `text` nor `jsonb` can hold. -/
def textHasNul (s : String) : Bool := s.toList.contains '\x00'

/-- No bound text has a NUL. -/
def bindable (texts : List String) : Bool := texts.all (fun s => !textHasNul s)

/-- What psycopg raises for a text with a NUL. -/
def dataError : PyError := ⟨"DataError", "PostgreSQL text fields cannot contain NUL (0x00) bytes"⟩

mutual
/-- Some string or key in the value has a NUL. -/
def Json.hasNul : Json → Bool
  | .str s => textHasNul s
  | .arr items => Json.hasNulItems items
  | .obj fields => Json.hasNulFields fields
  | _ => false

def Json.hasNulItems : List Json → Bool
  | [] => false
  | v :: vs => v.hasNul || Json.hasNulItems vs

def Json.hasNulFields : List (String × Json) → Bool
  | [] => false
  | (k, v) :: fs => textHasNul k || v.hasNul || Json.hasNulFields fs
end

mutual
/-- The floats in a value, at any depth. -/
def Json.floats : Json → List PyFloat
  | .float x => [x]
  | .arr items => Json.floatsItems items
  | .obj fields => Json.floatsFields fields
  | _ => []

def Json.floatsItems : List Json → List PyFloat
  | [] => []
  | v :: vs => v.floats ++ Json.floatsItems vs

def Json.floatsFields : List (String × Json) → List PyFloat
  | [] => []
  | (_, v) :: fs => v.floats ++ Json.floatsFields fs
end

mutual
/-- Every object in the value has each key once, as a `dict` has. -/
def Json.DistinctKeys : Json → Prop
  | .arr items => Json.DistinctKeysItems items
  | .obj fields => (fields.map Prod.fst).Nodup ∧ Json.DistinctKeysFields fields
  | _ => True

def Json.DistinctKeysItems : List Json → Prop
  | [] => True
  | v :: vs => v.DistinctKeys ∧ Json.DistinctKeysItems vs

def Json.DistinctKeysFields : List (String × Json) → Prop
  | [] => True
  | (_, v) :: fs => v.DistinctKeys ∧ Json.DistinctKeysFields fs
end

theorem Jsonb.loadFields_eq_map : ∀ members : List (String × Jsonb),
    Jsonb.loadFields members = members.map (fun m => (m.1, m.2.load))
  | [] => rfl
  | (k, v) :: fs => by rw [Jsonb.loadFields, Jsonb.loadFields_eq_map fs, List.map_cons]

theorem Json.dumpsFields_eq_map : ∀ fields : List (String × Json),
    Json.dumpsFields fields = fields.map (fun f => (f.1, Json.dumpStr f.1 ++ ":" ++ f.2.dumps))
  | [] => rfl
  | (k, v) :: fs => by rw [Json.dumpsFields, Json.dumpsFields_eq_map fs, List.map_cons]

/-- The column's order of the members shows in the loaded members only as an order. -/
theorem Jsonb.dumpsFields_arrange_perm (order : MemberOrder) (members : List (String × Jsonb)) :
    (Json.dumpsFields (Jsonb.loadFields (order.arrange members))).Perm
      (Json.dumpsFields (Jsonb.loadFields members)) := by
  rw [Json.dumpsFields_eq_map, Json.dumpsFields_eq_map, Jsonb.loadFields_eq_map, Jsonb.loadFields_eq_map]
  exact ((order.perm members).map _).map _

theorem Json.keys_dumpsFields : ∀ fields : List (String × Json),
    (Json.dumpsFields fields).map Prod.fst = fields.map Prod.fst
  | [] => rfl
  | (k, v) :: fs => by rw [Json.dumpsFields, List.map_cons, Json.keys_dumpsFields fs, List.map_cons]

/-- A value after its trip through the column. -/
def Json.restore (order : MemberOrder) (v : Json) : Json := (Jsonb.store order v).load

variable {order : MemberOrder}

mutual
/-- The canonical text of a value survives where all its floats do. -/
theorem Json.dumps_restore : ∀ v : Json, v.DistinctKeys → (∀ x ∈ v.floats, x.Shortest ∧ x.Survives) →
    (v.restore order).dumps = v.dumps
  | .null, _, _ => rfl
  | .bool _, _, _ => rfl
  | .int _, _, _ => rfl
  | .float x, _, hf => by
      obtain ⟨hx, hs⟩ := hf x (List.mem_singleton_self x)
      exact congrArg Json.dumps (Numeric.read_ofFloat hx hs)
  | .str _, _, _ => rfl
  | .arr items, hd, hf => by
      change "[" ++ ",".intercalate (Json.dumpsItems (Jsonb.loadItems (Jsonb.storeItems order items))) ++ "]" = _
      rw [Json.dumpsItems_restore items hd hf, Json.dumps]
  | .obj fields, hd, hf => by
      have hfields := Json.dumpsFields_restore fields hd.2 hf
      have hnodup : ((Json.dumpsFields fields).map Prod.fst).Nodup := by
        rw [Json.keys_dumpsFields]; exact hd.1
      have hperm := Jsonb.dumpsFields_arrange_perm order (Jsonb.storeFields order fields)
      rw [hfields] at hperm
      change Json.dumps (.obj (Jsonb.loadFields (order.arrange (Jsonb.storeFields order fields)))) = _
      have hsorted := Table.orderBy_eq_of_perm hperm hnodup
      rw [Table.orderBy, Table.orderBy] at hsorted
      rw [Json.dumps, Json.dumps, hsorted]

theorem Json.dumpsItems_restore : ∀ items : List Json, Json.DistinctKeysItems items →
    (∀ x ∈ Json.floatsItems items, x.Shortest ∧ x.Survives) →
    Json.dumpsItems (Jsonb.loadItems (Jsonb.storeItems order items)) = Json.dumpsItems items
  | [], _, _ => rfl
  | v :: vs, hd, hf => by
      have hv := Json.dumps_restore v hd.1 (fun x hx => hf x (List.mem_append_left _ hx))
      have hvs := Json.dumpsItems_restore vs hd.2 (fun x hx => hf x (List.mem_append_right _ hx))
      change (v.restore order).dumps :: _ = _
      rw [hv, hvs, Json.dumpsItems]

theorem Json.dumpsFields_restore : ∀ fields : List (String × Json), Json.DistinctKeysFields fields →
    (∀ x ∈ Json.floatsFields fields, x.Shortest ∧ x.Survives) →
    Json.dumpsFields (Jsonb.loadFields (Jsonb.storeFields order fields)) = Json.dumpsFields fields
  | [], _, _ => rfl
  | (k, v) :: fs, hd, hf => by
      have hv := Json.dumps_restore v hd.1 (fun x hx => hf x (List.mem_append_left _ hx))
      have hfs := Json.dumpsFields_restore fs hd.2 (fun x hx => hf x (List.mem_append_right _ hx))
      change (k, Json.dumpStr k ++ ":" ++ (v.restore order).dumps) :: _ = _
      rw [hv, hfs, Json.dumpsFields]
end

/-- The floats of a list that do not survive. -/
def lost (floats : List PyFloat) : ℕ := floats.countP (fun x => decide ¬x.Survives)

theorem lost_append (a b : List PyFloat) : lost (a ++ b) = lost a + lost b := List.countP_append

theorem lost_eq_zero {floats : List PyFloat} : lost floats = 0 ↔ ∀ x ∈ floats, x.Survives := by
  simp [lost, List.countP_eq_zero]

/-- The sign characters of an object's text are those of its members. -/
theorem Json.signs_dumps_obj (fields : List (String × Json)) :
    signs (Json.obj fields).dumps = ((Json.dumpsFields fields).map (fun m => signs m.2)).sum := by
  have hperm := List.perm_insertionSort (fun a b : String × String => a.1 ≤ b.1) (Json.dumpsFields fields)
  rw [Json.dumps, signs_append, signs_append, signs_intercalate, List.map_map,
    (hperm.map (signs ∘ Prod.snd)).sum_eq]
  simp only [show signs "\x7b" = 0 from rfl, show signs "\x7d" = 0 from rfl, zero_add, add_zero]
  rfl

mutual
/-- Each float that does not survive costs the canonical text one sign character. -/
theorem Json.signs_restore : ∀ v : Json, (∀ x ∈ v.floats, x.Shortest) →
    signs (v.restore order).dumps + lost v.floats = signs v.dumps
  | .null, _ => Nat.add_zero _
  | .bool _, _ => Nat.add_zero _
  | .int _, _ => Nat.add_zero _
  | .float x, hf => by
      have hx := Numeric.signs_read_ofFloat (hf x (List.mem_singleton_self x))
      have hlost : lost [x] = (decide ¬x.Survives).toNat := by
        rw [lost, List.countP_singleton]
        cases decide ¬x.Survives <;> rfl
      rw [Json.floats, hlost]
      exact hx
  | .str _, _ => Nat.add_zero _
  | .arr items, hf => by
      have hitems := Json.signs_restoreItems items hf
      change signs ("[" ++ ",".intercalate (Json.dumpsItems (Jsonb.loadItems (Jsonb.storeItems order items))) ++
        "]") + lost (Json.floatsItems items) = _
      rw [Json.dumps, signs_append, signs_append, signs_append, signs_append, signs_intercalate,
        signs_intercalate, ← hitems]
      omega
  | .obj fields, hf => by
      have hfields := Json.signs_restoreFields fields hf
      have hperm := Jsonb.dumpsFields_arrange_perm order (Jsonb.storeFields order fields)
      change signs (Json.dumps (.obj (Jsonb.loadFields (order.arrange (Jsonb.storeFields order fields))))) +
        lost (Json.floatsFields fields) = _
      rw [Json.signs_dumps_obj, Json.signs_dumps_obj, (hperm.map _).sum_eq, hfields]

theorem Json.signs_restoreItems : ∀ items : List Json, (∀ x ∈ Json.floatsItems items, x.Shortest) →
    ((Json.dumpsItems (Jsonb.loadItems (Jsonb.storeItems order items))).map signs).sum +
      lost (Json.floatsItems items) = ((Json.dumpsItems items).map signs).sum
  | [], _ => rfl
  | v :: vs, hf => by
      have hv := Json.signs_restore v (fun x hx => hf x (List.mem_append_left _ hx))
      have hvs := Json.signs_restoreItems vs (fun x hx => hf x (List.mem_append_right _ hx))
      rw [Json.restore] at hv
      rw [Jsonb.storeItems, Jsonb.loadItems, Json.dumpsItems, Json.dumpsItems, Json.floatsItems, lost_append,
        List.map_cons, List.map_cons, List.sum_cons, List.sum_cons, ← hv, ← hvs]
      omega

theorem Json.signs_restoreFields : ∀ fields : List (String × Json),
    (∀ x ∈ Json.floatsFields fields, x.Shortest) →
    ((Json.dumpsFields (Jsonb.loadFields (Jsonb.storeFields order fields))).map (fun m => signs m.2)).sum +
      lost (Json.floatsFields fields) = ((Json.dumpsFields fields).map (fun m => signs m.2)).sum
  | [], _ => rfl
  | (k, v) :: fs, hf => by
      have hv := Json.signs_restore v (fun x hx => hf x (List.mem_append_left _ hx))
      have hfs := Json.signs_restoreFields fs (fun x hx => hf x (List.mem_append_right _ hx))
      rw [Json.restore] at hv
      rw [Jsonb.storeFields, Jsonb.loadFields, Json.dumpsFields, Json.dumpsFields, Json.floatsFields,
        lost_append, List.map_cons, List.map_cons, List.sum_cons, List.sum_cons, signs_append, signs_append,
        signs_append (Json.dumpStr k ++ ":") v.dumps, signs_append (Json.dumpStr k) ":", ← hv, ← hfs]
      omega
end

/-- The canonical text of a value survives the trip exactly when every float in it does. -/
theorem Json.dumps_restore_iff {v : Json} (hd : v.DistinctKeys) (hf : ∀ x ∈ v.floats, x.Shortest) :
    (v.restore order).dumps = v.dumps ↔ ∀ x ∈ v.floats, x.Survives := by
  constructor
  · intro heq
    have hsigns : signs (v.restore order).dumps + lost v.floats = signs v.dumps := Json.signs_restore v hf
    rw [heq] at hsigns
    exact lost_eq_zero.mp (by omega)
  · exact fun hs => Json.dumps_restore v hd fun x hx => ⟨hf x hx, hs x hx⟩

end Atlas
