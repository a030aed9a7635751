import Mathlib

/-! URL-safe base64: three bytes become four digits, and a rest of one or two bytes becomes two or three
    digits and padding. Stripping the padding loses nothing: the digits alone determine the bytes
    (`unpadded_injective`), and none of them is a slash. -/

namespace Base64

/-- The URL-safe digits. -/
def ALPHABET : List Char :=
  "ABCDEFGHIJKLMNOPQRSTUVWXYZabcdefghijklmnopqrstuvwxyz0123456789-_".toList

def digit (n : ℕ) : Char := ALPHABET.getD n '='

/-- The values of the digits of a byte string, six bits each. -/
def sextets : List UInt8 → List ℕ
  | a :: b :: c :: bytes =>
    a.toNat / 4 :: (a.toNat % 4 * 16 + b.toNat / 16) :: (b.toNat % 16 * 4 + c.toNat / 64) ::
      c.toNat % 64 :: sextets bytes
  | [a, b] => [a.toNat / 4, a.toNat % 4 * 16 + b.toNat / 16, b.toNat % 16 * 4]
  | [a] => [a.toNat / 4, a.toNat % 4 * 16]
  | [] => []

/-- `base64.urlsafe_b64encode`. -/
def urlsafeB64encode (bytes : List UInt8) : List Char :=
  (sextets bytes).map digit ++ List.replicate ((3 - bytes.length % 3) % 3) '='

/-- The encoding with its padding stripped. -/
def unpadded (bytes : List UInt8) : List Char := (urlsafeB64encode bytes).rdropWhile (· == '=')

-- "bob" and "bo"
example : unpadded [98, 111, 98] = ['Y', 'm', '9', 'i'] ∧ unpadded [98, 111] = ['Y', 'm', '8'] := by decide

theorem digit_mem {n : ℕ} (h : n < 64) : digit n ∈ ALPHABET := by
  have hlen : ALPHABET.length = 64 := by decide
  rw [digit, List.getD_eq_getElem _ _ (by omega)]
  exact List.getElem_mem _

theorem digit_injective {m n : ℕ} (hm : m < 64) (hn : n < 64) (h : digit m = digit n) : m = n := by
  have hlen : ALPHABET.length = 64 := by decide
  have hnodup : ALPHABET.Nodup := by decide
  rw [digit, digit, List.getD_eq_getElem _ _ (by omega), List.getD_eq_getElem _ _ (by omega)] at h
  exact (List.Nodup.getElem_inj_iff hnodup).mp h

theorem lt_of_mem_sextets {bytes : List UInt8} {n : ℕ} (h : n ∈ sextets bytes) : n < 64 := by
  induction bytes using sextets.induct with
  | case1 a b c bytes ih =>
    have ha := a.toNat_lt
    have hb := b.toNat_lt
    have hc := c.toNat_lt
    simp only [sextets, List.mem_cons] at h
    rcases h with rfl | rfl | rfl | rfl | h
    · omega
    · omega
    · omega
    · omega
    · exact ih h
  | case2 a b =>
    have ha := a.toNat_lt
    have hb := b.toNat_lt
    simp only [sextets, List.mem_cons, List.not_mem_nil, or_false] at h
    omega
  | case3 a =>
    have ha := a.toNat_lt
    simp only [sextets, List.mem_cons, List.not_mem_nil, or_false] at h
    omega
  | case4 => cases h

/-- Bytes are determined by their sextets: the length says how many the last group has. -/
theorem sextets_injective {bytes bytes' : List UInt8} (h : sextets bytes = sextets bytes') :
    bytes = bytes' := by
  induction bytes using sextets.induct generalizing bytes' with
  | case1 a b c bytes ih =>
    match bytes' with
    | a' :: b' :: c' :: rest =>
      simp only [sextets, List.cons.injEq] at h
      obtain ⟨h1, h2, h3, h4, hrest⟩ := h
      have ha := a.toNat_lt
      have hb := b.toNat_lt
      have hb' := b'.toNat_lt
      have hc := c.toNat_lt
      have hc' := c'.toNat_lt
      obtain rfl : a = a' := UInt8.toNat_inj.mp (by omega)
      obtain rfl : b = b' := UInt8.toNat_inj.mp (by omega)
      obtain rfl : c = c' := UInt8.toNat_inj.mp (by omega)
      rw [ih hrest]
    | [a', b'] => simp [sextets] at h
    | [a'] => simp [sextets] at h
    | [] => simp [sextets] at h
  | case2 a b =>
    match bytes' with
    | a' :: b' :: c' :: rest => simp [sextets] at h
    | [a', b'] =>
      simp only [sextets, List.cons.injEq, and_true] at h
      have hb := b.toNat_lt
      have hb' := b'.toNat_lt
      obtain rfl : a = a' := UInt8.toNat_inj.mp (by omega)
      obtain rfl : b = b' := UInt8.toNat_inj.mp (by omega)
      rfl
    | [a'] => simp [sextets] at h
    | [] => simp [sextets] at h
  | case3 a =>
    match bytes' with
    | a' :: b' :: c' :: rest => simp [sextets] at h
    | [a', b'] => simp [sextets] at h
    | [a'] =>
      simp only [sextets, List.cons.injEq, and_true] at h
      obtain rfl : a = a' := UInt8.toNat_inj.mp (by omega)
      rfl
    | [] => simp [sextets] at h
  | case4 =>
    match bytes' with
    | a' :: b' :: c' :: rest => simp [sextets] at h
    | [a', b'] => simp [sextets] at h
    | [a'] => simp [sextets] at h
    | [] => rfl

/-- Without its padding, an encoding is its digits. -/
theorem unpadded_eq (bytes : List UInt8) : unpadded bytes = (sextets bytes).map digit := by
  have hpad : ∀ (l : List Char) n, (∀ c ∈ l, c ∈ ALPHABET) →
      (l ++ List.replicate n '=').rdropWhile (· == '=') = l := by
    intro l n hl
    induction n with
    | zero =>
      rw [List.replicate_zero, List.append_nil, List.rdropWhile_eq_self_iff]
      intro hne heq
      have hmem := hl _ (List.getLast_mem hne)
      rw [beq_iff_eq.mp heq] at hmem
      exact absurd hmem (by decide)
    | succ n ih => rw [List.replicate_succ', ← List.append_assoc, List.rdropWhile_concat_pos _ _ _ (by decide), ih]
  refine hpad _ _ fun c hc => ?_
  obtain ⟨n, hn, rfl⟩ := List.mem_map.mp hc
  exact digit_mem (lt_of_mem_sextets hn)

theorem map_digit_injective {l l' : List ℕ} (hl : ∀ n ∈ l, n < 64) (hl' : ∀ n ∈ l', n < 64)
    (h : l.map digit = l'.map digit) : l = l' := by
  induction l generalizing l' with
  | nil => exact (List.map_eq_nil_iff.mp h.symm).symm
  | cons n l ih =>
    cases l' with
    | nil => cases h
    | cons n' l' =>
      simp only [List.mem_cons, forall_eq_or_imp] at hl hl'
      rw [List.map_cons, List.map_cons, List.cons.injEq] at h
      rw [digit_injective hl.1 hl'.1 h.1, ih hl.2 hl'.2 h.2]

theorem unpadded_injective : Function.Injective unpadded := by
  intro bytes bytes' h
  rw [unpadded_eq, unpadded_eq] at h
  exact sextets_injective (map_digit_injective (fun _ hn => lt_of_mem_sextets hn)
    (fun _ hn => lt_of_mem_sextets hn) h)

/-- With its padding, an encoding comes in groups of four. -/
theorem length_urlsafeB64encode (bytes : List UInt8) : (urlsafeB64encode bytes).length % 4 = 0 := by
  rw [urlsafeB64encode, List.length_append, List.length_map, List.length_replicate]
  induction bytes using sextets.induct with
  | case1 a b c bytes ih =>
    simp only [sextets, List.length_cons]
    omega
  | case2 a b => simp [sextets]
  | case3 a => simp [sextets]
  | case4 => simp [sextets]

/-- An encoding without its padding is free of slashes. -/
theorem slash_not_mem_unpadded (bytes : List UInt8) : '/' ∉ unpadded bytes := by
  rw [unpadded_eq]
  intro h
  obtain ⟨n, hn, heq⟩ := List.mem_map.mp h
  have hmem := digit_mem (lt_of_mem_sextets hn)
  rw [heq] at hmem
  exact absurd hmem (by decide)

end Base64
