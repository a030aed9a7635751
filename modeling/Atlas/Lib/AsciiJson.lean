import Atlas.Lib.PrefixCode
import Atlas.Lib.Text

/-! JSON strings in ASCII: a character that is not printable ASCII stands as its UTF-16 code units in
    hexadecimal, a few others behind a backslash. The escapes of the characters are a prefix code
    (`asciiCode`) and the closing quote is none of their beginnings, so a quoted string determines its
    text and what follows it (`dumpAscii_append_inj`). -/

namespace Text

/-- The characters that have an escape of their own, with its letter. -/
def escapeLetters : List (Char × Char) :=
  [('\\', '\\'), ('"', '"'), (Char.ofNat 8, 'b'), (Char.ofNat 12, 'f'), ('\n', 'n'), ('\r', 'r'), ('\t', 't')]

/-- A UTF-16 code unit as `\uXXXX`. -/
def unitEscape (n : ℕ) : List Char :=
  ['\\', 'u', hexDigit (n / 4096), hexDigit (n / 256 % 16), hexDigit (n / 16 % 16), hexDigit (n % 16)]

/-- How one character stands in a JSON string; beyond the basic plane as a surrogate pair. -/
def asciiEscape (c : Char) : List Char :=
  match escapeLetters.lookup c with
  | some letter => ['\\', letter]
  | none =>
    if 0x20 ≤ c.toNat ∧ c.toNat ≤ 0x7e then [c]
    else if c.toNat < 0x10000 then unitEscape c.toNat
    else unitEscape (0xd800 + (c.toNat - 0x10000) / 0x400) ++
      unitEscape (0xdc00 + (c.toNat - 0x10000) % 0x400)

/-- A string as `json.dumps` writes it. -/
def dumpAscii (s : String) : String := String.ofList ('"' :: (s.toList.flatMap asciiEscape ++ ['"']))

/-! ### Reading an escape -/

def hexValue (c : Char) : ℕ := ((List.range 16).find? (hexDigit · == c)).getD 0

/-- Four hexadecimal digits off the front of a text. -/
def readUnit : List Char → Option (ℕ × List Char)
  | a :: b :: c :: d :: t => some (hexValue a * 4096 + hexValue b * 256 + hexValue c * 16 + hexValue d, t)
  | _ => none

/-- What stands behind a backslash. -/
def readEscape : List Char → Option (Char × List Char)
  | [] => none
  | letter :: t =>
    if letter = 'u' then do
      let (high, t) ← readUnit t
      if 0xd800 ≤ high ∧ high < 0xdc00 then
        let (low, t) ← readUnit (t.drop 2)
        return (Char.ofNat (0x10000 + (high - 0xd800) * 0x400 + (low - 0xdc00)), t)
      else return (Char.ofNat high, t)
    else do
      let (c, _) ← escapeLetters.find? (·.2 == letter)
      return (c, t)

/-- The first character of an escaped text. -/
def readChar : List Char → Option (Char × List Char)
  | [] => none
  | c :: t => if c = '\\' then readEscape t else some (c, t)

theorem hexValue_hexDigit {n : ℕ} (h : n < 16) : hexValue (hexDigit n) = n := by
  interval_cases n <;> decide

/-- The digits of a code unit are read back. -/
theorem readUnit_unitEscape {n : ℕ} (hn : n < 0x10000) (t : List Char) :
    readUnit ((unitEscape n).drop 2 ++ t) = some (n, t) := by
  simp only [unitEscape, List.drop_succ_cons, List.drop_zero, List.cons_append, List.nil_append, readUnit]
  rw [hexValue_hexDigit (by omega), hexValue_hexDigit (by omega), hexValue_hexDigit (by omega),
    hexValue_hexDigit (by omega)]
  have hvalue : n / 4096 * 4096 + n / 256 % 16 * 256 + n / 16 % 16 * 16 + n % 16 = n := by omega
  rw [hvalue]

theorem readChar_unitEscape {n : ℕ} (t : List Char) :
    readChar (unitEscape n ++ t) = readEscape ('u' :: ((unitEscape n).drop 2 ++ t)) := rfl

/-- A code unit that is no high surrogate stands for its character. -/
theorem readChar_basic {n : ℕ} (hn : n < 0x10000) (hplain : ¬(0xd800 ≤ n ∧ n < 0xdc00)) (t : List Char) :
    readChar (unitEscape n ++ t) = some (Char.ofNat n, t) := by
  rw [readChar_unitEscape, readEscape, if_pos rfl, readUnit_unitEscape hn]
  simp [hplain]

/-- Two surrogates stand for the character beyond the basic plane. -/
theorem readChar_pair {n : ℕ} (hn : n < 0x100000) (t : List Char) :
    readChar (unitEscape (0xd800 + n / 0x400) ++ unitEscape (0xdc00 + n % 0x400) ++ t) =
      some (Char.ofNat (0x10000 + n), t) := by
  have hhigh : 0xd800 ≤ 0xd800 + n / 0x400 ∧ 0xd800 + n / 0x400 < 0xdc00 := by omega
  have hlow : (unitEscape (0xdc00 + n % 0x400) ++ t).drop 2 =
      (unitEscape (0xdc00 + n % 0x400)).drop 2 ++ t := rfl
  have hvalue : 0x10000 + (0xd800 + n / 0x400 - 0xd800) * 0x400 + (0xdc00 + n % 0x400 - 0xdc00) =
      0x10000 + n := by omega
  rw [List.append_assoc, readChar_unitEscape, readEscape, if_pos rfl, readUnit_unitEscape (by omega)]
  simp only [Option.bind_eq_bind, Option.bind_some, if_pos hhigh, hlow]
  rw [readUnit_unitEscape (by omega), Option.bind_some, hvalue]
  rfl

/-- A character with an escape of its own is read back. -/
theorem readChar_letter {c letter : Char} (h : escapeLetters.lookup c = some letter) (t : List Char) :
    readChar (['\\', letter] ++ t) = some (c, t) := by
  obtain ⟨l, r, hmem, -⟩ := List.lookup_eq_some_iff.mp h
  have hpair : (c, letter) ∈ escapeLetters := by simp [hmem]
  simp only [escapeLetters, List.mem_cons, Prod.mk.injEq, List.not_mem_nil, or_false] at hpair
  rcases hpair with ⟨rfl, rfl⟩ | ⟨rfl, rfl⟩ | ⟨rfl, rfl⟩ | ⟨rfl, rfl⟩ | ⟨rfl, rfl⟩ | ⟨rfl, rfl⟩ | ⟨rfl, rfl⟩ <;>
    rfl

/-- What a character's escape is read as. -/
theorem readChar_asciiEscape (c : Char) (t : List Char) : readChar (asciiEscape c ++ t) = some (c, t) := by
  unfold asciiEscape
  split
  next letter hletter => exact readChar_letter hletter t
  next hnone =>
    have hscalar : c.toNat < 0xd800 ∨ 0xdfff < c.toNat ∧ c.toNat < 0x110000 := c.valid
    split
    next =>
      have hbackslash : c ≠ '\\' := by
        rintro rfl
        cases hnone
      rw [List.singleton_append, readChar, if_neg hbackslash]
    next =>
      split
      next hbasic => rw [readChar_basic hbasic (by omega), Char.ofNat_toNat]
      next hbeyond =>
        have hvalue : 0x10000 + (c.toNat - 0x10000) = c.toNat := by omega
        rw [readChar_pair (by omega), hvalue, Char.ofNat_toNat]

/-- The escapes of the characters. -/
def asciiCode : PrefixCode Char Char := ⟨asciiEscape, readChar, readChar_asciiEscape⟩

/-- An escape begins with a backslash, or it is another character than the quote. -/
theorem asciiCode_closes : asciiCode.Closes '"' := by
  intro c t u h
  have hhead : (asciiEscape c ++ t).head? = some '"' := by
    rw [show asciiEscape c ++ t = '"' :: u from h]
    rfl
  unfold asciiEscape at hhead
  split at hhead
  next => simp at hhead
  next hnone =>
    split at hhead
    next =>
      obtain rfl : c = '"' := by simpa using hhead
      cases hnone
    next => split at hhead <;> simp [unitEscape] at hhead

/-- A quoted string determines its text and what follows it. -/
theorem dumpAscii_append_inj {s s' t t' : String} (h : dumpAscii s ++ t = dumpAscii s' ++ t') :
    s = s' ∧ t = t' := by
  have hlist := congrArg String.toList h
  simp only [dumpAscii, String.toList_append, String.toList_ofList, List.cons_append, List.append_assoc,
    List.nil_append, List.cons.injEq, true_and] at hlist
  obtain ⟨hs, ht⟩ := asciiCode.flatMap_closed_inj asciiCode_closes hlist
  exact ⟨String.toList_injective hs, String.toList_injective ht⟩

end Text
