import Mathlib

/-! Text operations of a scripting language over code-point strings: prefix and suffix tests, slicing
    off a prefix, stripping and splitting on white space, zero-padded decimal numbers and the quoted
    form (`repr`) of a string. Everything is read off the list of code points, so facts about text
    become facts about lists: `hasPrefix_iff` and `hasSuffix_iff` are the rules proofs use. -/

namespace Text

/-- `s.startswith(p)`. -/
def hasPrefix (p s : String) : Bool := p.toList.isPrefixOf s.toList

/-- `s.endswith(p)`. -/
def hasSuffix (p s : String) : Bool := p.toList.isSuffixOf s.toList

/-- `s[n:]`. -/
def dropChars (n : ℕ) (s : String) : String := String.ofList (s.toList.drop n)

/-- `s[:n]`. -/
def takeChars (n : ℕ) (s : String) : String := String.ofList (s.toList.take n)

/-- `s[:-1]`. -/
def dropLast (s : String) : String := String.ofList s.toList.dropLast

theorem hasPrefix_iff {p s : String} : hasPrefix p s = true ↔ ∃ t, s = p ++ t := by
  rw [hasPrefix, List.isPrefixOf_iff_prefix]
  constructor
  · rintro ⟨t, ht⟩
    refine ⟨String.ofList t, String.toList_injective ?_⟩
    rw [String.toList_append, String.toList_ofList, ht]
  · rintro ⟨t, rfl⟩
    exact ⟨t.toList, String.toList_append.symm⟩

theorem hasSuffix_iff {p s : String} : hasSuffix p s = true ↔ ∃ t, s = t ++ p := by
  rw [hasSuffix, List.isSuffixOf_iff_suffix]
  constructor
  · rintro ⟨t, ht⟩
    refine ⟨String.ofList t, String.toList_injective ?_⟩
    rw [String.toList_append, String.toList_ofList, ht]
  · rintro ⟨t, rfl⟩
    exact ⟨t.toList, String.toList_append.symm⟩

@[simp] theorem hasPrefix_append (p t : String) : hasPrefix p (p ++ t) = true :=
  hasPrefix_iff.mpr ⟨t, rfl⟩

theorem one_le_length_iff {s : String} : 1 ≤ s.length ↔ s ≠ "" := by
  rw [Nat.one_le_iff_ne_zero, Ne, String.length_eq_zero_iff]

theorem append_inj_of_length {s s' t t' : String} (h : s ++ t = s' ++ t') (hlen : s.length = s'.length) :
    s = s' ∧ t = t' := by
  have hlist := congrArg String.toList h
  rw [String.toList_append, String.toList_append] at hlist
  obtain ⟨hs, ht⟩ := List.append_inj hlist (by rwa [String.length_toList, String.length_toList])
  exact ⟨String.toList_injective hs, String.toList_injective ht⟩

theorem hasPrefix_trans {p q s : String} (hpq : hasPrefix p q = true) (hqs : hasPrefix q s = true) :
    hasPrefix p s = true := by
  obtain ⟨t, rfl⟩ := hasPrefix_iff.mp hpq
  obtain ⟨u, rfl⟩ := hasPrefix_iff.mp hqs
  exact hasPrefix_iff.mpr ⟨t ++ u, String.append_assoc⟩

@[simp] theorem dropChars_append (p t : String) : dropChars p.length (p ++ t) = t := by
  rw [dropChars, String.toList_append, ← String.length_toList, List.drop_left, String.ofList_toList]

/-- Slicing off a known prefix and comparing the rest is comparing the whole string. -/
theorem dropChars_eq_iff {p s t : String} (h : hasPrefix p s = true) :
    dropChars p.length s = t ↔ s = p ++ t := by
  obtain ⟨u, rfl⟩ := hasPrefix_iff.mp h
  rw [dropChars_append, String.append_right_inj]

/-- What stands before the first separator is determined by the whole text. -/
theorem eq_of_append_separator {c : Char} {a b : List Char} {t u : List Char} (ha : c ∉ a) (hb : c ∉ b)
    (h : a ++ c :: t = b ++ c :: u) : a = b := by
  induction a generalizing b with
  | nil =>
    cases b with
    | nil => rfl
    | cons y b => exact absurd (List.cons.inj h).1 (fun heq => hb (heq ▸ List.mem_cons_self))
  | cons x a ih =>
    cases b with
    | nil => exact absurd (List.cons.inj h).1 (fun heq => ha (heq ▸ List.mem_cons_self))
    | cons y b =>
      obtain ⟨rfl, htail⟩ := List.cons.inj h
      rw [ih (fun hc => ha (List.mem_cons_of_mem _ hc)) (fun hc => hb (List.mem_cons_of_mem _ hc)) htail]

/-- A text can be split at its first separator in one way. -/
theorem append_separator_inj {c : Char} {sep a b t u : String} (hsep : sep.toList = [c])
    (ha : c ∉ a.toList) (hb : c ∉ b.toList) (h : a ++ (sep ++ t) = b ++ (sep ++ u)) : a = b ∧ t = u := by
  have hlist := congrArg String.toList h
  simp only [String.toList_append, hsep, List.singleton_append] at hlist
  obtain rfl := String.toList_injective (eq_of_append_separator ha hb hlist)
  rw [String.append_right_inj, String.append_right_inj] at h
  exact ⟨rfl, h⟩

/-- And at its last one. -/
theorem append_last_separator_inj {c : Char} {sep a b t u : String} (hsep : sep.toList = [c])
    (ht : c ∉ t.toList) (hu : c ∉ u.toList) (h : a ++ sep ++ t = b ++ sep ++ u) : a = b ∧ t = u := by
  have hlist := congrArg (fun s => s.toList.reverse) h
  simp only [String.toList_append, hsep, List.append_assoc, List.singleton_append,
    List.reverse_append, List.reverse_cons] at hlist
  have htail := eq_of_append_separator (by simpa using ht) (by simpa using hu) hlist
  obtain rfl := String.toList_injective (List.reverse_injective htail)
  rw [String.append_left_inj, String.append_left_inj] at h
  exact ⟨h, rfl⟩

@[simp] theorem hasPrefix_append_left (q p s : String) : hasPrefix (q ++ p) (q ++ s) = hasPrefix p s := by
  rw [Bool.eq_iff_iff, hasPrefix_iff, hasPrefix_iff]
  simp only [String.append_assoc, String.append_right_inj]

/-- A prefix that ends with the separator ends at one of the separators of the text. -/
theorem hasPrefix_separator_iff {c : Char} {sep p a x : String} (hsep : sep.toList = [c])
    (hx : c ∉ x.toList) :
    hasPrefix (p ++ sep) (a ++ sep ++ x) = true ↔ p = a ∨ hasPrefix (p ++ sep) a = true := by
  constructor
  · intro h
    obtain ⟨u, hu⟩ := hasPrefix_iff.mp h
    have hlist := congrArg String.toList hu
    simp only [String.toList_append, hsep, List.append_assoc, List.singleton_append] at hlist
    rcases List.append_eq_append_iff.mp hlist with ⟨m, hp, htail⟩ | ⟨m, ha, htail⟩
    · cases m with
      | nil => exact Or.inl (String.toList_injective (by simpa using hp))
      | cons y m =>
        -- the prefix would run past the last separator
        obtain ⟨-, hm⟩ := List.cons.inj htail
        exact absurd (hm ▸ List.mem_append_right _ List.mem_cons_self) hx
    · cases m with
      | nil => exact Or.inl (String.toList_injective (by simpa using ha.symm))
      | cons y m =>
        obtain ⟨rfl, -⟩ := List.cons.inj htail
        refine Or.inr (hasPrefix_iff.mpr ⟨String.ofList m, String.toList_injective ?_⟩)
        rw [ha, String.toList_append, String.toList_append, hsep, String.toList_ofList,
          List.append_assoc, List.singleton_append]
  · rintro (rfl | h)
    · exact hasPrefix_append _ _
    · exact hasPrefix_trans h (hasPrefix_iff.mpr ⟨sep ++ x, String.append_assoc⟩)

/-- The characters `str.strip` and `str.split` take as white space. -/
def isSpace (c : Char) : Bool :=
  let n := c.toNat
  (0x09 ≤ n && n ≤ 0x0d) || (0x1c ≤ n && n ≤ 0x20) || n == 0x85 || n == 0xa0 || n == 0x1680 ||
    (0x2000 ≤ n && n ≤ 0x200a) || n == 0x2028 || n == 0x2029 || n == 0x202f || n == 0x205f ||
    n == 0x3000

/-- `s.strip(chars)`. -/
def stripBy (p : Char → Bool) (s : String) : String :=
  String.ofList (((s.toList.dropWhile p).reverse.dropWhile p).reverse)

/-- `s.strip()`. -/
def strip (s : String) : String :=
  String.ofList (((s.toList.dropWhile isSpace).reverse.dropWhile isSpace).reverse)

/-- Dropping from the right leaves a list that has nothing to drop on the left as it is. -/
theorem dropWhile_rdropWhile (p : Char → Bool) (l : List Char) (h : l.dropWhile p = l) :
    (l.rdropWhile p).dropWhile p = l.rdropWhile p := by
  rw [List.dropWhile_eq_self_iff] at h ⊢
  intro hl
  have hlt := List.IsPrefix.length_le (List.rdropWhile_prefix p l)
  rw [(List.rdropWhile_prefix p l).getElem hl]
  exact h (by omega)

theorem stripBy_stripBy (p : Char → Bool) (s : String) : stripBy p (stripBy p s) = stripBy p s := by
  have hstrip : ∀ t, stripBy p t = String.ofList ((t.toList.dropWhile p).rdropWhile p) := fun _ => rfl
  rw [hstrip (stripBy p s), hstrip s, String.toList_ofList,
    dropWhile_rdropWhile p _ (List.dropWhile_idempotent ..), List.rdropWhile_idempotent]

@[simp] theorem strip_strip (s : String) : strip (strip s) = strip s := stripBy_stripBy isSpace s

/-- A text without white space has nothing to strip. -/
theorem strip_of_no_space {s : String} (h : ∀ c ∈ s.toList, isSpace c = false) : strip s = s := by
  have hdrop : ∀ {l : List Char}, (∀ c ∈ l, isSpace c = false) → l.dropWhile isSpace = l := by
    intro l hl
    refine List.dropWhile_eq_self_iff.mpr fun hlt => ?_
    simp [hl _ (List.getElem_mem hlt)]
  rw [strip, hdrop h, hdrop fun c hc => h c (List.mem_reverse.mp hc), List.reverse_reverse,
    String.ofList_toList]

/-- `s.removeprefix(p)`. -/
def removePrefix (p s : String) : String := if hasPrefix p s then dropChars p.length s else s

@[simp] theorem removePrefix_append (p t : String) : removePrefix p (p ++ t) = t := by
  rw [removePrefix, if_pos (hasPrefix_append p t), dropChars_append]

/-- `s or None`. -/
def orNone (s : String) : Option String := if s = "" then none else some s

theorem orNone_eq_some {s t : String} : orNone s = some t ↔ s = t ∧ t ≠ "" := by
  unfold orNone
  split
  next h => simp [h]
  next h =>
    rw [Option.some.injEq]
    exact ⟨fun heq => ⟨heq, heq ▸ h⟩, And.left⟩

/-- Lower-casing, as a mapping of texts that does nothing more the second time and leaves white space
    alone. -/
structure Lowering where
  lower : String → String
  lower_lower : ∀ s, lower (lower s) = lower s
  strip_lower : ∀ s, strip (lower s) = lower (strip s)

/-- Lower- and upper-casing of texts. Neither empties a text, and a hash has no case. -/
structure Casing extends Lowering where
  upper : String → String
  eq_empty_of_lower : ∀ s, lower s = "" → s = ""
  lower_hash : ∀ s, lower ("#" ++ s) = "#" ++ lower s
  upper_hash : upper "#" = "#"

theorem isSpace_toLower (c : Char) : isSpace c.toLower = isSpace c := by
  by_cases hupper : c.isUpper = true
  · have hrange : 65 ≤ c.toNat ∧ c.toNat ≤ 90 := by
      simpa [Char.isUpper, UInt32.le_iff_toNat_le] using hupper
    have hlower : c.toLower.toNat = c.toNat + 32 := by
      rw [Char.toLower_eq_of_isUpper hupper, Char.toNat_ofNat, if_pos (Or.inl (by omega))]
    rw [isSpace, isSpace, hlower, Bool.eq_iff_iff]
    simp only [Bool.or_eq_true, Bool.and_eq_true, decide_eq_true_eq, beq_iff_eq]
    omega
  · rw [Char.toLower_eq_of_not_isUpper hupper]

/-- The casing of texts without letters beyond ASCII. -/
def asciiCasing : Casing where
  lower s := String.ofList (s.toList.map Char.toLower)
  upper s := String.ofList (s.toList.map Char.toUpper)
  lower_lower s := by
    rw [String.toList_ofList, List.map_map]
    congr 2
    exact funext Char.toLower_toLower_eq_toLower
  strip_lower s := by
    have hspace : isSpace ∘ Char.toLower = isSpace := funext isSpace_toLower
    rw [strip, strip, String.toList_ofList, String.toList_ofList, List.dropWhile_map, ← List.map_reverse,
      List.dropWhile_map, hspace, List.map_reverse]
  eq_empty_of_lower s h := by
    have hlist := congrArg String.toList h
    rw [String.toList_ofList] at hlist
    exact String.toList_injective (List.map_eq_nil_iff.mp hlist)
  lower_hash s := by
    refine String.toList_injective ?_
    rw [String.toList_append, String.toList_ofList, String.toList_append, String.toList_ofList,
      String.toList_ofList, List.map_append]
    exact congrArg (· ++ s.toList.map Char.toLower) (by decide)
  upper_hash := by decide

/-- What stands before the first `c`. -/
def before (c : Char) (s : String) : String := String.ofList (s.toList.takeWhile (· != c))

/-- What stands after the first `c`: with `before`, the ends of `s.partition(c)`. -/
def after (c : Char) (s : String) : String := String.ofList ((s.toList.dropWhile (· != c)).drop 1)

/-- `s.rsplit(c, 1)`, if it has two parts. -/
def rsplit? (c : Char) (s : String) : Option (String × String) :=
  if c ∈ s.toList then
    some (String.ofList (s.toList.rdropWhile (· != c)).dropLast,
      String.ofList (s.toList.rtakeWhile (· != c)))
  else none

section rsplit
variable {α : Type*} {c : α} {p : α → Bool} {l rest : List α}

/-- What is before the last occurrence of an element, the element and what is behind it make the list. -/
theorem dropLast_rdropWhile_append (hp : ∀ d, p d = true ↔ d ≠ c) (h : c ∈ l) :
    (l.rdropWhile p).dropLast ++ [c] ++ l.rtakeWhile p = l := by
  have hsplit : l.rdropWhile p ++ l.rtakeWhile p = l := by
    rw [List.rdropWhile, List.rtakeWhile, ← List.reverse_append, List.takeWhile_append_dropWhile,
      List.reverse_reverse]
  have hne : l.rdropWhile p ≠ [] := by
    rw [Ne, List.rdropWhile_eq_nil_iff]
    intro hall
    exact (hp c).mp (hall c h) rfl
  have hlast : (l.rdropWhile p).getLast hne = c := by
    have hnot := List.rdropWhile_last_not p l hne
    rwa [hp, not_not] at hnot
  have hbody : (l.rdropWhile p).dropLast ++ [c] = l.rdropWhile p := by
    conv_rhs => rw [← List.dropLast_append_getLast hne, hlast]
  rw [hbody, hsplit]

/-- Behind the last occurrence there is none. -/
theorem rsplit_append_eq (hp : ∀ d, p d = true ↔ d ≠ c) (h : c ∉ rest) :
    ((l ++ [c] ++ rest).rdropWhile p).dropLast = l ∧ (l ++ [c] ++ rest).rtakeWhile p = rest := by
  have hall : ∀ d ∈ rest.reverse, p d = true := by
    intro d hd
    rw [hp]
    rintro rfl
    exact h (List.mem_reverse.mp hd)
  have hstop : p c = false := by
    rw [← Bool.not_eq_true, hp, not_not]
  rw [List.rdropWhile, List.rtakeWhile, List.reverse_append, List.dropWhile_append_of_pos hall,
    List.takeWhile_append_of_pos hall]
  simp [hstop]

end rsplit

/-- The two parts make the text, around the separator. -/
theorem append_of_rsplit? {c : Char} {s body rest : String} (h : rsplit? c s = some (body, rest)) :
    s = body ++ String.singleton c ++ rest := by
  unfold rsplit? at h
  split at h
  next hmem =>
    cases h
    refine String.toList_injective ?_
    rw [String.toList_append, String.toList_append, String.toList_ofList, String.toList_ofList,
      String.toList_singleton, dropLast_rdropWhile_append (by simp) hmem]
  next => cases h

/-- What follows a separator and has none itself is the second part. -/
theorem rsplit?_append {c : Char} {body rest : String} (h : c ∉ rest.toList) :
    rsplit? c (body ++ String.singleton c ++ rest) = some (body, rest) := by
  have hlist : (body ++ String.singleton c ++ rest).toList = body.toList ++ [c] ++ rest.toList := by simp
  have hp : ∀ d, (d != c) = true ↔ d ≠ c := by simp
  obtain ⟨hbody, hrest⟩ := rsplit_append_eq (l := body.toList) hp h
  rw [rsplit?, hlist, if_pos (by simp), hbody, hrest]
  simp

/-- The parts of a text between separators. -/
def splitOn (separator : Char → Bool) (s : String) : List String :=
  (s.toList.splitOnP separator).map String.ofList

/-- The words of a code-point list, `cur` being the word read so far (reversed). -/
def splitAux : List Char → List Char → List String
  | [], cur => if cur.isEmpty then [] else [String.ofList cur.reverse]
  | c :: cs, cur =>
    if isSpace c then
      if cur.isEmpty then splitAux cs [] else String.ofList cur.reverse :: splitAux cs []
    else splitAux cs (c :: cur)

/-- `s.split()`: the maximal runs without white space. -/
def split (s : String) : List String := splitAux s.toList []

theorem toList_of_mem_splitAux {w : String} : ∀ (cs cur : List Char), (∀ c ∈ cur, isSpace c = false) →
    w ∈ splitAux cs cur → w.toList ≠ [] ∧ ∀ c ∈ w.toList, isSpace c = false
  | [], cur, hcur, h => by
      rw [splitAux] at h
      split at h
      next => cases h
      next hne =>
        rw [List.mem_singleton.mp h, String.toList_ofList]
        exact ⟨by simpa using hne, fun c hc => hcur c (List.mem_reverse.mp hc)⟩
  | c :: cs, cur, hcur, h => by
      rw [splitAux] at h
      split at h
      next =>
        split at h
        next => exact toList_of_mem_splitAux cs [] (by simp) h
        next hne =>
          rcases List.mem_cons.mp h with rfl | h
          · rw [String.toList_ofList]
            exact ⟨by simpa using hne, fun c hc => hcur c (List.mem_reverse.mp hc)⟩
          · exact toList_of_mem_splitAux cs [] (by simp) h
      next hspace =>
        refine toList_of_mem_splitAux cs (c :: cur) ?_ h
        exact List.forall_mem_cons.mpr ⟨by simpa using hspace, hcur⟩

/-- A word is not empty and has no white space. -/
theorem toList_of_mem_split {w s : String} (h : w ∈ split s) :
    w.toList ≠ [] ∧ ∀ c ∈ w.toList, isSpace c = false :=
  toList_of_mem_splitAux s.toList [] (by simp) h

/-- Nothing but white space has no words. -/
theorem split_eq_nil {s : String} (h : ∀ c ∈ s.toList, isSpace c = true) : split s = [] := by
  rw [split]
  generalize s.toList = cs at h
  induction cs with
  | nil => rfl
  | cons c cs ih =>
    rw [splitAux, if_pos (h c List.mem_cons_self), if_pos List.isEmpty_nil]
    exact ih fun d hd => h d (List.mem_cons_of_mem c hd)

/-- `sub in s`: `sub` occurs in `s`. -/
def occursIn (sub s : String) : Bool := s.toList.tails.any (sub.toList.isPrefixOf ·)

theorem occursIn_iff_isInfix {sub s : String} : occursIn sub s = true ↔ sub.toList <:+: s.toList := by
  simp only [occursIn, List.any_eq_true, List.mem_tails, List.isPrefixOf_iff_prefix]
  constructor
  · rintro ⟨t, hsuffix, hbegins⟩
    exact hbegins.isInfix.trans hsuffix.isInfix
  · rintro ⟨before, after, h⟩
    exact ⟨sub.toList ++ after, ⟨before, by rw [← h, List.append_assoc]⟩, List.prefix_append _ _⟩

theorem occursIn_iff {sub s : String} : occursIn sub s = true ↔ ∃ before after, s = before ++ sub ++ after := by
  rw [occursIn_iff_isInfix]
  constructor
  · rintro ⟨before, after, h⟩
    refine ⟨String.ofList before, String.ofList after, String.toList_injective ?_⟩
    rw [← h, String.toList_append, String.toList_append, String.toList_ofList, String.toList_ofList]
  · rintro ⟨before, after, rfl⟩
    exact ⟨before.toList, after.toList, by rw [String.toList_append, String.toList_append]⟩

/-- What is not empty and lacks the separator does not straddle it. -/
theorem infix_separator_iff {c : Char} {sub a b : List Char} (hne : sub ≠ []) (hsub : c ∉ sub) :
    sub <:+: a ++ c :: b ↔ sub <:+: a ∨ sub <:+: b := by
  -- a part of it that begins at the separator is empty
  have hbegins : ∀ {l}, l ⊆ sub → l <+: c :: b → l = [] := by
    intro l hl hpre
    rcases List.prefix_cons_iff.mp hpre with rfl | ⟨t, rfl, -⟩
    · rfl
    · exact absurd (hl List.mem_cons_self) hsub
  rw [List.infix_append_iff, List.infix_cons_iff]
  constructor
  · rintro (h | (h | h) | ⟨l, r, rfl, hl, hr⟩)
    · exact Or.inl h
    · exact absurd (hbegins (List.Subset.refl _) h) hne
    · exact Or.inr h
    · rw [hbegins (List.subset_append_right l r) hr, List.append_nil]
      exact Or.inl hl.isInfix
  · rintro (h | h)
    · exact Or.inl h
    · exact Or.inr (Or.inl (Or.inr h))

/-- `f"{n:04d}"`. -/
def pad4 (n : ℕ) : String := String.ofList (List.replicate (4 - n.repr.length) '0') ++ n.repr

theorem toList_pad4 (n : ℕ) :
    (pad4 n).toList = List.replicate (4 - n.repr.length) '0' ++ Nat.toDigits 10 n := by
  rw [pad4, String.toList_append, String.toList_ofList, Nat.toList_repr]

theorem isDigit_of_mem_pad4 {n : ℕ} {c : Char} (h : c ∈ (pad4 n).toList) : c.isDigit = true := by
  rw [toList_pad4, List.mem_append] at h
  rcases h with h | h
  · rw [List.eq_of_mem_replicate h]; rfl
  · exact Nat.isDigit_of_mem_toDigits (by decide) (by decide) h

/-- The padding does not change the number. -/
theorem ofDigitChars_pad4 (n : ℕ) : Nat.ofDigitChars 10 (pad4 n).toList 0 = n := by
  rw [toList_pad4, Nat.ofDigitChars_append, Nat.ofDigitChars_replicate_zero, Nat.mul_zero,
    Nat.ofDigitChars_ten_toDigits]

theorem pad4_injective : Function.Injective pad4 := fun m n h => by
  rw [← ofDigitChars_pad4 m, h, ofDigitChars_pad4]

theorem length_pad4_le {n k : ℕ} (hk : 4 ≤ k) (hn : n < 10 ^ k) : (pad4 n).length ≤ k := by
  have hlen : n.repr.length ≤ k := (Nat.length_repr_le_iff (by omega)).mpr hn
  rw [pad4, String.length_append, String.length_ofList, List.length_replicate]
  omega

/-- The lower-case hexadecimal digit of a number below 16. -/
def hexDigit (n : ℕ) : Char := (Nat.digitChar n)

/-- The code points beyond ASCII that no version of Unicode prints: controls, format characters, separators,
    private use, and the noncharacters of the first plane. -/
def UNPRINTABLE : List (ℕ × ℕ) :=
  [(0x80, 0xa0), (0xad, 0xad), (0x600, 0x605), (0x61c, 0x61c), (0x6dd, 0x6dd), (0x70f, 0x70f), (0x890, 0x891),
    (0x8e2, 0x8e2), (0x1680, 0x1680), (0x180e, 0x180e), (0x2000, 0x200f), (0x2028, 0x202f), (0x205f, 0x2064),
    (0x2066, 0x206f), (0x3000, 0x3000), (0xe000, 0xf8ff), (0xfdd0, 0xfdef), (0xfeff, 0xfeff), (0xfff9, 0xfffb),
    (0x110bd, 0x110bd), (0x110cd, 0x110cd), (0x13430, 0x1343f), (0x1bca0, 0x1bca3), (0x1d173, 0x1d17a),
    (0xe0001, 0xe0001), (0xe0020, 0xe007f), (0xf0000, 0x10ffff)]

/-- `c.isprintable()`; a code point that is not assigned yet counts as printable here. -/
def isPrintable (c : Char) : Bool :=
  let n := c.toNat
  if n < 0x80 then 0x20 ≤ n && n != 0x7f
  else n % 0x10000 < 0xfffe && UNPRINTABLE.all (fun range => n < range.1 || range.2 < n)

/-- The last hexadecimal digits of a number. -/
def hexDigits : ℕ → ℕ → List Char
  | 0, _ => []
  | width + 1, n => hexDigits width (n / 16) ++ [hexDigit (n % 16)]

/-- A code point by its number. -/
def hexEscape (n : ℕ) : String :=
  if n < 0x100 then String.ofList ('\\' :: 'x' :: hexDigits 2 n)
  else if n < 0x10000 then String.ofList ('\\' :: 'u' :: hexDigits 4 n)
  else String.ofList ('\\' :: 'U' :: hexDigits 8 n)

/-- How one code point stands inside the quoted form whose quote is `q`. -/
def reprChar (q c : Char) : String :=
  if c == q || c == '\\' then String.ofList ['\\', c]
  else if c == '\n' then "\\n"
  else if c == '\r' then "\\r"
  else if c == '\t' then "\\t"
  else if !isPrintable c then hexEscape c.toNat
  else String.singleton c

/-- `repr(s)`: single quotes, unless the text has a single quote and no double one. -/
def reprStr (s : String) : String :=
  let q := if s.toList.contains '\'' && !s.toList.contains '"' then '"' else '\''
  String.singleton q ++ String.join (s.toList.map (reprChar q)) ++ String.singleton q

end Text
