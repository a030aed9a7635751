import Atlas.Lib.Text

/-! `str.lower` on code points: every character is replaced by its full lower-case mapping, and a capital
    sigma by the final form where it ends a word. Whether it does depends on the nearest characters around
    it that are not case-ignorable; the mapping and the two properties are the Unicode tables. White space
    is never part of a word, so lower-casing works on both sides of it on its own (`lower_separator`). -/

namespace Text

/-- The Unicode tables that lower-casing reads, with what they say of white space. -/
structure CaseMap where
  lowerChar : Char → List Char
  cased : Char → Bool
  caseIgnorable : Char → Bool
  lower_space : ∀ c, isSpace c = true → lowerChar c = [c]
  space_plain : ∀ c, isSpace c = true → cased c = false ∧ caseIgnorable c = false

namespace CaseMap
variable (m : CaseMap)

/-- Is the first character that is not case-ignorable a cased one? -/
def startsCased (cs : List Char) : Bool := (cs.dropWhile m.caseIgnorable).head?.any m.cased

/-- A capital sigma between `pre`, read backwards, and `post` ends a word. -/
def finalSigma (pre post : List Char) : Bool := m.startsCased pre && !m.startsCased post

/-- The characters in lower case, `pre` being those before them, backwards. -/
def lowerFrom : List Char → List Char → List Char
  | _, [] => []
  | pre, c :: cs =>
    (if c = 'Σ' then [if m.finalSigma pre cs then 'ς' else 'σ'] else m.lowerChar c) ++ lowerFrom (c :: pre) cs

/-- `s.lower()`. -/
def lower (s : String) : String := String.ofList (m.lowerFrom [] s.toList)

variable {m} {sep : Char}

/-- What lies behind white space plays no part. -/
theorem startsCased_separator (hsep : isSpace sep = true) (cs ds : List Char) :
    m.startsCased (cs ++ sep :: ds) = m.startsCased cs := by
  obtain ⟨hcased, hignorable⟩ := m.space_plain sep hsep
  induction cs with
  | nil => simp [startsCased, hignorable, hcased]
  | cons c cs ih =>
    unfold startsCased at ih ⊢
    rw [List.cons_append, List.dropWhile_cons, List.dropWhile_cons]
    by_cases hc : m.caseIgnorable c = true
    · rw [if_pos hc, if_pos hc, ih]
    · rw [if_neg hc, if_neg hc]
      rfl

theorem lowerFrom_behind (hsep : isSpace sep = true) (far : List Char) : ∀ cs pre : List Char,
    m.lowerFrom (pre ++ sep :: far) cs = m.lowerFrom pre cs
  | [], _ => rfl
  | c :: cs, pre => by
      rw [lowerFrom, lowerFrom, ← List.cons_append, lowerFrom_behind hsep far cs (c :: pre), finalSigma,
        startsCased_separator hsep, finalSigma]

theorem lowerFrom_separator (hsep : isSpace sep = true) (ds : List Char) : ∀ cs pre : List Char,
    m.lowerFrom pre (cs ++ sep :: ds) = m.lowerFrom pre cs ++ sep :: m.lowerFrom [] ds
  | [], pre => by
      have hsigma : sep ≠ 'Σ' := by
        rintro rfl
        exact absurd hsep (by decide)
      have hbehind : m.lowerFrom (sep :: pre) ds = m.lowerFrom [] ds := lowerFrom_behind hsep pre ds []
      rw [List.nil_append, lowerFrom.eq_2, if_neg hsigma, m.lower_space sep hsep, hbehind]
      rfl
  | c :: cs, pre => by
      rw [List.cons_append, lowerFrom, lowerFrom_separator hsep ds cs (c :: pre), lowerFrom, finalSigma,
        startsCased_separator hsep, finalSigma, List.append_assoc]

/-- Lower-casing works on both sides of white space on its own. -/
theorem lower_separator (hsep : isSpace sep = true) (a b : String) :
    m.lower (a ++ String.singleton sep ++ b) = m.lower a ++ String.singleton sep ++ m.lower b := by
  refine String.toList_injective ?_
  simp only [lower, String.toList_append, String.toList_ofList, String.toList_singleton,
    List.append_assoc, List.singleton_append]
  exact lowerFrom_separator hsep b.toList a.toList []

/-- White space has no other case. -/
theorem lower_of_space {s : String} (h : ∀ c ∈ s.toList, isSpace c = true) : m.lower s = s := by
  have hlower : ∀ cs pre : List Char, (∀ c ∈ cs, isSpace c = true) → m.lowerFrom pre cs = cs := by
    intro cs
    induction cs with
    | nil => exact fun _ _ => rfl
    | cons c cs ih =>
      intro pre hall
      have hc := hall c List.mem_cons_self
      have hsigma : c ≠ 'Σ' := by
        rintro rfl
        exact absurd hc (by decide)
      rw [lowerFrom, if_neg hsigma, m.lower_space c hc, ih _ fun d hd => hall d (List.mem_cons_of_mem c hd)]
      rfl
  rw [lower, hlower _ [] h, String.ofList_toList]

end CaseMap

/-- The tables of texts without letters beyond ASCII. -/
def asciiCaseMap : CaseMap where
  lowerChar c := [c.toLower]
  cased c := c.isAlpha
  caseIgnorable c := [39, 46, 58, 94, 96].contains c.toNat
  lower_space c h := by
    have hupper : ¬c.isUpper = true := by
      intro hupper
      have hrange : 65 ≤ c.toNat ∧ c.toNat ≤ 90 := by
        simpa [Char.isUpper, UInt32.le_iff_toNat_le] using hupper
      simp only [isSpace, Bool.or_eq_true, Bool.and_eq_true, decide_eq_true_eq, beq_iff_eq] at h
      omega
    rw [Char.toLower_eq_of_not_isUpper hupper]
  space_plain c h := by
    simp only [isSpace, Bool.or_eq_true, Bool.and_eq_true, decide_eq_true_eq, beq_iff_eq] at h
    constructor
    · rw [Bool.eq_false_iff]
      intro halpha
      simp only [Char.isAlpha, Char.isUpper, Char.isLower, ge_iff_le, UInt32.le_iff_toNat_le,
        Bool.or_eq_true, Bool.and_eq_true, decide_eq_true_eq] at halpha
      have hval : c.val.toNat = c.toNat := rfl
      simp at halpha
      omega
    · rw [Bool.eq_false_iff]
      intro hmem
      simp only [List.contains_iff_mem, List.mem_cons, List.not_mem_nil, or_false] at hmem
      omega

end Text
