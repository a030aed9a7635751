import Atlas.Lib.Text
import Atlas.Lib.Fallible

/-! What SQL makes of a text as a boolean and of `EXISTS`. A text is read by the beginnings of a few words,
    in either case and with white space around; any other text is an error, and so is the query that
    reads it. `EXISTS` ends at the first row that passes, so whether an error is met depends on the order
    of the rows: without one it is the answer of `any` in every order (`existsScan_of_ok`), and a row that
    fails makes some order fail (`existsScan_cons_error`). -/

namespace SqlBool

open Text

/-- `isspace` in the C locale. -/
def isCSpace (c : Char) : Bool := c == ' ' || (9 ≤ c.toNat && c.toNat ≤ 13)

def trueWords : List String := ["t", "tr", "tru", "true", "y", "ye", "yes", "on", "1"]
def falseWords : List String := ["f", "fa", "fal", "fals", "false", "n", "no", "of", "off", "0"]

/-- `text::boolean`; `none` where it raises. -/
def boolin (s : String) : Option Bool :=
  let word := String.ofList ((stripBy isCSpace s).toList.map Char.toLower)
  if word ∈ trueWords then some true else if word ∈ falseWords then some false else none

/-- `EXISTS` over the rows in the order in which they are read. -/
def existsScan {α ε : Type} (p : α → Except ε Bool) : List α → Except ε Bool
  | [] => .ok false
  | a :: as => do if ← p a then return true else existsScan p as

/-! ### Texts -/

theorem mem_stripBy {p : Char → Bool} {s : String} {c : Char} (hc : c ∈ s.toList) (hp : p c = false) :
    c ∈ (stripBy p s).toList := by
  have hdrop : ∀ l : List Char, c ∈ l → c ∈ l.dropWhile p := by
    intro l hl
    rw [← List.takeWhile_append_dropWhile (p := p) (l := l), List.mem_append] at hl
    rcases hl with htake | hdrop
    · rw [List.mem_takeWhile_imp htake] at hp
      cases hp
    · exact hdrop
  rw [stripBy, String.toList_ofList, List.mem_reverse]
  exact hdrop _ (List.mem_reverse.mpr (hdrop _ hc))

/-- The characters that open, or stand in, a number or a structure and in no word. -/
def marks : List Char := ['[', '\x7b', '.', '-']

/-- A text with such a character is no boolean. -/
theorem boolin_eq_none {s : String} {c : Char} (hc : c ∈ s.toList) (hmark : c ∈ marks) :
    boolin s = none := by
  have hplain : marks.all (fun c => !isCSpace c && c.toLower == c) = true := by decide
  have hwords : (trueWords ++ falseWords).all (fun w => marks.all (!w.toList.contains ·)) = true := by decide
  have hc' := List.all_eq_true.mp hplain c hmark
  rw [Bool.and_eq_true, Bool.not_eq_true', beq_iff_eq] at hc'
  have hmem : c ∈ (String.ofList ((stripBy isCSpace s).toList.map Char.toLower)).toList := by
    rw [String.toList_ofList, List.mem_map]
    exact ⟨c, mem_stripBy hc hc'.1, hc'.2⟩
  have hno : ∀ w ∈ trueWords ++ falseWords, c ∉ w.toList := by
    intro w hw
    have hw' := List.all_eq_true.mp (List.all_eq_true.mp hwords w hw) c hmark
    simpa using hw'
  rw [boolin, if_neg, if_neg]
  · exact fun hw => hno _ (List.mem_append_right _ hw) hmem
  · exact fun hw => hno _ (List.mem_append_left _ hw) hmem

/-- Of the numbers without a sign only the two digits are booleans. -/
theorem boolin_of_digits {s : String} (h : s.toList.all Char.isDigit = true) :
    boolin s = if s = "1" then some true else if s = "0" then some false else none := by
  have hdigit : ∀ c : Char, c.isDigit = true → isCSpace c = false ∧ c.toLower = c := by
    intro c hc
    have hrange : 48 ≤ c.toNat ∧ c.toNat ≤ 57 := by
      simpa [Char.isDigit, UInt32.le_iff_toNat_le] using hc
    constructor
    · simp only [isCSpace, Bool.or_eq_false_iff, beq_eq_false_iff_ne, Bool.and_eq_false_iff,
        decide_eq_false_iff_not]
      refine ⟨?_, Or.inr (by omega)⟩
      rintro rfl
      cases hc
    · refine Char.toLower_eq_of_not_isUpper ?_
      simp only [Char.isUpper, decide_eq_true_eq, ge_iff_le, UInt32.le_iff_toNat_le]
      have hval : c.val.toNat = c.toNat := rfl
      simp
      omega
  rw [List.all_eq_true] at h
  have hdrop : ∀ l : List Char, l ⊆ s.toList → l.dropWhile isCSpace = l := by
    intro l hl
    cases l with
    | nil => rfl
    | cons c l =>
      have hspace := (hdigit c (h c (hl List.mem_cons_self))).1
      rw [List.dropWhile_cons, hspace]
      rfl
  have hstrip : stripBy isCSpace s = s := by
    rw [stripBy, hdrop _ (List.Subset.refl _), hdrop _ (List.reverse_subset.mpr (List.Subset.refl _)),
      List.reverse_reverse, String.ofList_toList]
  have hlower : s.toList.map Char.toLower = s.toList := by
    conv_rhs => rw [← List.map_id s.toList]
    exact List.map_congr_left fun c hc => (hdigit c (h c hc)).2
  have htrue : ∀ w ∈ trueWords, w.toList.all Char.isDigit = true → w = "1" := by decide
  have hfalse : ∀ w ∈ falseWords, w.toList.all Char.isDigit = true → w = "0" := by decide
  simp only [boolin, hstrip, hlower, String.ofList_toList]
  have h' := List.all_eq_true.mpr h
  refine if_congr ⟨fun hw => htrue s hw h', ?_⟩ rfl (if_congr ⟨fun hw => hfalse s hw h', ?_⟩ rfl rfl)
  · rintro rfl
    decide
  · rintro rfl
    decide

/-! ### Existence -/

section scan
variable {α ε : Type} {p : α → Except ε Bool}

/-- Where no row fails, the order plays no part. -/
theorem existsScan_of_ok {q : α → Bool} {rows : List α} (h : ∀ row ∈ rows, p row = .ok (q row)) :
    existsScan p rows = .ok (rows.any q) := by
  induction rows with
  | nil => rfl
  | cons row rows ih =>
    rw [existsScan, h row List.mem_cons_self, List.any_cons]
    cases hrow : q row with
    | true => rfl
    | false => exact ih fun r hr => h r (List.mem_cons_of_mem row hr)

/-- A row that fails is met if it is the first. -/
theorem existsScan_cons_error {row : α} {e : ε} (h : p row = .error e) (rows : List α) :
    existsScan p (row :: rows) = .error e := by
  rw [existsScan, h]
  rfl

end scan

end SqlBool
