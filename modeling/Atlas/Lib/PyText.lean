import Atlas.Lib.Text

/-! Texts as Python holds them: sequences of code points, among which there may be surrogates. A text
    without one is an ordinary text and is encoded as UTF-8; any other is not. -/

/-- A character, or a surrogate by its number. -/
inductive CodePoint where
  | char (c : Char)
  | surrogate (n : Fin 2048)
  deriving DecidableEq

/-- A text whose code points may be surrogates. -/
structure PyText where
  points : List CodePoint
  deriving DecidableEq

namespace PyText

def ofString (s : String) : PyText := ⟨s.toList.map .char⟩

instance : Coe String PyText := ⟨ofString⟩

@[simp] theorem ofString_inj {s t : String} : ofString s = ofString t ↔ s = t := by
  simp only [ofString, PyText.mk.injEq, List.map_inj_right (fun _ _ => CodePoint.char.inj), String.toList_inj]

/-- The characters, if no code point is a surrogate. -/
def chars? : List CodePoint → Option (List Char)
  | [] => some []
  | .char c :: points => (chars? points).map (c :: ·)
  | .surrogate _ :: _ => none

/-- The text without surrogates, if it has none. -/
def toString? (t : PyText) : Option String := (chars? t.points).map String.ofList

/-- UTF-8 takes the text. -/
def Encodable (t : PyText) : Prop := ∃ s, t = ofString s

theorem chars?_eq_some {points : List CodePoint} {cs : List Char} :
    chars? points = some cs ↔ points = cs.map .char := by
  induction points generalizing cs with
  | nil => cases cs <;> simp [chars?]
  | cons p points ih =>
    cases p with
    | char c => cases cs <;> simp [chars?, ih, and_comm]
    | surrogate n => cases cs <;> simp [chars?]

theorem toString?_eq_some {t : PyText} {s : String} : t.toString? = some s ↔ t = ofString s := by
  obtain ⟨points⟩ := t
  simp only [toString?, Option.map_eq_some_iff, chars?_eq_some, ofString, PyText.mk.injEq]
  constructor
  · rintro ⟨cs, rfl, rfl⟩
    rw [String.toList_ofList]
  · rintro rfl
    exact ⟨s.toList, rfl, String.ofList_toList⟩

/-- `s.rsplit(c, 1)`, if it has two parts. -/
def rsplit? (c : Char) (t : PyText) : Option (PyText × PyText) :=
  let separator : CodePoint := .char c
  if separator ∈ t.points then
    some (⟨(t.points.rdropWhile (decide <| · ≠ separator)).dropLast⟩,
      ⟨t.points.rtakeWhile (decide <| · ≠ separator)⟩)
  else none

variable {c : Char} {body rest : String}

/-- Two ordinary parts make the text, around the separator. -/
theorem append_of_rsplit? {t : PyText} (h : t.rsplit? c = some (ofString body, ofString rest)) :
    t = ofString (body ++ String.singleton c ++ rest) := by
  obtain ⟨points⟩ := t
  unfold rsplit? at h
  simp only at h
  split at h
  next hmem =>
    simp only [Option.some.injEq, Prod.mk.injEq, ofString, PyText.mk.injEq] at h
    have hp : ∀ d : CodePoint, decide (d ≠ .char c) = true ↔ d ≠ .char c := by simp
    have hsplit := Text.dropLast_rdropWhile_append hp hmem
    rw [h.1, h.2] at hsplit
    simp [ofString, ← hsplit]
  next => cases h

/-- What follows a separator and has none itself is the second part. -/
theorem rsplit?_append (h : c ∉ rest.toList) :
    rsplit? c (ofString (body ++ String.singleton c ++ rest)) = some (ofString body, ofString rest) := by
  have hpoints : (ofString (body ++ String.singleton c ++ rest)).points =
      body.toList.map .char ++ [.char c] ++ rest.toList.map .char := by simp [ofString]
  have hp : ∀ d : CodePoint, decide (d ≠ .char c) = true ↔ d ≠ .char c := by simp
  have hrest : (.char c : CodePoint) ∉ rest.toList.map .char := by simpa using h
  obtain ⟨hleft, hright⟩ := Text.rsplit_append_eq (l := body.toList.map .char) hp hrest
  simp only [rsplit?, hpoints, hleft, hright]
  simp [ofString]

end PyText
