import Mathlib

/-! Prefix codes: every word can be read off the front of any text, so a word ends where the reader says
    and a sequence of words that is closed by a mark with which no word begins determines the sequence and
    what follows the mark. -/

/-- Words for letters, with a reader of the first word. -/
structure PrefixCode (α β : Type*) where
  encode : α → List β
  decode : List β → Option (α × List β)
  decode_encode : ∀ a t, decode (encode a ++ t) = some (a, t)

namespace PrefixCode
variable {α β : Type*} (code : PrefixCode α β)

/-- The first word of a text and its rest are determined. -/
theorem encode_append_inj {a b : α} {t u : List β} (h : code.encode a ++ t = code.encode b ++ u) :
    a = b ∧ t = u := by
  have hread := congrArg code.decode h
  simpa [code.decode_encode] using hread

/-- No word begins with the mark. -/
def Closes (stop : β) : Prop := ∀ a t u, code.encode a ++ t ≠ stop :: u

/-- A closed sequence of words determines its letters and what follows it. -/
theorem flatMap_closed_inj {stop : β} (hstop : code.Closes stop) {as bs : List α} {t u : List β}
    (h : as.flatMap code.encode ++ stop :: t = bs.flatMap code.encode ++ stop :: u) : as = bs ∧ t = u := by
  induction as generalizing bs with
  | nil =>
    cases bs with
    | nil => simpa using h
    | cons b bs =>
      rw [List.flatMap_cons, List.append_assoc] at h
      exact absurd h.symm (hstop b _ _)
  | cons a as ih =>
    rw [List.flatMap_cons, List.append_assoc] at h
    cases bs with
    | nil => exact absurd h (hstop a _ _)
    | cons b bs =>
      rw [List.flatMap_cons, List.append_assoc] at h
      obtain ⟨rfl, hrest⟩ := code.encode_append_inj h
      obtain ⟨rfl, rfl⟩ := ih hrest
      exact ⟨rfl, rfl⟩

end PrefixCode
