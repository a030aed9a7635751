import Atlas.Lib.Text

/-! SQL `LIKE` with the backslash as escape character: `%` stands for any run of characters, `_` for any
    one, and a backslash makes the next character literal; a pattern that ends in its escape character
    is malformed. A term whose metacharacters are escaped stands for itself (`compile_likeEscape_append`),
    so an escaped term with `%` behind it tests for a prefix (`like_escape_percent`), and between two `%`
    for an occurrence (`like_percent_escape_percent`). -/

namespace Like

/-- One element of a pattern. -/
inductive Token where
  | any
  | one
  | lit (c : Char)
  deriving DecidableEq, Repr

/-- Read a pattern; `none` when it ends in the escape character. -/
def compileChars : List Char → Option (List Token)
  | [] => some []
  | '\\' :: [] => none
  | '\\' :: c :: cs => (compileChars cs).map (.lit c :: ·)
  | '%' :: cs => (compileChars cs).map (.any :: ·)
  | '_' :: cs => (compileChars cs).map (.one :: ·)
  | c :: cs => (compileChars cs).map (.lit c :: ·)

def compile (pattern : String) : Option (List Token) := compileChars pattern.toList

/-- Does the whole text match? -/
def matchTokens : List Token → List Char → Bool
  | [], s => s.isEmpty
  | .any :: ts, s => s.tails.any (fun t => matchTokens ts t)
  | .one :: _, [] => false
  | .one :: ts, _ :: s => matchTokens ts s
  | .lit _ :: _, [] => false
  | .lit c :: ts, d :: s => c == d && matchTokens ts s

/-- `s LIKE pattern`; a malformed pattern matches nothing. -/
def like (pattern s : String) : Bool :=
  match compile pattern with
  | some ts => matchTokens ts s.toList
  | none => false

/-- `s.replace(c, r)` for a single character. -/
def replaceChar (c : Char) (r s : List Char) : List Char := s.flatMap (fun d => if d = c then r else [d])

/-- Escape the metacharacters of a term, the escape character first. -/
def likeEscape (term : String) : String :=
  String.ofList (replaceChar '_' ['\\', '_'] (replaceChar '%' ['\\', '%']
    (replaceChar '\\' ['\\', '\\'] term.toList)))

/-! ### Escaped terms are literal -/

/-- What escaping makes of one character. -/
def escapeChar (c : Char) : List Char := if c = '\\' ∨ c = '%' ∨ c = '_' then ['\\', c] else [c]

theorem replaceChar_append (c : Char) (r s t : List Char) :
    replaceChar c r (s ++ t) = replaceChar c r s ++ replaceChar c r t := List.flatMap_append

/-- The three replacements in turn are one pass over the term. -/
theorem likeEscape_eq (term : String) :
    likeEscape term = String.ofList (term.toList.flatMap escapeChar) := by
  rw [likeEscape]
  refine congrArg String.ofList ?_
  induction term.toList with
  | nil => rfl
  | cons c cs ih =>
    rw [List.flatMap_cons, ← ih]
    have hone : replaceChar '_' ['\\', '_'] (replaceChar '%' ['\\', '%']
        (replaceChar '\\' ['\\', '\\'] [c])) = escapeChar c := by
      rw [escapeChar]
      by_cases h1 : c = '\\'
      · subst h1; decide
      · by_cases h2 : c = '%'
        · subst h2; decide
        · by_cases h3 : c = '_'
          · subst h3; decide
          · simp [replaceChar, h1, h2, h3]
    rw [← hone, ← replaceChar_append, ← replaceChar_append, ← replaceChar_append]
    rfl

theorem compileChars_escapeChar_append (c : Char) (cs : List Char) :
    compileChars (escapeChar c ++ cs) = (compileChars cs).map (.lit c :: ·) := by
  rw [escapeChar]
  split
  next => rfl
  next h =>
    rw [not_or, not_or] at h
    rw [List.singleton_append, compileChars]
    · exact fun hc => (h.1 hc).elim
    · exact fun _ _ hc => (h.1 hc).elim
    · exact h.2.1
    · exact h.2.2

/-- An escaped term in front of a pattern contributes its characters literally. -/
theorem compile_likeEscape_append (term rest : String) :
    compile (likeEscape term ++ rest) =
      (compile rest).map (term.toList.map Token.lit ++ ·) := by
  rw [likeEscape_eq, compile, compile, String.toList_append, String.toList_ofList]
  induction term.toList with
  | nil => simp
  | cons c cs ih =>
    rw [List.flatMap_cons, List.append_assoc, compileChars_escapeChar_append, ih, Option.map_map]
    rfl

/-- Literal tokens in front match exactly a text that starts with them. -/
theorem matchTokens_lits_append {cs : List Char} {ts : List Token} {s : List Char} :
    matchTokens (cs.map Token.lit ++ ts) s = true ↔ ∃ t, s = cs ++ t ∧ matchTokens ts t = true := by
  induction cs generalizing s with
  | nil => simp
  | cons c cs ih =>
    cases s with
    | nil => simp [matchTokens]
    | cons d s =>
      rw [List.map_cons, List.cons_append, matchTokens, Bool.and_eq_true, beq_iff_eq, ih]
      constructor
      · rintro ⟨rfl, t, rfl, ht⟩
        exact ⟨t, rfl, ht⟩
      · rintro ⟨t, heq, ht⟩
        obtain ⟨rfl, rfl⟩ := List.cons.inj heq
        exact ⟨rfl, t, rfl, ht⟩

theorem matchTokens_any (s : List Char) : matchTokens [.any] s = true := by
  rw [matchTokens, List.any_eq_true]
  exact ⟨[], (List.mem_tails _ _).mpr (List.nil_suffix), rfl⟩

/-- The prefix pattern of a term is well-formed. -/
theorem compile_escape_percent (term : String) :
    compile (likeEscape term ++ "%") = some (term.toList.map Token.lit ++ [.any]) := by
  rw [compile_likeEscape_append]
  rfl

/-- An escaped term with `%` behind it tests for a prefix. -/
theorem like_escape_percent (term s : String) :
    like (likeEscape term ++ "%") s = Text.hasPrefix term s := by
  rw [Bool.eq_iff_iff, Text.hasPrefix, List.isPrefixOf_iff_prefix, like, compile_escape_percent]
  simp only
  rw [matchTokens_lits_append]
  constructor
  · rintro ⟨t, ht, -⟩
    exact ⟨t, ht.symm⟩
  · rintro ⟨t, ht⟩
    exact ⟨t, ht.symm, matchTokens_any t⟩

/-- The occurrence pattern of a term is well-formed. -/
theorem compile_percent_escape_percent (term : String) :
    compile ("%" ++ likeEscape term ++ "%") = some (.any :: (term.toList.map Token.lit ++ [.any])) := by
  have hhead : ∀ cs, compileChars ('%' :: cs) = (compileChars cs).map (.any :: ·) := fun _ => rfl
  have htail : compileChars (likeEscape term ++ "%").toList = some (term.toList.map Token.lit ++ [.any]) :=
    compile_escape_percent term
  rw [compile, String.append_assoc, String.toList_append, show "%".toList = ['%'] from rfl,
    List.singleton_append, hhead, htail]
  rfl

/-- An escaped term between two `%` tests for an occurrence. -/
theorem like_percent_escape_percent (term s : String) :
    like ("%" ++ likeEscape term ++ "%") s = Text.occursIn term s := by
  rw [Bool.eq_iff_iff, Text.occursIn, like, compile_percent_escape_percent]
  simp only [matchTokens, List.any_eq_true, List.isPrefixOf_iff_prefix]
  refine exists_congr fun t => and_congr_right fun _ => ?_
  rw [matchTokens_lits_append]
  constructor
  · rintro ⟨rest, ht, -⟩
    exact ⟨rest, ht.symm⟩
  · rintro ⟨rest, ht⟩
    exact ⟨rest, ht.symm, matchTokens_any rest⟩

end Like
