import Atlas.Persistence.HashicorpVault

/-! Resolving an access token. A stored credential that lacks a required scope is refused; one that is about
    to expire is refreshed, and what the provider answers is stored in its place. The scopes are checked
    before the refresh only, so the token of a refresh whose answer lists fewer scopes is handed out all
    the same. -/

namespace Atlas

open Text

/-! ### Instants -/

namespace DateTime

def isLeap (year : ℕ) : Bool := year % 4 == 0 && (year % 100 != 0 || year % 400 == 0)

/-- `_days_before_year`. -/
def daysBeforeYear (year : ℕ) : ℕ :=
  let y := year - 1
  y * 365 + y / 4 - y / 100 + y / 400

/-- `_days_before_month`. -/
def daysBeforeMonth (year month : ℕ) : ℕ :=
  [0, 0, 31, 59, 90, 120, 151, 181, 212, 243, 273, 304, 334].getD month 0 +
    if 2 < month ∧ isLeap year then 1 else 0

/-- Microseconds since the first day of year 1 began. -/
def micros (t : DateTime) : ℤ :=
  let days := daysBeforeYear t.year + daysBeforeMonth t.year t.month + t.day - 1
  ((((days * 24 + t.hour) * 60 + t.minute) * 60 + t.second) * 1000000 + t.microsecond : ℕ)

/-- `_ord2ymd`: the date so many days after the first of year 1, by cycles of 400, 100, 4 and 1 years. -/
def dateOfDays (n : ℕ) : ℕ × ℕ × ℕ :=
  let century := n % 146097
  let quad := century % 36524
  let rest := quad % 1461
  let year := n / 146097 * 400 + century / 36524 * 100 + quad / 1461 * 4 + rest / 365 + 1
  if rest / 365 = 4 ∨ century / 36524 = 4 then (year - 1, 12, 31)
  else
    let day := rest % 365
    let month := ((List.range' 1 12).filter (daysBeforeMonth year · ≤ day)).length
    (year, month, day - daysBeforeMonth year month + 1)

/-- The timestamp of an instant, if it is in the years 1 to 9999. -/
def ofMicros (n : ℤ) : Except PyError DateTime :=
  if n < 0 ∨ 3652059 * 86400000000 ≤ n then .error ⟨"OverflowError", "date value out of range"⟩
  else
    let seconds := n.toNat / 1000000
    let (year, month, day) := dateOfDays (seconds / 86400)
    .ok ⟨year, month, day, seconds / 3600 % 24, seconds / 60 % 60, seconds % 60, n.toNat % 1000000⟩

example : ofMicros ((⟨2024, 2, 28, 23, 59, 59, 5⟩ : DateTime).micros + 1000000) =
    .ok ⟨2024, 2, 29, 0, 0, 0, 5⟩ := by decide

end DateTime

/-- The instant of a timestamp; a naive one is taken as UTC. -/
def ExpiresAt.instant (t : ExpiresAt) : ℤ := t.wall.micros - t.offset.getD 0 * 1000000

def TOKEN_REFRESH_SKEW_SECONDS : ℤ := 120

/-- `_needs_refresh`, at a time of the clock. -/
def needsRefresh (now : DateTime) (stored : StoredCredential) : Bool :=
  match stored.expiresAt with
  | none => false
  | some expires => expires.instant ≤ now.micros + TOKEN_REFRESH_SKEW_SECONDS * 1000000

/-! ### Vaults -/

/-- A credential as a vault gives it back for a provider: the expiry may be written in another zone, and an
    empty token type as the default one. -/
structure GivenBack (provider : OAuthProvider) (c stored : StoredCredential) : Prop where
  provider : c.provider = provider → stored.provider = provider
  accessToken : stored.accessToken = c.accessToken
  refreshToken : stored.refreshToken = c.refreshToken
  scopes : stored.scopes = c.scopes
  metadata : stored.metadata = c.metadata

/-- The contract of a vault: reading writes nothing, neither does a write that is refused, and what was
    written is given back. -/
structure LawfulVault (V : Type) extends CredentialVault V where
  get_store : ∀ p provider v, (get p provider v).2 = v
  put_refused : ∀ p provider c v e, (put p provider c v).1 = .error e → (put p provider c v).2 = v
  get_put : ∀ p provider c v, (put p provider c v).1 = .ok () →
    ∃ stored, (get p provider (put p provider c v).2).1 = .ok (some stored) ∧ GivenBack provider c stored

/-- The in-memory vault keeps the contract. -/
def lawfulMemoryVault : LawfulVault MemoryStore where
  toCredentialVault := inMemoryCredentialVault
  get_store p provider v := by
    simp only [inMemoryCredentialVault]
    cases requireOrgId p <;> rfl
  put_refused p provider c v e h := by
    simp only [inMemoryCredentialVault] at h ⊢
    cases horg : requireOrgId p with
    | error e' => rfl
    | ok org => rw [horg] at h; cases h
  get_put p provider c v h := by
    simp only [inMemoryCredentialVault] at h ⊢
    cases horg : requireOrgId p with
    | error e => rw [horg] at h; cases h
    | ok org => exact ⟨c, by simp, ⟨id, rfl, rfl, rfl, rfl⟩⟩

/-- So does the durable one. -/
def lawfulHashiCorpVault (mount : VaultMount) : LawfulVault Kv where
  toCredentialVault := hashiCorpCredentialVault mount
  get_store p provider v := by
    simp only [hashiCorpCredentialVault]
    cases scopedPath mount p provider <;> rfl
  put_refused p provider c v e h := by
    simp only [hashiCorpCredentialVault] at h ⊢
    cases hpath : scopedPath mount p provider with
    | error e' => rfl
    | ok path => rw [hpath] at h; cases h
  get_put p provider c v h := by
    simp only [hashiCorpCredentialVault] at h ⊢
    cases hpath : scopedPath mount p provider with
    | error e => rw [hpath] at h; cases h
    | ok path =>
      exact ⟨deserializeCredential provider (serializeCredential c), by simp,
        ⟨fun _ => rfl, rfl, rfl, rfl, rfl⟩⟩

/-! ### The resolver -/

/-- The refresh callbacks that are wired: Google's is handed the scopes of the stored credential as well. -/
structure Refreshers where
  refreshGoogle : Option (String → List String → Except PyError StoredCredential) := none
  refreshSlack : Option (String → Except PyError StoredCredential) := none

/-- What the provider's callback makes of a refresh token. -/
def Refreshers.callback (refreshers : Refreshers) (provider : OAuthProvider) (token : String)
    (priorScopes : List String) : Except PyError StoredCredential :=
  let unconfigured : PyError := ⟨"RuntimeError", provider.value ++ " refresh not configured"⟩
  match provider with
  | .google =>
    match refreshers.refreshGoogle with
    | none => .error unconfigured
    | some refresh => refresh token priorScopes
  | .slack =>
    match refreshers.refreshSlack with
    | none => .error unconfigured
    | some refresh => refresh token

/-- What is answered to a refresh of a stored credential. -/
def Refreshers.answer (refreshers : Refreshers) (provider : OAuthProvider) (stored : StoredCredential) :
    Except PyError StoredCredential :=
  match stored.refreshToken.bind orNone with
  | none => .error ⟨"RuntimeError", provider.value ++ " token expired and no refresh token — reconnect"⟩
  | some token => refreshers.callback provider token stored.scopes

/-- An answer without scopes keeps those of the stored credential. -/
def keepScopes (stored updated : StoredCredential) : StoredCredential :=
  if updated.scopes = [] ∧ stored.scopes ≠ [] then { updated with scopes := stored.scopes } else updated

variable {V : Type}

/-- `_refresh`. -/
def refresh (vault : CredentialVault V) (refreshers : Refreshers) (principal : Principal)
    (provider : OAuthProvider) (stored : StoredCredential) (v : V) : Except PyError StoredCredential × V :=
  match refreshers.answer provider stored with
  | .error e => (.error e, v)
  | .ok answered =>
    let updated := keepScopes stored answered
    match vault.put principal provider updated v with
    | (.error e, v) => (.error e, v)
    | (.ok (), v) => (.ok updated, v)

def notConnected (provider : OAuthProvider) : PyError :=
  ⟨"RuntimeError", provider.value ++ " not connected — visit /oauth/" ++ provider.value ++ "/connect"⟩

def missingScopes (provider : OAuthProvider) (missing : List String) : PyError :=
  ⟨"RuntimeError", provider.value ++ " missing scopes " ++
    (Json.arr ((missing.dedup.insertionSort (· ≤ ·)).map .str)).pyRepr ++ " — reconnect via /oauth/" ++
    provider.value ++ "/connect"⟩

/-- `get_access_token`, at a time of the clock. -/
def getAccessToken (vault : CredentialVault V) (refreshers : Refreshers) (now : DateTime)
    (principal : Principal) (provider : OAuthProvider) (required : List String) (v : V) :
    Except PyError String × V :=
  match vault.get principal provider v with
  | (.error e, v) => (.error e, v)
  | (.ok none, v) => (.error (notConnected provider), v)
  | (.ok (some stored), v) =>
    let missing := required.filter (· ∉ stored.scopes)
    if missing ≠ [] then (.error (missingScopes provider missing), v)
    else if needsRefresh now stored then
      match refresh vault refreshers principal provider stored v with
      | (.error e, v) => (.error e, v)
      | (.ok updated, v) => (.ok updated.accessToken, v)
    else (.ok stored.accessToken, v)

/-! ### What a call does -/

@[simp] theorem accessToken_keepScopes (stored updated : StoredCredential) :
    (keepScopes stored updated).accessToken = updated.accessToken := by
  rw [keepScopes]
  split <;> rfl

/-- A call with a credential that has the scopes: what is stored, when it is refreshed and stored anew. -/
structure Renews (vault : CredentialVault V) (refreshers : Refreshers) (now : DateTime)
    (principal : Principal) (provider : OAuthProvider) (required : List String) (v : V)
    (stored answered : StoredCredential) : Prop where
  found : (vault.get principal provider v).1 = .ok (some stored)
  granted : ∀ s ∈ required, s ∈ stored.scopes
  due : needsRefresh now stored = true
  answers : refreshers.answer provider stored = .ok answered
  written : (vault.put principal provider (keepScopes stored answered) v).1 = .ok ()

/-- At most one renewal is due. -/
theorem Renews.unique {vault : CredentialVault V} {refreshers : Refreshers} {now : DateTime}
    {principal : Principal} {provider : OAuthProvider} {required : List String} {v : V}
    {stored answered stored' answered' : StoredCredential}
    (h : Renews vault refreshers now principal provider required v stored answered)
    (h' : Renews vault refreshers now principal provider required v stored' answered') :
    stored' = stored ∧ answered' = answered := by
  obtain rfl : stored' = stored :=
    Option.some.inj (Except.ok.inj (h'.found.symm.trans h.found))
  exact ⟨rfl, Except.ok.inj (h'.answers.symm.trans h.answers)⟩

/-- A refresh raises and writes nothing, or stores what it was answered. -/
theorem refresh_cases (vault : LawfulVault V) (refreshers : Refreshers) (principal : Principal)
    (provider : OAuthProvider) (stored : StoredCredential) (v : V) :
    (∃ e, refresh vault.toCredentialVault refreshers principal provider stored v = (.error e, v) ∧
      ∀ answered, refreshers.answer provider stored = .ok answered →
        (vault.put principal provider (keepScopes stored answered) v).1 ≠ .ok ()) ∨
    ∃ answered, refreshers.answer provider stored = .ok answered ∧
      (vault.put principal provider (keepScopes stored answered) v).1 = .ok () ∧
      refresh vault.toCredentialVault refreshers principal provider stored v =
        (.ok (keepScopes stored answered), (vault.put principal provider (keepScopes stored answered) v).2) := by
  unfold refresh
  cases hanswer : refreshers.answer provider stored with
  | error e => exact Or.inl ⟨e, rfl, fun answered h => by cases h⟩
  | ok answered =>
    rcases hput : vault.put principal provider (keepScopes stored answered) v with ⟨written, v'⟩
    cases written with
    | error e =>
      have hsame := vault.put_refused principal provider (keepScopes stored answered) v e
      rw [hput] at hsame
      obtain rfl : v' = v := hsame rfl
      refine Or.inl ⟨e, by simp only [hput], fun answered' h => ?_⟩
      cases h
      rw [hput]
      exact fun hwritten => by cases hwritten
    | ok => exact Or.inr ⟨answered, rfl, by rw [hput], by simp only [hput]⟩

/-- Every way a call ends: it raises and writes nothing, hands out the stored token, or renews it. -/
theorem getAccessToken_cases (vault : LawfulVault V) (refreshers : Refreshers) (now : DateTime)
    (principal : Principal) (provider : OAuthProvider) (required : List String) (v : V) :
    (∃ e, getAccessToken vault.toCredentialVault refreshers now principal provider required v =
        (.error e, v) ∧ ∀ stored answered, ¬Renews vault.toCredentialVault refreshers now principal provider
          required v stored answered) ∨
    (∃ stored, (vault.get principal provider v).1 = .ok (some stored) ∧
        (∀ s ∈ required, s ∈ stored.scopes) ∧ needsRefresh now stored = false ∧
        getAccessToken vault.toCredentialVault refreshers now principal provider required v =
          (.ok stored.accessToken, v)) ∨
    ∃ stored answered, Renews vault.toCredentialVault refreshers now principal provider required v
        stored answered ∧
      getAccessToken vault.toCredentialVault refreshers now principal provider required v =
        (.ok answered.accessToken, (vault.put principal provider (keepScopes stored answered) v).2) := by
  rcases hget : vault.get principal provider v with ⟨result, after⟩
  obtain rfl : after = v := by simpa only [hget] using vault.get_store principal provider v
  -- a call whose credential is not the one found, or not due, renews nothing
  have hfound : ∀ {stored answered}, Renews vault.toCredentialVault refreshers now principal provider
      required after stored answered → result = .ok (some stored) := by
    intro stored answered h
    simpa only [hget] using h.found
  simp only [getAccessToken, hget]
  match result with
  | .error e =>
    refine Or.inl ⟨e, rfl, fun stored answered h => ?_⟩
    cases hfound h
  | .ok none =>
    refine Or.inl ⟨_, rfl, fun stored answered h => ?_⟩
    cases hfound h
  | .ok (some stored) =>
    have hgranted : required.filter (· ∉ stored.scopes) = [] ↔ ∀ s ∈ required, s ∈ stored.scopes := by
      simp [List.filter_eq_nil_iff]
    by_cases hmissing : required.filter (· ∉ stored.scopes) = []
    · simp only [hmissing, ne_eq, not_true_eq_false, if_false]
      cases hdue : needsRefresh now stored with
      | false => exact Or.inr (Or.inl ⟨stored, rfl, hgranted.mp hmissing, hdue, rfl⟩)
      | true =>
        rcases refresh_cases vault refreshers principal provider stored after with
          ⟨e, hrefresh, hnone⟩ | ⟨answered, hanswer, hwritten, hrefresh⟩
        · refine Or.inl ⟨e, by simp only [hrefresh, if_true], fun stored' answered h => ?_⟩
          cases hfound h
          exact hnone answered h.answers h.written
        · refine Or.inr (Or.inr ⟨stored, answered, ⟨?_, hgranted.mp hmissing, hdue, hanswer, hwritten⟩, ?_⟩)
          · rw [hget]
          · simp only [hrefresh, if_true, accessToken_keepScopes]
    · simp only [ne_eq, hmissing, not_false_eq_true, if_true]
      refine Or.inl ⟨_, rfl, fun stored' answered h => ?_⟩
      cases hfound h
      exact hmissing (hgranted.mpr h.granted)

/-- What the token of a call stands for: it is the one stored, with every required scope, and a call that
    raises leaves the store as it was. -/
structure ServesScopes (vault : CredentialVault V) (principal : Principal) (provider : OAuthProvider)
    (required : List String) (v : V) (outcome : Except PyError String × V) : Prop where
  token : ∀ t, outcome.1 = .ok t → ∃ c, (vault.get principal provider outcome.2).1 = .ok (some c) ∧
    c.accessToken = t ∧ ∀ s ∈ required, s ∈ c.scopes
  raised : ∀ e, outcome.1 = .error e → outcome.2 = v

/-- A renewal is answered with no scopes at all, or with every required one. -/
def AnswersScopes (required : List String) (answered : StoredCredential) : Prop :=
  answered.scopes = [] ∨ ∀ s ∈ required, s ∈ answered.scopes

/-- Of a credential with the required scopes, an answer keeps them exactly if it lists them or lists none. -/
theorem scopes_keepScopes_iff {required : List String} {stored answered : StoredCredential}
    (h : ∀ s ∈ required, s ∈ stored.scopes) :
    (∀ s ∈ required, s ∈ (keepScopes stored answered).scopes) ↔ AnswersScopes required answered := by
  unfold keepScopes AnswersScopes
  by_cases hempty : answered.scopes = []
  · rw [iff_true_right (Or.inl hempty)]
    split
    next => exact h
    next hstored =>
      have hnone : stored.scopes = [] := by simpa [hempty] using hstored
      intro s hs
      exact absurd (h s hs) (by simp [hnone])
  · rw [if_neg (fun hboth => hempty hboth.1), or_iff_right hempty]

/-- A call serves the required scopes exactly when no renewal is answered with fewer. -/
theorem getAccessToken_serves_iff (vault : LawfulVault V) (refreshers : Refreshers) (now : DateTime)
    (principal : Principal) (provider : OAuthProvider) (required : List String) (v : V) :
    ServesScopes vault.toCredentialVault principal provider required v
        (getAccessToken vault.toCredentialVault refreshers now principal provider required v) ↔
      ∀ stored answered, Renews vault.toCredentialVault refreshers now principal provider required v stored
        answered → AnswersScopes required answered := by
  rcases getAccessToken_cases vault refreshers now principal provider required v with
    ⟨e, hcall, hnone⟩ | ⟨stored, hget, hgranted, hdue, hcall⟩ | ⟨stored, answered, hrenews, hcall⟩
  · rw [hcall]
    refine iff_of_true ⟨fun t ht => (nomatch ht), fun _ _ => rfl⟩ fun stored answered h => ?_
    exact absurd h (hnone stored answered)
  · rw [hcall]
    refine iff_of_true ⟨fun t ht => ?_, fun _ he => nomatch he⟩ fun stored' answered h => ?_
    · cases ht
      exact ⟨stored, hget, rfl, hgranted⟩
    · have hsame := h.found
      rw [hget] at hsame
      cases hsame
      rw [h.due] at hdue
      cases hdue
  · rw [hcall]
    obtain ⟨c, hc, hback⟩ := vault.get_put principal provider _ v hrenews.written
    constructor
    · intro hserves stored' answered' h
      obtain ⟨rfl, rfl⟩ := hrenews.unique h
      obtain ⟨c', hc', -, hscopes⟩ := hserves.token _ rfl
      rw [hc, Except.ok.injEq, Option.some.injEq] at hc'
      rw [← hc', hback.scopes] at hscopes
      exact (scopes_keepScopes_iff hrenews.granted).mp hscopes
    · intro hanswers
      refine ⟨fun t ht => ?_, fun _ he => nomatch he⟩
      cases ht
      refine ⟨c, hc, hback.accessToken.trans (accessToken_keepScopes stored answered), ?_⟩
      rw [hback.scopes]
      exact (scopes_keepScopes_iff hrenews.granted).mpr (hanswers stored answered hrenews)

/-! ### A refresh answered with fewer scopes -/

/-- A token for sending mail, expired. -/
def expiredCredential : StoredCredential where
  provider := .google
  scopes := ["gmail.send"]
  accessToken := "old"
  refreshToken := some "rt"
  expiresAt := some ⟨⟨2026, 6, 19, 0, 0, 0, 0⟩, some 0⟩

/-- Google answers with a token that may not send mail. -/
def narrowingRefreshers : Refreshers where
  refreshGoogle := some fun token _ =>
    .ok { provider := .google, scopes := ["openid"], accessToken := "new", refreshToken := some token }

theorem getAccessToken_narrowed : ¬∀ (refreshers : Refreshers) (now : DateTime) (principal : Principal)
    (provider : OAuthProvider) (required : List String) (store : MemoryStore),
    ServesScopes inMemoryCredentialVault principal provider required store
      (getAccessToken inMemoryCredentialVault refreshers now principal provider required store) := by
  intro h
  obtain ⟨c, hc, -, hscopes⟩ := (h narrowingRefreshers ⟨2026, 6, 19, 1, 0, 0, 0⟩ (acmeUser "alice") .google
    ["gmail.send"] (Dict.empty.set ("acme", "alice", .google) expiredCredential)).token "new" rfl
  cases hc
  exact absurd (hscopes "gmail.send" List.mem_cons_self) (by decide)

end Atlas
