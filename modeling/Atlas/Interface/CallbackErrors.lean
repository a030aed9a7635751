import Atlas.Interface.OAuthRoutes

/-! How a callback that is refused ends. Every check before the code is exchanged should answer with an HTTP
    error and leave the vault alone. The handlers catch the errors of their own modules in two places only:
    a state that UTF-8 does not encode, a signature or a cookie that is not ASCII, a signed payload of another
    shape, and, in the GET handler, an identity that is not the one of the state raise past them
    (`refusesCleanly_iff`). -/

namespace Atlas

open Text Fallible

variable {V : Type}

/-! ### Refusals -/

inductive CallbackMethod where | get | post
  deriving DecidableEq, Repr

/-- The binding of a callback. -/
def callbackBinding (rt : OAuthRuntime) (app : OAuthApp V) (now : ℤ) (r : CallbackRequest) :
    CallbackMethod → Except CallbackError (Binding V)
  | .get => getBinding rt app now r
  | .post => postBinding rt app now r

/-- A callback of either method. -/
def oauthCallback (rt : OAuthRuntime) (app : OAuthApp V) (now now' : ℤ) (r : CallbackRequest) (v : V) :
    CallbackMethod → Except CallbackError String × V
  | .get => oauthCallbackGet rt app now now' r v
  | .post => oauthCallbackPost rt app now now' r v

/-- What is checked before the code is exchanged: the binding, the state a second time, and that the
    provider has a client. -/
def checksBeforeExchange (rt : OAuthRuntime) (app : OAuthApp V) (now now' : ℤ) (r : CallbackRequest)
    (method : CallbackMethod) : Except CallbackError (Binding V × String × OAuthClient) := do
  let b ← callbackBinding rt app now r method
  let bindingEmail ← (verifiedBindingEmail rt app.settings now' b.provider r.state b.bound).mapError
    (badRequestOn ["OAuthStateError", "OAuthBindingError"])
  let client ← app.client b.provider
  return (b, bindingEmail, client)

/-- The exception is an `OAuthStateError`. -/
def IsStateError (e : PyError) : Prop := e.type = "OAuthStateError"

/-- A refusal the client is told about: 400, 401 or 503, or 404 for a provider there is none of. -/
def IsRefusal (rt : OAuthRuntime) (r : CallbackRequest) (e : CallbackError) : Prop :=
  ∃ h, e = .http h ∧ (h.statusCode ∈ [400, 401, 503] ∨
    h.statusCode = 404 ∧ OAuthProvider.ofValue? (rt.lowering.lower r.provider) = none)

/-- A state is verified or refused as such, and a callback that fails a check before the exchange ends with
    that refusal and the vault as it was. -/
structure RefusesCleanly (rt : OAuthRuntime) (app : OAuthApp V) (now now' : ℤ) (r : CallbackRequest) (v : V)
    (method : CallbackMethod) : Prop where
  consumes : ∀ t, (∃ payload, consumeOauthState rt app.settings t r.state = .ok payload ∧
      Carries rt app.settings r.state payload) ∨
    ∃ e, consumeOauthState rt app.settings t r.state = .error e ∧ IsStateError e
  refuses : ∀ e, checksBeforeExchange rt app now now' r method = .error e →
    IsRefusal rt r e ∧ oauthCallback rt app now now' r v method = (.error e, v)

/-! ### What the handlers need of a request -/

/-- What the libraries promise: digests in hexadecimal, and exceptions that are not the program's own. -/
structure OAuthRuntime.Documented (rt : OAuthRuntime) : Prop where
  hmac_hex : ∀ key text, ∀ c ∈ (rt.hmac key text).toList, c ∈ "0123456789abcdef".toList
  hmac_ne : ∀ key text, rt.hmac key text ≠ ""
  loads_raises : ∀ body e, rt.loads body = .error e → e.type ≠ "OAuthStateError"
  int_raises : ∀ s e, rt.intOfText s = .error e → e.type ≠ "OAuthStateError"

/-- The payload under a right signature is not JSON, or a mapping with an expiry that is a number. -/
def OAuthRuntime.PayloadReadable (rt : OAuthRuntime) (body : String) : Prop :=
  match rt.loads body with
  | .ok v => ∃ payload exp, v = .obj payload ∧
      rt.int ((Json.field? "exp" payload).getD (.int 0)) = .ok exp
  | .error e => isValueError e = true

def IsAscii (s : PyText) : Prop := s.points.all isAsciiPoint = true

instance (s : PyText) : Decidable (IsAscii s) := inferInstanceAs (Decidable (_ = true))

/-- What is before the last dot of the state can be encoded, what is behind it is ASCII, and if that is the
    right signature then the payload can be read. -/
structure StateReadable (rt : OAuthRuntime) (settings : OAuthSettings) (state : PyText) : Prop where
  encodable : ∀ body sig key, state.rsplit? '.' = some (body, sig) → oauthStateKey settings = .ok key →
    body.Encodable
  ascii : ∀ body sig key, state.rsplit? '.' = some (body, sig) → oauthStateKey settings = .ok key →
    IsAscii sig
  payload : ∀ body key,
    state.rsplit? '.' = some (PyText.ofString body, PyText.ofString (rt.hmac key body)) →
    oauthStateKey settings = .ok key → rt.PayloadReadable body

/-- If a bearer token is to be verified, then only exceptions of the kinds that are caught come of it. -/
def TokenReadable (rt : OAuthRuntime) (app : OAuthApp V) (r : CallbackRequest) : Prop :=
  ∀ auth token, app.authenticator = some auth → bearerToken rt.lowering r.toRequest = some token →
    FailsOnly (isPyJWKClientError · = true) (auth.getSigningKey token) ∧
    ∀ key, auth.getSigningKey token = .ok key → FailsOnly (isPyJWTError · = true) (auth.decode token key)

/-- No bearer token is to be verified. -/
def NoToken (rt : OAuthRuntime) (app : OAuthApp V) (r : CallbackRequest) : Prop :=
  app.authenticator = none ∨ bearerToken rt.lowering r.toRequest = none

/-- The pending cookie is the digest of the nonce of the payload. -/
def CookieMatches (rt : OAuthRuntime) (settings : OAuthSettings) (r : CallbackRequest) (payload : Args) :
    Prop :=
  ∃ nonce key, nonce ≠ "" ∧ Json.field? "nonce" payload = some (.str nonce) ∧
    oauthStateKey settings = .ok key ∧ r.pendingCookie = some (rt.hmac key nonce)

/-- Whoever is found to make a GET callback is the principal of the payload. -/
structure IdentityReadable (rt : OAuthRuntime) (app : OAuthApp V) (r : CallbackRequest) (payload : Args) :
    Prop where
  token : ∀ auth token caller, app.authenticator = some auth →
    bearerToken rt.lowering r.toRequest = some token → auth.principalFromToken token = .ok caller →
    NamesPrincipal payload caller
  cookie : NoToken rt app r → ∀ nonce cookie, Json.field? "nonce" payload = some (.str nonce) →
    nonce ≠ "" → r.pendingCookie = some cookie → IsAscii cookie
  pending : NoToken rt app r → CookieMatches rt app.settings r payload →
    ∃ userId orgId, Json.field? "user_id" payload = some (.str userId) ∧ strip userId ≠ "" ∧
      Json.field? "org_id" payload = some (.str orgId) ∧ strip orgId ≠ ""
  headers : app.authenticator = none → ¬CookieMatches rt app.settings r payload →
    principalFromHeaders r.toRequest ≠ Principal.anonymous →
    NamesPrincipal payload (principalFromHeaders r.toRequest)

/-- What a request must not have for its callback to raise past the handler: a POST callback only reads the
    caller's token and the state, a GET callback asks further once the state is verified. -/
def RequestReadable (rt : OAuthRuntime) (app : OAuthApp V) (now : ℤ) (r : CallbackRequest) :
    CallbackMethod → Prop
  | .post => TokenReadable rt app r
  | .get => ∀ vault provider payload, app.vault = some vault →
      OAuthProvider.ofValue? (rt.lowering.lower r.provider) = some provider →
      Carries rt app.settings r.state payload → Unexpired rt payload now →
      TokenReadable rt app r ∧ IdentityReadable rt app r payload

/-! ### The state -/

section state
variable {rt : OAuthRuntime} {settings : OAuthSettings} {state : PyText}

theorem failsOnly_oauthStateKey : FailsOnly IsStateError (oauthStateKey settings) := by
  simp only [oauthStateKey, failsOnly_ite, failsOnly_ok, failsOnly_error]
  exact ⟨fun _ => trivial, fun _ => ⟨fun _ => trivial, fun _ => rfl⟩⟩

/-- What cannot be encoded raises a `UnicodeEncodeError`. -/
theorem failsOnly_encodeUtf8 {s : PyText} : FailsOnly IsStateError (encodeUtf8 s) ↔ s.Encodable := by
  constructor
  · intro h
    cases hencode : encodeUtf8 s with
    | ok text => exact ⟨text, encodeUtf8_eq_ok.mp hencode⟩
    | error e =>
      have hstate : IsStateError e := failsOnly_error.mp (hencode ▸ h)
      rw [encodeUtf8] at hencode
      split at hencode
      next => cases hencode
      next =>
        cases hencode
        exact absurd hstate (by simp [IsStateError])
  · rintro ⟨text, rfl⟩
    rw [encodeUtf8_eq_ok.mpr rfl]
    exact failsOnly_ok _

theorem compareDigest_eq_ok {a b : PyText} {v : Bool} :
    compareDigest a b = .ok v ↔ IsAscii a ∧ IsAscii b ∧ v = decide (a = b) := by
  simp only [compareDigest, ite_error_eq_ok, not_not, Except.ok.injEq, IsAscii, and_assoc,
    eq_comm (a := v)]

/-- Two texts are compared if both are ASCII; otherwise a `TypeError` is raised. -/
theorem failsOnly_compareDigest {a b : PyText} :
    FailsOnly IsStateError (compareDigest a b) ↔ IsAscii a ∧ IsAscii b := by
  have hnot : ¬IsStateError ⟨"TypeError", "comparing strings with non-ASCII characters is not supported"⟩ := by
    simp [IsStateError]
  rw [compareDigest, failsOnly_ite, failsOnly_error, iff_false_intro hnot, imp_false, not_not]
  exact and_iff_left fun _ => failsOnly_ok _

theorem OAuthRuntime.Documented.ascii (h : rt.Documented) (key text : String) :
    IsAscii (rt.hmac key text) := by
  refine List.all_eq_true.mpr fun point hpoint => ?_
  obtain ⟨c, hc, rfl⟩ := List.mem_map.mp hpoint
  have hhex : "0123456789abcdef".toList.all (·.toNat < 128) = true := by decide
  exact List.all_eq_true.mp hhex c (h.hmac_hex key text c hc)

theorem OAuthRuntime.Documented.no_dot (h : rt.Documented) (key text : String) :
    '.' ∉ (rt.hmac key text).toList := by
  intro hc
  exact absurd (h.hmac_hex key text '.' hc) (by decide)

/-- What `int` raises is no error of the state. -/
theorem OAuthRuntime.Documented.failsOnly_int (h : rt.Documented) (v : Json) :
    FailsOnly IsStateError (rt.int v) ↔ ∃ n, rt.int v = .ok n := by
  cases hint : rt.int v with
  | ok n => exact iff_of_true (failsOnly_ok n) ⟨n, rfl⟩
  | error e =>
    refine iff_of_false (fun hfails => ?_) fun ⟨n, hn⟩ => by cases hn
    have hstate : IsStateError e := failsOnly_error.mp hfails
    cases v with
    | str s => exact h.int_raises s e hint hstate
    | _ =>
      cases hint
      try exact absurd hstate (by simp [IsStateError])

/-- Reading the payload raises an error of the state only, if the payload is readable. -/
theorem OAuthRuntime.Documented.failsOnly_payload (h : rt.Documented) (body : String) :
    (FailsOnly IsStateError (rt.payload body) ∧ ∀ payload, rt.payload body = .ok payload →
      FailsOnly IsStateError (rt.int ((Json.field? "exp" payload).getD (.int 0)))) ↔
      rt.PayloadReadable body := by
  rw [OAuthRuntime.PayloadReadable]
  cases hloads : rt.loads body with
  | error e =>
    have hpayload : rt.payload body =
        if isValueError e then .error (oauthStateError "invalid state payload") else .error e := by
      rw [OAuthRuntime.payload, hloads]
    rw [hpayload, failsOnly_ite, failsOnly_error, failsOnly_error]
    constructor
    · rintro ⟨⟨-, hother⟩, -⟩
      by_contra hvalue
      exact h.loads_raises body e hloads (hother hvalue)
    · intro hvalue
      rw [if_pos hvalue]
      exact ⟨⟨fun _ => rfl, fun hnot => absurd hvalue hnot⟩, fun _ hp => by cases hp⟩
  | ok v =>
    cases v with
    | obj payload =>
      have hpayload : rt.payload body = .ok payload := by rw [OAuthRuntime.payload, hloads]
      simp only [hpayload, h.failsOnly_int, failsOnly_ok, true_and, Except.ok.injEq]
      constructor
      · intro hint
        obtain ⟨exp, hexp⟩ := hint payload rfl
        exact ⟨payload, exp, rfl, hexp⟩
      · rintro ⟨_, exp, heq, hexp⟩ payload' rfl
        cases heq
        exact ⟨exp, hexp⟩
    | _ =>
      refine iff_of_false (fun hfails => ?_) (fun hreadable => ?_)
      · rw [OAuthRuntime.payload, hloads] at hfails
        exact absurd (failsOnly_error.mp hfails.1) (by simp [IsStateError])
      · obtain ⟨_, _, heq, -⟩ := hreadable
        cases heq

/-- Verifying a state raises an error of the state only, if the state is readable. -/
theorem failsOnly_consume (h : rt.Documented) (t : ℤ) :
    FailsOnly IsStateError (consumeOauthState rt settings t state) ↔ StateReadable rt settings state := by
  unfold consumeOauthState
  cases hsplit : state.rsplit? '.' with
  | none =>
    refine iff_of_true (failsOnly_error.mpr rfl) ⟨?_, ?_, ?_⟩
    · intro body sig key hsome
      rw [hsplit] at hsome
      cases hsome
    · intro body sig key hsome
      rw [hsplit] at hsome
      cases hsome
    · intro body key hsome
      rw [hsplit] at hsome
      cases hsome
  | some parts =>
    obtain ⟨body, sig⟩ := parts
    simp only [failsOnly_bind, failsOnly_oauthStateKey, failsOnly_encodeUtf8, encodeUtf8_eq_ok, true_and,
      failsOnly_ite, failsOnly_error, failsOnly_compareDigest, compareDigest_eq_ok, h.ascii, failsOnly_pure]
    constructor
    · intro hfails
      refine ⟨fun body' sig' key hsome hkey => ?_, fun body' sig' key hsome hkey => ?_,
        fun text key hsome hkey => ?_⟩
      · rw [hsplit] at hsome
        cases hsome
        exact (hfails key hkey).1
      · rw [hsplit] at hsome
        cases hsome
        obtain ⟨⟨text, htext⟩, hrest⟩ := hfails key hkey
        exact (hrest text htext).1
      · rw [hsplit, Option.some.injEq, Prod.mk.injEq] at hsome
        obtain ⟨rfl, rfl⟩ := hsome
        obtain ⟨-, hrest⟩ := hfails key hkey
        obtain ⟨-, hvalid⟩ := hrest text rfl
        obtain ⟨hpayload, hint⟩ := (hvalid true ⟨h.ascii _ _, by simp⟩).2 (by decide)
        exact (h.failsOnly_payload text).mp ⟨hpayload, fun payload hp => (hint payload hp).1⟩
    · intro hreadable key hkey
      refine ⟨hreadable.encodable body sig key hsplit hkey, fun text htext => ?_⟩
      refine ⟨hreadable.ascii body sig key hsplit hkey, ?_⟩
      rintro valid ⟨-, rfl⟩
      refine ⟨fun _ => rfl, fun hvalid => ?_⟩
      obtain rfl : PyText.ofString (rt.hmac key text) = sig := by simpa using hvalid
      rw [htext] at hsplit
      obtain ⟨hpayload, hint⟩ := (h.failsOnly_payload text).mpr (hreadable.payload text key hsplit hkey)
      exact ⟨hpayload, fun payload hp => ⟨hint payload hp, fun _ _ => ⟨fun _ => rfl, fun _ => trivial⟩⟩⟩

/-- A readable state is accepted exactly with the payload it carries, as long as that has not expired. -/
theorem consume_eq_ok_iff (h : rt.Documented) {t : ℤ} {payload : Args} :
    consumeOauthState rt settings t state = .ok payload ↔
      Carries rt settings state payload ∧ Unexpired rt payload t := by
  constructor
  · intro hconsume
    obtain ⟨body, key, -, -, -, hexp⟩ := consumeOauthState_eq_ok hconsume
    exact ⟨carries_of_consume hconsume, hexp⟩
  · rintro ⟨⟨body, key, hkey, rfl, hloads⟩, exp, hexp, hnow⟩
    have hsplit : (PyText.ofString (body ++ "." ++ rt.hmac key body)).rsplit? '.' =
        some (PyText.ofString body, PyText.ofString (rt.hmac key body)) := by
      rw [dot_eq_singleton]
      exact PyText.rsplit?_append (h.no_dot key body)
    have hencode : encodeUtf8 (PyText.ofString body) = .ok body := encodeUtf8_eq_ok.mpr rfl
    have hpayload : rt.payload body = .ok payload := by rw [OAuthRuntime.payload, hloads]
    have hvalid : compareDigest (rt.hmac key body) (rt.hmac key body) = .ok true :=
      compareDigest_eq_ok.mpr ⟨h.ascii _ _, h.ascii _ _, by simp⟩
    have hlate : ¬exp < t := by omega
    simp [consumeOauthState, hsplit, hkey, hencode, hvalid, hpayload, hexp, hlate]

end state

/-! ### The identity -/

section identity
variable {rt : OAuthRuntime} {app : OAuthApp V} {r : CallbackRequest} {payload : Args}

@[simp] theorem isRefusal_uncaught {e : PyError} : IsRefusal rt r (.uncaught e) ↔ False :=
  iff_false_intro fun ⟨_, h, _⟩ => by cases h

theorem isRefusal_http {h : HTTPException} (hstatus : h.statusCode ∈ [400, 401, 503]) :
    IsRefusal rt r (.http h) := ⟨h, rfl, Or.inl hstatus⟩

theorem isRefusal_tokenError {failure : AuthFailure} :
    IsRefusal rt r (.http (tokenError failure)) ↔ ∀ e, failure ≠ .uncaught e := by
  cases failure with
  | dependency message => exact iff_of_true (isRefusal_http (by simp [tokenError])) fun _ => by simp
  | auth message => exact iff_of_true (isRefusal_http (by simp [tokenError])) fun _ => by simp
  | uncaught e =>
    refine iff_of_false ?_ fun h => h e rfl
    rintro ⟨h, heq, hstatus⟩
    cases heq
    simp [tokenError] at hstatus

/-- A token is refused with a status if the library raises nothing that is not caught. -/
theorem failsOnly_principalFromToken (auth : OidcAuthenticator) (token : String) :
    FailsOnly (fun failure => IsRefusal rt r (.http (tokenError failure))) (auth.principalFromToken token) ↔
      FailsOnly (isPyJWKClientError · = true) (auth.getSigningKey token) ∧
      ∀ key, auth.getSigningKey token = .ok key →
        FailsOnly (isPyJWTError · = true) (auth.decode token key) := by
  simp only [isRefusal_tokenError, OidcAuthenticator.principalFromToken, OidcAuthenticator.verifiedClaims,
    failsOnly_bind, failsOnly_mapError, failsOnly_ite, failsOnly_error, failsOnly_pure, mapError_eq_ok]
  have hkey : FailsOnly (fun e => ∀ e', (if isPyJWKClientError e = true then
      AuthFailure.dependency "authentication service unavailable" else .uncaught e) ≠ .uncaught e')
      (auth.getSigningKey token) ↔ FailsOnly (isPyJWKClientError · = true) (auth.getSigningKey token) :=
    failsOnly_congr fun e => by cases isPyJWKClientError e <;> simp
  have hdecode : ∀ key, FailsOnly (fun e => ∀ e', (if isPyJWTError e = true then
      AuthFailure.auth "invalid or expired token" else .uncaught e) ≠ .uncaught e')
      (auth.decode token key) ↔ FailsOnly (isPyJWTError · = true) (auth.decode token key) :=
    fun key => failsOnly_congr fun e => by cases isPyJWTError e <;> simp
  rw [hkey]
  simp [hdecode]

/-- A named caller is bound to the state exactly if the state names it. -/
theorem exists_principalFromState_iff {caller : Principal} (hne : caller.userId ≠ "") :
    (∃ bound, principalFromState payload caller = .ok bound) ↔ NamesPrincipal payload caller := by
  constructor
  · rintro ⟨bound, h⟩
    exact (principalFromState_eq_ok h).2.2 hne
  · rintro ⟨-, huser, org, horgne, horg, hfield⟩
    have hanon : caller ≠ Principal.anonymous := by
      rintro rfl
      cases horg
    refine ⟨caller, ?_⟩
    simp [principalFromState, hanon, fieldIs, huser, hfield, horg, horgne]

theorem exists_principalFromPayload_iff :
    (∃ bound, principalFromPayload payload = .ok bound) ↔
      ∃ userId orgId, Json.field? "user_id" payload = some (.str userId) ∧ strip userId ≠ "" ∧
        Json.field? "org_id" payload = some (.str orgId) ∧ strip orgId ≠ "" := by
  constructor
  · rintro ⟨bound, h⟩
    unfold principalFromPayload at h
    split at h
    next userId huser =>
      obtain ⟨hne, h⟩ := ite_error_eq_ok.mp h
      split at h
      next orgId horg => exact ⟨userId, orgId, huser, hne, horg, (ite_error_eq_ok.mp h).1⟩
      next => cases h
    next => cases h
  · rintro ⟨userId, orgId, huser, hne, horg, horgne⟩
    exact ⟨{ userId := userId, orgId := some orgId }, by simp [principalFromPayload, huser, hne, horg, horgne]⟩

/-- The pending cookie is checked without an exception if it is ASCII where there is a nonce to check it
    against. -/
theorem exists_hasPendingCookie_iff (hrt : rt.Documented) {key : String}
    (hkey : oauthStateKey app.settings = .ok key) :
    (∃ b, hasPendingCookie rt app.settings r.toRequest payload = .ok b) ↔
      ∀ nonce cookie, Json.field? "nonce" payload = some (.str nonce) → nonce ≠ "" →
        r.pendingCookie = some cookie → IsAscii cookie := by
  rw [hasPendingCookie]
  cases hcookie : r.pendingCookie with
  | none => exact iff_of_true ⟨false, rfl⟩ fun _ _ _ _ h => by cases h
  | some cookie =>
    by_cases hempty : cookie = ""
    · subst hempty
      refine iff_of_true ⟨false, rfl⟩ fun _ cookie _ _ h => ?_
      cases h
      exact (by decide : "".toList.all (·.toNat < 128) = true)
    · have hsome : (some cookie).bind orNone = some cookie := orNone_eq_some.mpr ⟨rfl, hempty⟩
      simp only [hsome, verifyOauthPendingCookie]
      split
      next nonce hnonce =>
        by_cases hne : nonce = ""
        · simp [hnonce, hne]
        · simp [hnonce, hne, hkey, compareDigest_eq_ok, hrt.ascii]
      next hnonce =>
        refine iff_of_true ⟨false, rfl⟩ fun nonce _ h => ?_
        exact absurd h (hnonce nonce)

theorem hasPendingCookie_eq_true_iff (hrt : rt.Documented) {b : Bool}
    (h : hasPendingCookie rt app.settings r.toRequest payload = .ok b) :
    b = true ↔ CookieMatches rt app.settings r payload := by
  constructor
  · rintro rfl
    obtain ⟨nonce, key, hnonce, hkey, hcookie⟩ := hasPendingCookie_eq_true h
    refine ⟨nonce, key, ?_, hnonce, hkey, hcookie⟩
    rintro rfl
    have hsome : (some (rt.hmac key "")).bind orNone = some (rt.hmac key "") :=
      orNone_eq_some.mpr ⟨rfl, hrt.hmac_ne _ _⟩
    simp [hasPendingCookie, hcookie, hsome, verifyOauthPendingCookie, hnonce] at h
  · rintro ⟨nonce, key, hne, hnonce, hkey, hcookie⟩
    have hsome : (some (rt.hmac key nonce)).bind orNone = some (rt.hmac key nonce) :=
      orNone_eq_some.mpr ⟨rfl, hrt.hmac_ne _ _⟩
    simp only [hasPendingCookie, hcookie, hsome, verifyOauthPendingCookie, hnonce, if_neg hne, hkey,
      ok_bind, compareDigest_eq_ok] at h
    simpa using h.2.2

/-- Without a token to verify, the identity is looked for in the cookie and in the headers. -/
theorem resolve_of_noToken (h : NoToken rt app r) :
    resolveCallbackPrincipal rt app r payload = (do
      let pending ← (hasPendingCookie rt app.settings r.toRequest payload).mapError .uncaught
      if pending then (principalFromPayload payload).mapError .uncaught
      else if app.authenticator.isSome then .error (.http ⟨401, callbackAuthHint r.provider⟩)
      else if principalFromHeaders r.toRequest = Principal.anonymous then
        .error (.http ⟨401, callbackAuthHint r.provider⟩)
      else (principalFromState payload (principalFromHeaders r.toRequest)).mapError .uncaught) := by
  unfold resolveCallbackPrincipal
  rcases h with h | h
  · simp only [h]
    cases bearerToken rt.lowering r.toRequest <;> rfl
  · simp only [h]

theorem NoToken.absurd (h : NoToken rt app r) {auth : OidcAuthenticator} {token : String} {p : Prop}
    (hauth : app.authenticator = some auth) (htoken : bearerToken rt.lowering r.toRequest = some token) :
    p := by
  rcases h with h | h
  · rw [hauth] at h
    cases h
  · rw [htoken] at h
    cases h

theorem failsOnly_resolve_of_noToken (hrt : rt.Documented) {key : String}
    (hkey : oauthStateKey app.settings = .ok key) (hno : NoToken rt app r) :
    FailsOnly (IsRefusal rt r) (resolveCallbackPrincipal rt app r payload) ↔
      IdentityReadable rt app r payload := by
  have hrefused : IsRefusal rt r (.http ⟨401, callbackAuthHint r.provider⟩) := isRefusal_http (by simp)
  have hheaders : app.authenticator = none → principalFromHeaders r.toRequest ≠ Principal.anonymous →
      ((∃ bound, principalFromState payload (principalFromHeaders r.toRequest) = .ok bound) ↔
        NamesPrincipal payload (principalFromHeaders r.toRequest)) := by
    intro hnone hanon
    have hproven : Authenticated rt.lowering app.authenticator r.toRequest
      (principalFromHeaders r.toRequest) := .headers hnone hanon
    exact exists_principalFromState_iff (userId_of_authenticated hproven)
  rw [resolve_of_noToken hno]
  simp only [failsOnly_bind, failsOnly_ite, failsOnly_error, failsOnly_mapError, isRefusal_uncaught,
    failsOnly_false, mapError_eq_ok, exists_principalFromPayload_iff, exists_hasPendingCookie_iff hrt hkey]
  constructor
  · rintro ⟨hcookie, hfound⟩
    obtain ⟨pending, hpending⟩ := (exists_hasPendingCookie_iff hrt hkey).mpr hcookie
    have hmatches := hasPendingCookie_eq_true_iff hrt hpending
    obtain ⟨hpayload, hother⟩ := hfound pending hpending
    refine ⟨fun auth token _ hauth htoken => hno.absurd hauth htoken, fun _ => hcookie,
      fun _ h => hpayload (hmatches.mpr h), fun hnone hnot hanon => ?_⟩
    have hoff : ¬app.authenticator.isSome = true := by simp [hnone]
    exact (hheaders hnone hanon).mp (((hother (mt hmatches.mp hnot)).2 hoff).2 hanon)
  · intro hreadable
    refine ⟨hreadable.cookie hno, fun pending hpending => ?_⟩
    have hmatches := hasPendingCookie_eq_true_iff hrt hpending
    refine ⟨fun h => hreadable.pending hno (hmatches.mp h), fun hnot => ⟨fun _ => hrefused, fun hoff => ?_⟩⟩
    refine ⟨fun _ => hrefused, fun hanon => ?_⟩
    have hnone : app.authenticator = none := by simpa using hoff
    exact (hheaders hnone hanon).mpr (hreadable.headers hnone (mt hmatches.mpr hnot) hanon)

theorem failsOnly_resolve_of_token {auth : OidcAuthenticator} {token : String}
    (hauth : app.authenticator = some auth) (htoken : bearerToken rt.lowering r.toRequest = some token) :
    FailsOnly (IsRefusal rt r) (resolveCallbackPrincipal rt app r payload) ↔
      TokenReadable rt app r ∧ IdentityReadable rt app r payload := by
  have hno : ¬NoToken rt app r := fun h => h.absurd hauth htoken
  have hresolve : resolveCallbackPrincipal rt app r payload = (do
      let caller ← (auth.principalFromToken token).mapError fun e => .http (tokenError e)
      (principalFromState payload caller).mapError .uncaught) := by
    rw [resolveCallbackPrincipal, htoken, hauth]
  rw [hresolve]
  simp only [failsOnly_bind, failsOnly_mapError, failsOnly_principalFromToken, isRefusal_uncaught,
    failsOnly_false, mapError_eq_ok]
  constructor
  · rintro ⟨hlibrary, hcaller⟩
    refine ⟨fun auth' token' hauth' htoken' => ?_, fun auth' token' caller hauth' htoken' hcall => ?_,
      fun h => absurd h hno, fun h => absurd h hno, fun h => absurd (Or.inl h) hno⟩
    · cases hauth.symm.trans hauth'
      cases htoken.symm.trans htoken'
      exact hlibrary
    · cases hauth.symm.trans hauth'
      cases htoken.symm.trans htoken'
      exact (exists_principalFromState_iff (userId_of_principalFromToken hcall).1).mp (hcaller caller hcall)
  · rintro ⟨htokens, hreadable⟩
    refine ⟨htokens auth token hauth htoken, fun caller hcall => ?_⟩
    exact (exists_principalFromState_iff (userId_of_principalFromToken hcall).1).mpr
      (hreadable.token auth token caller hauth htoken hcall)

/-- Finding the principal of a GET callback ends with it or with a refusal, if the request is readable. -/
theorem failsOnly_resolve (hrt : rt.Documented) {key : String} (hkey : oauthStateKey app.settings = .ok key) :
    FailsOnly (IsRefusal rt r) (resolveCallbackPrincipal rt app r payload) ↔
      TokenReadable rt app r ∧ IdentityReadable rt app r payload := by
  by_cases hno : NoToken rt app r
  · have htoken : TokenReadable rt app r := fun auth token hauth htoken => hno.absurd hauth htoken
    rw [failsOnly_resolve_of_noToken hrt hkey hno, and_iff_right htoken]
  · obtain ⟨hauth, htoken⟩ := not_or.mp hno
    obtain ⟨auth, hauth⟩ := Option.ne_none_iff_exists'.mp hauth
    obtain ⟨token, htoken⟩ := Option.ne_none_iff_exists'.mp htoken
    exact failsOnly_resolve_of_token hauth htoken

end identity

/-! ### The callbacks -/

section callback
variable {rt : OAuthRuntime} {app : OAuthApp V} {now now' : ℤ} {r : CallbackRequest}

theorem failsOnly_requireVault : FailsOnly (IsRefusal rt r) app.requireVault := by
  rw [OAuthApp.requireVault]
  cases app.vault with
  | some vault => exact failsOnly_ok _
  | none => exact failsOnly_error.mpr (isRefusal_http (by simp))

theorem failsOnly_providerNamed : FailsOnly (IsRefusal rt r) (providerNamed rt.lowering r.provider) := by
  rw [providerNamed]
  cases hprovider : OAuthProvider.ofValue? (rt.lowering.lower r.provider) with
  | some provider => exact failsOnly_ok _
  | none => exact failsOnly_error.mpr ⟨_, rfl, Or.inr ⟨rfl, hprovider⟩⟩

theorem failsOnly_client {provider : OAuthProvider} : FailsOnly (IsRefusal rt r) (app.client provider) := by
  cases provider with
  | google =>
    rw [OAuthApp.client]
    cases app.googleClient with
    | some client => exact failsOnly_ok _
    | none => exact failsOnly_error.mpr (isRefusal_http (by simp))
  | slack =>
    rw [OAuthApp.client]
    cases app.slackClient with
    | some client => exact failsOnly_ok _
    | none => exact failsOnly_error.mpr (isRefusal_http (by simp))

/-- An exception that is caught by its type is answered as a bad request. -/
theorem isRefusal_badRequestOn {types : List String} {e : PyError} :
    IsRefusal rt r (badRequestOn types e) ↔ e.type ∈ types := by
  rw [badRequestOn]
  split
  next h => exact iff_of_true (isRefusal_http (by simp)) (by simpa using h)
  next h => exact iff_of_false (by simp) (by simpa using h)

theorem failsOnly_principalFromState {payload : Args} {caller : Principal} :
    FailsOnly IsStateError (principalFromState payload caller) := by
  simp only [principalFromState, failsOnly_ite, failsOnly_error, failsOnly_ok]
  exact ⟨fun _ => rfl, fun _ => ⟨fun _ => rfl, fun _ => ⟨fun _ => rfl, fun _ => trivial⟩⟩⟩

theorem failsOnly_requireBindingEmail {low : Lowering} {payload : Args} :
    FailsOnly (·.type = "OAuthBindingError") (requireBindingEmail low payload) := by
  unfold requireBindingEmail
  split
  next => exact failsOnly_ite.mpr ⟨fun _ => failsOnly_error.mpr rfl, fun _ => failsOnly_ok _⟩
  next => exact failsOnly_error.mpr rfl

/-- The second verification of a readable state is answered as a bad request, if it fails. -/
theorem failsOnly_verifiedBindingEmail (hrt : rt.Documented) (h : StateReadable rt app.settings r.state)
    (provider : OAuthProvider) (bound : Principal) :
    FailsOnly (IsRefusal rt r) ((verifiedBindingEmail rt app.settings now' provider r.state bound).mapError
      (badRequestOn ["OAuthStateError", "OAuthBindingError"])) := by
  have hstate : ∀ e : PyError, IsStateError e → e.type ∈ ["OAuthStateError", "OAuthBindingError"] := by
    intro e he
    rw [show e.type = _ from he]
    simp
  have hbinding : ∀ e : PyError, e.type = "OAuthBindingError" →
      e.type ∈ ["OAuthStateError", "OAuthBindingError"] := by
    intro e he
    simp [he]
  simp only [failsOnly_mapError, isRefusal_badRequestOn, verifiedBindingEmail, failsOnly_bind, failsOnly_ite,
    failsOnly_error]
  exact ⟨fun e he => hstate e ((failsOnly_consume hrt now').mpr h e he), fun payload _ =>
    ⟨fun _ => hstate _ rfl, fun _ => ⟨fun _ => hstate _ rfl, fun _ e he =>
      hbinding e (failsOnly_requireBindingEmail e he)⟩⟩⟩

theorem failsOnly_getRequestPrincipal :
    FailsOnly (fun e => IsRefusal rt r (.http e))
      (getRequestPrincipal rt.lowering app.authenticator r.toRequest) ↔ TokenReadable rt app r := by
  unfold getRequestPrincipal TokenReadable
  cases hauth : app.authenticator with
  | none => exact iff_of_true (failsOnly_ok _) fun _ _ h => by cases h
  | some auth =>
    cases htoken : bearerToken rt.lowering r.toRequest with
    | none => exact iff_of_true (failsOnly_error.mpr (isRefusal_http (by simp))) fun _ _ _ h => by cases h
    | some token =>
      simp only [failsOnly_mapError, failsOnly_principalFromToken, Option.some.injEq]
      exact ⟨fun h _ _ hauth htoken => by subst hauth htoken; exact h, fun h => h auth token rfl rfl⟩

theorem failsOnly_postBinding (hrt : rt.Documented) (h : StateReadable rt app.settings r.state) :
    FailsOnly (IsRefusal rt r) (postBinding rt app now r) ↔ TokenReadable rt app r := by
  simp only [postBinding, failsOnly_bind, failsOnly_mapError, failsOnly_getRequestPrincipal,
    failsOnly_requireVault, failsOnly_providerNamed, isRefusal_badRequestOn, List.mem_singleton,
    failsOnly_pure, true_and, implies_true, and_true]
  refine and_iff_left fun principal _ _ _ _ _ => ⟨(failsOnly_consume hrt now).mpr h, fun payload _ => ?_⟩
  exact failsOnly_principalFromState

theorem Carries.exists_key {payload : Args} (h : Carries rt app.settings r.state payload) :
    ∃ key, oauthStateKey app.settings = .ok key := by
  obtain ⟨_, key, hkey, -⟩ := h
  exact ⟨key, hkey⟩

theorem failsOnly_getBinding (hrt : rt.Documented) (h : StateReadable rt app.settings r.state) :
    FailsOnly (IsRefusal rt r) (getBinding rt app now r) ↔ RequestReadable rt app now r .get := by
  have hconsume : FailsOnly (fun e => e.type = "OAuthStateError")
      (consumeOauthState rt app.settings now r.state) := (failsOnly_consume hrt now).mpr h
  simp only [getBinding, failsOnly_bind, failsOnly_mapError, failsOnly_requireVault,
    failsOnly_providerNamed, isRefusal_badRequestOn, List.mem_singleton, hconsume, mapError_eq_ok,
    failsOnly_pure, true_and, implies_true, and_true, RequestReadable, consume_eq_ok_iff hrt]
  constructor
  · intro hfails vault provider payload hvault hprovider hcarries hexp
    obtain ⟨key, hkey⟩ := hcarries.exists_key
    refine (failsOnly_resolve hrt hkey).mp (hfails vault ?_ provider ?_ payload ⟨hcarries, hexp⟩)
    · rw [OAuthApp.requireVault, hvault]
    · rw [providerNamed, hprovider]
  · rintro hreadable vault hvault provider hprovider payload ⟨hcarries, hexp⟩
    obtain ⟨key, hkey⟩ := hcarries.exists_key
    exact (failsOnly_resolve hrt hkey).mpr (hreadable vault provider payload (requireVault_eq_ok hvault)
      (providerNamed_eq_ok hprovider) hcarries hexp)

theorem failsOnly_callbackBinding (hrt : rt.Documented) (h : StateReadable rt app.settings r.state)
    (method : CallbackMethod) :
    FailsOnly (IsRefusal rt r) (callbackBinding rt app now r method) ↔
      RequestReadable rt app now r method := by
  cases method with
  | get => exact failsOnly_getBinding hrt h
  | post => exact failsOnly_postBinding hrt h

/-- A failed check is how the callback ends, and nothing is stored. -/
theorem oauthCallback_of_check {method : CallbackMethod} {e : CallbackError} (v : V)
    (h : checksBeforeExchange rt app now now' r method = .error e) :
    oauthCallback rt app now now' r v method = (.error e, v) := by
  have hcomplete : oauthCallback rt app now now' r v method =
      completeOauthCallback rt app now' r (callbackBinding rt app now r method) v := by
    cases method <;> rfl
  have hchecked : checkedCallback rt app now' r (callbackBinding rt app now r method) = .error e := by
    rw [checksBeforeExchange] at h
    rw [checkedCallback]
    cases hbinding : callbackBinding rt app now r method with
    | error e' =>
      rw [hbinding] at h
      cases h
      rfl
    | ok b =>
      simp only [hbinding, ok_bind, callbackCredential] at h ⊢
      cases hemail : (verifiedBindingEmail rt app.settings now' b.provider r.state b.bound).mapError
          (badRequestOn ["OAuthStateError", "OAuthBindingError"]) with
      | error e' =>
        rw [hemail] at h
        cases h
        rfl
      | ok email =>
        cases hclient : app.client b.provider with
        | error e' =>
          simp only [hemail, hclient, ok_bind, error_bind] at h
          cases h
          rfl
        | ok client =>
          simp only [hemail, hclient, ok_bind] at h
          cases h
  rw [hcomplete, completeOauthCallback, hchecked]

/-- A callback refuses cleanly exactly if its state can be read, and what the request says of its caller does
    not raise past the handler. -/
theorem refusesCleanly_iff (rt : OAuthRuntime) (app : OAuthApp V) (now now' : ℤ) (r : CallbackRequest) (v : V)
    (method : CallbackMethod) (hrt : rt.Documented) :
    RefusesCleanly rt app now now' r v method ↔
      StateReadable rt app.settings r.state ∧ RequestReadable rt app now r method := by
  constructor
  · intro h
    have hstate : StateReadable rt app.settings r.state := by
      refine (failsOnly_consume hrt now).mp fun e he => ?_
      rcases h.consumes now with ⟨payload, hok, -⟩ | ⟨e', herror, hkind⟩
      · rw [hok] at he
        cases he
      · cases herror.symm.trans he
        exact hkind
    refine ⟨hstate, (failsOnly_callbackBinding hrt hstate method).mp fun e he => ?_⟩
    exact (h.refuses e (by rw [checksBeforeExchange, he, error_bind])).1
  · rintro ⟨hstate, hrequest⟩
    refine ⟨fun t => ?_, fun e he => ⟨?_, oauthCallback_of_check v he⟩⟩
    · cases hconsume : consumeOauthState rt app.settings t r.state with
      | ok payload => exact Or.inl ⟨payload, rfl, carries_of_consume hconsume⟩
      | error e => exact Or.inr ⟨e, rfl, (failsOnly_consume hrt t).mpr hstate e hconsume⟩
    · have hfails : FailsOnly (IsRefusal rt r) (checksBeforeExchange rt app now now' r method) := by
        simp only [checksBeforeExchange, failsOnly_bind, failsOnly_pure, implies_true, and_true]
        exact ⟨(failsOnly_callbackBinding hrt hstate method).mpr hrequest, fun b _ =>
          ⟨failsOnly_verifiedBindingEmail hrt hstate b.provider b.bound, fun _ _ => failsOnly_client⟩⟩
      exact hfails e he

end callback

/-! ### A cookie that comes back, and a signature that is not ASCII -/

/-- One hexadecimal digit for each character: of its code, the lowest four bits. -/
def hexDigest (key text : String) : String :=
  String.ofList ((key ++ ":" ++ text).toList.map fun c => Nat.digitChar (c.toNat % 16))

/-- The runtime of one payload, with digests in hexadecimal. -/
def hexRuntime : OAuthRuntime := { aliceRuntime with hmac := hexDigest }

theorem documented_hexRuntime : hexRuntime.Documented where
  hmac_hex := by
    intro key text c hc
    have hdigit : ∀ n < 16, Nat.digitChar n ∈ "0123456789abcdef".toList := by decide
    simp only [hexRuntime, hexDigest, String.toList_ofList] at hc
    obtain ⟨d, -, rfl⟩ := List.mem_map.mp hc
    exact hdigit _ (Nat.mod_lt _ (by decide))
  hmac_ne := by
    intro key text h
    have hlist := congrArg String.toList h
    simp [hexRuntime, hexDigest] at hlist
  loads_raises := by
    intro body e h
    cases h
  int_raises := by
    intro s e h
    cases h
    simp

/-- The browser that started the connect. -/
def returningRequest : CallbackRequest where
  provider := "google"
  code := "c"
  state := "p.ba0"
  pendingCookie := some "bae1"

theorem refusesCleanly_returning :
    RefusesCleanly hexRuntime aliceApp 0 1 returningRequest [] .get := by
  refine (refusesCleanly_iff hexRuntime aliceApp 0 1 returningRequest [] .get documented_hexRuntime).mpr
    ⟨⟨?_, ?_, ?_⟩, ?_⟩
  · intro body sig key hsplit _
    have hbody : returningRequest.state.rsplit? '.' = some (("p" : PyText), ("ba0" : PyText)) := by decide
    cases hbody.symm.trans hsplit
    exact ⟨"p", rfl⟩
  · intro body sig key hsplit _
    have hsig : returningRequest.state.rsplit? '.' = some (("p" : PyText), ("ba0" : PyText)) := by decide
    cases hsig.symm.trans hsplit
    decide
  · intro body key _ _
    exact ⟨_, 600, rfl, rfl⟩
  · rintro vault provider payload - - ⟨body, key, -, -, hloads⟩ -
    cases hloads
    refine ⟨fun _ _ h => (by cases h), ⟨fun _ _ _ h => (by cases h), fun _ nonce cookie _ _ hcookie => ?_,
      fun _ _ => ⟨"alice", "acme", rfl, by decide, rfl, by decide⟩, fun _ hno => ?_⟩⟩
    · cases hcookie
      decide
    · exact absurd ⟨"n1", "k", by decide, rfl, rfl, by decide⟩ hno

/-- A signature that is not ASCII raises a `TypeError` past the handler. -/
theorem not_refusesCleanly_nonAscii : ¬RefusesCleanly hexRuntime aliceApp 0 1
    { provider := "google", code := "c", state := "p.é" } [] .get := by
  intro h
  have hraises : consumeOauthState hexRuntime aliceApp.settings 0 (PyText.ofString "p.é") =
      .error ⟨"TypeError", "comparing strings with non-ASCII characters is not supported"⟩ := by rfl
  rcases h.consumes 0 with ⟨payload, hok, -⟩ | ⟨e, herror, hkind⟩
  · cases hraises.symm.trans hok
  · cases hraises.symm.trans herror
    exact absurd hkind (by simp [IsStateError])

end Atlas
