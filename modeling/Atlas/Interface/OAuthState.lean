import Atlas.Governance.Credentials
import Atlas.Interface.Security
import Atlas.Lib.PyText

/-! The signed state of an OAuth connect, and the pending cookie that goes with it. A state is a payload
    and its HMAC; consuming one checks the signature first and the expiry last. A state that comes in a JSON
    body can hold surrogates, which UTF-8 does not encode. HMAC, the decoding of the payload and `int` on a
    text come from the libraries. -/

namespace Atlas

open Text

/-- The library calls of the OAuth flow. -/
structure OAuthRuntime where
  lowering : Lowering
  /-- HMAC-SHA256 of a text under a key, in hexadecimal. -/
  hmac : String → String → String
  /-- `json.loads(urlsafe_b64decode(body))`. -/
  loads : String → Except PyError Json
  /-- `int(s)`. -/
  intOfText : String → Except PyError ℤ

structure OAuthSettings where
  oauthStateSecret : Option String := none
  oauthAllowInsecureState : Bool := false
  oauthSuccessUrl : Option String := none

/-- `OAuthStateError`. -/
def oauthStateError (message : String) : PyError := ⟨"OAuthStateError", message⟩

def INSECURE_DEV_STATE_KEY : String := "atlas-dev-oauth-state-insecure-flag-only"

/-- The HMAC key: the configured secret, or the development key where that is allowed. -/
def oauthStateKey (settings : OAuthSettings) : Except PyError String :=
  let secret := strip (settings.oauthStateSecret.getD "")
  if secret ≠ "" then .ok secret
  else if settings.oauthAllowInsecureState then .ok INSECURE_DEV_STATE_KEY
  else .error (oauthStateError "ATLAS_OAUTH_STATE_SECRET is not configured")

/-- `s.encode()`. -/
def encodeUtf8 (s : PyText) : Except PyError String :=
  match s.toString? with
  | some text => .ok text
  | none => .error ⟨"UnicodeEncodeError", "surrogates not allowed"⟩

/-- The code point is an ASCII character. -/
def isAsciiPoint : CodePoint → Bool
  | .char c => c.toNat < 128
  | .surrogate _ => false

/-- `hmac.compare_digest` on texts. -/
def compareDigest (a b : PyText) : Except PyError Bool :=
  if ¬(a.points.all isAsciiPoint ∧ b.points.all isAsciiPoint) then
    .error ⟨"TypeError", "comparing strings with non-ASCII characters is not supported"⟩
  else .ok (a = b)

/-- `int(v)`: a float is truncated. -/
def OAuthRuntime.int (rt : OAuthRuntime) : Json → Except PyError ℤ
  | .int n => .ok n
  | .bool b => .ok (if b then 1 else 0)
  | .float x =>
    let magnitude : ℕ := if 0 ≤ x.exponent then x.digits * 10 ^ x.exponent.toNat
      else x.digits / 10 ^ (-x.exponent).toNat
    .ok (if x.negative then -magnitude else magnitude)
  | .str s => rt.intOfText s
  | v => .error ⟨"TypeError", "int() argument must be a string, a bytes-like object or a real number, not '" ++
      v.typeName ++ "'"⟩

/-- The subclasses of `ValueError` that decoding a payload raises. -/
def isValueError (e : PyError) : Bool :=
  ["ValueError", "JSONDecodeError", "UnicodeDecodeError", "Error"].contains e.type

/-- The payload of a state body; `payload.get` needs a mapping. -/
def OAuthRuntime.payload (rt : OAuthRuntime) (body : String) : Except PyError Args :=
  match rt.loads body with
  | .ok (.obj payload) => .ok payload
  | .ok v => .error ⟨"AttributeError", "'" ++ v.typeName ++ "' object has no attribute 'get'"⟩
  | .error e => if isValueError e then .error (oauthStateError "invalid state payload") else .error e

/-- Verify a state at a time and return its payload. -/
def consumeOauthState (rt : OAuthRuntime) (settings : OAuthSettings) (now : ℤ) (state : PyText) :
    Except PyError Args :=
  match state.rsplit? '.' with
  | none => .error (oauthStateError "malformed state")
  | some (body, sig) => do
    let key ← oauthStateKey settings
    let body ← encodeUtf8 body
    let valid ← compareDigest (rt.hmac key body) sig
    if valid = false then .error (oauthStateError "invalid state signature")
    else
      let payload ← rt.payload body
      let exp ← rt.int ((Json.field? "exp" payload).getD (.int 0))
      if exp < now then .error (oauthStateError "expired state") else return payload

/-- `payload.get(key) == s` for a text or `None`. -/
def fieldIs (key : String) (s : Option String) (payload : Args) : Bool :=
  match (Json.field? key payload).getD .null, s with
  | .null, none => true
  | .str t, some s => t == s
  | _, _ => false

/-- The principal of a verified payload: the pending-cookie path. -/
def principalFromPayload (payload : Args) : Except PyError Principal :=
  match Json.field? "user_id" payload with
  | some (.str userId) =>
    if strip userId = "" then .error (oauthStateError "state missing user_id")
    else
      match Json.field? "org_id" payload with
      | some (.str orgId) =>
        if strip orgId = "" then .error (oauthStateError "org_id required")
        else .ok { userId := userId, orgId := some orgId }
      | _ => .error (oauthStateError "org_id required")
  | _ => .error (oauthStateError "state missing user_id")

/-- Bind the callback to the authenticated caller. -/
def principalFromState (payload : Args) (caller : Principal) : Except PyError Principal :=
  if caller = Principal.anonymous then .error (oauthStateError "authentication required")
  else if ¬(fieldIs "user_id" (some caller.userId) payload ∧ fieldIs "org_id" caller.orgId payload) then
    .error (oauthStateError "state principal mismatch")
  else if caller.orgId.getD "" = "" then .error (oauthStateError "org_id required")
  else .ok caller

/-- Does the pending cookie belong to the nonce of a verified payload? -/
def verifyOauthPendingCookie (rt : OAuthRuntime) (settings : OAuthSettings) (cookie : String)
    (payload : Args) : Except PyError Bool :=
  match Json.field? "nonce" payload with
  | some (.str nonce) =>
    if nonce = "" then .ok false
    else do
      let key ← oauthStateKey settings
      compareDigest (rt.hmac key nonce) cookie
  | _ => .ok false

/-! ### What a verified state says -/

/-- A state carries a payload under the HMAC of the configured key. -/
def Carries (rt : OAuthRuntime) (settings : OAuthSettings) (state : PyText) (payload : Args) : Prop :=
  ∃ body key, oauthStateKey settings = .ok key ∧ state = PyText.ofString (body ++ "." ++ rt.hmac key body) ∧
    rt.loads body = .ok (.obj payload)

/-- A payload has not expired at a time. -/
def Unexpired (rt : OAuthRuntime) (payload : Args) (now : ℤ) : Prop :=
  ∃ exp, rt.int ((Json.field? "exp" payload).getD (.int 0)) = .ok exp ∧ now ≤ exp

/-- The user and the organisation of a payload are those of the principal, neither of them empty. -/
def NamesPrincipal (payload : Args) (principal : Principal) : Prop :=
  principal.userId ≠ "" ∧ Json.field? "user_id" payload = some (.str principal.userId) ∧
    ∃ org, org ≠ "" ∧ principal.orgId = some org ∧ Json.field? "org_id" payload = some (.str org)

theorem dot_eq_singleton : "." = String.singleton '.' := by decide

theorem encodeUtf8_eq_ok {s : PyText} {text : String} : encodeUtf8 s = .ok text ↔ s = text := by
  rw [← PyText.toString?_eq_some, encodeUtf8]
  cases s.toString? <;> simp

theorem compareDigest_eq_true {a b : PyText} (h : compareDigest a b = .ok true) : a = b := by
  simpa using (Fallible.ite_error_eq_ok.mp h).2

theorem payload_eq_ok {rt : OAuthRuntime} {body : String} {payload : Args}
    (h : rt.payload body = .ok payload) : rt.loads body = .ok (.obj payload) := by
  unfold OAuthRuntime.payload at h
  split at h
  next heq => rw [heq]; cases h; rfl
  next => cases h
  next => split at h <;> cases h

/-- What an accepted state has gone through. -/
theorem consumeOauthState_eq_ok {rt : OAuthRuntime} {settings : OAuthSettings} {now : ℤ} {state : PyText}
    {payload : Args} (h : consumeOauthState rt settings now state = .ok payload) :
    ∃ body key, state.rsplit? '.' = some (PyText.ofString body, PyText.ofString (rt.hmac key body)) ∧
      oauthStateKey settings = .ok key ∧ rt.loads body = .ok (.obj payload) ∧ Unexpired rt payload now := by
  unfold consumeOauthState at h
  split at h
  next => cases h
  next body sig hsplit =>
    simp only [Fallible.bind_eq_ok, Fallible.ite_error_eq_ok, Fallible.pure_eq_ok] at h
    obtain ⟨key, hkey, text, htext, valid, hvalid, htrue, payload, hpayload, exp, hexp, hnow, rfl⟩ := h
    obtain rfl : valid = true := by simpa using htrue
    rw [← compareDigest_eq_true hvalid, encodeUtf8_eq_ok.mp htext] at hsplit
    exact ⟨text, key, hsplit, hkey, payload_eq_ok hpayload, exp, hexp, by omega⟩

theorem carries_of_consume {rt : OAuthRuntime} {settings : OAuthSettings} {now : ℤ} {state : PyText}
    {payload : Args} (h : consumeOauthState rt settings now state = .ok payload) :
    Carries rt settings state payload := by
  obtain ⟨body, key, hsplit, hkey, hload, -⟩ := consumeOauthState_eq_ok h
  refine ⟨body, key, hkey, ?_, hload⟩
  rw [dot_eq_singleton]
  exact PyText.append_of_rsplit? hsplit

/-- At any time, an accepted state has the same payload. -/
theorem payload_of_consume {rt : OAuthRuntime} {settings : OAuthSettings} {now now' : ℤ} {state : PyText}
    {payload payload' : Args} (h : consumeOauthState rt settings now state = .ok payload)
    (h' : consumeOauthState rt settings now' state = .ok payload') :
    payload' = payload ∧ Unexpired rt payload now ∧ Unexpired rt payload now' := by
  obtain ⟨body, key, hsplit, -, hload, hexp⟩ := consumeOauthState_eq_ok h
  obtain ⟨body', key', hsplit', -, hload', hexp'⟩ := consumeOauthState_eq_ok h'
  rw [hsplit, Option.some.injEq, Prod.mk.injEq, PyText.ofString_inj] at hsplit'
  obtain ⟨rfl, -⟩ := hsplit'
  rw [hload] at hload'
  cases hload'
  exact ⟨rfl, hexp, hexp'⟩

theorem fieldIs_eq_true {key : String} {s : String} {payload : Args}
    (h : fieldIs key (some s) payload = true) : Json.field? key payload = some (.str s) := by
  unfold fieldIs at h
  cases hfield : Json.field? key payload with
  | none => simp [hfield] at h
  | some v => cases v <;> simp_all

theorem ne_empty_of_strip {s : String} (h : strip s ≠ "") : s ≠ "" := by
  rintro rfl
  exact h rfl

theorem principalFromPayload_eq_ok {payload : Args} {principal : Principal}
    (h : principalFromPayload payload = .ok principal) : NamesPrincipal payload principal := by
  unfold principalFromPayload at h
  split at h
  next userId huser =>
    obtain ⟨hne, h⟩ := Fallible.ite_error_eq_ok.mp h
    split at h
    next orgId horg =>
      obtain ⟨horgne, h⟩ := Fallible.ite_error_eq_ok.mp h
      cases h
      exact ⟨ne_empty_of_strip hne, huser, orgId, ne_empty_of_strip horgne, rfl, horg⟩
    next => cases h
  next => cases h

theorem principalFromState_eq_ok {payload : Args} {caller principal : Principal}
    (h : principalFromState payload caller = .ok principal) :
    principal = caller ∧ caller ≠ Principal.anonymous ∧
      (caller.userId ≠ "" → NamesPrincipal payload caller) := by
  simp only [principalFromState, Fallible.ite_error_eq_ok, not_not] at h
  obtain ⟨hanon, ⟨huser, horg⟩, hne, h⟩ := h
  cases h
  refine ⟨rfl, hanon, fun huserNe => ⟨huserNe, fieldIs_eq_true huser, ?_⟩⟩
  cases ho : caller.orgId with
  | none => rw [ho] at hne; exact absurd rfl hne
  | some org =>
    rw [ho] at hne horg
    exact ⟨org, hne, rfl, fieldIs_eq_true horg⟩

theorem verifyOauthPendingCookie_eq_true {rt : OAuthRuntime} {settings : OAuthSettings} {cookie : String}
    {payload : Args} (h : verifyOauthPendingCookie rt settings cookie payload = .ok true) :
    ∃ nonce key, Json.field? "nonce" payload = some (.str nonce) ∧ oauthStateKey settings = .ok key ∧
      cookie = rt.hmac key nonce := by
  unfold verifyOauthPendingCookie at h
  split at h
  next nonce hnonce =>
    split at h
    next => cases h
    next =>
      obtain ⟨key, hkey, h⟩ := Fallible.bind_eq_ok.mp h
      exact ⟨nonce, key, hnonce, hkey, (PyText.ofString_inj.mp (compareDigest_eq_true h)).symm⟩
  next => cases h

end Atlas
