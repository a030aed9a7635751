import Atlas.Integrations.RefreshRuns
import Atlas.Interface.OAuthRoundTrip

/-! Runs of the OAuth protocol: connects, callbacks, revokes and refreshes of all users, in any order. Anyone
    may send anything but an HMAC that nobody was given. A credential in the vault then goes back to one
    connect and one callback that fit together, and has been refreshed since at most (`credentials_earned`).
    A refresh reads the vault, asks the provider and writes: a revoke in between is overtaken. -/

namespace Atlas

open LabelledRun Text

variable {C V : Type}

/-! ### The protocol -/

/-- A refresh that has read the vault and not yet written it. -/
structure PendingRefresh where
  principal : Principal
  provider : OAuthProvider
  call : ResolverCall
  stored : StoredCredential

/-- The vault, the answered connects, and the refreshes under way. -/
structure OAuthWorld (C V : Type) where
  vault : V
  connects : List (Connect C) := []
  refreshes : List PendingRefresh := []

/-- The requests, with the browser they come from, and the two halves of a refresh. -/
inductive OAuthStep (C : Type) where
  | connect (client : C) (now : ℤ) (bytes : Fin 16 → UInt8) (r : ProviderRequest)
  | callback (client : C) (method : CallbackMethod) (now now' : ℤ) (r : CallbackRequest)
  | revoke (r : ProviderRequest)
  | lookup (principal : Principal) (provider : OAuthProvider) (call : ResolverCall)
  | store (j : ℕ)

/-- `get_access_token` up to its refresh: the stored token, or the credential that is to be refreshed. -/
def beginAccess (vault : CredentialVault V) (now : DateTime) (principal : Principal) (provider : OAuthProvider)
    (required : List String) (v : V) : Except PyError (String ⊕ StoredCredential) × V :=
  match vault.get principal provider v with
  | (.error e, v) => (.error e, v)
  | (.ok none, v) => (.error (notConnected provider), v)
  | (.ok (some stored), v) =>
    let missing := required.filter (· ∉ stored.scopes)
    if missing ≠ [] then (.error (missingScopes provider missing), v)
    else if needsRefresh now stored then (.ok (.inr stored), v)
    else (.ok (.inl stored.accessToken), v)

/-- With nothing in between, the two halves are a call. -/
theorem getAccessToken_eq (vault : CredentialVault V) (refreshers : Refreshers) (now : DateTime)
    (principal : Principal) (provider : OAuthProvider) (required : List String) (v : V) :
    getAccessToken vault refreshers now principal provider required v =
      match beginAccess vault now principal provider required v with
      | (.error e, v) => (.error e, v)
      | (.ok (.inl token), v) => (.ok token, v)
      | (.ok (.inr stored), v) =>
        ((refresh vault refreshers principal provider stored v).1.map (·.accessToken),
          (refresh vault refreshers principal provider stored v).2) := by
  unfold getAccessToken beginAccess
  rcases vault.get principal provider v with ⟨_ | _ | stored, v'⟩
  · rfl
  · rfl
  · simp only
    split
    next => rfl
    next =>
      split
      next =>
        simp only
        rcases refresh vault refreshers principal provider stored v' with ⟨_ | _, _⟩ <;> rfl
      next => rfl

section step
variable (rt : OAuthRuntime) (app : ConnectApp V) (vault : CredentialVault V)

/-- One step. A request that is refused changes nothing; a refresh writes once. -/
def oauthStep (s : OAuthWorld C V) : OAuthStep C → Option (OAuthWorld C V)
  | .connect client now bytes r =>
    match oauthConnect rt app now bytes r, connectBinding rt app r with
    | .ok _, .ok (principal, provider, email) =>
      some { s with connects := s.connects ++ [⟨client, now, bytes, r, principal, provider, email⟩] }
    | _, _ => some s
  | .callback _ method now now' r =>
    some { s with vault := (oauthCallback rt app.toOAuthApp now now' r s.vault method).2 }
  | .revoke r => some { s with vault := (oauthRevoke rt app.toOAuthApp r s.vault).2 }
  | .lookup principal provider call =>
    match beginAccess vault call.now principal provider call.required s.vault with
    | (.ok (.inr stored), v) =>
      some { s with vault := v, refreshes := s.refreshes ++ [⟨principal, provider, call, stored⟩] }
    | (_, v) => some { s with vault := v }
  | .store j =>
    (s.refreshes[j]?).map fun x => { s with
      vault := (refresh vault (x.call.refreshers rt) x.principal x.provider x.stored s.vault).2
      refreshes := s.refreshes.eraseIdx j }

/-- A connect that is answered is kept. -/
theorem Answered.step {rt : OAuthRuntime} {app : ConnectApp V} {i : Connect C} {response : ConnectResponse}
    (h : Answered rt app i response) (vault : CredentialVault V) (s : OAuthWorld C V) :
    oauthStep rt app vault s (.connect i.client i.now i.bytes i.request) =
      some { s with connects := s.connects ++ [i] } := by
  simp only [oauthStep, h.response, h.binding]

end step

/-! ### What is taken for granted -/

section assumptions
variable (rt : OAuthRuntime) (app : ConnectApp V) (ids : Set (Option String × String))

/-- The texts signed for some connects: the bodies of their states, and their nonces. -/
def signedTexts (connects : List (Connect C)) : List String :=
  connects.flatMap fun i => [(i.payload rt).body, i.nonce]

/-- A callback has no HMAC that was not given out. No two texts signed so far have one HMAC; where the state
    ends with the HMAC of what is before it, that text was signed; and a cookie that is the HMAC of a signed
    text is that of a state, or of a nonce of the callback's own browser. -/
structure Unforged (connects : List (Connect C)) (client : C) (r : CallbackRequest) (key : String) :
    Prop where
  apart : ∀ a ∈ signedTexts rt connects, ∀ b ∈ signedTexts rt connects, rt.hmac key a = rt.hmac key b → a = b
  state : ∀ body, r.state = PyText.ofString (body ++ "." ++ rt.hmac key body) → body ∈ signedTexts rt connects
  cookie : ∀ text ∈ signedTexts rt connects, r.pendingCookie = some (rt.hmac key text) →
    ∃ i ∈ connects, r.pendingCookie = some (rt.hmac key (i.payload rt).body) ∨
      r.pendingCookie = some (rt.hmac key i.nonce) ∧ i.client = client

/-- What a step may be: a connect draws a new nonce and its state can be read back, a callback forges
    nothing, and the users have identities of the set. -/
def Assumed (s : OAuthWorld C V) : OAuthStep C → Prop
  | .connect _ now bytes r => (∀ i ∈ s.connects, i.nonce ≠ tokenUrlsafe bytes) ∧
    ∀ principal provider email, connectBinding rt app r = .ok (principal, provider, email) →
      let payload := connectPayload rt.lowering principal provider email now bytes
      principal.identity ∈ ids ∧ rt.loads payload.body = .ok (.obj payload.fields)
  | .callback client _ _ _ r => ∀ key, oauthStateKey app.settings = .ok key →
    Unforged rt s.connects client r key
  | .revoke r => ∀ b, revokeBinding rt app.toOAuthApp r = .ok b → b.bound.identity ∈ ids
  | .lookup principal _ _ => principal.identity ∈ ids
  | .store _ => True

end assumptions

/-! ### What a credential goes back to -/

section earned
variable (rt : OAuthRuntime) (app : ConnectApp V)

/-- A callback brings the credential of the connect `i`: the caller of the connect has proven who it is, the
    callback comes within ten minutes, from that caller or with the cookie the connect set in the same
    browser, and the code is for the account with the caller's email. -/
structure Delivers (before : List (OAuthStep C)) (client : C) (method : CallbackMethod) (now now' : ℤ)
    (r : CallbackRequest) (i : Connect C) (credential : StoredCredential) : Prop where
  started : .connect i.client i.now i.bytes i.request ∈ before ∧
    connectBinding rt app i.request = .ok (i.principal, i.provider, i.email) ∧
    Authenticated rt.lowering app.authenticator i.request.toRequest i.principal
  prompt : now ≤ i.now + STATE_TTL_SECONDS ∧ now' ≤ i.now + STATE_TTL_SECONDS
  proof : (∃ caller, Authenticated rt.lowering app.authenticator r.toRequest caller ∧
      caller.identity = i.principal.identity) ∨
    method = .get ∧ client = i.client ∧ ∃ response,
      oauthConnect rt app i.now i.bytes i.request = .ok response ∧ r.pendingCookie = some response.cookie
  account : ∃ oauthClient exchange metadata, app.client i.provider = .ok oauthClient ∧
    oauthClient.exchangeCode r.code = .ok exchange ∧
    providerEmail rt.lowering app.apis i.provider oauthClient exchange = .ok (i.email, metadata) ∧
    credential = exchange.credential.withMetadata metadata

/-- The step revokes the provider's credential of the identity. -/
def Revokes (identity : Option String × String) (provider : OAuthProvider) : OAuthStep C → Prop
  | .revoke r => ∃ b, revokeBinding rt app.toOAuthApp r = .ok b ∧ b.bound.identity = identity ∧
    b.provider = provider
  | _ => False

/-- Where a credential comes from after some steps. A callback brings it; a refresh replaces one by what
    the provider answers; and what is not revoked stays. What happens while a refresh is under way, revokes
    included, does not concern the refresh. -/
inductive Earned : List (OAuthStep C) → Option String × String → OAuthProvider → StoredCredential → Prop
  | delivered {before client method now now' r i credential stored} :
      Delivers rt app before client method now now' r i credential →
      GivenBack i.provider credential stored →
      Earned (before ++ [.callback client method now now' r]) i.principal.identity i.provider stored
  | refreshed {before principal provider call during j stored answered stored'} :
      Earned before principal.identity provider stored →
      (call.refreshers rt).answer provider stored = .ok answered →
      GivenBack provider (keepScopes stored answered) stored' →
      Earned (before ++ .lookup principal provider call :: during ++ [.store j]) principal.identity provider
        stored'
  | kept {before identity provider stored step} : Earned before identity provider stored →
      ¬Revokes rt app identity provider step → Earned (before ++ [step]) identity provider stored

end earned

/-! ### One step -/

section steps
variable {rt : OAuthRuntime} {app : ConnectApp V} {ids : Set (Option String × String)}
  {vault : KeyedVault ids V}

/-- What is known of an answered connect. -/
structure Connected (rt : OAuthRuntime) (app : ConnectApp V) (ids : Set (Option String × String))
    (done : List (OAuthStep C)) (i : Connect C) : Prop where
  user : i.principal.identity ∈ ids
  mem : .connect i.client i.now i.bytes i.request ∈ done
  answered : ∃ response, Answered rt app i response

/-- A callback that stores has proven its binding, by the cookie only with GET. -/
theorem storesProven_callback (now now' : ℤ) (r : CallbackRequest) (v : V) (method : CallbackMethod) :
    StoresProven rt app.toOAuthApp now now' (method = .get) r v
      (oauthCallback rt app.toOAuthApp now now' r v method).2 := by
  cases method with
  | get =>
    refine storesProven_of_complete fun b hb => ?_
    obtain ⟨payload, hvault, hnamed, hconsume, hnames, hproof⟩ := getBinding_eq_ok hb
    exact ⟨payload, hvault, hnamed, hconsume, hnames, hproof.imp_right fun h => ⟨rfl, h.2⟩⟩
  | post =>
    refine storesProven_of_complete fun b hb => ?_
    obtain ⟨payload, hvault, hnamed, hconsume, hnames, hproof⟩ := postBinding_eq_ok hb
    exact ⟨payload, hvault, hnamed, hconsume, hnames, hproof.imp_right fun h => h.1.elim⟩

theorem mem_signedTexts {connects : List (Connect C)} {text : String} :
    text ∈ signedTexts rt connects ↔ ∃ i ∈ connects, text = (i.payload rt).body ∨ text = i.nonce := by
  simp [signedTexts]

/-- A proven binding that forges nothing is the one of an answered connect. -/
theorem delivers_of_proven (hrt : rt.Documented) (hpadding : rt.RefusesUnpadded)
    {done : List (OAuthStep C)} {connects : List (Connect C)}
    (hconnects : ∀ i ∈ connects, Connected rt app ids done i) (hnonces : (connects.map Connect.nonce).Nodup)
    {client : C} {method : CallbackMethod} {now now' : ℤ} {r : CallbackRequest}
    (hunforged : ∀ key, oauthStateKey app.settings = .ok key → Unforged rt connects client r key)
    {provider : OAuthProvider} {bound : Principal} {credential : StoredCredential} {payload : Args}
    (h : ProvenBinding rt app.toOAuthApp now now' (method = .get) r provider bound credential payload) :
    ∃ i ∈ connects, bound.identity = i.principal.identity ∧ provider = i.provider ∧
      Delivers rt app done client method now now' r i credential := by
  obtain ⟨body, key, hkey, hstate, hloads⟩ := h.state
  have hgiven := hunforged key hkey
  obtain ⟨i, hi, hbody⟩ := mem_signedTexts.mp (hgiven.state body hstate)
  obtain ⟨response, hknown⟩ := (hconnects i hi).answered
  -- what is signed as a nonce is not read as a state
  replace hbody : body = (i.payload rt).body := hbody.resolve_right fun hnonce =>
    not_reads_nonce hpadding i _ (hnonce ▸ hloads)
  obtain rfl : payload = (i.payload rt).fields := by
    rw [hbody, hknown.reads] at hloads
    exact (Json.obj.inj (Except.ok.inj hloads)).symm
  have hprovider : provider = i.provider := by
    have hnamed := h.named.2
    rw [StatePayload.field_provider, Option.some.injEq, Json.str.injEq] at hnamed
    exact (OAuthProvider.value_injective hnamed).symm
  have hidentity : bound.identity = i.principal.identity := by
    obtain ⟨-, huser, org, -, horg, hfield⟩ := h.principal
    rw [StatePayload.field_userId, Option.some.injEq, Json.str.injEq] at huser
    rw [StatePayload.field_orgId, Option.some.injEq] at hfield
    have horg' : i.principal.orgId = some org := by
      cases hcase : i.principal.orgId with
      | none => simp [Connect.payload, connectPayload, hcase] at hfield
      | some org' => simpa [Connect.payload, connectPayload, hcase] using hfield
    rw [Principal.identity, Principal.identity, horg, horg', ← huser]
    rfl
  have hprompt : ∀ t, Unexpired rt (i.payload rt).fields t → t ≤ i.now + STATE_TTL_SECONDS := by
    rintro t ⟨exp, hexp, hle⟩
    rw [StatePayload.field_exp, Option.getD_some, OAuthRuntime.int, Except.ok.injEq] at hexp
    exact hle.trans hexp.ge
  obtain ⟨hauthenticated, -, -, hresolved⟩ := connectBinding_eq_ok hknown.binding
  refine ⟨i, hi, hidentity, hprovider, ⟨(hconnects i hi).mem, hknown.binding, hauthenticated⟩,
    ⟨hprompt now h.unexpired.1, hprompt now' h.unexpired.2⟩, ?_, ?_⟩
  · refine h.proof.imp (fun hcaller => ⟨bound, hcaller, hidentity⟩) ?_
    rintro ⟨hget, nonce, key', hnonce, hkey', hcookie⟩
    rw [hkey, Except.ok.injEq] at hkey'
    subst hkey'
    rw [StatePayload.field_nonce, Option.some.injEq, Json.str.injEq] at hnonce
    subst hnonce
    refine ⟨hget, ?_, response, hknown.response, ?_⟩
    · have hsigned : i.nonce ∈ signedTexts rt connects := mem_signedTexts.mpr ⟨i, hi, Or.inr rfl⟩
      have hsame : ∀ text ∈ signedTexts rt connects, r.pendingCookie = some (rt.hmac key text) →
          i.nonce = text := by
        intro text htext hcookie'
        exact hgiven.apart _ hsigned _ htext (Option.some.inj (hcookie.symm.trans hcookie'))
      obtain ⟨j, hj, hbody' | ⟨hnonce, rfl⟩⟩ := hgiven.cookie _ hsigned hcookie
      · obtain ⟨_, hother⟩ := (hconnects j hj).answered
        have hreads := hother.reads
        rw [← hsame _ (mem_signedTexts.mpr ⟨j, hj, Or.inl rfl⟩) hbody'] at hreads
        exact absurd hreads (not_reads_nonce hpadding i _)
      · have hown := hsame _ (mem_signedTexts.mpr ⟨j, hj, Or.inr rfl⟩) hnonce
        rw [List.inj_on_of_nodup_map hnonces hi hj hown]
    · rw [hknown.cookie hrt hkey]
      exact hcookie
  · obtain ⟨raw, oauthClient, exchange, metadata, hraw, hclient, hexchange, hemail, hcredential⟩ := h.email
    rw [StatePayload.field_bindingEmail, Option.some.injEq, Json.str.injEq] at hraw
    subst hraw
    subst hprovider
    refine ⟨oauthClient, exchange, metadata, hclient, hexchange, ?_, hcredential⟩
    have hnormal : normalizeEmail rt.lowering (i.payload rt).bindingEmail = i.email := by
      change normalizeEmail rt.lowering (normalizeEmail rt.lowering i.email) = i.email
      rw [normalizeEmail_normalizeEmail, normalizeEmail_of_resolve hresolved]
    rw [← hnormal]
    exact hemail

/-- Reading the vault for a refresh writes nothing, and what it hands over is held. -/
theorem beginAccess_cases (vault : LawfulVault V) (now : DateTime) (principal : Principal)
    (provider : OAuthProvider) (required : List String) (v : V) :
    (beginAccess vault.toCredentialVault now principal provider required v).2 = v ∧
      ∀ stored, (beginAccess vault.toCredentialVault now principal provider required v).1 = .ok (.inr stored) →
        (vault.get principal provider v).1 = .ok (some stored) := by
  have hstore := vault.get_store principal provider v
  rcases hget : vault.get principal provider v with ⟨_ | _ | held, v'⟩ <;> rw [hget] at hstore <;>
    subst hstore
  · simp [beginAccess, hget]
  · simp [beginAccess, hget]
  · simp only [beginAccess, hget]
    split
    next => exact ⟨rfl, nofun⟩
    next =>
      split
      next =>
        refine ⟨rfl, fun stored h => ?_⟩
        cases h
        rfl
      next => exact ⟨rfl, nofun⟩

/-- What holds after some steps of a run. -/
structure OAuthInv (rt : OAuthRuntime) (app : ConnectApp V) (vault : KeyedVault ids V)
    (done : List (OAuthStep C)) (s : OAuthWorld C V) : Prop where
  held : ∀ (p : Principal) provider c, p.identity ∈ ids → (vault.get p provider s.vault).1 = .ok (some c) →
    Earned rt app done p.identity provider c
  connects : ∀ i ∈ s.connects, Connected rt app ids done i
  nonces : (s.connects.map Connect.nonce).Nodup
  refreshes : ∀ x ∈ s.refreshes, x.principal.identity ∈ ids ∧ ∃ before during,
    done = before ++ .lookup x.principal x.provider x.call :: during ∧
      Earned rt app before x.principal.identity x.provider x.stored

theorem Connected.mono {done : List (OAuthStep C)} {i : Connect C} (h : Connected rt app ids done i)
    (step : OAuthStep C) : Connected rt app ids (done ++ [step]) i :=
  { h with mem := List.mem_append_left _ h.mem }

/-- A refresh under way stays so. -/
theorem pending_mono {done : List (OAuthStep C)} {x : PendingRefresh} (step : OAuthStep C)
    (h : ∃ before during, done = before ++ .lookup x.principal x.provider x.call :: during ∧
      Earned rt app before x.principal.identity x.provider x.stored) :
    ∃ before during, done ++ [step] = before ++ .lookup x.principal x.provider x.call :: during ∧
      Earned rt app before x.principal.identity x.provider x.stored := by
  obtain ⟨before, during, rfl, hearned⟩ := h
  exact ⟨before, during ++ [step], by simp, hearned⟩

/-- A step after which the vault holds nothing new. -/
theorem OAuthInv.keep {done : List (OAuthStep C)} {s : OAuthWorld C V} (h : OAuthInv rt app vault done s)
    (step : OAuthStep C) {v : V} (hheld : ∀ (p : Principal) provider c, p.identity ∈ ids →
      (vault.get p provider v).1 = .ok (some c) →
      Earned rt app (done ++ [step]) p.identity provider c) :
    OAuthInv rt app vault (done ++ [step]) { s with vault := v } where
  held := hheld
  connects i hi := (h.connects i hi).mono step
  nonces := h.nonces
  refreshes x hx := ⟨(h.refreshes x hx).1, pending_mono step (h.refreshes x hx).2⟩

/-- What is held stays earned by every step but a revoke. -/
theorem OAuthInv.kept {done : List (OAuthStep C)} {s : OAuthWorld C V} (h : OAuthInv rt app vault done s)
    {step : OAuthStep C} (hno : ∀ r, step ≠ .revoke r) (p : Principal) (provider : OAuthProvider)
    (c : StoredCredential) (hp : p.identity ∈ ids) (hget : (vault.get p provider s.vault).1 = .ok (some c)) :
    Earned rt app (done ++ [step]) p.identity provider c := by
  refine .kept (h.held p provider c hp hget) fun hrevokes => ?_
  cases step with
  | revoke r => exact hno r rfl
  | connect | callback | lookup | store => exact hrevokes

section one
variable {done : List (OAuthStep C)} {s t : OAuthWorld C V}

theorem OAuthInv.connect (h : OAuthInv rt app vault done s) {client : C} {now : ℤ} {bytes : Fin 16 → UInt8}
    {r : ProviderRequest} (hok : Assumed rt app ids s (.connect client now bytes r))
    (hstep : oauthStep rt app vault.toCredentialVault s (.connect client now bytes r) = some t) :
    OAuthInv rt app vault (done ++ [.connect client now bytes r]) t := by
  obtain ⟨hfresh, hreads⟩ := hok
  have hsame := h.keep (.connect client now bytes r) (h.kept (by simp))
  simp only [oauthStep] at hstep
  split at hstep
  next response principal provider email hresponse hbinding =>
    cases hstep
    obtain ⟨huser, hloads⟩ := hreads principal provider email hbinding
    refine ⟨hsame.held, fun i hi => ?_, ?_, hsame.refreshes⟩
    · rcases List.mem_append.mp hi with hi | hi
      · exact hsame.connects i hi
      · rw [List.mem_singleton.mp hi]
        exact ⟨huser, List.mem_append_right _ (List.mem_singleton_self _), response, hbinding, hresponse,
          hloads⟩
    · rw [List.map_append, List.map_singleton]
      refine List.nodup_append.mpr ⟨h.nonces, List.nodup_singleton _, ?_⟩
      intro nonce hnonce nonce' hnonce'
      obtain ⟨i, hi, rfl⟩ := List.mem_map.mp hnonce
      rw [List.mem_singleton.mp hnonce']
      exact hfresh i hi
  next =>
    cases hstep
    exact hsame

theorem OAuthInv.callback (hrt : rt.Documented) (hpadding : rt.RefusesUnpadded)
    (happ : app.vault = some vault.toCredentialVault) (h : OAuthInv rt app vault done s) {client : C}
    (method : CallbackMethod) (now now' : ℤ) {r : CallbackRequest}
    (hok : ∀ key, oauthStateKey app.settings = .ok key → Unforged rt s.connects client r key) :
    OAuthInv rt app vault (done ++ [.callback client method now now' r])
      { s with vault := (oauthCallback rt app.toOAuthApp now now' r s.vault method).2 } := by
  refine h.keep _ fun p provider c hp hget => ?_
  rcases storesProven_callback now now' r s.vault method with hsame | hput
  · rw [hsame] at hget
    exact h.kept (by simp) p provider c hp hget
  · obtain ⟨_, named, bound, credential, payload, hvault, hafter, hproven⟩ := hput
    rw [happ, Option.some.injEq] at hvault
    subst hvault
    rw [hafter] at hget
    obtain ⟨i, hi, hidentity, rfl, hdelivers⟩ :=
      delivers_of_proven hrt hpadding h.connects h.nonces hok hproven
    rcases held_put vault (hidentity ▸ (h.connects i hi).user) hp hget with ⟨hsame, rfl, hback⟩ | hold
    · rw [hsame, hidentity]
      exact .delivered hdelivers hback
    · exact h.kept (by simp) p provider c hp hold

/-- A revoke that is let through deletes from the vault of the app. -/
theorem oauthRevoke_of_ok (happ : app.vault = some vault.toCredentialVault) {r : ProviderRequest}
    {b : Binding V} (hbinding : revokeBinding rt app.toOAuthApp r = .ok b) (v : V) :
    (oauthRevoke rt app.toOAuthApp r v).2 = (vault.delete b.bound b.provider v).2 := by
  have hvault : b.vault = vault.toCredentialVault := by
    simp only [revokeBinding, Fallible.bind_eq_ok, Fallible.pure_eq_ok] at hbinding
    obtain ⟨_, -, found, hfound, _, -, rfl⟩ := hbinding
    rw [requireVault_eq_ok hfound, Option.some.injEq] at happ
    exact happ
  rw [oauthRevoke, hbinding, ← hvault]
  simp only
  split <;> next heq => rw [heq]

theorem OAuthInv.revoke (happ : app.vault = some vault.toCredentialVault) (h : OAuthInv rt app vault done s)
    {r : ProviderRequest} (hok : Assumed rt app ids s (.revoke r)) :
    OAuthInv rt app vault (done ++ [.revoke r])
      { s with vault := (oauthRevoke rt app.toOAuthApp r s.vault).2 } := by
  refine h.keep _ fun p provider c hp hget => ?_
  cases hbinding : revokeBinding rt app.toOAuthApp r with
  | error e =>
    rw [oauthRevoke, hbinding] at hget
    refine .kept (h.held p provider c hp hget) ?_
    rintro ⟨b, hb, -⟩
    rw [hbinding] at hb
    cases hb
  | ok b =>
    rw [oauthRevoke_of_ok happ hbinding] at hget
    obtain ⟨hold, hother⟩ := held_delete vault (hok b hbinding) hp hget
    refine .kept (h.held p provider c hp hold) ?_
    rintro ⟨b', hb', hidentity, hprovider⟩
    rw [hbinding, Except.ok.injEq] at hb'
    subst hb'
    exact hother (by rw [hidentity, hprovider])

theorem OAuthInv.lookup (h : OAuthInv rt app vault done s) {principal : Principal} (provider : OAuthProvider)
    (call : ResolverCall) (hok : principal.identity ∈ ids)
    (hstep : oauthStep rt app vault.toCredentialVault s (.lookup principal provider call) = some t) :
    OAuthInv rt app vault (done ++ [.lookup principal provider call]) t := by
  obtain ⟨hsame, hfound⟩ :=
    beginAccess_cases vault.toLawfulVault call.now principal provider call.required s.vault
  have hkeep := h.keep (.lookup principal provider call) (h.kept (by simp))
  simp only [oauthStep] at hstep
  split at hstep
  next stored v hbegin =>
    cases hstep
    rw [hbegin] at hsame hfound
    obtain rfl : v = s.vault := hsame
    refine ⟨hkeep.held, hkeep.connects, hkeep.nonces, fun x hx => ?_⟩
    rcases List.mem_append.mp hx with hx | hx
    · exact hkeep.refreshes x hx
    · rw [List.mem_singleton.mp hx]
      exact ⟨hok, done, [], rfl, h.held principal provider stored hok (hfound stored rfl)⟩
  next _ v _ hbegin =>
    cases hstep
    rw [hbegin] at hsame
    obtain rfl : v = s.vault := hsame
    exact hkeep

theorem OAuthInv.store (h : OAuthInv rt app vault done s) {j : ℕ}
    (hstep : oauthStep rt app vault.toCredentialVault s (.store j) = some t) :
    OAuthInv rt app vault (done ++ [.store j]) t := by
  simp only [oauthStep, Option.map_eq_some_iff] at hstep
  obtain ⟨x, hx, rfl⟩ := hstep
  obtain ⟨huser, before, during, hdone, hearned⟩ := h.refreshes x (List.mem_of_getElem? hx)
  have hheld : ∀ (p : Principal) provider c, p.identity ∈ ids →
      (vault.get p provider (refresh vault.toCredentialVault (x.call.refreshers rt) x.principal x.provider
        x.stored s.vault).2).1 = .ok (some c) →
      Earned rt app (done ++ [.store j]) p.identity provider c := by
    intro p provider c hp hget
    rcases refresh_cases vault.toLawfulVault (x.call.refreshers rt) x.principal x.provider x.stored s.vault with
      ⟨e, hrefresh, -⟩ | ⟨answered, hanswer, -, hrefresh⟩
    · rw [hrefresh] at hget
      exact h.kept (by simp) p provider c hp hget
    · rw [hrefresh] at hget
      rcases held_put vault huser hp hget with ⟨hsame, rfl, hback⟩ | hold
      · rw [hsame, hdone]
        exact .refreshed hearned hanswer hback
      · exact h.kept (by simp) p provider c hp hold
  have hkeep := h.keep (.store j) hheld
  exact ⟨hkeep.held, hkeep.connects, hkeep.nonces,
    fun y hy => hkeep.refreshes y (List.mem_of_mem_eraseIdx hy)⟩

end one

theorem oauthInv_step (hrt : rt.Documented) (hpadding : rt.RefusesUnpadded)
    (happ : app.vault = some vault.toCredentialVault) (done : List (OAuthStep C)) (s : OAuthWorld C V)
    (step : OAuthStep C) (t : OAuthWorld C V) (h : OAuthInv rt app vault done s)
    (hok : Assumed rt app ids s step)
    (hstep : oauthStep rt app vault.toCredentialVault s step = some t) :
    OAuthInv rt app vault (done ++ [step]) t := by
  cases step with
  | connect client now bytes r => exact h.connect hok hstep
  | callback client method now now' r =>
    cases hstep
    exact h.callback hrt hpadding happ method now now' hok
  | revoke r =>
    cases hstep
    exact h.revoke happ hok
  | lookup principal provider call => exact h.lookup provider call hok hstep
  | store j => exact h.store hstep

/-! ### Whole runs -/

/-- The invariant along a run that starts with an empty vault. -/
theorem oauthInv_of_run (hrt : rt.Documented) (hpadding : rt.RefusesUnpadded)
    (happ : app.vault = some vault.toCredentialVault) {v : V}
    (hempty : ∀ (p : Principal) provider c, (vault.get p provider v).1 ≠ .ok (some c))
    {steps : List (OAuthStep C)} {t : OAuthWorld C V}
    (hassumed : Respects (oauthStep rt app vault.toCredentialVault) (Assumed rt app ids) { vault := v } steps)
    (hrun : exec (oauthStep rt app vault.toCredentialVault) { vault := v } steps = some t) :
    OAuthInv rt app vault steps t := by
  have hinit : OAuthInv rt app vault ([] : List (OAuthStep C)) { vault := v } :=
    ⟨fun p provider c _ hget => absurd hget (hempty p provider c), fun _ hi => absurd hi List.not_mem_nil,
      List.nodup_nil, fun _ hx => absurd hx List.not_mem_nil⟩
  exact invariant_of_respects_history (oauthInv_step hrt hpadding happ) hinit hassumed hrun

end steps

/-- From every state that such a run reaches, every connect that was answered can still be completed in time:
    its callback, with a code for the account of its email, stores that account's credential for its user. -/
theorem connects_complete (rt : OAuthRuntime) (hrt : rt.Documented) (hpadding : rt.RefusesUnpadded)
    (hlower : ∀ s, rt.lowering.lower s = "" → s = "") (app : ConnectApp V)
    (ids : Set (Option String × String)) (vault : KeyedVault ids V)
    (happ : app.vault = some vault.toCredentialVault) (v : V)
    (hempty : ∀ (p : Principal) provider c, (vault.get p provider v).1 ≠ .ok (some c))
    (steps : List (OAuthStep C)) (t : OAuthWorld C V)
    (hassumed : Respects (oauthStep rt app vault.toCredentialVault) (Assumed rt app ids) { vault := v } steps)
    (hrun : exec (oauthStep rt app vault.toCredentialVault) { vault := v } steps = some t)
    (i : Connect C) (hi : i ∈ t.connects) (response : ConnectResponse)
    (hresponse : oauthConnect rt app i.now i.bytes i.request = .ok response) (method : CallbackMethod)
    (now now' : ℤ) (r : CallbackRequest) (hreturns : Returns rt app i response method now now' r)
    (client : OAuthClient) (hclient : app.client i.provider = .ok client) (exchange : OAuthExchangeResult)
    (hexchange : client.exchangeCode r.code = .ok exchange) (metadata : List (String × String))
    (hemail : providerEmail rt.lowering app.apis i.provider client exchange = .ok (i.email, metadata))
    (haccepts : ∀ p : Principal, p.identity = i.principal.identity →
      (vault.put p i.provider (exchange.credential.withMetadata metadata) t.vault).1 = .ok ()) :
    (∃ url, (oauthCallback rt app.toOAuthApp now now' r t.vault method).1 = .ok url) ∧
      ∃ stored, (vault.get i.principal i.provider
          (oauthCallback rt app.toOAuthApp now now' r t.vault method).2).1 = .ok (some stored) ∧
        GivenBack i.provider (exchange.credential.withMetadata metadata) stored := by
  obtain ⟨response', h⟩ := ((oauthInv_of_run hrt hpadding happ hempty hassumed hrun).connects i hi).answered
  obtain rfl : response' = response := Except.ok.inj (h.response.symm.trans hresponse)
  obtain ⟨bound, hidentity, hafter, hanswer⟩ :=
    callback_of_returns hrt hlower h happ hreturns hclient hexchange hemail t.vault
  have hput := haccepts bound hidentity
  obtain ⟨stored, hget, hback⟩ := vault.get_put bound i.provider _ t.vault hput
  refine ⟨hanswer hput, stored, ?_, hback⟩
  rw [hafter, vault.get_congr i.provider _ hidentity.symm]
  exact hget

/-! ### A revoke that is overtaken -/

def zeroBytes : Fin 16 → UInt8 := fun _ => 0

/-- A connect of a user that the header shim names. -/
def headerConnect : Connect Unit where
  client := ()
  now := 0
  bytes := zeroBytes
  request := {
    userHeader := some "alice", orgHeader := some "acme", emailHeader := some "alice@example.com"
    provider := "google" }
  principal := acmeUser "alice"
  provider := .google
  email := "alice@example.com"

/-- What the connect signs. -/
def headerState : StatePayload where
  userId := "alice"
  orgId := some "acme"
  provider := .google
  bindingEmail := "alice@example.com"
  nonce := tokenUrlsafe zeroBytes
  exp := 600

/-- The HMACs of the state's body and of its nonce under the key `k`. -/
def bodyDigest : String := "40be680a38df25847b7beaf46cf4e7029b920daa43e012121482728a39034497"
def nonceDigest : String := "122e55c864ceeb96cadfc804fd134fbf5230fe49f963868a39594459f6d4c4f2"

/-- The digests of the two texts that are signed, and one state that can be read. -/
def oneStateRuntime : OAuthRuntime where
  lowering := aliceRuntime.lowering
  hmac _ text :=
    if text = headerState.nonce then nonceDigest else if text = headerState.body then bodyDigest else "0"
  loads body :=
    if body = headerState.body then .ok (.obj headerState.fields) else .error ⟨"JSONDecodeError", body⟩
  intOfText s := .error ⟨"ValueError", s⟩

def headerExchange : OAuthExchangeResult :=
  ⟨aliceCredential (some ⟨⟨2026, 6, 19, 12, 1, 0, 0⟩, some 0⟩), [("id_token", .str "jwt")]⟩

/-- Google answers every code with a token that is about to expire. -/
def headerClient : OAuthClient where
  clientId := "atlas"
  exchangeCode _ := .ok headerExchange

def headerApp : ConnectApp MemoryStore where
  settings := { oauthStateSecret := some "k" }
  authenticator := none
  vault := some inMemoryCredentialVault
  googleClient := some headerClient
  slackClient := none
  apis := aliceApp.apis
  authorizationUrl _ state := "https://accounts.google.com/o/oauth2/v2/auth?state=" ++ state

def headerCallback : CallbackRequest where
  provider := "google"
  code := "c"
  state := PyText.ofString (headerState.body ++ "." ++ bodyDigest)
  pendingCookie := some nonceDigest

theorem hmac_oneState (key text : String) :
    oneStateRuntime.hmac key text ∈ [nonceDigest, bodyDigest, "0"] := by
  change (if text = headerState.nonce then nonceDigest
    else if text = headerState.body then bodyDigest else "0") ∈ _
  split
  · simp
  · split <;> simp

theorem hex_digests : ∀ digest ∈ [nonceDigest, bodyDigest, "0"],
    (∀ c ∈ digest.toList, c ∈ "0123456789abcdef".toList) ∧ digest ≠ "" := by
  intro digest h
  simp only [List.mem_cons, List.not_mem_nil, or_false] at h
  rcases h with rfl | rfl | rfl <;> simp [nonceDigest, bodyDigest]

theorem documented_oneState : oneStateRuntime.Documented where
  hmac_hex key text := (hex_digests _ (hmac_oneState key text)).1
  hmac_ne key text := (hex_digests _ (hmac_oneState key text)).2
  loads_raises body e h := by
    simp only [oneStateRuntime] at h
    split at h <;> cases h
    exact ne_of_beq_false rfl
  int_raises s e h := by
    cases h
    exact ne_of_beq_false rfl

theorem refusesUnpadded_oneState : oneStateRuntime.RefusesUnpadded := by
  intro s _ hlength v
  have hne : s ≠ headerState.body := by
    rintro rfl
    exact hlength (length_body headerState)
  simp [oneStateRuntime, hne]

theorem answered_header : ∃ response, Answered oneStateRuntime headerApp headerConnect response := by
  have hbinding : connectBinding oneStateRuntime headerApp headerConnect.request =
      .ok (headerConnect.principal, headerConnect.provider, headerConnect.email) := by rfl
  have hreads : oneStateRuntime.loads (headerConnect.payload oneStateRuntime).body =
      .ok (.obj (headerConnect.payload oneStateRuntime).fields) := by
    rw [show headerConnect.payload oneStateRuntime = headerState from rfl]
    simp only [oneStateRuntime, if_true]
  have hkey : oauthStateKey headerApp.settings = .ok "k" := by rfl
  exact ⟨_, hbinding, oauthConnect_eq documented_oneState hbinding hreads hkey, hreads⟩

/-- The browser brings back the state and the cookie. -/
theorem returns_header {response : ConnectResponse}
    (h : Answered oneStateRuntime headerApp headerConnect response) :
    Returns oneStateRuntime headerApp headerConnect response .get 1 2 headerCallback := by
  have hkey : oauthStateKey headerApp.settings = .ok "k" := by rfl
  have hbody : headerState.body ≠ headerState.nonce := (tokenUrlsafe_ne_body zeroBytes headerState).symm
  refine ⟨by rfl, ⟨headerState.body ++ "." ++ bodyDigest, ?_, rfl⟩, by decide, Or.inl ⟨rfl, Or.inl rfl, ?_⟩⟩
  · rw [issueOauthState, hkey, Fallible.ok_bind,
      show headerConnect.payload oneStateRuntime = headerState from rfl]
    simp only [oneStateRuntime, if_neg hbody, if_true]
    rfl
  · rw [h.cookie documented_oneState hkey]
    simp only [oneStateRuntime, show headerConnect.nonce = headerState.nonce from rfl, if_true]
    rfl

def headerCredential : StoredCredential :=
  (aliceCredential (some ⟨⟨2026, 6, 19, 12, 1, 0, 0⟩, some 0⟩)).withMetadata
    [("provider_email", "alice@example.com")]

/-- The world after the connect, with what the vault holds. -/
def headerWorld (vault : MemoryStore) : OAuthWorld Unit MemoryStore where
  vault := vault
  connects := [headerConnect]

theorem step_connect : oauthStep oneStateRuntime headerApp inMemoryCredentialVault { vault := Dict.empty }
    (.connect () 0 zeroBytes headerConnect.request) = some (headerWorld Dict.empty) := by
  obtain ⟨response, h⟩ := answered_header
  exact h.step inMemoryCredentialVault { vault := Dict.empty }

theorem get_nothing (p : Principal) (provider : OAuthProvider) (c : StoredCredential) :
    (inMemoryCredentialVault.get p provider Dict.empty).1 ≠ .ok (some c) := by
  simp only [inMemoryCredentialVault]
  cases requireOrgId p with
  | error e => simp
  | ok org => simp

theorem put_header {p : Principal} (hp : p.identity = (acmeUser "alice").identity) (c : StoredCredential) :
    inMemoryCredentialVault.put p .google c Dict.empty = (.ok (), aliceStore c) := by
  have horg : requireOrgId p = .ok "acme" := (requireOrgId_congr hp).trans rfl
  have huser : p.userId = "alice" := congrArg Prod.snd hp
  simp only [inMemoryCredentialVault, horg, huser]
  rfl

theorem assumed_connect : Assumed oneStateRuntime headerApp Set.univ { vault := Dict.empty }
    (.connect () 0 zeroBytes headerConnect.request) := by
  obtain ⟨response, h⟩ := answered_header
  refine ⟨fun i hi => absurd hi List.not_mem_nil, fun principal provider email hbinding => ?_⟩
  rw [show connectBinding oneStateRuntime headerApp headerConnect.request = _ from h.binding] at hbinding
  cases hbinding
  exact ⟨Set.mem_univ _, h.reads⟩

theorem connects_complete_header :
    ∃ stored, (inMemoryCredentialVault.get (acmeUser "alice") .google
        (oauthCallback oneStateRuntime headerApp.toOAuthApp 1 2 headerCallback Dict.empty .get).2).1 =
        .ok (some stored) ∧
      GivenBack .google headerCredential stored := by
  obtain ⟨response, h⟩ := answered_header
  have hrun : exec (oauthStep oneStateRuntime headerApp inMemoryCredentialVault) { vault := Dict.empty }
      [.connect () 0 zeroBytes headerConnect.request] = some (headerWorld Dict.empty) :=
    exec_cons_eq_some.mpr ⟨_, step_connect, rfl⟩
  have hcomplete := connects_complete oneStateRuntime documented_oneState refusesUnpadded_oneState
    (fun _ h => h) headerApp Set.univ keyedMemoryVault rfl Dict.empty get_nothing _ _
    (.cons step_connect assumed_connect .nil) hrun headerConnect (List.mem_singleton_self _) response h.response
    .get 1 2 headerCallback (returns_header h) _ rfl _ rfl [("provider_email", "alice@example.com")] rfl
    (fun p hp => congrArg Prod.fst (put_header hp _))
  exact hcomplete.2

end Atlas
