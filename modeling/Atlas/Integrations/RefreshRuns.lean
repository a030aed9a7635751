import Atlas.Lib.Run
import Atlas.Integrations.OAuthClients
import Atlas.Interface.OAuthRoutes

/-! Runs of the resolver on a credential that the callback stored. Every refresh keeps a refresh token, and
    the scopes where the response does not list them. What was kept of the provider account, by which the
    credential was bound to its user, does not survive: the refreshed credential is built from the
    response alone, so the metadata stay as long as nothing is refreshed and not longer. -/

namespace Atlas

variable {V : Type}

/-- A call of the resolver: its times of the clock, the scopes, and the token endpoint it meets. -/
structure ResolverCall where
  now : DateTime
  later : DateTime
  required : List String
  endpoint : TokenEndpoint

/-- `build_credential_resolver`: both clients are wired. -/
def ResolverCall.refreshers (rt : OAuthRuntime) (call : ResolverCall) : Refreshers where
  refreshGoogle := some (googleRefresh rt call.later call.endpoint)
  refreshSlack := some (slackRefresh rt call.later call.endpoint)

/-- A step of a run: one call, whatever it hands out or raises. -/
def resolverStep (vault : LawfulVault V) (rt : OAuthRuntime) (principal : Principal)
    (provider : OAuthProvider) (v : V) (call : ResolverCall) : Option V :=
  some (getAccessToken vault.toCredentialVault (call.refreshers rt) call.now principal provider
    call.required v).2

/-- The call refreshes what is stored, and stores the refreshed credential. -/
def Refreshes (vault : LawfulVault V) (rt : OAuthRuntime) (principal : Principal) (provider : OAuthProvider)
    (v : V) (call : ResolverCall) : Prop :=
  ∃ stored answered, Renews vault.toCredentialVault (call.refreshers rt) call.now principal provider
    call.required v stored answered

/-- A credential the callback stores: a code is exchanged and the account bound to the user's email. -/
def CallbackStored (rt : OAuthRuntime) (apis : ProviderApis) (provider : OAuthProvider)
    (c : StoredCredential) : Prop :=
  ∃ now clientId endpoint code exchange email,
    (oauthClient rt now clientId endpoint provider).exchangeCode code = .ok exchange ∧
    assertProviderEmailBinding rt.lowering apis provider (oauthClient rt now clientId endpoint provider) email
      exchange = .ok c

/-- What a call keeps of a credential: its provider, that there is a refresh token, and the scopes, unless a
    response of Google lists some. -/
structure KeepsToken (provider : OAuthProvider) (call : ResolverCall) (c c' : StoredCredential) : Prop where
  named : c'.provider = c.provider
  renewable : c.refreshToken.isSome = true → c'.refreshToken.isSome = true
  scopes : (∀ token answer, c.refreshToken = some token → call.endpoint token = .ok answer →
    provider = .google → Json.field? "scope" answer = none) → c'.scopes = c.scopes

/-- The whole frame of a call: the metadata besides. -/
structure KeepsFrame (provider : OAuthProvider) (call : ResolverCall) (c c' : StoredCredential) : Prop
    extends KeepsToken provider call c c' where
  metadata : ∀ key, c'.metadata.get? key = c.metadata.get? key

/-- A relation between what is stored before a call and after it. -/
def OnStored (vault : LawfulVault V) (rt : OAuthRuntime) (principal : Principal) (provider : OAuthProvider)
    (keeps : ResolverCall → StoredCredential → StoredCredential → Prop) (v : V) (call : ResolverCall) :
    Prop :=
  ∀ v', resolverStep vault rt principal provider v call = some v' →
    ∃ c c', (vault.get principal provider v).1 = .ok (some c) ∧
      (vault.get principal provider v').1 = .ok (some c') ∧ keeps call c c'

section runs
variable {vault : LawfulVault V} {rt : OAuthRuntime} {apis : ProviderApis} {principal : Principal}
  {provider : OAuthProvider} {v : V} {c : StoredCredential}

/-! ### What the callback stores -/

theorem isSome_get?_foldl_set {k : String} : ∀ (es : List (String × String)) (d : Dict String String),
    (d.get? k).isSome = true → ((es.foldl (fun d e => d.set e.1 e.2) d).get? k).isSome = true
  | [], _, h => h
  | e :: es, d, h => by
      refine isSome_get?_foldl_set es (d.set e.1 e.2) ?_
      rw [Dict.get?_set]
      split
      · rfl
      · exact h

/-- What the callback routes store with the clients of the providers. -/
theorem callbackStored_of_callbackCredential {app : OAuthApp V} {now : ℤ} {t : DateTime}
    {clientId code state : String} {endpoint : TokenEndpoint} {bound : Principal}
    (hclient : app.client provider = .ok (oauthClient rt t clientId endpoint provider))
    (h : callbackCredential rt app now provider code state bound = .ok c) :
    CallbackStored rt app.apis provider c := by
  simp only [callbackCredential, hclient, Fallible.ok_bind, Fallible.bind_eq_ok, Fallible.mapError_eq_ok] at h
  obtain ⟨email, -, exchange, hexchange, hbinding⟩ := h
  exact ⟨t, clientId, endpoint, code, exchange, email, hexchange, hbinding⟩

/-- The callback stores the account's email, and for Slack the scopes every user is asked for. -/
theorem stored_of_callback (h : CallbackStored rt apis provider c) : c.provider = provider ∧
    (c.metadata.get? "provider_email").isSome = true ∧
    (provider = .slack → c.scopes = SLACK_OAUTH_USER_SCOPES) := by
  obtain ⟨now, clientId, endpoint, code, exchange, email, hexchange, hbinding⟩ := h
  simp only [assertProviderEmailBinding, Fallible.bind_eq_ok, Fallible.pure_eq_ok] at hbinding
  obtain ⟨⟨account, metadata⟩, haccount, -, -, rfl⟩ := hbinding
  obtain ⟨-, rest, rfl⟩ := providerEmail_eq_ok haccount
  refine ⟨?_, isSome_get?_foldl_set rest _ (by simp), ?_⟩
  · cases provider with
    | google =>
      simp only [oauthClient, googleOAuthClient, Fallible.bind_eq_ok, Fallible.pure_eq_ok] at hexchange
      obtain ⟨token, -, credential, hcredential, rfl⟩ := hexchange
      exact (storedFromGoogleToken_eq_ok hcredential).1
    | slack =>
      simp only [oauthClient, slackOAuthClient, Fallible.bind_eq_ok, Fallible.pure_eq_ok] at hexchange
      obtain ⟨token, -, -, -, credential, hcredential, rfl⟩ := hexchange
      exact (storedFromSlackToken_eq_ok hcredential).1
  · rintro rfl
    simp only [oauthClient, slackOAuthClient, Fallible.bind_eq_ok, Fallible.pure_eq_ok] at hexchange
    obtain ⟨token, -, -, -, credential, hcredential, rfl⟩ := hexchange
    exact (storedFromSlackToken_eq_ok hcredential).2.1

/-! ### One call -/

/-- A call leaves the store as it is, or writes what a refresh of the stored credential makes. -/
theorem resolverStep_cases {v' : V} {call : ResolverCall}
    (h : resolverStep vault rt principal provider v call = some v') :
    v' = v ∧ ¬Refreshes vault rt principal provider v call ∨
    ∃ stored answered, Renews vault.toCredentialVault (call.refreshers rt) call.now principal provider
        call.required v stored answered ∧
      v' = (vault.put principal provider (keepScopes stored answered) v).2 := by
  have hafter : (getAccessToken vault.toCredentialVault (call.refreshers rt) call.now principal provider
      call.required v).2 = v' := Option.some.inj h
  rcases getAccessToken_cases vault (call.refreshers rt) call.now principal provider call.required v with
    ⟨e, hcall, hnone⟩ | ⟨stored, hget, -, hdue, hcall⟩ | ⟨stored, answered, hrenews, hcall⟩
  · rw [hcall] at hafter
    exact Or.inl ⟨hafter.symm, fun ⟨stored, answered, hrenews⟩ => hnone stored answered hrenews⟩
  · rw [hcall] at hafter
    refine Or.inl ⟨hafter.symm, ?_⟩
    rintro ⟨stored', answered, hrenews⟩
    have hfound := hrenews.found
    rw [hget] at hfound
    cases hfound
    exact absurd hrenews.due (by simp [hdue])
  · rw [hcall] at hafter
    exact Or.inr ⟨stored, answered, hrenews, hafter.symm⟩

/-- The answer to a refresh is built from the response to the stored refresh token. -/
theorem rebuilt_of_answer {call : ResolverCall} {stored answered : StoredCredential}
    (h : (call.refreshers rt).answer provider stored = .ok answered) :
    ∃ token, stored.refreshToken = some token ∧
      Rebuilt provider call.endpoint token stored.scopes answered := by
  unfold Refreshers.answer at h
  split at h
  next => cases h
  next token htoken =>
    obtain ⟨t, ht, hsome⟩ := Option.bind_eq_some_iff.mp htoken
    obtain ⟨rfl, -⟩ := Text.orNone_eq_some.mp hsome
    refine ⟨t, ht, ?_⟩
    cases provider with
    | google => exact rebuilt_of_googleRefresh h
    | slack => exact rebuilt_of_slackRefresh h

/-- A refreshed credential, read back: it keeps the token's part of the frame, and has lost the email. -/
theorem renewed_read_back {call : ResolverCall} {stored answered : StoredCredential}
    (hstored : stored.provider = provider ∧ (provider = .slack → stored.scopes = SLACK_OAUTH_USER_SCOPES))
    (h : Renews vault.toCredentialVault (call.refreshers rt) call.now principal provider call.required v
      stored answered) :
    ∃ c', (vault.get principal provider
        (vault.put principal provider (keepScopes stored answered) v).2).1 = .ok (some c') ∧
      KeepsToken provider call stored c' ∧ c'.metadata.get? "provider_email" = none := by
  obtain ⟨hprovider, hslack⟩ := hstored
  obtain ⟨token, htoken, hbuilt⟩ := rebuilt_of_answer h.answers
  obtain ⟨c', hc', hback⟩ := vault.get_put principal provider _ v h.written
  -- the repaired scopes are those of the answer, unless it has none
  have hkept : (keepScopes stored answered).provider = provider ∧
      (keepScopes stored answered).refreshToken = answered.refreshToken ∧
      (keepScopes stored answered).metadata = answered.metadata ∧
      (answered.scopes = stored.scopes → (keepScopes stored answered).scopes = stored.scopes) := by
    unfold keepScopes
    split
    · exact ⟨hbuilt.named, rfl, rfl, fun _ => rfl⟩
    · exact ⟨hbuilt.named, rfl, rfl, id⟩
  obtain ⟨hnamed, hrefresh, hmetadata, hscopes⟩ := hkept
  refine ⟨c', hc', ⟨?_, fun _ => ?_, fun homits => ?_⟩, ?_⟩
  · rw [hback.provider hnamed, hprovider]
  · rw [hback.refreshToken, hrefresh]
    exact hbuilt.renewable
  · rw [hback.scopes]
    refine hscopes ?_
    cases provider with
    | google => exact hbuilt.googleScopes rfl fun answer hanswer => homits token answer htoken hanswer rfl
    | slack => rw [hbuilt.slackScopes rfl, hslack rfl]
  · rw [hback.metadata, hmetadata]
    exact hbuilt.unbound

/-- A credential of the provider is stored, of Slack with the scopes every user is asked for. -/
def HoldsCredential (vault : LawfulVault V) (principal : Principal) (provider : OAuthProvider) (v : V) : Prop :=
  ∃ c, (vault.get principal provider v).1 = .ok (some c) ∧ c.provider = provider ∧
    (provider = .slack → c.scopes = SLACK_OAUTH_USER_SCOPES)

theorem keepsToken_refl (provider : OAuthProvider) (call : ResolverCall) (c : StoredCredential) :
    KeepsToken provider call c c := ⟨rfl, id, fun _ => rfl⟩

/-- Every call keeps the token's part of the frame. -/
theorem onStored_keepsToken (h : HoldsCredential vault principal provider v) (call : ResolverCall) :
    OnStored vault rt principal provider (KeepsToken provider) v call := by
  obtain ⟨c, hc, hcredential⟩ := h
  intro v' hstep
  rcases resolverStep_cases hstep with ⟨rfl, -⟩ | ⟨stored, answered, hrenews, rfl⟩
  · exact ⟨c, c, hc, hc, keepsToken_refl provider call c⟩
  · obtain rfl : c = stored := Option.some.inj (Except.ok.inj (hc.symm.trans hrenews.found))
    obtain ⟨c', hc', hkeeps, -⟩ := renewed_read_back hcredential hrenews
    exact ⟨c, c', hc, hc', hkeeps⟩

theorem holdsCredential_step {v' : V} {call : ResolverCall} (h : HoldsCredential vault principal provider v)
    (hstep : resolverStep vault rt principal provider v call = some v') :
    HoldsCredential vault principal provider v' := by
  obtain ⟨c, hc, hcredential⟩ := h
  rcases resolverStep_cases hstep with ⟨rfl, -⟩ | ⟨stored, answered, hrenews, rfl⟩
  · exact ⟨c, hc, hcredential⟩
  · obtain rfl : c = stored := Option.some.inj (Except.ok.inj (hc.symm.trans hrenews.found))
    obtain ⟨c', hc', hkeeps, -⟩ := renewed_read_back hcredential hrenews
    obtain ⟨token, -, hbuilt⟩ := rebuilt_of_answer hrenews.answers
    refine ⟨c', hc', hkeeps.named.trans hcredential.1, fun hslack => ?_⟩
    rw [hkeeps.scopes fun token answer _ _ hgoogle => absurd (hgoogle.symm.trans hslack) (by decide)]
    exact hcredential.2 hslack

/-- A call on a credential that still has the account's email keeps the frame exactly if it refreshes
    nothing. -/
theorem onStored_keepsFrame_iff (hc : (vault.get principal provider v).1 = .ok (some c))
    (hcredential : c.provider = provider ∧ (provider = .slack → c.scopes = SLACK_OAUTH_USER_SCOPES))
    (hemail : (c.metadata.get? "provider_email").isSome = true) (call : ResolverCall) :
    OnStored vault rt principal provider (KeepsFrame provider) v call ↔
      ¬Refreshes vault rt principal provider v call := by
  constructor
  · rintro hkeeps ⟨stored, answered, hrenews⟩
    obtain rfl : c = stored := Option.some.inj (Except.ok.inj (hc.symm.trans hrenews.found))
    obtain ⟨v', hstep⟩ : ∃ v', resolverStep vault rt principal provider v call = some v' := ⟨_, rfl⟩
    obtain ⟨c₁, c₂, hc₁, hc₂, hframe⟩ := hkeeps v' hstep
    obtain rfl : c = c₁ := Option.some.inj (Except.ok.inj (hc.symm.trans hc₁))
    rcases resolverStep_cases hstep with ⟨-, hnone⟩ | ⟨stored, answered', hrenews', rfl⟩
    · exact hnone ⟨c, answered, hrenews⟩
    · obtain ⟨rfl, rfl⟩ := hrenews.unique hrenews'
      obtain ⟨c', hc', -, hlost⟩ := renewed_read_back hcredential hrenews
      obtain rfl : c' = c₂ := Option.some.inj (Except.ok.inj (hc'.symm.trans hc₂))
      rw [← hframe.metadata, hlost] at hemail
      cases hemail
  · intro hnone v' hstep
    rcases resolverStep_cases hstep with ⟨rfl, -⟩ | ⟨stored, answered, hrenews, -⟩
    · exact ⟨c, c, hc, hc, { keepsToken_refl provider call c with metadata := fun _ => rfl }⟩
    · exact absurd ⟨stored, answered, hrenews⟩ hnone

end runs

/-! ### Runs -/

/-- From a credential that the callback stored, every run keeps a refresh token, and the scopes where they
    are not listed; it keeps the whole frame exactly when no call refreshes that credential. -/
theorem refreshRuns_keep_frame_iff (vault : LawfulVault V) (rt : OAuthRuntime) (apis : ProviderApis)
    (principal : Principal) (provider : OAuthProvider) (c : StoredCredential)
    (hcallback : CallbackStored rt apis provider c) (before after : V)
    (hput : vault.put principal provider c before = (.ok (), after)) (calls : List ResolverCall) :
    LabelledRun.Respects (resolverStep vault rt principal provider)
        (OnStored vault rt principal provider (KeepsToken provider)) after calls ∧
      (LabelledRun.Respects (resolverStep vault rt principal provider)
          (OnStored vault rt principal provider (KeepsFrame provider)) after calls ↔
        ∀ call ∈ calls, ¬Refreshes vault rt principal provider after call) := by
  obtain ⟨hprovider, hemail, hslack⟩ := stored_of_callback hcallback
  have hread := vault.get_put principal provider c before
  rw [hput] at hread
  obtain ⟨stored, hstored, hback⟩ := hread rfl
  have hcredential : stored.provider = provider ∧
      (provider = .slack → stored.scopes = SLACK_OAUTH_USER_SCOPES) :=
    ⟨hback.provider hprovider, fun h => hback.scopes.trans (hslack h)⟩
  rw [← hback.metadata] at hemail
  constructor
  · exact LabelledRun.respects_of_invariant (fun _ call h => onStored_keepsToken h call)
      (fun _ _ _ h hstep => holdsCredential_step h hstep) ⟨stored, hstored, hcredential⟩ calls
  · have hone : ∀ call, OnStored vault rt principal provider (KeepsFrame provider) after call ↔
        ¬Refreshes vault rt principal provider after call :=
      onStored_keepsFrame_iff hstored hcredential hemail
    rw [LabelledRun.respects_iff_forall]
    · exact forall₂_congr fun call _ => hone call
    · intro call hkeeps
      obtain ⟨v', hstep⟩ : ∃ v', resolverStep vault rt principal provider after call = some v' := ⟨_, rfl⟩
      rcases resolverStep_cases hstep with ⟨rfl, -⟩ | ⟨stored', answered, hrenews, -⟩
      · exact hstep
      · exact absurd ⟨stored', answered, hrenews⟩ ((hone call).mp hkeeps)

/-! ### Two credentials of one user -/

/-- What Google answers a code with: a token that does not expire, or one that lives for some seconds. -/
def aliceToken (expiresIn : Json) : Args :=
  [("access_token", .str "t"), ("refresh_token", .str "r"), ("expires_in", expiresIn), ("id_token", .str "jwt")]

def aliceCredential (expiresAt : Option ExpiresAt) : StoredCredential where
  provider := .google
  accessToken := "t"
  refreshToken := some "r"
  expiresAt := expiresAt
  metadata := Dict.empty.set "provider_email" "alice@example.com"

/-- A call at noon that is answered with a new token and nothing else. -/
def noonCall : ResolverCall where
  now := ⟨2026, 6, 19, 12, 0, 0, 0⟩
  later := ⟨2026, 6, 19, 12, 0, 0, 0⟩
  required := []
  endpoint := fun _ => .ok [("access_token", .str "t2")]

def aliceStore (credential : StoredCredential) : MemoryStore :=
  Dict.empty.set ("acme", "alice", .google) credential

theorem refreshRuns_keep_frame_lasting :
    LabelledRun.Respects (resolverStep lawfulMemoryVault aliceRuntime (acmeUser "alice") .google)
      (OnStored lawfulMemoryVault aliceRuntime (acmeUser "alice") .google (KeepsFrame .google))
      (aliceStore (aliceCredential none)) [noonCall, noonCall] := by
  refine (refreshRuns_keep_frame_iff lawfulMemoryVault aliceRuntime aliceApp.apis (acmeUser "alice") .google
    (aliceCredential none) ⟨noonCall.now, "atlas", fun _ => .ok (aliceToken .null), "c", _,
      "alice@example.com", rfl, rfl⟩ Dict.empty _ rfl _).2.mpr ?_
  rintro call hcall ⟨stored, answered, hrenews⟩
  have hfound := hrenews.found
  cases hfound
  exact absurd hrenews.due (by simp [needsRefresh, aliceCredential])

/-- After one refresh the account's email is gone. -/
theorem refreshRuns_lose_email : ¬∀ (rt : OAuthRuntime) (apis : ProviderApis) (principal : Principal)
    (provider : OAuthProvider) (c : StoredCredential), CallbackStored rt apis provider c →
    ∀ before after : MemoryStore, inMemoryCredentialVault.put principal provider c before = (.ok (), after) →
    ∀ calls, LabelledRun.Respects (resolverStep lawfulMemoryVault rt principal provider)
      (OnStored lawfulMemoryVault rt principal provider (KeepsFrame provider)) after calls := by
  intro h
  have hrun := h aliceRuntime aliceApp.apis (acmeUser "alice") .google
    (aliceCredential (some ⟨⟨2026, 6, 19, 12, 1, 0, 0⟩, some 0⟩))
    ⟨noonCall.now, "atlas", fun _ => .ok (aliceToken (.int 60)), "c", _, "alice@example.com", rfl, rfl⟩
    Dict.empty _ rfl [noonCall]
  obtain ⟨c, c', hc, hc', hframe⟩ := hrun.1 _ rfl
  cases hc
  cases hc'
  exact absurd (hframe.metadata "provider_email") (by decide)

end Atlas
