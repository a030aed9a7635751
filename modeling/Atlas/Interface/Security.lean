import Atlas.Interface.Auth

/-! Who a request may act for: the identity it comes with, from a verified token or, without OIDC, from
    headers, and the binding of a thread to the principal that created it. A refused request ends in an
    HTTP error and nothing else. -/

namespace Atlas

open Text

/-- `HTTPException`: the status code and the detail sent to the client. -/
structure HTTPException where
  statusCode : ℕ
  detail : String
  deriving DecidableEq, Repr

/-- What is read of a request: the `Authorization` header, the configured identity headers, and the pending
    cookie of an OAuth connect. -/
structure Request where
  authorization : Option String := none
  userHeader : Option String := none
  rolesHeader : Option String := none
  orgHeader : Option String := none
  pendingCookie : Option String := none

/-- The token of an `Authorization: Bearer <token>` header, if there is one. -/
def bearerToken (low : Lowering) (request : Request) : Option String :=
  let header := request.authorization.getD ""
  if low.lower (before ' ' header) ≠ "bearer" ∨ strip (after ' ' header) = "" then none
  else some (strip (after ' ' header))

/-- The header shim: trusted identity headers, anonymous without a user. -/
def principalFromHeaders (request : Request) : Principal :=
  let userId := strip (request.userHeader.getD "")
  if userId = "" ∨ userId = Principal.anonymous.userId then Principal.anonymous
  else {
    userId := userId
    roles := ((splitOn (· == ',') (request.rolesHeader.getD "")).map strip).filter (· != "")
    orgId := orNone (strip (request.orgHeader.getD "")) }

/-- How a token that is not accepted is answered; an exception that has no handler ends as a 500. -/
def tokenError : AuthFailure → HTTPException
  | .dependency _ => ⟨503, "Authentication service temporarily unavailable."⟩
  | .auth _ => ⟨401, "Invalid or expired token."⟩
  | .uncaught _ => ⟨500, "Internal Server Error"⟩

/-- The caller of a request: its verified token if OIDC is configured, else the header shim. -/
def getRequestPrincipal (low : Lowering) (authenticator : Option OidcAuthenticator) (request : Request) :
    Except HTTPException Principal :=
  match authenticator with
  | some auth =>
    match bearerToken low request with
    | none => .error ⟨401, "Missing bearer token."⟩
    | some token => (auth.principalFromToken token).mapError tokenError
  | none => .ok (principalFromHeaders request)

/-- The request proves its caller: by a verified token, or by the header shim where OIDC is off. -/
inductive Authenticated (low : Lowering) (authenticator : Option OidcAuthenticator) (request : Request) :
    Principal → Prop where
  | token {auth : OidcAuthenticator} {token : String} {caller : Principal} :
      authenticator = some auth → bearerToken low request = some token →
      auth.principalFromToken token = .ok caller → Authenticated low authenticator request caller
  | headers : authenticator = none → principalFromHeaders request ≠ Principal.anonymous →
      Authenticated low authenticator request (principalFromHeaders request)

/-- A caller that is not anonymous has proven who it is. -/
theorem authenticated_of_getRequestPrincipal {low : Lowering} {authenticator : Option OidcAuthenticator}
    {request : Request} {caller : Principal}
    (h : getRequestPrincipal low authenticator request = .ok caller) (hanon : caller ≠ Principal.anonymous) :
    Authenticated low authenticator request caller := by
  unfold getRequestPrincipal at h
  cases authenticator with
  | none =>
    obtain rfl : principalFromHeaders request = caller := by simpa using h
    exact .headers rfl hanon
  | some auth =>
    cases htoken : bearerToken low request with
    | none => simp [htoken] at h
    | some token =>
      simp only [htoken, Fallible.mapError_eq_ok] at h
      exact .token rfl htoken h

/-- A proven caller has a name. -/
theorem userId_of_authenticated {low : Lowering} {authenticator : Option OidcAuthenticator}
    {request : Request} {caller : Principal} (h : Authenticated low authenticator request caller) :
    caller.userId ≠ "" := by
  cases h with
  | token _ _ h => exact (userId_of_principalFromToken h).1
  | headers _ hanon =>
    by_cases hno : strip (request.userHeader.getD "") = "" ∨
        strip (request.userHeader.getD "") = Principal.anonymous.userId
    · exact absurd (if_pos hno) hanon
    · rw [principalFromHeaders, if_neg hno]
      exact fun heq => hno (Or.inl heq)

/-- `StateSnapshot`: the checkpointed values, empty for an unknown thread, of which the owner is read, and
    the nodes that run next. -/
structure StateSnapshot where
  values : Option (Option Principal)
  next : List String
  deriving DecidableEq, Repr

/-- The principal that owns a thread, read from its checkpointed state. -/
def threadOwner (snapshot : StateSnapshot) : Option Principal := snapshot.values.join

/-- Raise 403 unless the caller is the creator of the thread. -/
def verifyThreadOwner (owner : Option Principal) (caller : Principal) : Except HTTPException Unit :=
  if caller = Principal.anonymous ∨ owner = some Principal.anonymous then
    .error ⟨403, "Authentication required for thread access."⟩
  else
    match owner with
    | none => .error ⟨403, "You do not have access to this thread."⟩
    | some o =>
      if o.userId ≠ caller.userId ∨ o.orgId ≠ caller.orgId then
        .error ⟨403, "You do not have access to this thread."⟩
      else .ok ()

end Atlas
