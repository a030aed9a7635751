import Atlas.Governance.Rbac
import Atlas.Json

/-! Bearer tokens to principals. Finding the key of a token and verifying its signature, expiry, issuer and
    audience is the JWT library's; what the program makes of that library's exceptions and of the verified
    claims is modelled. -/

namespace Atlas

open Text

/-- `AuthDependencyError` and `AuthError`, with their messages, or an exception that is neither. -/
inductive AuthFailure where
  | dependency (message : String)
  | auth (message : String)
  | uncaught (e : PyError)
  deriving DecidableEq, Repr

/-- `OidcAuthenticator`: `get_signing_key`, `jwt.decode` with the key, and which claim means what. -/
structure OidcAuthenticator where
  getSigningKey : String → Except PyError String
  decode : String → String → Except PyError (List (String × Json))
  userClaim : String := "sub"
  rolesClaim : String := "roles"
  orgClaim : String := "org_id"

/-- `jwt.PyJWKClientError`, with its subclass. -/
def isPyJWKClientError (e : PyError) : Bool :=
  ["PyJWKClientError", "PyJWKClientConnectionError"].contains e.type

/-- `jwt.PyJWTError`, with its subclasses. -/
def isPyJWTError (e : PyError) : Bool :=
  isPyJWKClientError e ||
  ["PyJWTError", "InvalidTokenError", "DecodeError", "InvalidSignatureError", "ExpiredSignatureError",
    "InvalidAudienceError", "InvalidIssuerError", "InvalidIssuedAtError", "ImmatureSignatureError",
    "InvalidKeyError", "InvalidAlgorithmError", "MissingRequiredClaimError", "InvalidSubjectError",
    "InvalidJTIError", "PyJWKError", "MissingCryptographyError", "PyJWKSetError"].contains e.type

/-- `_verified_claims`: the key lookup has a handler of its own. -/
def OidcAuthenticator.verifiedClaims (auth : OidcAuthenticator) (token : String) :
    Except AuthFailure (List (String × Json)) := do
  let key ← (auth.getSigningKey token).mapError fun e =>
    if isPyJWKClientError e then .dependency "authentication service unavailable" else .uncaught e
  (auth.decode token key).mapError fun e =>
    if isPyJWTError e then .auth "invalid or expired token" else .uncaught e

/-- A list, a text with commas or white space between the roles, or nothing. -/
def parseRoles : Json → List String
  | .str s => ((splitOn (fun c => c == ',' || isSpace c) s).map strip).filter (· != "")
  | .arr items => (items.map fun item => strip item.pyStr).filter (· != "")
  | _ => []

/-- The caller of a verified token. -/
def OidcAuthenticator.principalFromToken (auth : OidcAuthenticator) (token : String) :
    Except AuthFailure Principal := do
  let claims ← auth.verifiedClaims token
  let user := (Json.field? auth.userClaim claims).getD .null
  let userId := strip (if user.truthy then user.pyStr else "")
  if userId = "" then .error (.auth "token missing subject")
  else if userId = Principal.anonymous.userId then .error (.auth "reserved subject")
  else
    let orgId := match (Json.field? auth.orgClaim claims).getD .null with
      | .null => none
      | org => orNone (strip org.pyStr)
    return {
      userId := userId
      roles := parseRoles ((Json.field? auth.rolesClaim claims).getD .null)
      orgId := orgId }

/-- The reserved subject is no caller's. -/
theorem reserved_of_principalFromToken {auth : OidcAuthenticator} {token : String} {caller : Principal}
    (h : auth.principalFromToken token = .ok caller) : caller.userId ≠ Principal.anonymous.userId := by
  simp only [OidcAuthenticator.principalFromToken, Fallible.bind_eq_ok, Fallible.ite_error_eq_ok,
    Fallible.pure_eq_ok] at h
  obtain ⟨claims, -, -, hreserved, rfl⟩ := h
  exact hreserved

/-- A token never makes its caller anonymous, or nameless. -/
theorem userId_of_principalFromToken {auth : OidcAuthenticator} {token : String} {caller : Principal}
    (h : auth.principalFromToken token = .ok caller) :
    caller.userId ≠ "" ∧ caller ≠ Principal.anonymous := by
  simp only [OidcAuthenticator.principalFromToken, Fallible.bind_eq_ok, Fallible.ite_error_eq_ok,
    Fallible.pure_eq_ok] at h
  obtain ⟨claims, -, hempty, hreserved, rfl⟩ := h
  exact ⟨hempty, fun heq => hreserved (congrArg Principal.userId heq)⟩

end Atlas
