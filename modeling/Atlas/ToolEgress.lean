import Atlas.Actions

/-! Outbound requests of schema-driven tools. Parsing a URL, resolving a host and talking to the network
    are not the program's own: what they answer comes from outside, the network as an oracle of the
    deliveries to come. The guards on a parsed URL (`assertHostAllowed` when a tool is built,
    `EgressPolicy.assertAllowed` when it is called), what the program makes of an answer
    (`decodeJsonResponse`) and which requests went out with which answer (`Outside.sent`) are modelled. -/

namespace Atlas

/-- The parts of a parsed URL that are read: the host empty where there is none, no port where it is the
    default one, the path percent-decoded. `rawPath` is the path as a request line carries it. -/
structure Url where
  scheme : String
  userinfo : String
  host : String
  port : Option ℕ := none
  path : String := "/"
  rawPath : String := path
  deriving DecidableEq, Repr

def egressNotAllowed (message : String) : PyError := ⟨"EgressNotAllowed", message⟩

/-- `url.port or 443`, which is also what the HTTP client connects to: an explicit 0 is no port. -/
def portOrHttps : Option ℕ → ℕ
  | none | some 0 => 443
  | some port => port

/-- An exact route an outbound call must match; the method is always `POST`. -/
structure EgressRoute where
  method : String
  host : String
  port : ℕ
  path : String
  deriving DecidableEq, Repr

def Url.route (lower : String → String) (url : Url) : EgressRoute :=
  ⟨"POST", lower url.host, portOrHttps url.port, url.path⟩

/-- The egress allowlist: hosts, and the exact routes of the loaded schemas. -/
structure EgressPolicy where
  allowedHosts : List String
  routes : List EgressRoute

/-- The hosts are lower-cased when the policy is made. -/
def EgressPolicy.make (lower : String → String) (allowedHosts : List String) (routes : List EgressRoute) :
    EgressPolicy :=
  ⟨allowedHosts.map lower, routes⟩

/-- Reject a URL unless it is https, has no userinfo, and matches an allowed host and route. -/
def EgressPolicy.assertAllowed (lower : String → String) (policy : EgressPolicy) (url : Url) :
    Except PyError Unit :=
  if url.scheme ≠ "https" then
    .error (egressNotAllowed ("scheme not allowed: " ++ Text.reprStr url.scheme ++ " (https required)"))
  else if url.userinfo ≠ "" then .error (egressNotAllowed "url must not contain userinfo")
  else if lower url.host = "" then .error (egressNotAllowed "outbound url has no host")
  else if lower url.host ∉ policy.allowedHosts then
    .error (egressNotAllowed ("host not on egress allowlist: " ++ lower url.host))
  else if url.route lower ∉ policy.routes then
    .error (egressNotAllowed ("route not allowed: POST " ++ lower url.host ++ ":" ++
      toString (portOrHttps url.port) ++ url.path))
  else .ok ()

/-- The build-time check of an endpoint against the host allowlist. -/
def assertHostAllowed (parse : String → Except PyError Url) (lower : String → String) (url : String)
    (allowlist : List String) : Except PyError Unit := do
  let parsed ← parse url
  if parsed.scheme ≠ "https" then
    .error (egressNotAllowed ("scheme not allowed: " ++ Text.reprStr parsed.scheme ++ " (https required)"))
  else if parsed.userinfo ≠ "" then .error (egressNotAllowed "url must not contain userinfo")
  else if lower parsed.host = "" then .error (egressNotAllowed "outbound url has no host")
  else if lower parsed.host ∉ allowlist then
    .error (egressNotAllowed ("host not on egress allowlist: " ++ lower parsed.host))
  else .ok ()

/-- Parse a URL once and validate it against the policy. -/
def prepareValidated (parse : String → Except PyError Url) (lower : String → String)
    (policy : EgressPolicy) (url : String) : Except PyError Url := do
  let parsed ← parse url
  policy.assertAllowed lower parsed
  return parsed

/-- An address as the `ipaddress` module reads it. -/
inductive IpAddress where
  | v4 (value : BitVec 32)
  | v6 (value : BitVec 128)
  deriving DecidableEq, Repr

/-- The address, unwrapped where it is an IPv4 address mapped into IPv6 (`::ffff:0:0/96`). -/
def IpAddress.unmapped : IpAddress → IpAddress
  | .v4 a => .v4 a
  | .v6 a => if a >>> 32 = 0xffff then .v4 (a.setWidth 32) else .v6 a

/-- Name resolution and the `ipaddress` module: the texts of a host's addresses, `none` where resolving it
    fails, the reading of such a text, and the ranges. -/
structure Resolver where
  getaddrinfo : String → ℕ → Option (List String)
  ipAddress : String → Except PyError IpAddress
  isGlobal : IpAddress → Bool
  isMulticast : IpAddress → Bool
  isUnspecified : IpAddress → Bool

/-- `_ip_is_blocked`. -/
def Resolver.ipIsBlocked (resolver : Resolver) (ip : IpAddress) : Bool :=
  let ip := ip.unmapped
  !resolver.isGlobal ip || resolver.isMulticast ip || resolver.isUnspecified ip

/-- The loop of `resolve_safe_ip`: each address is checked without its scope id, the first one is kept. -/
def safeIpLoop (resolver : Resolver) : List String → Option String → Except PyError (Option String)
  | [], safeIp => .ok safeIp
  | info :: infos, safeIp => do
    let ipStr := Text.before '%' info
    let ip ← resolver.ipAddress ipStr
    if resolver.ipIsBlocked ip then
      .error (egressNotAllowed ("host resolves to a blocked address: " ++ ipStr))
    else safeIpLoop resolver infos (safeIp.or (some ipStr))

/-- The first address of a host, none of whose addresses is blocked. -/
def resolveSafeIp (resolver : Resolver) (host : String) (port : Option ℕ) : Except PyError String :=
  match resolver.getaddrinfo host (portOrHttps port) with
  | none => .error (egressNotAllowed ("could not resolve host: " ++ host))
  | some [] => .error (egressNotAllowed ("no addresses for host: " ++ host))
  | some (info :: infos) => do
    match ← safeIpLoop resolver (info :: infos) none with
    | some safeIp => return safeIp
    | none => .error (egressNotAllowed ("no usable address for host: " ++ host))

/-- What to connect with: the URL at the validated address, and the original host for routing and TLS. -/
structure PinnedRequest where
  url : Url
  hostHeader : String
  sniHostname : String
  deriving DecidableEq, Repr

/-- `HttpxTransport.prepare_pinned`. -/
def preparePinned (parse : String → Except PyError Url) (lower : String → String) (resolver : Resolver)
    (policy : EgressPolicy) (url : String) : Except PyError PinnedRequest := do
  let parsed ← prepareValidated parse lower policy url
  let ip ← resolveSafeIp resolver parsed.host parsed.port
  let hostHeader := match parsed.port with
    | some port => parsed.host ++ ":" ++ toString port
    | none => parsed.host
  return { url := { parsed with host := ip }, hostHeader := hostHeader, sniHostname := parsed.host }

/-- A response of a provider: its status, the error `raise_for_status` raises for it, and its body as
    `response.json()` reads it. -/
structure HttpResponse where
  statusCode : ℕ
  statusError : PyError
  body : Except PyError Json

/-- Raise on a redirect or an error status; return the decoded JSON object or fail closed. -/
def decodeJsonResponse (response : HttpResponse) : Except PyError Args :=
  if 300 ≤ response.statusCode ∧ response.statusCode ≤ 399 then
    .error (egressNotAllowed ("redirect not allowed (status " ++ toString response.statusCode ++ ")"))
  else if ¬(200 ≤ response.statusCode ∧ response.statusCode ≤ 299) then .error response.statusError
  else
    match response.body with
    | .error e => .error e
    | .ok (.obj data) => .ok data
    | .ok _ => .error ⟨"RuntimeError", "provider response was not a JSON object"⟩

/-- What becomes of a POST: a guard or the connection refuses it, it goes out but no answer comes back, or
    the provider answers. -/
inductive Delivery where
  | refused (e : PyError)
  | lost (e : PyError)
  | answered (response : HttpResponse)

/-- A request that went out. -/
structure Exchange where
  url : String
  payload : Args
  accessToken : String
  response : Option HttpResponse

/-- The world of schema tools: what the credential resolver and the network will answer at the `n`-th run,
    the number of runs so far, and the requests sent. -/
structure Outside where
  accessToken : ℕ → Except PyError String
  delivery : ℕ → Delivery
  runs : ℕ := 0
  sent : List Exchange := []

/-- `Transport.post_json`, with the outcome of the delivery. -/
def postJson (url : String) (payload : Args) (accessToken : String) (w : Outside) :
    Delivery → Except PyError Args × Outside
  | .refused e => (.error e, w)
  | .lost e => (.error e, { w with sent := w.sent ++ [⟨url, payload, accessToken, none⟩] })
  | .answered response =>
    (decodeJsonResponse response,
      { w with sent := w.sent ++ [⟨url, payload, accessToken, some response⟩] })

end Atlas
