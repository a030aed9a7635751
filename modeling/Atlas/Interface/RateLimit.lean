import Atlas.Interface.Security
import Atlas.Lib.AsciiJson

/-! Who shares a rate-limit bucket. An identified caller's bucket is named by the digest of its two ids as
    JSON, an anonymous caller's by the address it calls from. The JSON determines the ids, whatever
    characters they have (`principalPayload_inj`), and the two kinds of names begin differently. -/

namespace Atlas

open Text

/-- The ids of a principal as `json.dumps` writes them, keys sorted, without white space. -/
def principalPayload (principal : Principal) : String :=
  "\x7b\"org_id\":" ++ (match principal.orgId with
    | none => "null"
    | some orgId => dumpAscii orgId) ++ ",\"user_id\":" ++ dumpAscii principal.userId ++ "\x7d"

/-- The bucket of an identified principal; `hexdigest` is SHA-256 of the encoded payload in hexadecimal. -/
def identifiedPrincipalKey (hexdigest : String → String) (principal : Principal) : String :=
  "u|" ++ hexdigest (principalPayload principal)

/-- The bucket of a request: its principal's, or that of its client's host. -/
def rateLimitKey (hexdigest : String → String) (principal : Principal) (clientHost : Option String) : String :=
  if principal = Principal.anonymous then "ip|" ++ clientHost.getD "unknown"
  else identifiedPrincipalKey hexdigest principal

/-- The payload determines both ids. -/
theorem principalPayload_inj {p q : Principal} (h : principalPayload p = principalPayload q) :
    p.userId = q.userId ∧ p.orgId = q.orgId := by
  have hnull : ∀ s t u : String, dumpAscii s ++ t ≠ "null" ++ u := by
    intro s t u heq
    have hlist := congrArg (fun s : String => s.toList.head?) heq
    simp [dumpAscii] at hlist
  simp only [principalPayload, String.append_assoc, String.append_right_inj] at h
  cases hp : p.orgId with
  | none =>
    cases hq : q.orgId with
    | none =>
      simp only [hp, hq, String.append_right_inj] at h
      exact ⟨(dumpAscii_append_inj h).1, rfl⟩
    | some org =>
      simp only [hp, hq] at h
      exact absurd h.symm (hnull _ _ _)
  | some org =>
    cases hq : q.orgId with
    | none =>
      simp only [hp, hq] at h
      exact absurd h (hnull _ _ _)
    | some org' =>
      simp only [hp, hq] at h
      obtain ⟨rfl, hrest⟩ := dumpAscii_append_inj h
      rw [String.append_right_inj] at hrest
      exact ⟨(dumpAscii_append_inj hrest).1, rfl⟩

theorem principalPayload_congr {p q : Principal} (huser : p.userId = q.userId) (horg : p.orgId = q.orgId) :
    principalPayload p = principalPayload q := by
  rw [principalPayload, principalPayload, huser, horg]

/-- A bucket of one kind is none of the other. -/
theorem identifiedPrincipalKey_ne_ip (hexdigest : String → String) (p : Principal) (host : String) :
    identifiedPrincipalKey hexdigest p ≠ "ip|" ++ host := by
  intro h
  have hlist := congrArg (fun s : String => s.toList.head?) h
  simp [identifiedPrincipalKey] at hlist

/-- The caller of a request is anonymous or has another name than that one. -/
theorem reserved_of_getRequestPrincipal {low : Lowering} {authenticator : Option OidcAuthenticator}
    {request : Request} {caller : Principal}
    (h : getRequestPrincipal low authenticator request = .ok caller) :
    caller = Principal.anonymous ∨ caller.userId ≠ Principal.anonymous.userId := by
  by_cases hanon : caller = Principal.anonymous
  · exact Or.inl hanon
  · refine Or.inr ?_
    cases authenticated_of_getRequestPrincipal h hanon with
    | token _ _ htoken => exact reserved_of_principalFromToken htoken
    | headers =>
      by_cases hname : strip (request.userHeader.getD "") = "" ∨
          strip (request.userHeader.getD "") = Principal.anonymous.userId
      · exact absurd (if_pos hname) hanon
      · rw [principalFromHeaders, if_neg hname]
        exact fun heq => hname (Or.inr heq)

/-- Two requests share a bucket exactly when both are anonymous and come from one host, or neither is and
    they act for the same user of the same organisation. The roles of an identified caller play no part,
    and the caller of a request is identified unless it is the anonymous principal itself. -/
theorem rateLimitKey_eq_iff (hexdigest : String → String) (p q : Principal) (client client' : Option String)
    (hsha : hexdigest (principalPayload p) = hexdigest (principalPayload q) →
      principalPayload p = principalPayload q) :
    (rateLimitKey hexdigest p client = rateLimitKey hexdigest q client' ↔
      (p = Principal.anonymous ∧ q = Principal.anonymous ∧
        client.getD "unknown" = client'.getD "unknown") ∨
      (p ≠ Principal.anonymous ∧ q ≠ Principal.anonymous ∧ p.userId = q.userId ∧ p.orgId = q.orgId)) ∧
    (∀ roles, p ≠ Principal.anonymous → { p with roles := roles } ≠ Principal.anonymous →
      rateLimitKey hexdigest { p with roles := roles } client' = rateLimitKey hexdigest p client) ∧
    (∀ low authenticator request, getRequestPrincipal low authenticator request = .ok p →
      p ≠ Principal.anonymous → ∀ roles, { p with roles := roles } ≠ Principal.anonymous) := by
  refine ⟨?_, fun roles hp hroles => ?_, fun low authenticator request h hp roles heq => ?_⟩
  · unfold rateLimitKey
    by_cases hp : p = Principal.anonymous
    · by_cases hq : q = Principal.anonymous
      · simp [hp, hq]
      · simp [hp, hq, (identifiedPrincipalKey_ne_ip hexdigest q _).symm]
    · by_cases hq : q = Principal.anonymous
      · simp [hp, hq, identifiedPrincipalKey_ne_ip hexdigest p _]
      · simp only [hp, hq, if_false, false_and, false_or, ne_eq, not_false_eq_true, true_and,
          identifiedPrincipalKey, String.append_right_inj]
        constructor
        · exact fun heq => principalPayload_inj (hsha heq)
        · rintro ⟨huser, horg⟩
          rw [principalPayload_congr huser horg]
  · rw [rateLimitKey, rateLimitKey, if_neg hp, if_neg hroles, identifiedPrincipalKey, identifiedPrincipalKey]
    exact congrArg (fun payload => "u|" ++ hexdigest payload) (principalPayload_congr rfl rfl)
  · rcases reserved_of_getRequestPrincipal h with hanon | hname
    · exact hp hanon
    · exact hname (congrArg (·.userId) heq)

/-- The digests of the payloads of alice without an organisation and in the one called `None`. -/
def aliceDigest (payload : String) : String :=
  if payload = "\x7b\"org_id\":null,\"user_id\":\"alice\"\x7d" then
    "a42e1d66bf64c969cea2493b55d40757d5059bc29846835d43dc1a166b19ccad"
  else "82cb71bbf6d4bf12f3f019cc291e2f203c439607c3621194f71752766375db6f"

/-- No organisation is not the organisation called `None`. -/
theorem rateLimitKey_eq_iff_alice :
    rateLimitKey aliceDigest { userId := "alice" } (some "10.0.0.1") ≠
      rateLimitKey aliceDigest { userId := "alice", orgId := some "None" } (some "10.0.0.1") := by
  intro h
  have hiff := (rateLimitKey_eq_iff aliceDigest { userId := "alice" }
    { userId := "alice", orgId := some "None" } (some "10.0.0.1") (some "10.0.0.1")
    (fun heq => absurd heq (by decide))).1
  rcases hiff.mp h with ⟨hanon, -⟩ | ⟨-, -, -, horg⟩
  · exact absurd hanon (by decide)
  · cases horg

end Atlas
