import Atlas.EgressRoutes

/-! Direct requests are pinned to an address. Every address that a name resolves to is checked, with its
    scope id dropped and an IPv4 address inside IPv6 unwrapped, and the first one is connected to: the
    loop's invariant is that what was kept is the first of what was read, and that all of it is routable
    (`safeIpLoop_eq_ok`). So one internal address anywhere in the answer refuses the request, and nothing
    but the host of the validated URL is exchanged. -/

namespace Atlas

open Text

section resolver
variable {resolver : Resolver}

/-- The text is an address that may be connected to: global once it is unwrapped, no multicast address and
    not the unspecified one. -/
def Routable (resolver : Resolver) (info : String) : Prop :=
  ∃ ip, resolver.ipAddress (before '%' info) = .ok ip ∧ resolver.isGlobal ip.unmapped = true ∧
    resolver.isMulticast ip.unmapped = false ∧ resolver.isUnspecified ip.unmapped = false

/-- The answer of a resolver that lists addresses: each text reads as one. -/
def ListsAddresses (resolver : Resolver) (infos : List String) : Prop :=
  ∀ info ∈ infos, ∃ ip, resolver.ipAddress (before '%' info) = .ok ip

theorem ipIsBlocked_eq_false {ip : IpAddress} : resolver.ipIsBlocked ip = false ↔
    resolver.isGlobal ip.unmapped = true ∧ resolver.isMulticast ip.unmapped = false ∧
      resolver.isUnspecified ip.unmapped = false := by
  simp only [Resolver.ipIsBlocked, Bool.or_eq_false_iff, Bool.not_eq_false', and_assoc]

/-- The loop ends well on routable addresses only, with the one it was handed or else the first. -/
theorem safeIpLoop_eq_ok {infos : List String} {safeIp found : Option String} :
    safeIpLoop resolver infos safeIp = .ok found ↔
      (∀ info ∈ infos, Routable resolver info) ∧ found = safeIp.or (infos.head?.map (before '%')) := by
  induction infos generalizing safeIp with
  | nil => simp [safeIpLoop, eq_comm]
  | cons info infos ih =>
    simp only [safeIpLoop, Fallible.bind_eq_ok, Fallible.ite_error_eq_ok, ih, Bool.not_eq_true,
      ipIsBlocked_eq_false, List.forall_mem_cons, List.head?_cons, Option.map_some]
    have hkept : (safeIp.or (some (before '%' info))).or (infos.head?.map (before '%')) =
        safeIp.or (some (before '%' info)) := by
      cases safeIp <;> rfl
    rw [hkept]
    constructor
    · rintro ⟨ip, hip, hsafe, hrest, rfl⟩
      exact ⟨⟨⟨ip, hip, hsafe⟩, hrest⟩, rfl⟩
    · rintro ⟨⟨⟨ip, hip, hsafe⟩, hrest⟩, rfl⟩
      exact ⟨ip, hip, hsafe, hrest, rfl⟩

/-- Where the texts are addresses, the loop refuses by the guard and by nothing else. -/
theorem safeIpLoop_refused {infos : List String} (h : ListsAddresses resolver infos)
    (hblocked : ∃ info ∈ infos, ¬Routable resolver info) (safeIp : Option String) :
    ∃ message, safeIpLoop resolver infos safeIp = .error (egressNotAllowed message) := by
  induction infos generalizing safeIp with
  | nil => simp at hblocked
  | cons info infos ih =>
    obtain ⟨ip, hip⟩ := h info List.mem_cons_self
    rw [safeIpLoop]
    simp only [hip, Fallible.ok_bind]
    cases hcheck : resolver.ipIsBlocked ip with
    | true => exact ⟨_, rfl⟩
    | false =>
      refine ih (fun i hi => h i (List.mem_cons_of_mem _ hi)) ?_ _
      rcases List.exists_mem_cons_iff .. |>.mp hblocked with hhead | hrest
      · exact absurd ⟨ip, hip, ipIsBlocked_eq_false.mp hcheck⟩ hhead
      · exact hrest

/-- The addresses of a host may all be connected to, and there is one. -/
def ResolvesSafely (resolver : Resolver) (host : String) (port : Option ℕ) (first : String)
    (rest : List String) : Prop :=
  resolver.getaddrinfo host (portOrHttps port) = some (first :: rest) ∧
    ∀ info ∈ first :: rest, Routable resolver info

theorem resolveSafeIp_eq_ok {host : String} {port : Option ℕ} {ip : String} :
    resolveSafeIp resolver host port = .ok ip ↔
      ∃ first rest, ResolvesSafely resolver host port first rest ∧ ip = before '%' first := by
  unfold resolveSafeIp ResolvesSafely
  split
  next hnone => simp [hnone]
  next hnil => simp [hnil]
  next first rest hsome =>
    simp only [hsome, Option.some.injEq, List.cons.injEq, Fallible.bind_eq_ok, safeIpLoop_eq_ok,
      List.head?_cons, Option.map_some, Option.none_or]
    constructor
    · rintro ⟨found, ⟨hall, rfl⟩, hfound⟩
      exact ⟨first, rest, ⟨⟨rfl, rfl⟩, hall⟩, (Fallible.pure_eq_ok.mp hfound).symm⟩
    · rintro ⟨_, _, ⟨⟨rfl, rfl⟩, hall⟩, rfl⟩
      exact ⟨_, ⟨hall, rfl⟩, rfl⟩

/-- A host that does not resolve safely is refused by the guard. -/
theorem resolveSafeIp_refused {host : String} {port : Option ℕ}
    (haddresses : ∀ infos, resolver.getaddrinfo host (portOrHttps port) = some infos →
      ListsAddresses resolver infos)
    (hrefused : ¬∃ first rest, ResolvesSafely resolver host port first rest) :
    ∃ message, resolveSafeIp resolver host port = .error (egressNotAllowed message) := by
  unfold resolveSafeIp
  split
  next => exact ⟨_, rfl⟩
  next => exact ⟨_, rfl⟩
  next first rest hsome =>
    have hblocked : ∃ info ∈ first :: rest, ¬Routable resolver info := by
      by_contra hnone
      push Not at hnone
      exact hrefused ⟨first, rest, hsome, hnone⟩
    obtain ⟨message, hmessage⟩ := safeIpLoop_refused (haddresses _ hsome) hblocked none
    exact ⟨message, by rw [hmessage]; rfl⟩

end resolver

/-- The `Host` header of a URL: its host, and its port where one is explicit. -/
def hostHeaderOf (u : Url) : String :=
  match u.port with
  | some port => u.host ++ ":" ++ toString port
  | none => u.host

/-- A request is pinned exactly when the policy admits its URL and its host resolves to addresses that may
    all be connected to. It then goes to the first of them, under the validated URL with no other part
    exchanged than the host, which `Host` header and SNI still name. Anything else the guard refuses. -/
theorem preparePinned_iff_routable (parse : String → Except PyError Url) (lower : String → String)
    (resolver : Resolver) (policy : EgressPolicy) (url : String) :
    ((∃ request, preparePinned parse lower resolver policy url = .ok request) ↔
      ∃ u first rest, prepareValidated parse lower policy url = .ok u ∧
        ResolvesSafely resolver u.host u.port first rest) ∧
    (∀ request, preparePinned parse lower resolver policy url = .ok request →
      ∃ u first rest, prepareValidated parse lower policy url = .ok u ∧
        ResolvesSafely resolver u.host u.port first rest ∧
        request.url = { u with host := before '%' first } ∧ request.hostHeader = hostHeaderOf u ∧
        request.sniHostname = u.host) ∧
    (∀ u infos info, prepareValidated parse lower policy url = .ok u →
      resolver.getaddrinfo u.host (portOrHttps u.port) = some infos → info ∈ infos →
      ¬Routable resolver info → ∀ request, preparePinned parse lower resolver policy url ≠ .ok request) ∧
    (∀ u, prepareValidated parse lower policy url = .ok u →
      (∀ infos, resolver.getaddrinfo u.host (portOrHttps u.port) = some infos →
        ListsAddresses resolver infos) →
      (¬∃ first rest, ResolvesSafely resolver u.host u.port first rest) →
      ∃ message, preparePinned parse lower resolver policy url = .error (egressNotAllowed message)) := by
  have hpinned : ∀ {request}, preparePinned parse lower resolver policy url = .ok request ↔
      ∃ u first rest, prepareValidated parse lower policy url = .ok u ∧
        ResolvesSafely resolver u.host u.port first rest ∧
        request = ⟨{ u with host := before '%' first }, hostHeaderOf u, u.host⟩ := by
    intro request
    simp only [preparePinned, Fallible.bind_eq_ok, resolveSafeIp_eq_ok, Fallible.pure_eq_ok]
    constructor
    · rintro ⟨u, hu, ip, ⟨first, rest, hsafe, rfl⟩, rfl⟩
      exact ⟨u, first, rest, hu, hsafe, rfl⟩
    · rintro ⟨u, first, rest, hu, hsafe, rfl⟩
      exact ⟨u, hu, _, ⟨first, rest, hsafe, rfl⟩, rfl⟩
  refine ⟨⟨?_, ?_⟩, ?_, ?_, ?_⟩
  · rintro ⟨request, h⟩
    obtain ⟨u, first, rest, hu, hsafe, -⟩ := hpinned.mp h
    exact ⟨u, first, rest, hu, hsafe⟩
  · rintro ⟨u, first, rest, hu, hsafe⟩
    exact ⟨_, hpinned.mpr ⟨u, first, rest, hu, hsafe, rfl⟩⟩
  · intro request h
    obtain ⟨u, first, rest, hu, hsafe, rfl⟩ := hpinned.mp h
    exact ⟨u, first, rest, hu, hsafe, rfl, rfl, rfl⟩
  · intro u infos info hu hinfos hinfo hblocked request h
    obtain ⟨v, first, rest, hv, ⟨hanswer, hall⟩, -⟩ := hpinned.mp h
    cases hv.symm.trans hu
    cases hanswer.symm.trans hinfos
    exact hblocked (hall info hinfo)
  · intro u hu haddresses hrefused
    obtain ⟨message, hmessage⟩ := resolveSafeIp_refused haddresses hrefused
    exact ⟨message, by rw [preparePinned, hu, Fallible.ok_bind, hmessage]; rfl⟩

end Atlas
