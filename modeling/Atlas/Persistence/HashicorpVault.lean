import Atlas.Governance.Credentials

/-! The durable credential vault. A secret lies under a path of base64 segments, and a path forgets the
    white space around an organisation and a user. As long as no two principals differ in that only, and
    none has a blank user, the vault answers every history of calls as the in-memory one does, and what a
    principal sees depends on the calls of its own identity only (`vaultIsolates_iff`). The key-value
    store is a faithful map from paths to secrets. -/

namespace Atlas

open Text

/-- The secret of a credential; a timestamp stands for its ISO text. -/
structure VaultSecret where
  accessToken : String
  refreshToken : Option String
  tokenType : String
  scopes : List String
  expiresAt : Option ExpiresAt
  metadata : Dict String String

def serializeCredential (credential : StoredCredential) : VaultSecret where
  accessToken := credential.accessToken
  refreshToken := credential.refreshToken
  tokenType := credential.tokenType
  scopes := credential.scopes
  expiresAt := credential.expiresAt
  metadata := credential.metadata

/-- `_parse_expires_at`: a naive timestamp is taken as UTC. -/
def parseExpiresAt (t : ExpiresAt) : ExpiresAt := { t with offset := some (t.offset.getD 0) }

def deserializeCredential (provider : OAuthProvider) (secret : VaultSecret) : StoredCredential where
  provider := provider
  scopes := secret.scopes
  accessToken := secret.accessToken
  refreshToken := secret.refreshToken
  expiresAt := secret.expiresAt.map parseExpiresAt
  tokenType := (orNone secret.tokenType).getD "Bearer"
  metadata := secret.metadata

/-- The mount of the secrets engine, without slashes at its ends. -/
structure VaultMount where
  name : String
  stripped : stripBy (· == '/') name = name

/-- `settings.vault_mount.strip("/") or "secret"`. -/
def vaultMount (setting : String) : VaultMount where
  name := (orNone (stripBy (· == '/') setting)).getD "secret"
  stripped := by
    rw [orNone]
    split
    · rw [Option.getD_none]; decide
    · rw [Option.getD_some, stripBy_stripBy]

/-- The secrets, by path. -/
abbrev Kv := Dict String VaultSecret

/-- The names directly under a folder, a slash after those of folders; none if there are none. -/
def kvList (kv : Kv) (folder : String) : Option (List String) :=
  let names := ((kv.keys.filter (hasPrefix (folder ++ "/"))).map fun key =>
    let rest := dropChars (folder ++ "/").length key
    before '/' rest ++ if '/' ∈ rest.toList then "/" else "").dedup
  if names = [] then none else some names

/-- `_relative_path`. -/
def relativePath (mount : VaultMount) (orgId userId : String) (provider : OAuthProvider) :
    Except PyError String := do
  let full ← credentialSecretPath mount.name orgId userId provider
  return removePrefix (mount.name ++ "/") full

/-- The folder of a principal's credentials. -/
def listFolder (orgId userId : String) : Except PyError String := do
  let org ← vaultPathSegment orgId
  let user ← vaultPathSegment userId
  return "atlas/credentials/" ++ org ++ "/" ++ user

/-- The path of a principal's credential, once it may have any. -/
def scopedPath (mount : VaultMount) (principal : Principal) (provider : OAuthProvider) :
    Except PyError String := do
  let org ← requireOrgId principal
  assertPrincipalScope principal org principal.userId
  relativePath mount org principal.userId provider

def scopedFolder (principal : Principal) : Except PyError String := do
  let org ← requireOrgId principal
  assertPrincipalScope principal org principal.userId
  listFolder org principal.userId

/-- The providers a listing names; other names are skipped. -/
def connectedProviders (names : List String) : List OAuthProvider :=
  names.filterMap fun name => OAuthProvider.ofValue? (stripBy (· == '/') name)

/-- `HashiCorpCredentialVault`. -/
def hashiCorpCredentialVault (mount : VaultMount) : CredentialVault Kv where
  put principal provider credential kv :=
    match scopedPath mount principal provider with
    | .error e => (.error e, kv)
    | .ok path => (.ok (), kv.set path (serializeCredential credential))
  get principal provider kv :=
    match scopedPath mount principal provider with
    | .error e => (.error e, kv)
    | .ok path => (.ok ((kv.get? path).map (deserializeCredential provider)), kv)
  delete principal provider kv :=
    match scopedPath mount principal provider with
    | .error e => (.error e, kv)
    | .ok path => (.ok (), kv.filterKeys (· != path))
  listConnected principal kv :=
    match scopedFolder principal with
    | .error e => (.error e, kv)
    | .ok folder => (.ok (sortProviders (connectedProviders ((kvList kv folder).getD []))), kv)

/-! ### Histories of calls -/

inductive VaultOp where
  | put (principal : Principal) (provider : OAuthProvider) (credential : StoredCredential)
  | get (principal : Principal) (provider : OAuthProvider)
  | delete (principal : Principal) (provider : OAuthProvider)
  | list (principal : Principal)

def VaultOp.principal : VaultOp → Principal
  | .put p _ _ | .get p _ | .delete p _ | .list p => p

inductive VaultAnswer where
  | done
  | credential (c : Option StoredCredential)
  | providers (ps : List OAuthProvider)

variable {V : Type}

/-- One call. -/
def CredentialVault.call (vault : CredentialVault V) : VaultOp → V → Except PyError VaultAnswer × V
  | .put p provider c, v => ((vault.put p provider c v).1.map fun _ => .done, (vault.put p provider c v).2)
  | .get p provider, v => ((vault.get p provider v).1.map .credential, (vault.get p provider v).2)
  | .delete p provider, v => ((vault.delete p provider v).1.map fun _ => .done, (vault.delete p provider v).2)
  | .list p, v => ((vault.listConnected p v).1.map .providers, (vault.listConnected p v).2)

/-- The calls of a history, each with its answer. -/
def CredentialVault.history (vault : CredentialVault V) :
    List VaultOp → V → List (VaultOp × Except PyError VaultAnswer)
  | [], _ => []
  | op :: ops, v => (op, (vault.call op v).1) :: vault.history ops (vault.call op v).2

/-- What a credential looks like after a trip through the vault. -/
def reread : VaultOp × Except PyError VaultAnswer → VaultOp × Except PyError VaultAnswer
  | (.get p provider, .ok (.credential c)) =>
    (.get p provider, .ok (.credential (c.map fun c => deserializeCredential provider (serializeCredential c))))
  | call => call

/-- The organisation and the user of a principal. -/
def Principal.identity (p : Principal) : Option String × String := (p.orgId, p.userId)

/-- The durable vault keeps the identities of a set of principals apart: their paths and folders differ,
    every history of their calls is answered as in memory, and the answers to one identity do not
    depend on the calls of the others. -/
structure VaultIsolates (mount : VaultMount) (principals : Set Principal) : Prop where
  paths : ∀ p ∈ principals, ∀ q ∈ principals, ∀ o o', requireOrgId p = .ok o → requireOrgId q = .ok o' →
    p.identity ≠ q.identity →
    (∀ provider provider', ∃ path path', credentialSecretPath mount.name o p.userId provider = .ok path ∧
      credentialSecretPath mount.name o' q.userId provider' = .ok path' ∧ path ≠ path') ∧
    ∃ folder folder', listFolder o p.userId = .ok folder ∧ listFolder o' q.userId = .ok folder' ∧
      folder ≠ folder'
  agrees : ∀ ops : List VaultOp, (∀ op ∈ ops, op.principal ∈ principals) →
    (hashiCorpCredentialVault mount).history ops Dict.empty =
      (inMemoryCredentialVault.history ops Dict.empty).map reread
  isolated : ∀ (ops : List VaultOp) (p : Principal), (∀ op ∈ ops, op.principal ∈ principals) →
    ((hashiCorpCredentialVault mount).history ops Dict.empty).filter (·.1.principal.identity == p.identity) =
      (hashiCorpCredentialVault mount).history
        (ops.filter (·.principal.identity == p.identity)) Dict.empty

/-- Users are not blank, and identities that differ still do without the white space at their ends. -/
structure SegmentsSeparate (principals : Set Principal) : Prop where
  nonblank : ∀ p ∈ principals, ∀ o, requireOrgId p = .ok o → strip p.userId ≠ ""
  separate : ∀ p ∈ principals, ∀ q ∈ principals, ∀ o o', requireOrgId p = .ok o → requireOrgId q = .ok o' →
    strip o = strip o' → strip p.userId = strip q.userId → p.identity = q.identity

/-! ### Paths -/

/-- The path of a credential, from its segments. -/
def secretPath (org user : String) (provider : OAuthProvider) : String :=
  "atlas/credentials/" ++ org ++ "/" ++ user ++ "/" ++ provider.value

def folderPath (org user : String) : String := "atlas/credentials/" ++ org ++ "/" ++ user

/-- Segments without slashes can be read off a path. -/
theorem segments_of_path {a b t a' b' t' : String} (ha : '/' ∉ a.toList) (ha' : '/' ∉ a'.toList)
    (hb : '/' ∉ b.toList) (hb' : '/' ∉ b'.toList)
    (h : "atlas/credentials/" ++ a ++ "/" ++ b ++ "/" ++ t = "atlas/credentials/" ++ a' ++ "/" ++ b' ++ "/" ++ t') :
    a = a' ∧ b = b' ∧ t = t' := by
  have hsep : "/".toList = ['/'] := by decide
  simp only [String.append_assoc, String.append_right_inj] at h
  obtain ⟨rfl, hrest⟩ := append_separator_inj hsep ha ha' h
  obtain ⟨rfl, rfl⟩ := append_separator_inj hsep hb hb' hrest
  exact ⟨rfl, rfl, rfl⟩

variable {mount : VaultMount} {principals : Set Principal}

/-- The paths of a principal with an organisation, from its segments. -/
theorem paths_of_segments (mount : VaultMount) {p : Principal} {o a b : String} (ho : requireOrgId p = .ok o)
    (ha : vaultPathSegment o = .ok a) (hb : vaultPathSegment p.userId = .ok b) (provider : OAuthProvider) :
    credentialSecretPath mount.name o p.userId provider = .ok (mount.name ++ "/" ++ secretPath a b provider) ∧
    listFolder o p.userId = .ok (folderPath a b) ∧
    scopedPath mount p provider = .ok (secretPath a b provider) ∧
    scopedFolder p = .ok (folderPath a b) := by
  have hpath : credentialSecretPath mount.name o p.userId provider =
      .ok (mount.name ++ "/" ++ secretPath a b provider) := by
    rw [credentialSecretPath, ha, hb, mount.stripped]
    rfl
  have hfolder : listFolder o p.userId = .ok (folderPath a b) := by
    rw [listFolder, ha, hb]
    rfl
  have hscope := assertPrincipalScope_self ho
  refine ⟨hpath, hfolder, ?_, ?_⟩
  · rw [scopedPath, ho, Fallible.ok_bind, hscope, Fallible.ok_bind, relativePath, hpath, Fallible.ok_bind,
      removePrefix_append]
    rfl
  · rw [scopedFolder, ho, Fallible.ok_bind, hscope, Fallible.ok_bind, hfolder]

/-- Paths with the same segments for organisation and user, and folders, tell those of two principals
    apart exactly as the stripped texts do. -/
theorem secretPath_inj {s s' u u' a a' b b' : String} {provider provider' : OAuthProvider}
    (ha : vaultPathSegment s = .ok a) (ha' : vaultPathSegment s' = .ok a')
    (hb : vaultPathSegment u = .ok b) (hb' : vaultPathSegment u' = .ok b')
    (h : secretPath a b provider = secretPath a' b' provider') :
    strip s = strip s' ∧ strip u = strip u' ∧ provider = provider' := by
  obtain ⟨rfl, rfl, hvalue⟩ := segments_of_path (slash_not_mem_segment ha) (slash_not_mem_segment ha')
    (slash_not_mem_segment hb) (slash_not_mem_segment hb') h
  exact ⟨strip_eq_of_segment ha ha', strip_eq_of_segment hb hb', OAuthProvider.value_injective hvalue⟩

theorem folderPath_inj {s s' u u' a a' b b' : String}
    (ha : vaultPathSegment s = .ok a) (ha' : vaultPathSegment s' = .ok a')
    (hb : vaultPathSegment u = .ok b) (hb' : vaultPathSegment u' = .ok b')
    (h : folderPath a b = folderPath a' b') : strip s = strip s' ∧ strip u = strip u' := by
  have hpath : secretPath a b .google = secretPath a' b' .google := congrArg (· ++ "/" ++ "google") h
  obtain ⟨hs, hu, -⟩ := secretPath_inj ha ha' hb hb' hpath
  exact ⟨hs, hu⟩

/-- A principal with an organisation and a user has segments. -/
theorem exists_segments {p : Principal} {o : String} (ho : requireOrgId p = .ok o)
    (huser : strip p.userId ≠ "") :
    ∃ a b, vaultPathSegment o = .ok a ∧ vaultPathSegment p.userId = .ok b :=
  ⟨_, _, vaultPathSegment_eq_ok.mpr ⟨(requireOrgId_eq_ok.mp ho).2, rfl⟩,
    vaultPathSegment_eq_ok.mpr ⟨huser, rfl⟩⟩

/-! ### Listings -/

/-- What a listing of provider names connects. -/
theorem mem_connectedProviders {names : List String} (h : ∀ n ∈ names, ∃ p : OAuthProvider, n = p.value)
    (p : OAuthProvider) : p ∈ connectedProviders names ↔ p.value ∈ names := by
  have hname : ∀ q : OAuthProvider, OAuthProvider.ofValue? (stripBy (· == '/') q.value) = some q := by
    intro q
    cases q <;> decide
  rw [connectedProviders, List.mem_filterMap]
  constructor
  · rintro ⟨n, hn, hp⟩
    obtain ⟨q, rfl⟩ := h n hn
    rw [hname, Option.some.injEq] at hp
    rwa [← hp]
  · exact fun hp => ⟨_, hp, hname p⟩

theorem nodup_connectedProviders {names : List String} (h : ∀ n ∈ names, ∃ p : OAuthProvider, n = p.value)
    (hnodup : names.Nodup) : (connectedProviders names).Nodup := by
  induction names with
  | nil => exact List.nodup_nil
  | cons n names ih =>
    obtain ⟨p, rfl⟩ := h n List.mem_cons_self
    have htail : ∀ n ∈ names, ∃ p : OAuthProvider, n = p.value := fun n hn => h n (List.mem_cons_of_mem _ hn)
    rw [List.nodup_cons] at hnodup
    have hcons : connectedProviders (p.value :: names) = p :: connectedProviders names := by
      cases p <;> rfl
    rw [hcons, List.nodup_cons, mem_connectedProviders htail]
    exact ⟨hnodup.1, ih htail hnodup.2⟩

/-! ### The durable vault against the in-memory one -/

/-- The durable store holds what the in-memory one does, each credential under its path. -/
structure Refines (mount : VaultMount) (principals : Set Principal) (store : MemoryStore) (kv : Kv) : Prop where
  read : ∀ p ∈ principals, ∀ o path provider, requireOrgId p = .ok o → scopedPath mount p provider = .ok path →
    kv.get? path = (store.get? (o, p.userId, provider)).map serializeCredential
  keys : ∀ key ∈ kv.keys, ∃ p ∈ principals, ∃ provider, scopedPath mount p provider = .ok key

/-- A scoped path is made of the segments of its principal. -/
theorem scopedPath_eq_ok {p : Principal} {provider : OAuthProvider} {path : String}
    (h : scopedPath mount p provider = .ok path) :
    ∃ o a b, requireOrgId p = .ok o ∧ vaultPathSegment o = .ok a ∧ vaultPathSegment p.userId = .ok b ∧
      path = secretPath a b provider := by
  have hparts := h
  simp only [scopedPath, relativePath, credentialSecretPath, Fallible.bind_eq_ok, Fallible.pure_eq_ok] at hparts
  obtain ⟨o, ho, -, -, -, ⟨a, ha, b, hb, -⟩, -⟩ := hparts
  rw [(paths_of_segments mount ho ha hb provider).2.2.1, Except.ok.injEq] at h
  exact ⟨o, a, b, ho, ha, hb, h.symm⟩

section listing
variable {store : MemoryStore} {kv : Kv} {p : Principal} {o a b : String}

/-- A listing names the providers under the folder. -/
theorem mem_kvList (h : Refines mount principals store kv) (ha : vaultPathSegment o = .ok a)
    (hb : vaultPathSegment p.userId = .ok b) (n : String) :
    n ∈ (kvList kv (folderPath a b)).getD [] ↔
      ∃ provider : OAuthProvider, n = provider.value ∧ secretPath a b provider ∈ kv.keys := by
  have hname : ∀ q : OAuthProvider,
      before '/' q.value ++ (if '/' ∈ q.value.toList then "/" else "") = q.value := by
    intro q
    cases q <;> decide
  have hpath : ∀ q, secretPath a b q = folderPath a b ++ "/" ++ q.value := fun _ => rfl
  have hlist : (kvList kv (folderPath a b)).getD [] = ((kv.keys.filter
      (hasPrefix (folderPath a b ++ "/"))).map fun key =>
        let rest := dropChars (folderPath a b ++ "/").length key
        before '/' rest ++ if '/' ∈ rest.toList then "/" else "").dedup := by
    rw [kvList]
    split
    next hempty => exact hempty.symm
    next => rfl
  rw [hlist, List.mem_dedup, List.mem_map]
  constructor
  · rintro ⟨key, hkey, rfl⟩
    obtain ⟨hkey, hprefix⟩ := List.mem_filter.mp hkey
    obtain ⟨t, rfl⟩ := hasPrefix_iff.mp hprefix
    obtain ⟨q, -, provider, hq⟩ := h.keys _ hkey
    obtain ⟨o', a', b', -, ha', hb', heq⟩ := scopedPath_eq_ok hq
    obtain ⟨-, -, rfl⟩ := segments_of_path (slash_not_mem_segment ha) (slash_not_mem_segment ha')
      (slash_not_mem_segment hb) (slash_not_mem_segment hb') heq
    refine ⟨provider, ?_, hpath provider ▸ hkey⟩
    simp only [dropChars_append]
    exact hname provider
  · rintro ⟨provider, rfl, hkey⟩
    refine ⟨_, List.mem_filter.mpr ⟨hkey, ?_⟩, ?_⟩
    · rw [hpath]; exact hasPrefix_append _ _
    · simp only [hpath, dropChars_append]
      exact hname provider

theorem mem_memoryListing (store : MemoryStore) (o u : String) (q : OAuthProvider) :
    q ∈ ((store.keys.filter fun k => k.1 == o && k.2.1 == u).map (·.2.2)).dedup ↔
      (store.get? (o, u, q)).isSome = true := by
  rw [← Dict.mem_keys_iff]
  simp only [List.mem_dedup, List.mem_map, List.mem_filter, Bool.and_eq_true, beq_iff_eq]
  constructor
  · rintro ⟨⟨o', u', q'⟩, ⟨hmem, rfl, rfl⟩, rfl⟩
    exact hmem
  · exact fun hmem => ⟨_, ⟨hmem, rfl, rfl⟩, rfl⟩

/-- Both vaults connect the same providers. -/
theorem sortProviders_listing (h : Refines mount principals store kv) (hp : p ∈ principals)
    (ho : requireOrgId p = .ok o) (ha : vaultPathSegment o = .ok a) (hb : vaultPathSegment p.userId = .ok b) :
    sortProviders (connectedProviders ((kvList kv (folderPath a b)).getD [])) =
      sortProviders ((store.keys.filter fun k => k.1 == o && k.2.1 == p.userId).map (·.2.2)).dedup := by
  have hnames : ∀ n ∈ (kvList kv (folderPath a b)).getD [], ∃ q : OAuthProvider, n = q.value := by
    intro n hn
    obtain ⟨q, hq, -⟩ := (mem_kvList h ha hb n).mp hn
    exact ⟨q, hq⟩
  have hnodup : ((kvList kv (folderPath a b)).getD []).Nodup := by
    rw [kvList]
    split
    · exact List.nodup_nil
    · exact List.nodup_dedup _
  refine sortProviders_congr (nodup_connectedProviders hnames hnodup) (List.nodup_dedup _) fun q => ?_
  have hread := h.read p hp o _ q ho (paths_of_segments mount ho ha hb q).2.2.1
  have hkv : q ∈ connectedProviders ((kvList kv (folderPath a b)).getD []) ↔
      secretPath a b q ∈ kv.keys := by
    rw [mem_connectedProviders hnames, mem_kvList h ha hb]
    constructor
    · rintro ⟨provider, hvalue, hmem⟩
      rwa [OAuthProvider.value_injective hvalue]
    · exact fun hmem => ⟨q, rfl, hmem⟩
  rw [hkv, mem_memoryListing, Dict.mem_keys_iff, hread, Option.isSome_map]

end listing

/-- Two principals of the set have one path exactly for one key. -/
theorem path_eq_iff (hsep : SegmentsSeparate principals) {p q : Principal} (hp : p ∈ principals)
    (hq : q ∈ principals) {o o' path path' : String} {provider provider' : OAuthProvider}
    (ho : requireOrgId p = .ok o) (ho' : requireOrgId q = .ok o')
    (hpath : scopedPath mount p provider = .ok path) (hpath' : scopedPath mount q provider' = .ok path') :
    path' = path ↔ (o', q.userId, provider') = (o, p.userId, provider) := by
  obtain ⟨o₁, a, b, ho₁, ha, hb, rfl⟩ := scopedPath_eq_ok hpath
  obtain ⟨o₂, a', b', ho₂, ha', hb', rfl⟩ := scopedPath_eq_ok hpath'
  cases ho.symm.trans ho₁
  cases ho'.symm.trans ho₂
  constructor
  · intro heq
    obtain ⟨horg, huser, rfl⟩ := secretPath_inj ha' ha hb' hb heq
    have hid := hsep.separate q hq p hp _ _ ho' ho horg huser
    rw [Principal.identity, Principal.identity, (requireOrgId_eq_ok.mp ho).1,
      (requireOrgId_eq_ok.mp ho').1, Prod.mk.injEq, Option.some.injEq] at hid
    rw [hid.1, hid.2]
  · intro heq
    simp only [Prod.mk.injEq] at heq
    obtain ⟨rfl, huser, rfl⟩ := heq
    rw [huser, hb] at hb'
    rw [ha] at ha'
    cases ha'
    cases hb'
    rfl

/-- Writing under one key of both stores, or deleting it, keeps them in step. -/
theorem Refines.write (hsep : SegmentsSeparate principals) {store store' : MemoryStore} {kv kv' : Kv}
    (h : Refines mount principals store kv) {p : Principal} (hp : p ∈ principals) {o path : String}
    {provider : OAuthProvider} (ho : requireOrgId p = .ok o) (hpath : scopedPath mount p provider = .ok path)
    (v : Option StoredCredential)
    (hstore : ∀ k, store'.get? k = if k = (o, p.userId, provider) then v else store.get? k)
    (hkv : ∀ key, kv'.get? key = if key = path then v.map serializeCredential else kv.get? key) :
    Refines mount principals store' kv' := by
  constructor
  · intro q hq o' path' provider' ho' hpath'
    have hiff := path_eq_iff hsep hp hq ho ho' hpath hpath'
    rw [hkv, hstore]
    by_cases heq : path' = path
    · rw [if_pos heq, if_pos (hiff.mp heq)]
    · rw [if_neg heq, if_neg (fun hkey => heq (hiff.mpr hkey))]
      exact h.read q hq o' path' provider' ho' hpath'
  · intro key hkey
    rw [Dict.mem_keys_iff, hkv] at hkey
    split at hkey
    next heq => exact ⟨p, hp, provider, heq ▸ hpath⟩
    next => exact h.keys key (Dict.mem_keys_iff.mpr hkey)

/-- What a call with an organisation does in memory. -/
theorem memory_call {p : Principal} {o : String} (ho : requireOrgId p = .ok o) (store : MemoryStore) :
    (∀ provider c, inMemoryCredentialVault.call (.put p provider c) store =
      (.ok .done, store.set (o, p.userId, provider) c)) ∧
    (∀ provider, inMemoryCredentialVault.call (.get p provider) store =
      (.ok (.credential (store.get? (o, p.userId, provider))), store)) ∧
    (∀ provider, inMemoryCredentialVault.call (.delete p provider) store =
      (.ok .done, store.filterKeys (· != (o, p.userId, provider)))) ∧
    inMemoryCredentialVault.call (.list p) store =
      (.ok (.providers (sortProviders ((store.keys.filter fun k => k.1 == o && k.2.1 == p.userId).map
        (·.2.2)).dedup)), store) := by
  simp only [CredentialVault.call, inMemoryCredentialVault, ho, Except.map, implies_true, and_self]

/-- A call without an organisation is refused, in memory and in the durable vault. -/
theorem memory_refused {op : VaultOp} {e : PyError} (ho : requireOrgId op.principal = .error e)
    (store : MemoryStore) : inMemoryCredentialVault.call op store = (.error e, store) := by
  cases op <;> rw [VaultOp.principal] at ho <;>
    simp only [CredentialVault.call, inMemoryCredentialVault, ho, Except.map]

theorem durable_refused {op : VaultOp} {e : PyError} (ho : requireOrgId op.principal = .error e) (kv : Kv) :
    (hashiCorpCredentialVault mount).call op kv = (.error e, kv) := by
  have hpath : ∀ provider, scopedPath mount op.principal provider = .error e := by
    intro provider
    rw [scopedPath, ho]; rfl
  have hfolder : scopedFolder op.principal = .error e := by
    rw [scopedFolder, ho]; rfl
  cases op <;> rw [VaultOp.principal] at hpath hfolder <;>
    simp only [CredentialVault.call, hashiCorpCredentialVault, hpath, hfolder, Except.map]

/-- What a call with segments does in the durable vault. -/
theorem durable_call {p : Principal} {a b : String}
    (hpath : ∀ provider, scopedPath mount p provider = .ok (secretPath a b provider))
    (hfolder : scopedFolder p = .ok (folderPath a b)) (kv : Kv) :
    (∀ provider c, (hashiCorpCredentialVault mount).call (.put p provider c) kv =
      (.ok .done, kv.set (secretPath a b provider) (serializeCredential c))) ∧
    (∀ provider, (hashiCorpCredentialVault mount).call (.get p provider) kv =
      (.ok (.credential ((kv.get? (secretPath a b provider)).map (deserializeCredential provider))), kv)) ∧
    (∀ provider, (hashiCorpCredentialVault mount).call (.delete p provider) kv =
      (.ok .done, kv.filterKeys (· != secretPath a b provider))) ∧
    (hashiCorpCredentialVault mount).call (.list p) kv =
      (.ok (.providers (sortProviders (connectedProviders ((kvList kv (folderPath a b)).getD [])))), kv) := by
  simp only [CredentialVault.call, hashiCorpCredentialVault, hpath, hfolder, Except.map, implies_true, and_self]

/-- One call keeps the stores in step and is answered as in memory. -/
theorem call_refines (hsep : SegmentsSeparate principals) {store : MemoryStore} {kv : Kv}
    (h : Refines mount principals store kv) (op : VaultOp) (hop : op.principal ∈ principals) :
    (op, ((hashiCorpCredentialVault mount).call op kv).1) =
      reread (op, (inMemoryCredentialVault.call op store).1) ∧
    Refines mount principals (inMemoryCredentialVault.call op store).2
      ((hashiCorpCredentialVault mount).call op kv).2 := by
  cases ho : requireOrgId op.principal with
  | error e =>
    rw [memory_refused ho, durable_refused ho]
    exact ⟨by cases op <;> rfl, h⟩
  | ok o =>
    obtain ⟨a, b, ha, hb⟩ := exists_segments ho (hsep.nonblank _ hop o ho)
    have hfolder := (paths_of_segments mount ho ha hb .google).2.2.2
    have hpath : ∀ provider, scopedPath mount op.principal provider = .ok (secretPath a b provider) :=
      fun provider => (paths_of_segments mount ho ha hb provider).2.2.1
    obtain ⟨hput, hget, hdelete, hlist⟩ := memory_call ho store
    obtain ⟨hput', hget', hdelete', hlist'⟩ := durable_call hpath hfolder kv
    cases op with
    | put p provider c =>
      rw [VaultOp.principal] at *
      rw [hput, hput']
      exact ⟨rfl, h.write hsep hop ho (hpath provider) (some c) (fun k => Dict.get?_set store _ k c)
        fun key => Dict.get?_set kv _ key _⟩
    | get p provider =>
      rw [VaultOp.principal] at *
      rw [hget, hget', h.read p hop o _ provider ho (hpath provider), Option.map_map]
      exact ⟨rfl, h⟩
    | delete p provider =>
      rw [VaultOp.principal] at *
      rw [hdelete, hdelete']
      refine ⟨rfl, h.write hsep hop ho (hpath provider) none (fun k => ?_) fun key => ?_⟩
      · rw [Dict.get?_filterKeys]; simp
      · rw [Dict.get?_filterKeys]; simp
    | list p =>
      rw [VaultOp.principal] at *
      rw [hlist, hlist', sortProviders_listing h hop ho ha hb]
      exact ⟨rfl, h⟩

theorem history_refines (hsep : SegmentsSeparate principals) {store : MemoryStore} {kv : Kv}
    (h : Refines mount principals store kv) {ops : List VaultOp} (hops : ∀ op ∈ ops, op.principal ∈ principals) :
    (hashiCorpCredentialVault mount).history ops kv = (inMemoryCredentialVault.history ops store).map reread := by
  induction ops generalizing store kv with
  | nil => rfl
  | cons op ops ih =>
    rw [List.forall_mem_cons] at hops
    obtain ⟨hanswer, hnext⟩ := call_refines hsep h op hops.1
    rw [CredentialVault.history, CredentialVault.history, List.map_cons, hanswer, ih hnext hops.2]

theorem refines_empty : Refines mount principals Dict.empty Dict.empty :=
  ⟨fun _ _ _ _ _ _ _ => rfl, fun _ hkey => by cases hkey⟩

/-! ### In memory, identities are apart -/

/-- Two stores hold the same for an identity. -/
def SameFor (i : Option String × String) (store store' : MemoryStore) : Prop :=
  ∀ o u provider, (some o, u) = i → store.get? (o, u, provider) = store'.get? (o, u, provider)

/-- A call of another identity leaves what is held for this one. -/
theorem sameFor_of_other {i : Option String × String} {op : VaultOp} (hop : op.principal.identity ≠ i)
    (store : MemoryStore) : SameFor i (inMemoryCredentialVault.call op store).2 store := by
  intro o u provider hi
  cases ho : requireOrgId op.principal with
  | error e => rw [memory_refused ho]
  | ok org =>
    have hkey : ∀ provider', (o, u, provider) ≠ (org, op.principal.userId, provider') := by
      intro provider' heq
      simp only [Prod.mk.injEq] at heq
      obtain ⟨rfl, rfl, -⟩ := heq
      exact hop (by rw [← hi, Principal.identity, (requireOrgId_eq_ok.mp ho).1])
    obtain ⟨hput, hget, hdelete, hlist⟩ := memory_call ho store
    cases op with
    | put p provider' c =>
      rw [VaultOp.principal] at *
      rw [hput]
      exact Dict.get?_set_ne store c (hkey provider')
    | get p provider' => rw [VaultOp.principal] at *; rw [hget]
    | delete p provider' =>
      rw [VaultOp.principal] at *
      rw [hdelete, Dict.get?_filterKeys, if_pos (by simpa using hkey provider')]
    | list p => rw [VaultOp.principal] at *; rw [hlist]

/-- A call is answered from what is held for its identity, and writes nothing else. -/
theorem call_of_sameFor {i : Option String × String} {op : VaultOp} (hop : op.principal.identity = i)
    {store store' : MemoryStore} (h : SameFor i store store') :
    (inMemoryCredentialVault.call op store).1 = (inMemoryCredentialVault.call op store').1 ∧
      SameFor i (inMemoryCredentialVault.call op store).2 (inMemoryCredentialVault.call op store').2 := by
  cases ho : requireOrgId op.principal with
  | error e =>
    rw [memory_refused ho, memory_refused ho]
    exact ⟨rfl, h⟩
  | ok org =>
    have hread : ∀ q, store.get? (org, op.principal.userId, q) = store'.get? (org, op.principal.userId, q) :=
      fun q => h org op.principal.userId q (by rw [← hop, Principal.identity, (requireOrgId_eq_ok.mp ho).1])
    obtain ⟨hput, hget, hdelete, hlist⟩ := memory_call ho store
    obtain ⟨hput', hget', hdelete', hlist'⟩ := memory_call ho store'
    cases op with
    | put p provider c =>
      rw [VaultOp.principal] at *
      rw [hput, hput']
      refine ⟨rfl, fun o u q hi => ?_⟩
      rw [Dict.get?_set, Dict.get?_set, h o u q hi]
    | get p provider =>
      rw [VaultOp.principal] at *
      rw [hget, hget', hread]
      exact ⟨rfl, h⟩
    | delete p provider =>
      rw [VaultOp.principal] at *
      rw [hdelete, hdelete']
      refine ⟨rfl, fun o u q hi => ?_⟩
      rw [Dict.get?_filterKeys, Dict.get?_filterKeys, h o u q hi]
    | list p =>
      rw [VaultOp.principal] at *
      have hlisted := sortProviders_congr (List.nodup_dedup _) (List.nodup_dedup _) fun q =>
        (mem_memoryListing store org p.userId q).trans
          ((by rw [hread] : _ ↔ _).trans (mem_memoryListing store' org p.userId q).symm)
      rw [hlist, hlist', hlisted]
      exact ⟨rfl, h⟩

/-- The answers to one identity are those of its own history. -/
theorem memory_isolated {i : Option String × String} {store store' : MemoryStore} (h : SameFor i store store')
    (ops : List VaultOp) :
    (inMemoryCredentialVault.history ops store).filter (·.1.principal.identity == i) =
      inMemoryCredentialVault.history (ops.filter (·.principal.identity == i)) store' := by
  induction ops generalizing store store' with
  | nil => rfl
  | cons op ops ih =>
    by_cases hop : op.principal.identity = i
    · obtain ⟨hanswer, hnext⟩ := call_of_sameFor hop h
      rw [CredentialVault.history, List.filter_cons_of_pos (by simpa using hop),
        List.filter_cons_of_pos (by simpa using hop), CredentialVault.history, hanswer, ih hnext]
    · have hnext : SameFor i (inMemoryCredentialVault.call op store).2 store' := fun o u q hi =>
        (sameFor_of_other hop store o u q hi).trans (h o u q hi)
      rw [CredentialVault.history, List.filter_cons_of_neg (by simpa using hop),
        List.filter_cons_of_neg (by simpa using hop), ih hnext]

/-! ### When the durable vault keeps principals apart -/

theorem fst_reread (x : VaultOp × Except PyError VaultAnswer) : (reread x).1 = x.1 := by
  unfold reread
  split <;> rfl

theorem vaultIsolates_of_separate (hsep : SegmentsSeparate principals) : VaultIsolates mount principals where
  paths p hp q hq o o' ho ho' hne := by
    obtain ⟨a, b, ha, hb⟩ := exists_segments ho (hsep.nonblank p hp o ho)
    obtain ⟨a', b', ha', hb'⟩ := exists_segments ho' (hsep.nonblank q hq o' ho')
    constructor
    · intro provider provider'
      refine ⟨_, _, (paths_of_segments mount ho ha hb provider).1,
        (paths_of_segments mount ho' ha' hb' provider').1, fun heq => hne ?_⟩
      rw [String.append_right_inj] at heq
      obtain ⟨horg, huser, -⟩ := secretPath_inj ha ha' hb hb' heq
      exact hsep.separate p hp q hq o o' ho ho' horg huser
    · refine ⟨_, _, (paths_of_segments mount ho ha hb .google).2.1,
        (paths_of_segments mount ho' ha' hb' .google).2.1, fun heq => hne ?_⟩
      obtain ⟨horg, huser⟩ := folderPath_inj ha ha' hb hb' heq
      exact hsep.separate p hp q hq o o' ho ho' horg huser
  agrees ops hops := history_refines hsep refines_empty hops
  isolated ops p hops := by
    have hfilter : ∀ op ∈ ops.filter (·.principal.identity == p.identity), op.principal ∈ principals :=
      fun op hop => hops op (List.mem_filter.mp hop).1
    rw [history_refines hsep refines_empty hops, history_refines hsep refines_empty hfilter,
      ← memory_isolated (fun _ _ _ _ => rfl : SameFor _ Dict.empty Dict.empty), List.filter_map]
    simp only [Function.comp_def, fst_reread]

theorem separate_of_vaultIsolates (h : VaultIsolates mount principals) : SegmentsSeparate principals := by
  constructor
  · -- a blank user is refused where the in-memory vault answers
    intro p hp o ho hblank
    have hagrees := h.agrees [.get p .google] fun op hop => by rwa [List.mem_singleton.mp hop]
    have hpath : scopedPath mount p .google = .error (credentialAccessError "empty path segment") := by
      rw [scopedPath, ho, Fallible.ok_bind, assertPrincipalScope_self ho, Fallible.ok_bind, relativePath,
        credentialSecretPath, vaultPathSegment_eq_ok.mpr ⟨(requireOrgId_eq_ok.mp ho).2, rfl⟩, vaultPathSegment,
        if_pos hblank]
      rfl
    have hcall : ((hashiCorpCredentialVault mount).call (.get p .google) Dict.empty).1 =
        .error (credentialAccessError "empty path segment") := by
      simp only [CredentialVault.call, hashiCorpCredentialVault, hpath]
      rfl
    simp only [CredentialVault.history, hcall, (memory_call ho Dict.empty).2.1, List.map_cons, reread,
      List.cons.injEq, Prod.mk.injEq, reduceCtorEq, and_false, false_and] at hagrees
  · intro p hp q hq o o' ho ho' horg huser
    by_contra hne
    obtain ⟨hpaths, -⟩ := h.paths p hp q hq o o' ho ho' hne
    obtain ⟨path, path', hpath, hpath', hdiff⟩ := hpaths .google .google
    have hsegment : ∀ s t : String, strip s = strip t → vaultPathSegment s = vaultPathSegment t := by
      intro s t hst
      rw [vaultPathSegment, vaultPathSegment, hst]
    rw [credentialSecretPath, hsegment o o' horg, hsegment p.userId q.userId huser,
      ← credentialSecretPath, hpath', Except.ok.injEq] at hpath
    exact hdiff hpath.symm

/-- The durable vault keeps a set of principals apart, and agrees with the in-memory one, exactly when none
    of those with an organisation has a blank user and no two of them differ in white space at the ends
    only. -/
theorem vaultIsolates_iff (mount : VaultMount) (principals : Set Principal) :
    VaultIsolates mount principals ↔ SegmentsSeparate principals :=
  ⟨separate_of_vaultIsolates, vaultIsolates_of_separate⟩

/-! ### Two users and one path -/

/-- The access token an answer carries. -/
def VaultAnswer.token? : VaultAnswer → Option String
  | .credential c => c.map (·.accessToken)
  | _ => none

/-- A user of an organisation. -/
def acmeUser (userId : String) : Principal := { userId := userId, orgId := some "acme" }

/-- Users `bob` and `bob ` share their path: each reads, overwrites and deletes what the other stored. -/
theorem vault_not_isolated : ¬VaultIsolates (vaultMount "secret") Set.univ ∧
    ((hashiCorpCredentialVault (vaultMount "secret")).history
      [.put (acmeUser "bob ") .google { provider := .google, accessToken := "t" },
        .get (acmeUser "bob") .google, .delete (acmeUser "bob") .google, .get (acmeUser "bob ") .google]
      Dict.empty).map (fun call => call.2.toOption.bind VaultAnswer.token?) = [none, some "t", none, none] := by
  refine ⟨fun h => ?_, by decide +kernel⟩
  have hsame := (separate_of_vaultIsolates h).separate (acmeUser "bob") trivial (acmeUser "bob ") trivial
    "acme" "acme" (requireOrgId_eq_ok.mpr ⟨rfl, by decide⟩) (requireOrgId_eq_ok.mpr ⟨rfl, by decide⟩) rfl
    (by decide)
  exact absurd hsame (by decide)

end Atlas
