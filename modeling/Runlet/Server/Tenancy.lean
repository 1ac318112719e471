import Runlet.Server.Gates

/-!
Tenant isolation behind `resolve_identity`: the partition key, the quota key
and the bytecode namespace of an accepted request all come from its tenant. The
plain sub-mode takes the tenant from a trimmed header, the contract sub-mode
takes the workspace claim as it stands, and an empty namespace is the global
one.
-/

namespace Runlet.Tenancy

open Gates Identity Quota Text

variable {Key : Type}

/-- `cache_namespace.unwrap_or("")`: without a namespace the cache is global. -/
def cacheNamespace (partition : Option String) : String := partition.getD ""

/-- What keeps the tenants of one box apart. -/
structure IsolationKeys where
  partition : Option String
  quota : Option String
  cacheSpace : String
  deriving DecidableEq

/-- The keys of a request; the quota counts under the tenant of the identity,
and the handler hands the partition on as the namespace of the cache. -/
def isolationKeys (identity : Option TrustedIdentity) (callerAsserted : Option String) :
    IsolationKeys :=
  ⟨resolvePartition identity callerAsserted, identity.bind TrustedIdentity.tenant,
    cacheNamespace (resolvePartition identity callerAsserted)⟩

/-- The keys of a request that has neither a tenant nor a partition. -/
def tenantless : IsolationKeys := isolationKeys none none

/-- An accepted request has a tenant that is not blank, and shares none of its
keys with a request that has no tenant. -/
structure Isolated (accepted : Option TrustedIdentity) (callerAsserted : Option String) :
    Prop where
  tenant : ∃ identity tenant, accepted = some identity ∧ identity.tenant = some tenant ∧
    trim tenant ≠ ""
  partition : (isolationKeys accepted callerAsserted).partition ≠ tenantless.partition
  quota : (isolationKeys accepted callerAsserted).quota ≠ tenantless.quota
  cacheSpace : (isolationKeys accepted callerAsserted).cacheSpace ≠ tenantless.cacheSpace

/-- In the contract sub-mode the verified workspace, if there is one, is not
blank. -/
def WorkspaceNamed (trusted : TrustedRuntime Key) (cache : KeyCache Key)
    (headers : HeaderMap) : Prop :=
  ∀ verifier claims workspace, trusted.contract = some verifier →
    ContractYields trusted.headers verifier cache headers claims →
    claims.tenant = some workspace → trim workspace ≠ ""

/-- Header values come trimmed and are never blank. -/
theorem headerValue_not_blank (headers : HeaderMap) (name value : String)
    (hvalue : headerValue headers name = some value) : trim value ≠ "" := by
  unfold headerValue at hvalue
  obtain ⟨hmap, hne⟩ := Option.filter_eq_some_iff.mp hvalue
  obtain ⟨raw, -, rfl⟩ := Option.map_eq_some_iff.mp hmap
  have hsame : trim (trim raw) = trim raw := by
    simp [trim, trimChars_trimChars]
  rw [hsame]
  simpa using hne

/-- A tenant that is not blank isolates the request. -/
theorem isolated_of_named (identity : TrustedIdentity) (tenant : String)
    (callerAsserted : Option String) (htenant : identity.tenant = some tenant)
    (hnamed : trim tenant ≠ "") : Isolated (some identity) callerAsserted := by
  have hne : tenant ≠ "" := by
    rintro rfl
    exact hnamed rfl
  refine ⟨⟨identity, tenant, rfl, htenant, hnamed⟩, ?_, ?_, ?_⟩
  · simp [isolationKeys, tenantless, resolvePartition, htenant]
  · simp [isolationKeys, tenantless, htenant]
  · simpa [isolationKeys, tenantless, resolvePartition, cacheNamespace, htenant] using hne

/-- One header set and one key cache yield one set of claims. -/
theorem contractYields_unique (names : TrustedHeaders) (verifier : ContractVerifier Key)
    (cache : KeyCache Key) (headers : HeaderMap) (claims other : VerifiedClaims)
    (h : ContractYields names verifier cache headers claims)
    (hother : ContractYields names verifier cache headers other) : claims = other := by
  obtain ⟨token, htoken, hverify⟩ := h
  obtain ⟨token', htoken', hverify'⟩ := hother
  cases htoken.symm.trans htoken'
  exact Except.ok.inj (hverify.symm.trans hverify')

/-- For every header set and every verified claim set: an accepted request of
trusted mode is isolated exactly when its contract names a workspace. -/
theorem accepted_isolated_iff (trusted : TrustedRuntime Key) (cache : KeyCache Key)
    (headers : HeaderMap) (accepted : Option TrustedIdentity) (callerAsserted : Option String)
    (hok : (resolveIdentity (some trusted) cache headers).1 = .ok accepted) :
    Isolated accepted callerAsserted ↔ WorkspaceNamed trusted cache headers := by
  obtain ⟨identity, tenant, rfl, htenant, hsource⟩ :=
    resolveIdentity_source trusted cache headers accepted hok
  constructor
  · intro hisolated verifier claims workspace hcontract hyields hworkspace
    obtain ⟨other, found, hidentity, hfound, hnamed⟩ := hisolated.tenant
    cases hidentity
    cases htenant.symm.trans hfound
    rcases hsource with ⟨hplain, -⟩ | ⟨verifier', claims', hcontract', hyields', hclaims⟩
    · rw [hcontract] at hplain
      cases hplain
    · cases hcontract.symm.trans hcontract'
      cases contractYields_unique _ _ _ _ _ _ hyields hyields'
      cases hworkspace.symm.trans hclaims
      exact hnamed
  · intro hnamed
    apply isolated_of_named identity tenant callerAsserted htenant
    rcases hsource with ⟨-, hheader⟩ | ⟨verifier, claims, hcontract, hyields, hclaims⟩
    · exact headerValue_not_blank headers trusted.headers.tenant tenant hheader
    · exact hnamed verifier claims tenant hcontract hyields hclaims

/-- The sample verifier, with another workspace in its claims. -/
def workspaceVerifier (workspace : String) : ContractVerifier Unit :=
  { sampleVerifier with
    decode := fun token _ =>
      if token = "tok" then some { sampleClaims with workspaceId := some workspace } else none }

def contractHeaders : HeaderMap := [("x-identity-contract", [116, 111, 107])]

/-- A verified contract with an empty workspace is accepted, and its handlers
are cached with those of no tenant. -/
theorem empty_workspace_accepted :
    ∃ identity, (resolveIdentity (some (sampleTrusted.withContract (workspaceVerifier "")))
        ⟨[], none⟩ contractHeaders).1 = .ok (some identity) ∧
      identity.tenant = some "" ∧
      (isolationKeys (some identity) none).cacheSpace = tenantless.cacheSpace ∧
      ¬ Isolated (some identity) none := by
  refine ⟨_, rfl, rfl, rfl, ?_⟩
  intro hisolated
  exact hisolated.cacheSpace rfl

theorem accepted_isolated_iff_acme :
    ∃ identity, (resolveIdentity (some (sampleTrusted.withContract (workspaceVerifier "acme")))
        ⟨[], none⟩ contractHeaders).1 = .ok (some identity) ∧
      Isolated (some identity) none := by
  refine ⟨_, rfl, (accepted_isolated_iff (sampleTrusted.withContract (workspaceVerifier "acme"))
    ⟨[], none⟩ contractHeaders _ none rfl).mpr ?_⟩
  rintro verifier claims workspace hcontract hyields hworkspace
  cases Option.some.inj hcontract
  have hclaims : ContractYields sampleNames (workspaceVerifier "acme") ⟨[], none⟩
      contractHeaders ({ sampleClaims with workspaceId := some "acme" } : Claims).intoVerified :=
    ⟨"tok", by decide, by rfl⟩
  cases contractYields_unique _ _ _ _ _ _ hyields hclaims
  cases Option.some.inj hworkspace
  decide

end Runlet.Tenancy
