import ActiveChain.Authority.Capability
import Mathlib.Data.List.Chain
import Mathlib.Data.List.Sort

/-!
# Joined authorization (`authorization-kernel`, `verify_authorization_candidate`)

A candidate joins an actor's envelope, the credentials and the capability chain it names, and the
transaction it commits to.  The verifier checks them against each other.

* `AuthorizationEnvelope`, `AuthorizationCandidate` — what is submitted.
* `verifyLinks`, `verifyAuthorizationCandidate` — the checks, in the order of the source.
-/

namespace ActiveChain

open Except List ScopeSelector

/-! ## Envelopes -/

inductive AuthorizationError
  | malformedEnvelope
  | authentication
  | encoding
  | credential
  | credentialSubstitution
  | capability
  | capabilitySubstitution
  | attenuation
  | capabilityScope
  | transitionSubstitution
  | requestSubstitution
  | policy
  | replay
  | budget
  | rateLimit
  | transition
  | persistence
  | poisoned
deriving DecidableEq, Repr

abbrev AuthorityM : Type → Type := Except AuthorizationError

inductive FreezeState
  | active
  | recoveryPending
  | frozen
deriving DecidableEq, Repr

/-- A role and the number of its approvals. -/
structure ApprovalFact where
  role : Digest384
  count : Nat
deriving DecidableEq

def maxAuthorizationCredentials : Nat := 16

def maxCapabilityDepth : Nat := 16

/-- With the checks of `AuthorizationEnvelope::new`. -/
structure AuthorizationEnvelope where
  invocationId : AccumulatorKey
  chainGenesisCommitment : Digest384
  epoch : Nat
  actor : PrincipalId
  height : Nat
  timestamp : Nat
  finalizedStateRoot : Digest384
  transitionCommitment : Digest384
  value : Nat
  compute : Nat
  freezeState : FreezeState
  declaredPurpose : Option Digest384
  approvals : List ApprovalFact
  credentialIds : List Digest384
  capabilityIds : List CapabilityId
  actorSignature : ProtocolSignature
  nonzero : invocationId ≠ 0 ∧ chainGenesisCommitment ≠ 0 ∧ finalizedStateRoot ≠ 0 ∧
    transitionCommitment ≠ 0
  suite : actorSignature.suite = .mlDsa44
  credentials_bounded : credentialIds.length ≤ maxAuthorizationCredentials
  capabilities_bounded : capabilityIds ≠ [] ∧ capabilityIds.length ≤ maxCapabilityDepth
  credentials_ordered : credentialIds.Pairwise (· < ·)
  capabilities_ordered : capabilityIds.Pairwise (· < ·)
  approvals_ordered : approvals.Pairwise fun a b => a.role < b.role

/-! ## Policy requests -/

/-- The actor is a principal here. -/
structure PolicyRequest where
  actor : PrincipalId
  action : ActionId
  resource : ObjectId
  height : Nat
  value : Nat
  freezeState : FreezeState
  declaredPurpose : Option Digest384
  credentialSchemas : List Digest384
  capabilities : List CapabilityId
  approvals : List ApprovalFact
deriving DecidableEq

inductive PolicyRequestError
  | tooManyCredentialFacts
  | tooManyCapabilityFacts
  | tooManyApprovalFacts
  | credentialFactsNotStrictlyIncreasing
  | capabilityFactsNotStrictlyIncreasing
  | approvalFactsNotStrictlyIncreasing
deriving DecidableEq, Repr

def maxCredentialFacts : Nat := 32

def maxCapabilityFacts : Nat := 32

def maxApprovalFacts : Nat := 16

def PolicyRequest.new (fields : PolicyRequest) : Except PolicyRequestError PolicyRequest := do
  rejectIf (maxCredentialFacts < fields.credentialSchemas.length) .tooManyCredentialFacts
  rejectIf (maxCapabilityFacts < fields.capabilities.length) .tooManyCapabilityFacts
  rejectIf (maxApprovalFacts < fields.approvals.length) .tooManyApprovalFacts
  rejectIf (¬ fields.credentialSchemas.Pairwise (· < ·)) .credentialFactsNotStrictlyIncreasing
  rejectIf (¬ fields.capabilities.Pairwise (· < ·)) .capabilityFactsNotStrictlyIncreasing
  rejectIf (¬ fields.approvals.Pairwise fun a b => a.role < b.role)
    .approvalFactsNotStrictlyIncreasing
  return fields

/-- What the callers read of a `PolicyDecision`. -/
structure PolicyDecision where
  permit : Bool
  obligations : List Digest384

/-! ## Candidates -/

def transferObjectActionId : ActionId := 1

/-- What the verifier reads of a `TransferCommand`. -/
structure TransferCommand (Policy : Type) where
  object : ObjectId
  controlPolicy : Policy
  request : PolicyRequest

/-- A verified credential: its identifier, and what the schema facts are made from. -/
structure CredentialFact where
  credentialId : Digest384
  schema : Digest384

structure AuthorizationCandidate (Material Transaction : Type) where
  envelope : AuthorizationEnvelope
  invocationNonMembership : NonMembershipWitness
  credentials : List Material
  capabilityChain : List CapabilityGrant
  transaction : Transaction

structure VerifiedAuthorization where
  envelope : AuthorizationEnvelope
  envelopeCommitment : Digest384
  leafCapability : CapabilityGrant
  invocationNonMembership : NonMembershipWitness

/-- The trait `AuthorizationVerifier`, and the parts of the other crates that the verifier calls:
`verify_presentation` and `canonical_schema_facts` of `credential`, `evaluate` of `policy-kernel`,
and `commit`, which fails when the value has no encoding. -/
structure AuthorizationKernel (Material Policy Transaction : Type) where
  verifyActorSignature : AuthorizationEnvelope → Bool
  verifyFinalizedContext : AuthorizationEnvelope → Bool
  verifyCredentialSignature : Material → Bool
  verifyCredentialStatus : Material → Bool
  verifyCapabilitySignature : CapabilityGrant → Bool
  verifyCapabilityActive : CapabilityGrant → Nat → Digest384 → Bool
  verifyPresentation : Material → PrincipalId → Nat → Nat → Option CredentialFact
  canonicalSchemaFacts : List CredentialFact → Option (List Digest384)
  evaluate : Policy → PolicyRequest → PolicyDecision
  commands : Transaction → List (TransferCommand Policy)
  commitTransaction : Transaction → Option Digest384
  commitPolicy : Policy → Option Digest384
  commitEnvelope : AuthorizationEnvelope → Option Digest384

section Verifier

variable {Material Policy Transaction : Type} (K : AuthorizationKernel Material Policy Transaction)

def verifyCredentials (envelope : AuthorizationEnvelope) :
    List Material → AuthorityM (List CredentialFact)
  | [] => .ok []
  | material :: rest => do
    rejectIf (¬ K.verifyCredentialSignature material ∨ ¬ K.verifyCredentialStatus material)
      .credential
    let fact ← okOr (K.verifyPresentation material envelope.actor envelope.height
      envelope.timestamp) .credential
    let facts ← verifyCredentials envelope rest
    return fact :: facts

/-- The loop over the capability chain; `previous` is the capability before, none at index zero. -/
def verifyLinks (envelope : AuthorizationEnvelope) :
    Option CapabilityGrant → List CapabilityGrant → AuthorityM Unit
  | _, [] => .ok ()
  | previous, capability :: rest => do
    rejectIf (¬ K.verifyCapabilitySignature capability ∨
      ¬ K.verifyCapabilityActive capability envelope.height envelope.finalizedStateRoot)
      .capability
    match previous with
    | none => rejectIf (capability.fields.parentCapability.isSome = true) .capability
    | some parent => (verifyAttenuation parent capability).mapError fun _ => .attenuation
    verifyLinks envelope (some capability) rest

def verifyAuthorizationCandidate (candidate : AuthorizationCandidate Material Transaction)
    (expectedGenesis : Digest384) (expectedEpoch : Nat) (expectedRoot expectedPolicy : Digest384) :
    AuthorityM VerifiedAuthorization := do
  let envelope := candidate.envelope
  rejectIf (envelope.chainGenesisCommitment ≠ expectedGenesis ∨ envelope.epoch ≠ expectedEpoch ∨
    envelope.finalizedStateRoot ≠ expectedRoot ∨ ¬ K.verifyActorSignature envelope ∨
    ¬ K.verifyFinalizedContext envelope) .authentication
  let transition ← okOr (K.commitTransaction candidate.transaction) .encoding
  rejectIf (transition ≠ envelope.transitionCommitment) .transitionSubstitution
  rejectIf ((K.commands candidate.transaction).length ≠ 1) .requestSubstitution
  let command ← okOr (K.commands candidate.transaction).head? .requestSubstitution
  let policyCommitment ← okOr (K.commitPolicy command.controlPolicy) .encoding
  rejectIf (policyCommitment ≠ expectedPolicy) .policy
  rejectIf (maxAuthorizationCredentials < candidate.credentials.length) .credential
  let facts ← verifyCredentials K envelope candidate.credentials
  rejectIf ((facts.map CredentialFact.credentialId).insertionSort (· ≤ ·) ≠ envelope.credentialIds)
    .credentialSubstitution
  let schemas ← okOr (K.canonicalSchemaFacts facts) .credential
  let chain := candidate.capabilityChain
  rejectIf (chain = [] ∨ maxCapabilityDepth < chain.length) .capability
  verifyLinks K envelope none chain
  rejectIf ((chain.map fun c => c.fields.capabilityId).insertionSort (· ≤ ·) ≠
    envelope.capabilityIds) .capabilitySubstitution
  let leaf ← okOr chain.getLast? .capability
  let fields := leaf.fields
  rejectIf (fields.holderBinding ≠ .principal envelope.actor ∨
    transferObjectActionId ∉ fields.permittedActions.actions ∨
    ¬ (ResourceSelector.exact command.object).isSubsetOf fields.resourceScope ∨
    envelope.height < fields.validFrom ∨
    fields.validUntil.any (fun last => decide (last < envelope.height)) = true) .capabilityScope
  let request ← (PolicyRequest.new ⟨envelope.actor, transferObjectActionId, command.object,
    envelope.height, envelope.value, envelope.freezeState, envelope.declaredPurpose, schemas,
    envelope.capabilityIds, envelope.approvals⟩).mapError fun _ => .policy
  let decision := K.evaluate command.controlPolicy request
  rejectIf (¬ decision.permit ∨ decision.obligations ≠ []) .policy
  rejectIf (command.request ≠ request) .requestSubstitution
  let envelopeCommitment ← okOr (K.commitEnvelope envelope) .encoding
  return ⟨envelope, envelopeCommitment, leaf, candidate.invocationNonMembership⟩

end Verifier

/-! ## The chain -/

section Chain

variable {Material Policy Transaction : Type} {K : AuthorizationKernel Material Policy Transaction}

theorem verifyLinks_ok {envelope : AuthorizationEnvelope} (chain : List CapabilityGrant) :
    ∀ parent, verifyLinks K envelope (some parent) chain = .ok () →
      IsChain (fun p c => verifyAttenuation p c = .ok ()) (parent :: chain) := by
  induction chain with
  | nil =>
    intro parent _
    exact isChain_singleton parent
  | cons child chain ih =>
    intro parent h
    simp only [verifyLinks, inversion] at h
    obtain ⟨-, hl, hr⟩ := h
    exact isChain_cons_cons.2 ⟨hl, ih child hr⟩

theorem admits_of_isChain {leaf : CapabilityGrant} {r : CapabilityRequest}
    (hr : leaf.fields.Admits r) (chain : List CapabilityGrant) :
    chain.getLast? = some leaf →
    IsChain (fun p c => verifyAttenuation p c = .ok ()) chain → ∀ c ∈ chain, c.fields.Admits r := by
  induction chain with
  | nil =>
    intro _ _ c hc
    cases hc
  | cons parent chain ih =>
    intro hla hl
    cases chain with
    | nil =>
      obtain rfl : parent = leaf := by simpa using hla
      intro c hc
      rwa [mem_singleton.1 hc]
    | cons child rest =>
      obtain ⟨hli, hl⟩ := isChain_cons_cons.1 hl
      have ht := ih (by simpa using hla) hl
      have hp := (verifyAttenuation_ok hli).1 r (ht child mem_cons_self)
      exact forall_mem_cons.2 ⟨hp, ht⟩

theorem length_le_depth (chain : List CapabilityGrant) :
    ∀ root, IsChain (fun p c => verifyAttenuation p c = .ok ()) (root :: chain) →
      chain.length ≤ root.fields.delegationDepthRemaining := by
  induction chain with
  | nil =>
    intro root _
    exact Nat.zero_le _
  | cons child chain ih =>
    intro root hl
    obtain ⟨hli, hl⟩ := isChain_cons_cons.1 hl
    exact Nat.lt_of_le_of_lt (ih child hl) (verifyAttenuation_ok hli).2

theorem verifyAuthorizationCandidate_chain
    {candidate : AuthorizationCandidate Material Transaction} {genesis root policy : Digest384}
    {epoch : Nat} {a : VerifiedAuthorization}
    (h : verifyAuthorizationCandidate K candidate genesis epoch root policy = .ok a) :
    candidate.capabilityChain.getLast? = some a.leafCapability ∧
      IsChain (fun p c => verifyAttenuation p c = .ok ()) candidate.capabilityChain := by
  simp only [verifyAuthorizationCandidate, inversion] at h
  obtain ⟨-, _, -, -, -, _, -, _, -, -, -, _, -, -, _, -, -, hl, -, leaf, hle, -, _, -, -, -,
    _, -, rfl⟩ := h
  refine ⟨hle, ?_⟩
  cases hc : candidate.capabilityChain with
  | nil => exact isChain_nil
  | cons first rest =>
    rw [hc] at hl
    simp only [verifyLinks, inversion] at hl
    exact verifyLinks_ok rest first hl.2.2

/-- **Delegation only narrows.** Every request that the leaf of an accepted chain admits is
admitted by every capability of the chain; the chain has at most one capability more than the
root has delegation depth. -/
theorem capability_chain_attenuates
    {candidate : AuthorizationCandidate Material Transaction} {genesis root policy : Digest384}
    {epoch : Nat} {authorization : VerifiedAuthorization}
    (h : verifyAuthorizationCandidate K candidate genesis epoch root policy = .ok authorization) :
    (∀ r, authorization.leafCapability.fields.Admits r →
      ∀ c ∈ candidate.capabilityChain, c.fields.Admits r) ∧
    (∃ first ∈ candidate.capabilityChain.head?,
      candidate.capabilityChain.length ≤ first.fields.delegationDepthRemaining + 1) ∧
    (∀ child parent : ResourceSelector, child.isSubsetOf parent = true ↔
      ∀ item, child.scope.Matches item → parent.scope.Matches item) ∧
    (∀ child parent : DataSelector, child.isSubsetOf parent = true ↔
      ∀ item, child.scope.Matches item → parent.scope.Matches item) ∧
    (∀ a b c : ScopeSelector, a.isSubsetOf b = true → b.isSubsetOf c = true →
      a.isSubsetOf c = true) := by
  obtain ⟨hle, hl⟩ := verifyAuthorizationCandidate_chain h
  refine ⟨fun r hr => admits_of_isChain hr _ hle hl, ?_, ?_, ?_, ?_⟩
  · cases hc : candidate.capabilityChain with
    | nil =>
      rw [hc] at hle
      cases hle
    | cons first rest =>
      rw [hc] at hl
      exact ⟨first, rfl, Nat.succ_le_succ (length_le_depth rest first hl)⟩
  · exact fun child parent => isSubsetOf_iff child.canonical parent.canonical
  · exact fun child parent => isSubsetOf_iff child.canonical parent.canonical
  · exact fun a b c => isSubsetOf_trans

end Chain

/-! ## A chain of two -/

namespace TwoLinks

def request : PolicyRequest :=
  ⟨40, transferObjectActionId, 5, 12, 30, .active, none, [], [7, 8], []⟩

def kernel : AuthorizationKernel Empty Unit Unit where
  verifyActorSignature _ := true
  verifyFinalizedContext _ := true
  verifyCredentialSignature _ := true
  verifyCredentialStatus _ := true
  verifyCapabilitySignature _ := true
  verifyCapabilityActive _ _ _ := true
  verifyPresentation _ _ _ _ := none
  canonicalSchemaFacts _ := some []
  evaluate _ _ := ⟨true, []⟩
  commands _ := [⟨5, (), request⟩]
  commitTransaction _ := some 91
  commitPolicy _ := some 92
  commitEnvelope _ := some 93

def signature : ProtocolSignature := ⟨.mlDsa44, 0⟩

def parent : CapabilityGrant where
  fields :=
    { capabilityId := 8, issuer := 20, holderBinding := .principal 30, parentCapability := none
      permittedActions := ⟨[1, 2], by decide, by decide, by decide⟩
      resourceScope := ⟨.any, fun _ _ h => by cases h⟩
      dataScope := ⟨.any, fun _ _ h => by cases h⟩
      monetaryLimit := some 100, computeLimit := none
      rateLimit := some ⟨5, 10, by decide, by decide⟩, useLimit := none
      validFrom := 10, validUntil := some 20
      delegationDepthRemaining := 1, delegationAllowed := true
      revocationRegistry := none, constraintHash := 50 }
  issuerSignature := signature
  not_self_parent := by decide
  valid_until_after := by decide
  depth_of_allowed := by decide
  depth_of_forbidden := by decide

def child : CapabilityGrant where
  fields :=
    { parent.fields with
      capabilityId := 7, issuer := 30, holderBinding := .principal 40, parentCapability := some 8
      permittedActions := ⟨[1], by decide, by decide, by decide⟩
      resourceScope := ⟨.bitPrefix 0 8, fun _ _ h => by cases h; decide +kernel⟩
      monetaryLimit := some 50, computeLimit := some 3
      rateLimit := some ⟨2, 10, by decide, by decide⟩, validFrom := 11
      delegationDepthRemaining := 0, delegationAllowed := false }
  issuerSignature := signature
  not_self_parent := by decide
  valid_until_after := by decide
  depth_of_allowed := by decide
  depth_of_forbidden := by decide

def envelope : AuthorizationEnvelope where
  invocationId := 1
  chainGenesisCommitment := 60
  epoch := 2
  actor := 40
  height := 12
  timestamp := 0
  finalizedStateRoot := 61
  transitionCommitment := 91
  value := 30
  compute := 1
  freezeState := .active
  declaredPurpose := none
  approvals := []
  credentialIds := []
  capabilityIds := [7, 8]
  actorSignature := signature
  nonzero := by decide +kernel
  suite := rfl
  credentials_bounded := by decide
  capabilities_bounded := by decide
  credentials_ordered := by decide
  capabilities_ordered := by decide
  approvals_ordered := by decide

def candidate : AuthorizationCandidate Empty Unit := ⟨envelope, ⟨1, []⟩, [], [parent, child], ()⟩

theorem candidate_accepted :
    ∃ authorization, verifyAuthorizationCandidate kernel candidate 60 2 61 92 =
    .ok authorization := by
  have hs : (verifyAuthorizationCandidate kernel candidate 60 2 61 92).toOption.isSome = true := by
    decide +kernel
  obtain ⟨authorization, h⟩ := Option.isSome_iff_exists.1 hs
  exact ⟨authorization, mem_toOption.1 h⟩

theorem parent_admits_child_request : ¬ ∃ r, child.fields.Admits r ∧ ¬ parent.fields.Admits r := by
  obtain ⟨authorization, hac⟩ := candidate_accepted
  have hl := (verifyAuthorizationCandidate_chain hac).1
  have hc : child = authorization.leafCapability := Option.some.inj hl
  rintro ⟨r, hr, hn⟩
  exact hn ((capability_chain_attenuates hac).1 r (hc ▸ hr) parent mem_cons_self)

end TwoLinks

end ActiveChain
