import ActiveChain.WorkProof.Service

/-!
# How often an event is counted

Over the runs of the verification service: accepted claims hold their nullifiers, and a nullifier
stands for an event as one claimant counts it.

* `ServiceRun.run_sound` — along a run every accepted request stays in the registry.
* `TwoSecrets` — whoever takes a second secret counts the same event again.
-/

namespace ActiveChain

open Function List ServiceCall

/-! ## Runs of the service -/

section Runs

variable {E : Type} {V : WorkVerifier E}

open WorkProofService

/-- Every accepted request is in the registry, and the service is on its chain. -/
structure ServiceRun.Sound (V : WorkVerifier E) (chainId : Digest384) (r : ServiceRun E) :
    Prop where
  chain : r.service.OfChain chainId
  accepted : ∀ a ∈ r.accepted, Admitted V chainId r.service.usage a

variable {chainId : Digest384} {r : ServiceRun E}

open ServiceRun

theorem ServiceRun.Sound.step (h : r.Sound V chainId) (call : ServiceCall E) :
    (r.step V call).Sound V chainId := by
  cases call with
  | verify request nowMs save =>
    have hm := verify_moves (V := V) request nowMs save r.service
    rw [Update.Moves] at hm
    rcases hexec : (WorkProofService.verify V request nowMs save).exec r.service with ⟨_ | _, s⟩
    all_goals
      rw [hexec] at hm
      have hc : s.OfChain chainId := ⟨hm.trust ▸ h.chain.1, hm.trustFile ▸ h.chain.2⟩
      have hk : ∀ a ∈ r.accepted, Admitted V chainId s.usage a :=
        fun a ha => (h.accepted a ha).extends hm.usage
      simp only [ServiceRun.step, hexec]
    · exact ⟨hc, hk⟩
    · refine ⟨hc, forall_mem_cons.2 ⟨?_, hk⟩⟩
      rw [← h.chain.1]
      exact verify_ok hexec
  | transition next currentSet activatedSet nowMs save =>
    obtain ⟨hc, hu⟩ :=
      transition_keeps (V := V) next currentSet activatedSet nowMs save h.chain
    exact ⟨hc, fun a ha => hu.symm ▸ h.accepted a ha⟩
  | restart limiter => exact ⟨⟨h.chain.2, h.chain.2⟩, h.accepted⟩

theorem ServiceRun.run_sound (bundle : SignedTrustBundle) (usage : UsageState)
    (limiter : FixedWindowRateLimiter) (calls : List (ServiceCall E)) :
    (run V (.opened bundle usage limiter) calls).Sound V bundle.body.chainId := by
  have hs : (⟨.opened bundle usage limiter, []⟩ : ServiceRun E).Sound V bundle.body.chainId :=
    ⟨⟨rfl, rfl⟩, by simp⟩
  exact foldlRecOn calls _ hs fun r hr call _ => hr.step call

variable {a : VerifyWorkClaimRequest E}

theorem WorkProofService.Admitted.claim_eq (hash : Injective V.sha3) {usage : UsageState}
    {b : VerifyWorkClaimRequest E} (ha : Admitted V chainId usage a)
    (hb : Admitted V chainId usage b) (hd : a.claim.usageDomain = b.claim.usageDomain)
    {nullifier : Digest384} (hna : nullifier ∈ a.claim.usageNullifiers)
    (hnb : nullifier ∈ b.claim.usageNullifiers) :
    a.claim = b.claim ∧ a.proofEnvelope = b.proofEnvelope := by
  obtain ⟨e, hget, hc⟩ := ha.usage nullifier hna
  obtain ⟨e', hget', hc'⟩ := hb.usage nullifier hnb
  rw [hd, hget', Option.some.injEq] at hget
  subst hget
  have hid : a.claimId = b.claimId := hc.symm.trans hc'
  exact deriveWorkClaimId_inj hash ha.claimId (hid ▸ hb.claimId)

/-- Relation proofs are sound: an accepted proof has an input behind it that the guest accepts. -/
def WorkVerifier.ProofsSound (C : Crypto) (V : WorkVerifier E) : Prop :=
  ∀ claim proof, V.relation claim proof = .ok () →
    ∃ input, GuestAccepts C V.sha3 input ∧ input.claim = claim

/-- Requests that count one event in one usage domain name one claimant. -/
def OneClaimantPerEvent (C : Crypto) (V : WorkVerifier E)
    (requests : List (VerifyWorkClaimRequest E)) : Prop :=
  ∀ a ∈ requests, ∀ b ∈ requests, a.claim.usageDomain = b.claim.usageDomain →
    (∃ event, Counts C V.sha3 a.claim event ∧ Counts C V.sha3 b.claim event) →
    a.claim.claimantKey = b.claim.claimantKey

theorem ServiceRun.mem_requests_step {call : ServiceCall E} (h : a ∈ (r.step V call).accepted) :
    a ∈ r.accepted ∨ call.request? = some a := by
  cases call with
  | verify request nowMs save =>
    simp only [step] at h
    split at h
    · exact (mem_cons.1 h).symm.imp id fun heq => congrArg some heq.symm
    · exact .inl h
  | transition => exact .inl h
  | restart => exact .inl h

theorem ServiceRun.mem_requests {s : WorkProofService} {calls : List (ServiceCall E)}
    (h : a ∈ (run V s calls).accepted) : a ∈ calls.filterMap request? := by
  refine foldlRecOn (motive := fun r : ServiceRun E => ∀ a ∈ r.accepted,
    a ∈ calls.filterMap request?) calls (step V) (by simp) ?_ a h
  intro r hr call hc a ha
  rcases mem_requests_step ha with ha | ha
  · exact hr a ha
  · exact mem_filterMap.2 ⟨call, hc, ha⟩

/-- **While the requests of a run name one claimant for an event in a usage domain, every accepted
claim counts the events of its proof, and no event is counted in two accepted claims of one
domain.** -/
theorem work_events_counted_once (C : Crypto) (V : WorkVerifier E)
    (hevent : Injective C.shake256) (hash : Injective V.sha3)
    (sound : V.ProofsSound C) (bundle : SignedTrustBundle) (usage : UsageState)
    (limiter : FixedWindowRateLimiter) (calls : List (ServiceCall E))
    (hone : OneClaimantPerEvent C V (calls.filterMap ServiceCall.request?)) :
    let accepted := (ServiceRun.run V (.opened bundle usage limiter) calls).accepted
    (∀ a ∈ accepted, ∃ input, GuestAccepts C V.sha3 input ∧ input.claim = a.claim ∧
      ∀ event, Counts C V.sha3 a.claim event ↔ event ∈ input.events.map WorkEventWitness.event) ∧
    ∀ a ∈ accepted, ∀ b ∈ accepted, a.claim.usageDomain = b.claim.usageDomain →
      (a.claim, a.proofEnvelope) ≠ (b.claim, b.proofEnvelope) →
      ∀ event, ¬ (Counts C V.sha3 a.claim event ∧ Counts C V.sha3 b.claim event) := by
  have hrun := run_sound (V := V) bundle usage limiter calls
  refine ⟨?_, ?_⟩
  · intro a ha
    obtain ⟨input, hac, hc⟩ := sound _ _ (hrun.accepted a ha).relation
    refine ⟨input, hac, hc, fun event => ?_⟩
    rw [← hc]
    exact counts_iff hash hevent hac
  · rintro a ha b hb hd hne event ⟨hco, hc'⟩
    have had := hrun.accepted a ha
    have ha' := hrun.accepted b hb
    have hkey := hone a (mem_requests ha) b (mem_requests hb) hd ⟨event, hco, hc'⟩
    obtain ⟨nullifier, hmem, hmem'⟩ := hco.shared_nullifier hash hc'
      (had.chain.trans ha'.chain.symm) hd hkey
    obtain ⟨hc, hp⟩ := had.claim_eq hash ha' hd hmem hmem'
    exact hne (Prod.ext hc hp)

end Runs

/-! ## One event under two secrets -/

namespace TwoSecrets

open WorkProofService WorkVerificationError

def policy : MeteringPolicy where
  revision := 7
  acceptedMeasurementKinds := allKinds
  idleTimeoutMs := 100
  maxHumanEventMs := 80
  maxAttentionClaimMs := 1000
  modelInputWeight := 500000
  modelOutputWeight := 2000000

def event : DeveloperEvent where
  collectorId := 2
  projectId := 4
  collectorSequence := 1
  projectSequence := 1
  wallStartMs := 100
  wallEndMs := 200
  monotonicStartNs := 0
  monotonicEndNs := 5000000
  measurement := .agentExecution 1
  sourceCommitment := 20
  subjectCommitment := 21
  payloadCommitment := 22
  authorizationRevision := 7

def epoch (eventRoot policyId : Digest384) : ActivityEpoch where
  collectorId := 2
  projectId := 4
  firstCollectorSequence := 1
  lastCollectorSequence := 1
  firstProjectSequence := 1
  lastProjectSequence := 1
  eventCount := 1
  wallStartMs := 100
  wallEndMs := 200
  monotonicStartNs := 0
  monotonicEndNs := 5000000
  eventRoot := eventRoot
  previousEpochId := Digest384.zero
  authorizationRevision := 7
  policyId := policyId

section Claims

-- the hashes are variables here, so that no check evaluates one
variable (C : Crypto) (sha3 : HashFn)

variable (secret : Digest384)

def bareClaim : WorkClaimPublic where
  chainId := 1
  genesis := 3
  telemetrySchema := 1
  policyId := policy.policyId C
  policyRevision := 7
  authorizationRevision := 7
  usageDomain := 6
  collectorId := 2
  projectId := 4
  claimantKey := claimantKeyOf sha3 secret
  epochRoot := eventLeafHash sha3 (event.eventId C)
  firstSequence := 1
  lastSequence := 1
  eventCount := 1
  epochEventCount := 1
  intervalStartMs := 100
  intervalEndMs := 200
  aggregate := .compute 5 0 0 0 1
  nullifierRoot := Digest384.zero
  usageNullifierRoot := Digest384.zero
  usageNullifiers := []

def nullifier : Digest384 := usageNullifier sha3 (bareClaim C sha3 secret) secret (event.eventId C)

def claim : WorkClaimPublic :=
  { bareClaim C sha3 secret with
    nullifierRoot := classNullifier sha3 (bareClaim C sha3 secret) secret (event.eventId C)
    usageNullifierRoot := nullifier C sha3 secret
    usageNullifiers := [nullifier C sha3 secret] }

def input : WorkClaimRelationInput := ⟨claim C sha3 secret, policy, secret, [⟨event, 0, []⟩]⟩

/-- The claim with a proof of one byte and the anchor of the epoch. -/
def request (proof : Nat) : VerifyWorkClaimRequest Unit where
  clientId := 1
  claimId := workHash sha3 "ACTUM-WORK-CLAIM-V1" (envelope (claim C sha3 secret) ++ [.u8 proof])
  claim := claim C sha3 secret
  proofEnvelope := [proof]
  anchorRequest :=
    ⟨1, 3, 1, 30, [99], epoch (eventLeafHash sha3 (event.eventId C)) (policy.policyId C)⟩
  checkpointedAnchorEvidence := some ()

/-- A verifier that knows the proofs of the two claims, on a chain where the epoch is anchored. -/
def verifier (first second : Digest384) : WorkVerifier Unit where
  sha3 := sha3
  relation claimed _ := if claimed = claim C sha3 first ∨ claimed = claim C sha3 second then .ok ()
    else .error (terminal .relationRejected)
  checkpointedAnchor _ _ _ := .ok ⟨1, 1, 1⟩
  bundleSignature _ _ _ _ := true
  workImageId := 1

def bundle : SignedTrustBundle where
  body := {
    schemaRevision := 1
    bundleSequence := 1
    previousBundleId := Digest384.zero
    chainId := 1
    genesisCommitment := 3
    protocolRevision := 1
    checkpointHeight := 9
    checkpointBlockId := 40
    checkpointStateRoot := 41
    checkpointFinalityCommitment := 42
    validatorSetRoot := 43
    proofProfileId := workHash sha3 "ACTUM-WORK-PROOF-PROFILE-V1"
      [.tag "ACTIVECHAIN-PQ-ZK-RISC0-STARK-V1"]
    proofSystemRevision := workProofSystemRevision
    verifierRevision := workVerifierRevision
    risc0ImageId := 1
    policyId := policy.policyId C
    policyRevision := 7
    issuedAtMs := 0
    notBeforeMs := 0
    notAfterMs := 1000
    signerSetId := 44
    signerSetRevision := 1
    signerThreshold := 1
    nextSignerSetId := Digest384.zero
    nextSignerSetRevision := 0
    nextSignerThreshold := 0
    nextSignerActivationSequence := 0 }
  bundleId := 45
  signatures := []

def limiter : FixedWindowRateLimiter := ⟨10, 1000, .empty, by decide, by decide⟩

end Claims

theorem guestAccepts {secret : Digest384} (hk : secret = 9 ∨ secret = 10) :
    GuestAccepts .transparent Crypto.transparent.shake256
      (input .transparent Crypto.transparent.shake256 secret) := by
  refine ⟨?_, ?_⟩
  · intro w hw
    obtain rfl := mem_singleton.1 hw
    exact ⟨by decide, by decide⟩
  · rcases hk with rfl | rfl <;> decide +kernel

theorem verifier_sound :
    (verifier .transparent Crypto.transparent.shake256 9 10).ProofsSound .transparent := by
  intro claimed proof h
  simp only [verifier] at h
  split_ifs at h with hk
  rcases hk with rfl | rfl
  · exact ⟨_, guestAccepts (.inl rfl), rfl⟩
  · exact ⟨_, guestAccepts (.inr rfl), rfl⟩

theorem counts_event {secret : Digest384} (hk : secret = 9 ∨ secret = 10) :
    Counts .transparent Crypto.transparent.shake256
      (claim .transparent Crypto.transparent.shake256 secret) event :=
  ⟨_, guestAccepts hk, rfl, ⟨event, 0, []⟩, mem_singleton_self _, rfl⟩

/-- **Two claims of one event in one usage domain are accepted: whoever takes a second secret has a
second key and a second nullifier for it.** -/
theorem event_counted_twice : let C := Crypto.transparent
    let V := verifier C C.shake256 9 10
    let calls : List (ServiceCall Unit) := [.verify (request C C.shake256 9 1) 150 .written,
      .verify (request C C.shake256 10 1) 150 .written]
    Injective C.shake256 ∧ Injective V.sha3 ∧ V.ProofsSound C ∧
      ∃ a b, (ServiceRun.run V (.opened (bundle C C.shake256) .empty limiter) calls).accepted =
          [b, a] ∧ a.claimId ≠ b.claimId ∧ a.claim.usageDomain = b.claim.usageDomain ∧
        Counts C V.sha3 a.claim event ∧ Counts C V.sha3 b.claim event := by
  intro C V calls
  have hash : Injective C.shake256 := Crypto.transparent_injective
  exact ⟨hash, hash, verifier_sound, request C C.shake256 9 1, request C C.shake256 10 1,
    by decide +kernel, by decide +kernel, rfl, counts_event (.inl rfl), counts_event (.inr rfl)⟩

/-- One claimant sends the claim with two proofs: the first is accepted, so the second is not. -/
theorem second_claim_refused : let C := Crypto.transparent
    let V := verifier C C.shake256 9 10
    let calls : List (ServiceCall Unit) := [.verify (request C C.shake256 9 1) 150 .written,
      .verify (request C C.shake256 9 2) 150 .written]
    let run := ServiceRun.run V (.opened (bundle C C.shake256) .empty limiter) calls
    OneClaimantPerEvent C V (calls.filterMap ServiceCall.request?) ∧
      request C C.shake256 9 1 ∈ run.accepted ∧ request C C.shake256 9 2 ∉ run.accepted := by
  intro C V calls run
  have hash : Injective C.shake256 := Crypto.transparent_injective
  have hkey : ∀ a ∈ calls.filterMap request?,
      a.claim.claimantKey = (claim C C.shake256 9).claimantKey :=
    forall_mem_cons.2 ⟨rfl, forall_mem_singleton.2 rfl⟩
  have hone : OneClaimantPerEvent C V (calls.filterMap request?) := fun a ha b hb _ _ =>
    (hkey a ha).trans (hkey b hb).symm
  have hfirst : request C C.shake256 9 1 ∈ run.accepted := by decide +kernel
  refine ⟨hone, hfirst, fun hsecond => ?_⟩
  have hcounted := work_events_counted_once C V hash hash verifier_sound (bundle C C.shake256)
    .empty limiter calls hone
  exact hcounted.2 _ hfirst _ hsecond rfl
    (fun h => absurd (congrArg Prod.snd h) (by decide +kernel))
    event ⟨counts_event (.inl rfl), counts_event (.inl rfl)⟩

end TwoSecrets

end ActiveChain
