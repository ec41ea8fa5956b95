import ActiveChain.Lib.Update
import ActiveChain.Lib.SortedMap
import ActiveChain.WorkProof.Relation
import ActiveChain.WorkProof.TrustBundle

/-!
# The work-proof verification service (`work-proof-verifier`)

The service accepts a claim when its proof, the anchor of its epoch and its usage nullifiers all
pass.  The nullifiers go into a durable registry, so that no work is paid for twice.

* `UsageState.registerAll` — the registry: all nullifiers of a claim, or none.
* `WorkProofService.verify`, `ServiceCall` — a request, and the calls of a service.
* `ServiceRun.run` — a run, with the requests that were accepted.
* `registerAll_ok`, `verify_ok` — what a successful call says.
* `registerAll_moves`, `verify_moves` — a call, failed or not, keeps every entry of the registry.
-/

namespace ActiveChain

open Update List SortedMap

def workVerifierRevision : Nat := 1

def workProofSystemRevision : Nat := 3000005

def maxWorkProofBytes : Nat := 4 * 1024 * 1024

def maxUsageEntries : Nat := 1000000

def maxRateClients : Nat := 100000

/-- `VerificationErrorCodeV1`, as far as `verify` and `transition` return it. -/
inductive WorkVerificationCode
  | rateLimited
  | malformedRequest
  | claimIdMismatch
  | proofTooLarge
  | relationRejected
  | verifierUnavailable
  | verifierTimeout
  | wrongChain
  | wrongGenesis
  | wrongImage
  | wrongPolicy
  | staleTrust
  | checkpointLag
  | checkpointUnavailable
  | invalidAnchor
  | usageDoubleSpend
  | persistenceUnavailable
deriving DecidableEq, Repr

/-- `VerificationErrorV1`. -/
structure WorkVerificationError where
  code : WorkVerificationCode
  retryable : Bool
deriving DecidableEq, Repr

abbrev ServiceM : Type → Type := Except WorkVerificationError

namespace WorkVerificationError

def terminal (code : WorkVerificationCode) : WorkVerificationError := ⟨code, false⟩

/-- `VerificationErrorV1::retryable`. -/
def retry (code : WorkVerificationCode) : WorkVerificationError := ⟨code, true⟩

def persistence : WorkVerificationError := retry .persistenceUnavailable

end WorkVerificationError

open WorkVerificationError

/-! ## The usage registry -/

inductive UsageRegistration
  | inserted
  | idempotent
deriving DecidableEq, Repr

structure UsageEntry where
  usageDomain : Digest384
  nullifier : Digest384
  claimId : Digest384
  verifierRevision : Nat
  trustSequence : Nat
  acceptedAtMs : Nat
deriving DecidableEq

abbrev UsageKey := Digest384 ×ₗ Digest384

def UsageEntry.key (e : UsageEntry) : UsageKey := toLex (e.usageDomain, e.nullifier)

/-- What the registry file holds.  Every call reads the file again before it looks. -/
structure UsageState where
  entries : SortedMap UsageKey UsageEntry
  keyed : ∀ k e, entries.get? k = some e → k = e.key

namespace UsageState

def empty : UsageState := ⟨.empty, by simp⟩

/-- One more entry, under its own key. -/
def insert (s : UsageState) (e : UsageEntry) : UsageState where
  entries := s.entries.insert e.key e
  keyed := by
    intro k e' h
    rw [get?_insert] at h
    split_ifs at h with hk
    · cases h
      exact hk
    · exact s.keyed k e' h

def claimKeys (s : UsageState) (claimId : Digest384) : List (Digest384 × Digest384) :=
  (s.entries.values.filter fun e => e.claimId == claimId).map fun e => (e.usageDomain, e.nullifier)

def persist (candidate : UsageState) : SaveOutcome → Update WorkVerificationError UsageState PUnit
  | .written => set candidate
  | .lost => .check (.error persistence)
  | .late => do
    set candidate
    .check (.error persistence)

/-- A claim that is in the registry may only be repeated as it was. -/
def repeated (existing expected : List (Digest384 × Digest384)) : ServiceM UsageRegistration :=
  if existing = expected then .ok .idempotent else .error (terminal .usageDoubleSpend)

def enter (entries : List UsageEntry) (save : SaveOutcome) :
    Update WorkVerificationError UsageState UsageRegistration := do
  let state ← get
  .check (rejectIf (∃ e ∈ entries, state.entries.contains e.key = true)
    (terminal .usageDoubleSpend))
  .check (rejectIf (maxUsageEntries < state.entries.length + entries.length) persistence)
  (entries.foldl insert state).persist save
  return .inserted

def registerAll (usageDomain : Digest384) (nullifiers : List Digest384) (claimId : Digest384)
    (verifierRevision trustSequence acceptedAtMs : Nat) (save : SaveOutcome) :
    Update WorkVerificationError UsageState UsageRegistration := do
  .check (rejectIf (usageDomain = Digest384.zero ∨ claimId = Digest384.zero ∨ nullifiers = [] ∨
    maxWorkEvents < nullifiers.length ∨ verifierRevision = 0 ∨ trustSequence = 0)
    (terminal .malformedRequest))
  let canonical := nullifiers.insertionSort (· ≤ ·)
  .check (rejectIf (¬ canonical.Pairwise (· ≠ ·)) (terminal .malformedRequest))
  let state ← get
  if state.claimKeys claimId ≠ [] then
    .check (repeated (state.claimKeys claimId) (canonical.map fun nullifier =>
      (usageDomain, nullifier)))
  else
    enter (canonical.map fun nullifier => {
      usageDomain, nullifier, claimId, verifierRevision, trustSequence, acceptedAtMs }) save

end UsageState

/-! ## The service -/

/-- `VerifyWorkClaimRequestV1`; the evidence of a finalized anchor is of a type `E`. -/
structure VerifyWorkClaimRequest (E : Type) where
  clientId : Digest384
  claimId : Digest384
  claim : WorkClaimPublic
  proofEnvelope : List Nat
  anchorRequest : TelemetryEpochAnchorRequest
  checkpointedAnchorEvidence : Option E
deriving DecidableEq

structure FinalizedAnchor where
  statementId : Digest384
  finalizedHeight : Nat
  finalizedBlockId : Digest384
deriving DecidableEq

/-- `VerifiedClaimDtoV1`; the three verification flags and the life cycle are constant. -/
structure VerifiedClaim where
  claimId : Digest384
  idempotent : Bool
  chainId : Digest384
  projectId : Digest384
  usageDomain : Digest384
  policyId : Digest384
  policyRevision : Nat
  aggregate : WorkClaimAggregate
  anchor : FinalizedAnchor
  checkpointBundleId : Digest384
  acceptedAtMs : Nat

/-- What the service calls: Sha3-384, the verifier of relation proofs, the check that an anchor
request is finalized below the checkpoint of a bundle, the signatures under bundles and the image
of the guest. -/
structure WorkVerifier (E : Type) where
  sha3 : HashFn
  relation : WorkClaimPublic → List Nat → ServiceM Unit
  checkpointedAnchor : SignedTrustBundle → TelemetryEpochAnchorRequest → E →
    ServiceM FinalizedAnchor
  bundleSignature : SignatureCheck
  workImageId : Nat

/-- With the checks of `new`. -/
structure FixedWindowRateLimiter where
  maximum : Nat
  windowMs : Nat
  clients : SortedMap Digest384 (Nat × Nat)
  maximum_ne_zero : maximum ≠ 0
  windowMs_ne_zero : windowMs ≠ 0

/-- `WorkProofVerificationService`: the accepted bundle in memory and in its file, the registry
file and the rate limiter. -/
structure WorkProofService where
  trust : SignedTrustBundle
  trustFile : SignedTrustBundle
  usage : UsageState
  limiter : FixedWindowRateLimiter

abbrev WorkServiceM := Update WorkVerificationError WorkProofService

namespace WorkProofService

def setClients (s : WorkProofService) (clients : SortedMap Digest384 (Nat × Nat)) :
    WorkProofService :=
  { s with limiter := { s.limiter with clients } }

/-- The count of a client in the window, from zero for a client that has none. -/
def windowCount (s : WorkProofService) (client : Digest384) (window : Nat) : Nat :=
  match s.limiter.clients.get? client with
  | some (seen, count) => if seen = window then count else 0
  | none => 0

/-- `FixedWindowRateLimiter::admit`. -/
def admitClient (client : Digest384) (nowMs : Nat) : WorkServiceM PUnit := do
  let window := nowMs / (← get).limiter.windowMs
  modify fun s => s.setClients (s.limiter.clients.retain fun _ value => decide (value.1 = window))
  let s ← get
  .check (rejectIf (s.limiter.clients.get? client = none ∧
    maxRateClients ≤ s.limiter.clients.length) (retry .rateLimited))
  let count := s.windowCount client window
  modify fun s => s.setClients (s.limiter.clients.insert client (window, count))
  .check (rejectIf (s.limiter.maximum ≤ count) (retry .rateLimited))
  modify fun s => s.setClients (s.limiter.clients.insert client (window, count + 1))

variable {E : Type} (V : WorkVerifier E)

def deriveClaimId (claim : WorkClaimPublic) (proof : List Nat) : ServiceM Digest384 := do
  rejectIf (proof = [] ∨ maxWorkProofBytes < proof.length) (terminal .proofTooLarge)
  (deriveWorkClaimId V.sha3 claim proof).mapError fun _ => terminal .malformedRequest

def workProofProfileId : Digest384 :=
  workHash V.sha3 "ACTUM-WORK-PROOF-PROFILE-V1" [.tag "ACTIVECHAIN-PQ-ZK-RISC0-STARK-V1"]

variable (bundle : SignedTrustBundle) (claim : WorkClaimPublic)

def verifyTrustBindings (nowMs : Nat) : ServiceM Unit := do
  let body := bundle.body
  rejectIf (nowMs < body.notBeforeMs ∨ body.notAfterMs < nowMs) (terminal .staleTrust)
  rejectIf (body.chainId ≠ claim.chainId) (terminal .wrongChain)
  rejectIf (body.genesisCommitment ≠ claim.genesis) (terminal .wrongGenesis)
  rejectIf (body.risc0ImageId ≠ V.workImageId ∨ body.proofSystemRevision ≠ workProofSystemRevision ∨
    body.proofProfileId ≠ workProofProfileId V ∨ body.verifierRevision ≠ workVerifierRevision)
    (terminal .wrongImage)
  rejectIf (body.policyId ≠ claim.policyId ∨ body.policyRevision ≠ claim.policyRevision)
    (terminal .wrongPolicy)

def verifyAnchorPublicBindings (request : TelemetryEpochAnchorRequest) : ServiceM Unit :=
  let epoch := request.epoch
  rejectIf (request.chainId ≠ claim.chainId ∨ request.genesisCommitment ≠ claim.genesis ∨
    request.telemetrySchemaRevision ≠ claim.telemetrySchema ∨
    epoch.collectorId ≠ claim.collectorId ∨ epoch.projectId ≠ claim.projectId ∨
    epoch.eventRoot ≠ claim.epochRoot ∨ epoch.eventCount ≠ claim.epochEventCount ∨
    epoch.authorizationRevision ≠ claim.authorizationRevision ∨
    epoch.policyId ≠ claim.policyId ∨ claim.firstSequence < epoch.firstProjectSequence ∨
    epoch.lastProjectSequence < claim.lastSequence ∨ claim.intervalStartMs < epoch.wallStartMs ∨
    epoch.wallEndMs < claim.intervalEndMs) (terminal .invalidAnchor)

def verifyFinalizedAnchorCheckpoint (request : TelemetryEpochAnchorRequest) (evidence : E) :
    ServiceM FinalizedAnchor := do
  verifyAnchorPublicBindings claim request
  V.checkpointedAnchor bundle request evidence

variable (request : VerifyWorkClaimRequest E) (nowMs : Nat)

/-- The checks of `verify` between the rate limiter and the registry. -/
def checkRequest : ServiceM FinalizedAnchor := do
  let claimId ← deriveClaimId V request.claim request.proofEnvelope
  rejectIf (request.claimId ≠ claimId) (terminal .claimIdMismatch)
  verifyTrustBindings V bundle request.claim nowMs
  V.relation request.claim request.proofEnvelope
  let evidence ← okOr request.checkpointedAnchorEvidence (retry .checkpointUnavailable)
  verifyFinalizedAnchorCheckpoint V bundle request.claim request.anchorRequest evidence

/-- The registry part of `verify`. -/
def register (save : SaveOutcome) : WorkServiceM UsageRegistration :=
  .onPart usage (fun usage s => { s with usage }) id
    (UsageState.registerAll request.claim.usageDomain request.claim.usageNullifiers request.claimId
      workVerifierRevision bundle.body.bundleSequence nowMs save)

def verify (save : SaveOutcome) : WorkServiceM VerifiedClaim := do
  admitClient request.clientId nowMs
  let bundle := (← get).trust
  let anchor ← .check (checkRequest V bundle request nowMs)
  let registration ← register bundle request nowMs save
  return {
    claimId := request.claimId
    idempotent := registration == .idempotent
    chainId := request.claim.chainId
    projectId := request.claim.projectId
    usageDomain := request.claim.usageDomain
    policyId := request.claim.policyId
    policyRevision := request.claim.policyRevision
    aggregate := request.claim.aggregate
    anchor := anchor
    checkpointBundleId := bundle.bundleId
    acceptedAtMs := nowMs }

/-- Write a bundle to the trust file, and take it into memory if that succeeded. -/
def installTrust (next : SignedTrustBundle) : SaveOutcome → WorkServiceM PUnit
  | .written => modify fun s => { s with trustFile := next, trust := next }
  | .lost => .check (.error persistence)
  | .late => do
    modify fun s => { s with trustFile := next }
    .check (.error persistence)

/-- A panic of the check changes nothing either. -/
def transition (next : SignedTrustBundle) (currentSet : TrustSignerSet)
    (activatedSet : Option TrustSignerSet) (nowMs : Nat) (save : SaveOutcome) :
    WorkServiceM PUnit := do
  let s ← get
  .check ((verifyTrustBundleTransition V.sha3 V.bundleSignature s.trust next currentSet activatedSet
    nowMs).mapError fun _ => terminal .staleTrust)
  installTrust next save

/-- The service on its files, with nothing counted yet. -/
def opened (usage : UsageState) (limiter : FixedWindowRateLimiter) : WorkProofService :=
  ⟨bundle, bundle, usage, limiter⟩

end WorkProofService

/-! ## Runs -/

/-- The calls of the service; `restart` opens it again on its files. -/
inductive ServiceCall (E : Type)
  | verify (request : VerifyWorkClaimRequest E) (nowMs : Nat) (save : SaveOutcome)
  | transition (next : SignedTrustBundle) (currentSet : TrustSignerSet)
      (activatedSet : Option TrustSignerSet) (nowMs : Nat) (save : SaveOutcome)
  | restart (limiter : FixedWindowRateLimiter)

def ServiceCall.request? {E : Type} : ServiceCall E → Option (VerifyWorkClaimRequest E)
  | .verify request _ _ => some request
  | _ => none

structure ServiceRun (E : Type) where
  service : WorkProofService
  accepted : List (VerifyWorkClaimRequest E)

namespace ServiceRun

variable {E : Type} (V : WorkVerifier E)

def step (r : ServiceRun E) : ServiceCall E → ServiceRun E
  | .verify request nowMs save =>
    match (WorkProofService.verify V request nowMs save).exec r.service with
    | (.ok _, s) => ⟨s, request :: r.accepted⟩
    | (.error _, s) => ⟨s, r.accepted⟩
  | .transition next currentSet activatedSet nowMs save =>
    ⟨((WorkProofService.transition V next currentSet activatedSet nowMs save).exec r.service).2,
      r.accepted⟩
  | .restart limiter => ⟨.opened r.service.trustFile r.service.usage limiter, r.accepted⟩

def run (s : WorkProofService) (calls : List (ServiceCall E)) : ServiceRun E :=
  calls.foldl (step V) ⟨s, []⟩

end ServiceRun

/-! ## The registry only grows -/

namespace UsageState

/-- Every entry is still there. -/
def Extends (s t : UsageState) : Prop :=
  ∀ k e, s.entries.get? k = some e → t.entries.get? k = some e

theorem Extends.refl (s : UsageState) : s.Extends s := fun _ _ h => h

theorem Extends.trans {s t u : UsageState} (h : s.Extends t) (h' : t.Extends u) : s.Extends u :=
  fun k e hk => h' k e (h k e hk)

/-- The nullifiers of the claim are registered for it. -/
def Holds (s : UsageState) (usageDomain : Digest384) (nullifiers : List Digest384)
    (claimId : Digest384) : Prop :=
  ∀ n ∈ nullifiers, ∃ e, s.entries.get? (toLex (usageDomain, n)) = some e ∧ e.claimId = claimId

theorem Holds.extends {s t : UsageState} {usageDomain claimId : Digest384}
    {nullifiers : List Digest384} (h : s.Holds usageDomain nullifiers claimId)
    (ht : s.Extends t) : t.Holds usageDomain nullifiers claimId := by
  intro n hn
  obtain ⟨e, he, hc⟩ := h n hn
  exact ⟨e, ht _ e he, hc⟩

section

variable {entries : List UsageEntry} {s : UsageState}

variable {k : UsageKey}

theorem get?_insertAll_of_ne (h : ∀ e ∈ entries, e.key ≠ k) :
    (entries.foldl insert s).entries.get? k = s.entries.get? k := by
  induction entries generalizing s with
  | nil => rfl
  | cons e entries ih =>
    obtain ⟨he, hr⟩ := forall_mem_cons.1 h
    rw [foldl_cons, ih hr]
    exact get?_insert_ne _ e (Ne.symm he)

theorem get?_insertAll_of_mem (h : ∃ e ∈ entries, e.key = k) :
    ∃ e ∈ entries, (entries.foldl insert s).entries.get? k = some e := by
  induction entries generalizing s with
  | nil => simp at h
  | cons first entries ih =>
    by_cases hl : ∃ e ∈ entries, e.key = k
    · obtain ⟨e, he, hget⟩ := ih (s := s.insert first) hl
      exact ⟨e, mem_cons_of_mem _ he, hget⟩
    · have hf : first.key = k := by
        obtain ⟨e, he, hkey⟩ := h
        rcases mem_cons.1 he with rfl | he
        · exact hkey
        · exact absurd ⟨e, he, hkey⟩ hl
      refine ⟨first, mem_cons_self, ?_⟩
      rw [foldl_cons, get?_insertAll_of_ne fun e he hkey => hl ⟨e, he, hkey⟩, ← hf]
      exact get?_insert_self _ _ _

theorem extends_insertAll (h : ∀ e ∈ entries, s.entries.contains e.key = false) :
    s.Extends (entries.foldl insert s) := by
  intro k e he
  rw [get?_insertAll_of_ne, he]
  rintro e' he' rfl
  rw [contains_eq_false.1 (h e' he')] at he
  cases he

variable {candidate s : UsageState}

theorem persist_moves (save : SaveOutcome) (h : s.Extends candidate) :
    (candidate.persist save).Moves Extends s := by
  cases save with
  | written => exact h
  | lost => exact Extends.refl s
  | late => exact h

variable {save : SaveOutcome} {s' : UsageState}

theorem persist_ok {u : PUnit} (h : (candidate.persist save).exec s = (.ok u, s')) :
    s' = candidate := by
  cases save with
  | written => exact (Prod.mk.inj h).2.symm
  | lost => cases (Prod.mk.inj h).1
  | late => cases (Prod.mk.inj h).1

theorem enter_moves (es : List UsageEntry) (save : SaveOutcome) (s : UsageState) :
    (enter es save).Moves Extends s := by
  refine .get_bind <| .check_bind Extends.refl fun _ hf => .check_bind Extends.refl fun _ _ => ?_
  have hnew : s.Extends (es.foldl insert s) := extends_insertAll fun e he => by
    simpa using fun hc => rejectIf_eq_ok.1 hf ⟨e, he, hc⟩
  exact .bind (R := Extends) (fun _ _ _ => Extends.trans) (persist_moves save hnew)
    fun _ s' _ => Extends.refl s'

theorem enter_ok {r : UsageRegistration} (h : (enter entries save).exec s = (.ok r, s')) :
    s' = entries.foldl insert s := by
  simp only [enter, inversion, existsAndEq] at h
  obtain ⟨_, -, _, -, _, hp, -⟩ := h
  exact persist_ok hp

end

section Register

variable {usageDomain claimId : Digest384} {nullifiers : List Digest384}
  {verifierRevision trustSequence acceptedAtMs : Nat} {save : SaveOutcome}

theorem registerAll_moves (s : UsageState) :
    (registerAll usageDomain nullifiers claimId verifierRevision trustSequence acceptedAtMs
      save).Moves Extends s := by
  refine .check_bind Extends.refl fun _ _ => .check_bind Extends.refl fun _ _ => .get_bind ?_
  split_ifs
  · exact .of_readOnly Extends.refl (.check _)
  · exact enter_moves _ _ s

theorem holds_of_claimKeys {s : UsageState} {canonical : List Digest384}
    (h : s.claimKeys claimId = canonical.map fun nullifier => (usageDomain, nullifier)) :
    s.Holds usageDomain canonical claimId := by
  intro n hn
  have hmem : (usageDomain, n) ∈ s.claimKeys claimId := by
    rw [h]
    exact mem_map_of_mem hn
  simp only [claimKeys, mem_map, mem_filter, beq_iff_eq, mem_values, Prod.mk.injEq] at hmem
  obtain ⟨e, ⟨⟨k, hget⟩, hc⟩, rfl, rfl⟩ := hmem
  obtain rfl := s.keyed k e hget
  exact ⟨e, hget, hc⟩

/-- **A registered claim holds all of its nullifiers.** -/
theorem registerAll_ok {s s' : UsageState} {r : UsageRegistration}
    (h : (registerAll usageDomain nullifiers claimId verifierRevision trustSequence acceptedAtMs
      save).exec s = (.ok r, s')) : s'.Holds usageDomain nullifiers claimId := by
  simp only [registerAll, inversion, existsAndEq] at h
  obtain ⟨_, -, _, -, h⟩ := h
  have hh : s'.Holds usageDomain (nullifiers.insertionSort (· ≤ ·)) claimId := by
    split_ifs at h with hold
    · obtain ⟨hr, rfl⟩ := Prod.mk.inj h
      unfold repeated at hr
      split_ifs at hr with heq
      exact holds_of_claimKeys heq
    · intro n hn
      obtain ⟨e, he, hget⟩ := get?_insertAll_of_mem ⟨_, mem_map.2 ⟨n, hn, rfl⟩, rfl⟩
      obtain ⟨_, -, rfl⟩ := mem_map.1 he
      exact ⟨_, enter_ok h ▸ hget, rfl⟩
  intro n hn
  exact hh n (by simpa using hn)

end Register

end UsageState

/-! ## What a call of the service changes -/

namespace WorkProofService

variable {E : Type} {V : WorkVerifier E}

/-- The trust store is as before, and the registry keeps its entries. -/
structure Grows (s t : WorkProofService) : Prop where
  trust : t.trust = s.trust
  trustFile : t.trustFile = s.trustFile
  usage : s.usage.Extends t.usage

theorem Grows.refl (s : WorkProofService) : s.Grows s := ⟨rfl, rfl, .refl _⟩

theorem Grows.trans (s t u : WorkProofService) (h : s.Grows t) (h' : t.Grows u) : s.Grows u :=
  ⟨h'.trust.trans h.trust, h'.trustFile.trans h.trustFile, h.usage.trans h'.usage⟩

theorem grows_setClients (s : WorkProofService) (clients : SortedMap Digest384 (Nat × Nat)) :
    s.Grows (s.setClients clients) := ⟨rfl, rfl, .refl _⟩

theorem admitClient_moves (client : Digest384) (nowMs : Nat) (s : WorkProofService) :
    (admitClient client nowMs).Moves Grows s := by
  refine .get_bind <| .bind Grows.trans (.modified (grows_setClients _ _)) fun _ s₁ _ =>
    .get_bind <| .check_bind Grows.refl fun _ _ =>
      .bind Grows.trans (.modified (grows_setClients _ _)) fun _ s₂ _ =>
        .check_bind Grows.refl fun _ _ => .modified (grows_setClients _ _)

section

variable (bundle : SignedTrustBundle) (request : VerifyWorkClaimRequest E) (nowMs : Nat)
  (save : SaveOutcome) (s : WorkProofService)

theorem register_moves : (register bundle request nowMs save).Moves Grows s :=
  .onPart (fun _ h => ⟨rfl, rfl, h⟩) (UsageState.registerAll_moves _)

theorem verify_moves : (verify V request nowMs save).Moves Grows s := by
  refine .bind Grows.trans (admitClient_moves _ _ s) fun _ s₁ _ => .get_bind <|
    .check_bind Grows.refl fun _ _ => .bind Grows.trans (register_moves _ _ _ _ s₁)
      fun _ s₂ _ => Grows.refl s₂

end

/-- What the service knows of a request that it accepted. -/
structure Admitted (V : WorkVerifier E) (chainId : Digest384) (usage : UsageState)
    (request : VerifyWorkClaimRequest E) : Prop where
  chain : request.claim.chainId = chainId
  claimId : deriveWorkClaimId V.sha3 request.claim request.proofEnvelope = .ok request.claimId
  relation : V.relation request.claim request.proofEnvelope = .ok ()
  usage : usage.Holds request.claim.usageDomain request.claim.usageNullifiers request.claimId

variable {request : VerifyWorkClaimRequest E}

variable {chainId : Digest384}

theorem Admitted.extends {usage usage' : UsageState} (h : Admitted V chainId usage request)
    (hu : usage.Extends usage') : Admitted V chainId usage' request :=
  { h with usage := h.usage.extends hu }

variable {nowMs : Nat}

theorem checkRequest_ok {bundle : SignedTrustBundle} {anchor : FinalizedAnchor}
    (h : checkRequest V bundle request nowMs = .ok anchor) :
    request.claim.chainId = bundle.body.chainId ∧
      deriveWorkClaimId V.sha3 request.claim request.proofEnvelope = .ok request.claimId ∧
      V.relation request.claim request.proofEnvelope = .ok () := by
  simp only [checkRequest, deriveClaimId, verifyTrustBindings, Except.inversion] at h
  obtain ⟨_, ⟨-, hid⟩, rfl, ⟨-, hc, -⟩, hr, -⟩ := h
  exact ⟨hc.symm, hid, hr⟩

theorem verify_ok {save : SaveOutcome} {s s' : WorkProofService} {r : VerifiedClaim}
    (h : (verify V request nowMs save).exec s = (.ok r, s')) :
    Admitted V s.trust.body.chainId s'.usage request := by
  simp only [verify, inversion, existsAndEq] at h
  obtain ⟨_, s₁, hl, _, hc, _, hr, -⟩ := h
  have hg : s.Grows s₁ := by
    have hm := admitClient_moves request.clientId nowMs s
    rwa [Update.Moves, hl] at hm
  obtain ⟨hch, hid, hre⟩ := checkRequest_ok hc
  obtain ⟨t, hreg, rfl⟩ := exec_onPart_eq_ok.1 hr
  exact ⟨hch.trans (by rw [hg.trust]), hid, hre, UsageState.registerAll_ok hreg⟩

/-- Both copies of the accepted bundle are of the chain. -/
def OfChain (chainId : Digest384) (s : WorkProofService) : Prop :=
  s.trust.body.chainId = chainId ∧ s.trustFile.body.chainId = chainId

theorem transition_keeps (next : SignedTrustBundle) (currentSet : TrustSignerSet)
    (activatedSet : Option TrustSignerSet) (nowMs : Nat) (save : SaveOutcome) {s : WorkProofService}
    (hs : s.OfChain chainId) :
    (((transition V next currentSet activatedSet nowMs save).exec s).2).OfChain chainId ∧
      ((transition V next currentSet activatedSet nowMs save).exec s).2.usage = s.usage := by
  refine Update.Moves.get_bind (R := fun s t : WorkProofService => t.OfChain chainId ∧
    t.usage = s.usage) ?_
  cases hc : (verifyTrustBundleTransition V.sha3 V.bundleSignature s.trust next currentSet
      activatedSet nowMs) with
  | error e => exact ⟨hs, rfl⟩
  | ok u =>
    have hn : next.body.chainId = chainId := (verifyTrustBundleTransition_ok hc).2.1.trans hs.1
    cases save with
    | written => exact ⟨⟨hn, hn⟩, rfl⟩
    | lost => exact ⟨hs, rfl⟩
    | late => exact ⟨⟨hs.1, hn⟩, rfl⟩

end WorkProofService

end ActiveChain
