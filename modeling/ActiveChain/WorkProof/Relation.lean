import ActiveChain.WorkProof.Telemetry
import Mathlib.Data.List.Sort
import Mathlib.Data.Prod.Lex

/-!
# Work claims and their private relation (`work-proof`)

A claimant shows that a public claim of work follows from events of an anchored epoch, without
showing the events.  What the public sees of an event is a nullifier.

* `MeteringPolicy`, `WorkClaimPublic`, `WorkClaimRelationInput` — the policy, the claim and what
  the prover knows.
* `evaluateAttention`, `evaluateCompute`, `evaluateContribution` — the three ways to add events up.
* `verifyRelation` — the relation the proof is about.
* `verifyRelation_ok` — what an accepted relation says about its nullifiers.
* `usageNullifier_inj` — **a usage nullifier determines the event and the secret.**
-/

namespace ActiveChain

open Except List Function

def maxWorkEvents : Nat := 256

def maxEpochDepth : Nat := 12

def modelWeightDenominator : Nat := 1000000

inductive WorkProofError
  | malformed
  | relation
deriving DecidableEq, Repr

abbrev WorkM : Type → Type := Except WorkProofError

/-! ## Policy -/

structure MeteringPolicy where
  revision : Nat
  acceptedMeasurementKinds : Nat
  idleTimeoutMs : Nat
  maxHumanEventMs : Nat
  maxAttentionClaimMs : Nat
  modelInputWeight : Nat
  modelOutputWeight : Nat
deriving DecidableEq

instance : CanonicalType MeteringPolicy where
  typeTag := 0x01be
  schemaVersion := 1
  body p := [.u32 p.revision, .u8 p.acceptedMeasurementKinds, .u64 p.idleTimeoutMs,
    .u64 p.maxHumanEventMs, .u64 p.maxAttentionClaimMs, .u32 p.modelInputWeight,
    .u32 p.modelOutputWeight]

def DeveloperEventMeasurement.kindBit : DeveloperEventMeasurement → Nat
  | humanInteraction _ => 1
  | agentExecution _ => 2
  | gitArtifact _ => 4
  | buildTest _ _ => 8
  | modelUsage _ _ _ => 16

def allKinds : Nat := 31

namespace MeteringPolicy

def validate (p : MeteringPolicy) : WorkM Unit :=
  rejectIf (p.revision = 0 ∨ p.acceptedMeasurementKinds = 0 ∨
    p.acceptedMeasurementKinds &&& (255 ^^^ allKinds) ≠ 0 ∨ p.idleTimeoutMs = 0 ∨
    p.maxHumanEventMs = 0 ∨ p.maxAttentionClaimMs = 0 ∨
    (p.modelInputWeight = 0 ∧ p.modelOutputWeight = 0)) .malformed

def policyId (C : Crypto) (p : MeteringPolicy) : Digest384 := commit C .canonicalValue p

def accepts (p : MeteringPolicy) (measurement : DeveloperEventMeasurement) : Bool :=
  decide (p.acceptedMeasurementKinds &&& measurement.kindBit ≠ 0)

end MeteringPolicy

/-! ## Claims -/

inductive WorkClaimAggregate
  | attention (attributableMs interactionCount : Nat)
  | compute (agentRuntimeMs modelInputTokens modelOutputTokens normalizedModelUnits runCount : Nat)
  | contribution (artifactCount : Nat) (artifactSetCommitment evidenceRoot : Digest384)
deriving DecidableEq

namespace WorkClaimAggregate

def classTag : WorkClaimAggregate → Nat
  | attention _ _ => 0
  | compute _ _ _ _ _ => 1
  | contribution _ _ _ => 2

def encode (a : WorkClaimAggregate) : Transcript :=
  .u8 a.classTag :: match a with
    | attention ms interactions => [.u64 ms, .u32 interactions]
    | compute runtime input output units runs =>
      [.u64 runtime, .u64 input, .u64 output, .u64 units, .u32 runs]
    | contribution artifacts commitment root => [.u32 artifacts, .digest commitment, .digest root]

theorem encode_append_inj {a a' : WorkClaimAggregate} {t t' : Transcript}
    (h : a.encode ++ t = a'.encode ++ t') : a = a' ∧ t = t' := by
  cases a <;> cases a' <;> simp_all [encode, classTag]

end WorkClaimAggregate

structure WorkClaimPublic where
  chainId : Digest384
  genesis : Digest384
  telemetrySchema : Nat
  policyId : Digest384
  policyRevision : Nat
  authorizationRevision : Nat
  usageDomain : Digest384
  collectorId : Digest384
  projectId : Digest384
  claimantKey : Digest384
  epochRoot : Digest384
  firstSequence : Nat
  lastSequence : Nat
  eventCount : Nat
  epochEventCount : Nat
  intervalStartMs : Nat
  intervalEndMs : Nat
  aggregate : WorkClaimAggregate
  nullifierRoot : Digest384
  usageNullifierRoot : Digest384
  usageNullifiers : List Digest384
deriving DecidableEq

instance : CanonicalType WorkClaimPublic where
  typeTag := 0x01bb
  schemaVersion := 1
  body p := [.digest p.chainId, .digest p.genesis, .u16 p.telemetrySchema, .digest p.policyId,
    .u32 p.policyRevision, .u32 p.authorizationRevision, .digest p.usageDomain,
    .digest p.collectorId, .digest p.projectId, .digest p.claimantKey, .digest p.epochRoot,
    .u64 p.firstSequence, .u64 p.lastSequence, .u16 p.eventCount, .u32 p.epochEventCount,
    .u64 p.intervalStartMs, .u64 p.intervalEndMs] ++ (p.aggregate.encode ++
    .digest p.nullifierRoot :: .digest p.usageNullifierRoot :: .u32 p.usageNullifiers.length ::
      p.usageNullifiers.map .digest)

theorem WorkClaimPublic.body_injective : Injective (CanonicalType.body (α := WorkClaimPublic)) := by
  intro p p' h
  obtain ⟨hh, hr⟩ := append_inj h rfl
  obtain ⟨hag, ht⟩ := WorkClaimAggregate.encode_append_inj hr
  simp only [Transcript.inversion] at ht
  obtain ⟨hro, hu, -, hn⟩ := ht
  have hd : Injective Chunk.digest := fun _ _ => Chunk.digest.inj
  have hn := map_injective_iff.2 hd hn
  cases p
  simp_all

structure WorkEventWitness where
  event : DeveloperEvent
  merkleIndex : Nat
  merklePath : List Digest384
deriving DecidableEq

structure WorkClaimRelationInput where
  claim : WorkClaimPublic
  policy : MeteringPolicy
  claimantSecret : Digest384
  events : List WorkEventWitness

section Hashes

variable (sha3 : HashFn)

/-- `hash` of the crate: every field has a fixed width, or a length of its own. -/
def workHash (domain : String) (fields : Transcript) : Digest384 := sha3 (.tag domain :: fields)

variable (claim : WorkClaimPublic)

def deriveWorkClaimId (proofEnvelope : List Nat) : WorkM Digest384 := do
  rejectIf (proofEnvelope = []) .malformed
  return workHash sha3 "ACTUM-WORK-CLAIM-V1" (envelope claim ++ proofEnvelope.map .u8)

def claimantKeyOf (secret : Digest384) : Digest384 :=
  workHash sha3 "ACTUM-WORK-CLAIMANT-V1" [.digest secret]

def classNullifier (secret eventId : Digest384) : Digest384 :=
  workHash sha3 "ACTUM-WORK-CLASS-NULLIFIER-V1" [.digest claim.chainId, .digest claim.projectId,
    .digest claim.policyId, .u8 claim.aggregate.classTag, .digest eventId, .digest secret]

def usageNullifier (secret eventId : Digest384) : Digest384 :=
  workHash sha3 "ACTUM-WORK-USAGE-NULLIFIER-V1" [.digest claim.chainId, .digest claim.projectId,
    .digest claim.usageDomain, .digest eventId, .digest secret]

/-- `root`. -/
def nullifierTreeRoot (domain : String) (nodes : List Digest384) : Digest384 :=
  levelRoot (fun left right => workHash sha3 domain [.digest left, .digest right]) nodes

def includedRoot (eventId : Digest384) (index : Nat) (path : List Digest384) : Digest384 :=
  (path.foldl (fun (state : Digest384 × Nat) sibling =>
    (if state.2 % 2 = 0 then eventNodeHash sha3 state.1 sibling
      else eventNodeHash sha3 sibling state.1, state.2 / 2)) (eventLeafHash sha3 eventId, index)).1

def artifactSetCommitment (artifacts : List Digest384) : Digest384 :=
  workHash sha3 "ACTUM-CONTRIBUTION-ARTIFACT-SET-V1" (artifacts.map .digest)

end Hashes

def epochDepth (count : Nat) : Nat :=
  if 1 < count then epochDepth ((count + 1) / 2) + 1 else 0
termination_by count
decreasing_by omega

/-! ## Adding events up -/

def durationMs (event : DeveloperEvent) : WorkM Nat :=
  (okOr (checkedSub event.monotonicEndNs event.monotonicStartNs) .relation).map (· / 1000000)

def DeveloperEventMeasurement.interactions : DeveloperEventMeasurement → WorkM Nat
  | humanInteraction count => .ok count
  | _ => .error .relation

/-- An attributed interval with its event. -/
abbrev AttentionInterval := Nat ×ₗ Nat ×ₗ Digest384

namespace AttentionInterval

variable (i : AttentionInterval)

def start : Nat := (ofLex i).1

def finish : Nat := (ofLex (ofLex i).2).1

def withFinish (finish : Nat) : AttentionInterval :=
  toLex (i.start, toLex (finish, (ofLex (ofLex i).2).2))

end AttentionInterval

/-- One round of the first loop of `evaluate_attention`. -/
def clipInterval (policy : MeteringPolicy) (state : List AttentionInterval × Nat)
    (item : Digest384 × DeveloperEvent) : WorkM (List AttentionInterval × Nat) := do
  let count ← item.2.measurement.interactions
  let interactions ← okOr (checkedAdd 32 state.2 count) .relation
  let duration ← durationMs item.2
  let clippedMs := min duration (min policy.idleTimeoutMs policy.maxHumanEventMs)
  let clippedNs ← okOr (checkedMul 64 clippedMs 1000000) .relation
  let finish ← okOr (checkedAdd 64 item.2.monotonicStartNs clippedNs) .relation
  return (state.1 ++ [toLex (item.2.monotonicStartNs, toLex (finish, item.1))], interactions)

def addInterval (total : Nat) (i : AttentionInterval) : WorkM Nat := do
  let length ← okOr (checkedSub i.finish i.start) .relation
  okOr (checkedAdd 64 total length) .relation

/-- One round of the merging loop of `evaluate_attention`. -/
def mergeInterval (state : Nat × AttentionInterval) (i : AttentionInterval) :
    WorkM (Nat × AttentionInterval) :=
  if i.start ≤ state.2.finish then
    .ok (state.1, state.2.withFinish (max state.2.finish i.finish))
  else do
    let total ← addInterval state.1 state.2
    return (total, i)

/-- The merging loop over sorted intervals.  The caller never gives an empty list, on which the
source would panic. -/
def mergedLength : List AttentionInterval → WorkM Nat
  | [] => .error .relation
  | first :: rest => do
    let (total, current) ← rest.foldlM mergeInterval (0, first)
    addInterval total current

def evaluateAttention (policy : MeteringPolicy) (events : List (Digest384 × DeveloperEvent)) :
    WorkM WorkClaimAggregate := do
  let (intervals, interactions) ← events.foldlM (clipInterval policy) ([], 0)
  let totalNs ← mergedLength (intervals.insertionSort (· ≤ ·))
  return .attention (min (totalNs / 1000000) policy.maxAttentionClaimMs) interactions

/-- What the loop of `evaluate_compute` adds up. -/
structure ComputeTotals where
  runtime : Nat
  input : Nat
  output : Nat
  runs : Nat
deriving DecidableEq

namespace ComputeTotals

variable (t : ComputeTotals)

/-- A run of an agent or of a build. -/
def addRun (event : DeveloperEvent) (runCount : Nat) : WorkM ComputeTotals := do
  let duration ← durationMs event
  let runtime ← okOr (checkedAdd 64 t.runtime duration) .relation
  let runs ← okOr (checkedAdd 32 t.runs runCount) .relation
  return { t with runtime := runtime, runs := runs }

def addModel (inputTokens outputTokens runCount : Nat) : WorkM ComputeTotals := do
  let input ← okOr (checkedAdd 64 t.input inputTokens) .relation
  let output ← okOr (checkedAdd 64 t.output outputTokens) .relation
  let runs ← okOr (checkedAdd 32 t.runs runCount) .relation
  return { t with input := input, output := output, runs := runs }

/-- One round of the loop of `evaluate_compute`. -/
def add (item : Digest384 × DeveloperEvent) : WorkM ComputeTotals :=
  match item.2.measurement with
  | .agentExecution runs => t.addRun item.2 runs
  | .buildTest runs _ => t.addRun item.2 runs
  | .modelUsage input output runs => t.addModel input output runs
  | _ => .error .relation

end ComputeTotals

def evaluateCompute (policy : MeteringPolicy) (events : List (Digest384 × DeveloperEvent)) :
    WorkM WorkClaimAggregate := do
  let t ← events.foldlM ComputeTotals.add ⟨0, 0, 0, 0⟩
  let input ← okOr (checkedMul 128 t.input policy.modelInputWeight) .relation
  let output ← okOr (checkedMul 128 t.output policy.modelOutputWeight) .relation
  let weighted ← okOr (checkedAdd 128 input output) .relation
  let normalized ← okOr (fitsIn 64 (weighted / modelWeightDenominator)) .relation
  return .compute t.runtime t.input t.output normalized t.runs

def evaluateContribution (sha3 : HashFn)
    (events : List (Digest384 × DeveloperEvent)) : WorkM WorkClaimAggregate := do
  rejectIf (∃ item ∈ events, item.2.measurement ≠ .gitArtifact 1) .relation
  let artifacts := (events.map fun item => item.2.subjectCommitment).insertionSort (· ≤ ·)
  rejectIf (¬ artifacts.Pairwise (· ≠ ·)) .relation
  let evidence := (events.map fun item => item.2.payloadCommitment).insertionSort (· ≤ ·)
  let count ← okOr (fitsIn 32 artifacts.length) .relation
  let root ← (telemetryMerkleRoot sha3 evidence).mapError fun _ => .relation
  return .contribution count (artifactSetCommitment sha3 artifacts) root

/-! ## The relation -/

section Relation

variable (C : Crypto) (sha3 : HashFn)

/-- What the loop of `verify_relation` keeps. -/
structure WorkSelection where
  priorSequence : Option Nat
  priorIndex : Option Nat
  selected : List (Digest384 × DeveloperEvent)
  classNullifiers : List Digest384
  usageNullifiers : List Digest384

def WorkSelection.start : WorkSelection := ⟨none, none, [], [], []⟩

variable (input : WorkClaimRelationInput)

/-- The checks of `verify_relation` before the loop. -/
def checkStatement : WorkM Unit := do
  let p := input.claim
  input.policy.validate
  rejectIf (input.events = [] ∨ maxWorkEvents < input.events.length ∨ p.chainId = Digest384.zero ∨
    p.genesis = Digest384.zero ∨ p.policyId = Digest384.zero ∨ p.usageDomain = Digest384.zero ∨
    p.collectorId = Digest384.zero ∨ p.projectId = Digest384.zero ∨ p.telemetrySchema ≠ 1 ∨
    p.policyRevision ≠ input.policy.revision ∨ p.policyId ≠ input.policy.policyId C ∨
    p.authorizationRevision = 0 ∨ p.eventCount ≠ input.events.length ∨
    p.usageNullifiers.length ≠ input.events.length ∨ p.epochEventCount = 0 ∨
    p.firstSequence = 0 ∨ p.lastSequence < p.firstSequence ∨
    p.intervalEndMs < p.intervalStartMs ∨
    claimantKeyOf sha3 input.claimantSecret ≠ p.claimantKey) .malformed

/-- One round of the loop of `verify_relation`. -/
def selectEvent (s : WorkSelection) (w : WorkEventWitness) : WorkM WorkSelection := do
  let p := input.claim
  let eventId := w.event.eventId C
  rejectIf (w.event.collectorId ≠ p.collectorId ∨ w.event.projectId ≠ p.projectId ∨
    w.event.authorizationRevision ≠ p.authorizationRevision ∨
    input.policy.accepts w.event.measurement = false ∨
    (∃ sequence ∈ s.priorSequence, w.event.projectSequence ≤ sequence) ∨
    (∃ index ∈ s.priorIndex, w.merkleIndex ≤ index) ∨
    w.event.wallStartMs < p.intervalStartMs ∨ p.intervalEndMs < w.event.wallEndMs ∨
    p.epochEventCount ≤ w.merkleIndex ∨ w.merklePath.length ≠ epochDepth p.epochEventCount ∨
    includedRoot sha3 eventId w.merkleIndex w.merklePath ≠ p.epochRoot) .relation
  return {
    priorSequence := some w.event.projectSequence
    priorIndex := some w.merkleIndex
    selected := s.selected ++ [(eventId, w.event)]
    classNullifiers := s.classNullifiers ++ [classNullifier sha3 p input.claimantSecret eventId]
    usageNullifiers := s.usageNullifiers ++ [usageNullifier sha3 p input.claimantSecret eventId] }

/-- The aggregate of the selected events, for the class the claim names. -/
def evaluateClass (selected : List (Digest384 × DeveloperEvent)) : WorkM WorkClaimAggregate :=
  match input.claim.aggregate with
  | .attention _ _ => evaluateAttention input.policy selected
  | .compute _ _ _ _ _ => evaluateCompute input.policy selected
  | .contribution _ _ _ => evaluateContribution sha3 selected

def verifyRelation : WorkM Unit := do
  let p := input.claim
  checkStatement C sha3 input
  let s ← input.events.foldlM (selectEvent C sha3 input) WorkSelection.start
  rejectIf (s.selected.head?.map (fun item => item.2.projectSequence) ≠ some p.firstSequence ∨
    s.selected.getLast?.map (fun item => item.2.projectSequence) ≠ some p.lastSequence) .relation
  let aggregate ← evaluateClass sha3 input s.selected
  rejectIf (aggregate ≠ p.aggregate ∨
    nullifierTreeRoot sha3 "ACTUM-WORK-CLASS-NULLIFIER-NODE-V1" s.classNullifiers ≠
    p.nullifierRoot ∨
    s.usageNullifiers ≠ p.usageNullifiers ∨
    nullifierTreeRoot sha3 "ACTUM-WORK-USAGE-NULLIFIER-NODE-V1" s.usageNullifiers ≠
      p.usageNullifierRoot) .relation

/-- What the decoder of the guest checks about the parts of an input. -/
def WorkClaimRelationInput.Decodes : Prop :=
  ∀ w ∈ input.events, w.event.validate = .ok () ∧ w.merklePath.length ≤ maxEpochDepth

/-- The guest program accepts the input: it decodes, and the relation holds. -/
def GuestAccepts : Prop := input.Decodes ∧ verifyRelation C sha3 input = .ok ()

/-- The claim counts the event: an input of the guest behind it has the event. -/
def Counts (claim : WorkClaimPublic) (event : DeveloperEvent) : Prop :=
  ∃ input, GuestAccepts C sha3 input ∧ input.claim = claim ∧ ∃ w ∈ input.events, w.event = event

end Relation

/-! ## What an accepted relation says -/

section Accepted

variable {C : Crypto} {sha3 : HashFn}

variable {input : WorkClaimRelationInput} {p p' : WorkClaimPublic} {event : DeveloperEvent}

variable {s s' : WorkSelection}

theorem selectEvent_ok {w : WorkEventWitness} (h : selectEvent C sha3 input s w = .ok s') :
    w.event.projectId = input.claim.projectId ∧ s'.usageNullifiers = s.usageNullifiers ++
      [usageNullifier sha3 input.claim input.claimantSecret (w.event.eventId C)] := by
  simp only [selectEvent, inversion] at h
  obtain ⟨⟨-, hp, -⟩, rfl⟩ := h
  exact ⟨hp, rfl⟩

theorem selectEvents_ok {ws : List WorkEventWitness}
    (h : ws.foldlM (selectEvent C sha3 input) s = .ok s') :
    (∀ w ∈ ws, w.event.projectId = input.claim.projectId) ∧
      s'.usageNullifiers = s.usageNullifiers ++ ws.map fun w =>
        usageNullifier sha3 input.claim input.claimantSecret (w.event.eventId C) := by
  induction ws generalizing s with
  | nil =>
    simp only [foldlM_nil, pure, Except.pure, Except.ok.injEq] at h
    simp [h]
  | cons w ws ih =>
    obtain ⟨s₁, hs, hr⟩ := bind_eq_ok.1 h
    obtain ⟨hpr, hus⟩ := selectEvent_ok hs
    obtain ⟨hp, hu⟩ := ih hr
    refine ⟨forall_mem_cons.2 ⟨hpr, hp⟩, ?_⟩
    rw [hu, hus, map_cons, append_assoc, singleton_append]

/-- What an accepted relation says about the claimant and the nullifiers. -/
structure RelationHolds (C : Crypto) (sha3 : HashFn)
    (input : WorkClaimRelationInput) : Prop where
  claimant : input.claim.claimantKey = claimantKeyOf sha3 input.claimantSecret
  project : ∀ w ∈ input.events, w.event.projectId = input.claim.projectId
  nullifiers : input.claim.usageNullifiers = input.events.map fun w =>
    usageNullifier sha3 input.claim input.claimantSecret (w.event.eventId C)

theorem verifyRelation_ok (h : verifyRelation C sha3 input = .ok ()) :
    RelationHolds C sha3 input := by
  simp only [verifyRelation, checkStatement, inversion] at h
  obtain ⟨⟨-, hs⟩, s, hl, -, aggregate, -, -, -, hu, -⟩ := h
  obtain ⟨-, -, -, -, -, -, -, -, -, -, -, -, -, -, -, -, -, -, hc⟩ := hs
  obtain ⟨hp, hn⟩ := selectEvents_ok hl
  exact ⟨hc.symm, hp, hu.symm.trans hn⟩

theorem Counts.nullifier (h : Counts C sha3 p event) :
    ∃ secret, p.claimantKey = claimantKeyOf sha3 secret ∧
      event.projectId = p.projectId ∧
      usageNullifier sha3 p secret (event.eventId C) ∈ p.usageNullifiers := by
  obtain ⟨input, ⟨-, hac⟩, rfl, w, hw, rfl⟩ := h
  have hh := verifyRelation_ok hac
  refine ⟨input.claimantSecret, hh.claimant, hh.project w hw, ?_⟩
  rw [hh.nullifiers]
  exact mem_map_of_mem hw

variable (hash : Injective sha3)
include hash

theorem claimantKeyOf_injective : Injective (claimantKeyOf sha3) := by
  intro a b h
  simpa using hash h

theorem usageNullifier_inj {secret secret' eventId eventId' : Digest384} :
    usageNullifier sha3 p secret eventId = usageNullifier sha3 p' secret' eventId' ↔
      p.chainId = p'.chainId ∧ p.projectId = p'.projectId ∧ p.usageDomain = p'.usageDomain ∧
        eventId = eventId' ∧ secret = secret' := by
  rw [usageNullifier, usageNullifier, workHash, workHash, hash.eq_iff]
  simp

theorem events_unique (hev : Injective C.shake256) {input' : WorkClaimRelationInput}
    (h : GuestAccepts C sha3 input) (h' : GuestAccepts C sha3 input')
    (hc : input'.claim = input.claim) :
    input'.events.map WorkEventWitness.event = input.events.map WorkEventWitness.event := by
  have hh := verifyRelation_ok h.2
  have hh' := verifyRelation_ok h'.2
  have hs : input'.claimantSecret = input.claimantSecret :=
    claimantKeyOf_injective hash (by rw [← hh.claimant, ← hh'.claimant, hc])
  have hi : Injective fun event : DeveloperEvent =>
      usageNullifier sha3 input.claim input.claimantSecret (event.eventId C) :=
    fun e e' he => DeveloperEvent.eventId_inj hev ((usageNullifier_inj hash).1 he).2.2.2.1
  refine map_injective_iff.2 hi ?_
  rw [map_map, map_map]
  have hl := hh'.nullifiers
  rw [hc, hs] at hl
  exact hl.symm.trans hh.nullifiers

theorem counts_iff (he : Injective C.shake256) (h : GuestAccepts C sha3 input) :
    Counts C sha3 input.claim event ↔ event ∈ input.events.map WorkEventWitness.event := by
  constructor
  · rintro ⟨input', h', hc, hmem⟩
    rw [← events_unique hash he h h' hc]
    exact mem_map.2 hmem
  · intro hmem
    exact ⟨input, h, rfl, mem_map.1 hmem⟩

/-- **Two claims of one claimant in one usage domain that count the same event share a
nullifier.** -/
theorem Counts.shared_nullifier (h : Counts C sha3 p event) (h' : Counts C sha3 p' event)
    (hch : p.chainId = p'.chainId) (hd : p.usageDomain = p'.usageDomain)
    (hkey : p.claimantKey = p'.claimantKey) :
    ∃ nullifier, nullifier ∈ p.usageNullifiers ∧ nullifier ∈ p'.usageNullifiers := by
  obtain ⟨secret, hc, hp, hmem⟩ := h.nullifier
  obtain ⟨secret', hc', hp', hmem'⟩ := h'.nullifier
  have hs : secret = secret' := claimantKeyOf_injective hash (hc.symm.trans (hkey.trans hc'))
  refine ⟨_, hmem, ?_⟩
  rwa [(usageNullifier_inj hash).2 ⟨hch, hp.symm.trans hp', hd, rfl, hs⟩]

theorem deriveWorkClaimId_inj {proof proof' : List Nat} {id : Digest384}
    (h : deriveWorkClaimId sha3 p proof = .ok id) (h' : deriveWorkClaimId sha3 p' proof' = .ok id) :
    p = p' ∧ proof = proof' := by
  simp only [deriveWorkClaimId, inversion] at h h'
  obtain ⟨-, rfl⟩ := h
  obtain ⟨-, h'⟩ := h'
  have hp : envelope p ++ proof.map Chunk.u8 = envelope p' ++ proof'.map Chunk.u8 :=
    (List.cons.inj (hash h')).2.symm
  -- the third chunk of an envelope is the length of its body
  have hl : (envelope p).length = (envelope p').length := by
    have hc := congrArg (fun t : Transcript => t[2]?) hp
    simp only [envelope, cons_append, nil_append, getElem?_cons_succ,
      getElem?_cons_zero, Option.some.injEq, Chunk.int.injEq, true_and] at hc
    simp [envelope, hc]
  obtain ⟨he, hpr⟩ := append_inj hp hl
  have hb : Injective Chunk.u8 := fun _ _ hu8 => (Chunk.int.inj hu8).2
  exact ⟨WorkClaimPublic.body_injective (body_of_envelope he), map_injective_iff.2 hb hpr⟩

end Accepted

end ActiveChain
