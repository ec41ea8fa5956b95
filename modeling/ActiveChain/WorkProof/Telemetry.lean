import ActiveChain.Commitment

/-!
# Telemetry events and epochs (`application-primitives`)

A collector records what a developer did as events, and seals a run of them as an epoch under a
Merkle root.

* `DeveloperEvent`, `DeveloperEventMeasurement` — an event and what it measures.
* `ActivityEpoch`, `TelemetryEpochAnchorRequest` — a sealed epoch and the request to anchor it.
* `eventLeafHash`, `eventNodeHash`, `telemetryMerkleRoot` — the tree over the event identifiers.
* `DeveloperEvent.eventId_inj` — the identifier determines the event.
-/

namespace ActiveChain

def maxTelemetryEvents : Nat := 16384

inductive TelemetryPrimitiveError
  | invalidEvent
  | invalidEpoch
deriving DecidableEq, Repr

inductive DeveloperEventMeasurement
  | humanInteraction (interactionCount : Nat)
  | agentExecution (runCount : Nat)
  | gitArtifact (artifactCount : Nat)
  | buildTest (runCount testCount : Nat)
  | modelUsage (inputTokens outputTokens runCount : Nat)
deriving DecidableEq, Repr

namespace DeveloperEventMeasurement

/-- `DeveloperEventMeasurementV1::validate` passes. -/
def Valid : DeveloperEventMeasurement → Prop
  | humanInteraction count => count = 1
  | agentExecution runs => runs = 1
  | gitArtifact count => count = 1
  | buildTest runs tests => runs = 1 ∧ tests ≠ 0
  | modelUsage input output runs => runs = 1 ∧ (input ≠ 0 ∨ output ≠ 0)

instance : DecidablePred Valid := fun m => by cases m <;> unfold Valid <;> infer_instance

def encode : DeveloperEventMeasurement → Transcript
  | humanInteraction count => [.u8 0, .u32 count]
  | agentExecution runs => [.u8 1, .u32 runs]
  | gitArtifact count => [.u8 2, .u32 count]
  | buildTest runs tests => [.u8 3, .u32 runs, .u32 tests]
  | modelUsage input output runs => [.u8 4, .u64 input, .u64 output, .u32 runs]

theorem encode_append_inj {m m' : DeveloperEventMeasurement} {t t' : Transcript}
    (h : m.encode ++ t = m'.encode ++ t') : m = m' ∧ t = t' := by
  cases m <;> cases m' <;> simp_all [encode]

end DeveloperEventMeasurement

structure DeveloperEvent where
  collectorId : Digest384
  projectId : Digest384
  collectorSequence : Nat
  projectSequence : Nat
  wallStartMs : Nat
  wallEndMs : Nat
  monotonicStartNs : Nat
  monotonicEndNs : Nat
  measurement : DeveloperEventMeasurement
  sourceCommitment : Digest384
  subjectCommitment : Digest384
  payloadCommitment : Digest384
  authorizationRevision : Nat
deriving DecidableEq

instance : CanonicalType DeveloperEvent where
  typeTag := 0x01b2
  schemaVersion := 1
  body e := [.digest e.collectorId, .digest e.projectId, .u64 e.collectorSequence,
    .u64 e.projectSequence, .u64 e.wallStartMs, .u64 e.wallEndMs, .u64 e.monotonicStartNs,
    .u64 e.monotonicEndNs] ++ (e.measurement.encode ++ [.digest e.sourceCommitment,
    .digest e.subjectCommitment, .digest e.payloadCommitment, .u32 e.authorizationRevision])

namespace DeveloperEvent

def validate (e : DeveloperEvent) : Except TelemetryPrimitiveError Unit := do
  rejectIf (e.collectorId = Digest384.zero ∨ e.projectId = Digest384.zero ∨
    e.collectorSequence = 0 ∨ e.projectSequence = 0 ∨ e.wallEndMs < e.wallStartMs ∨
    e.monotonicEndNs < e.monotonicStartNs ∨ e.sourceCommitment = Digest384.zero ∨
    e.subjectCommitment = Digest384.zero ∨ e.payloadCommitment = Digest384.zero ∨
    e.authorizationRevision = 0) .invalidEvent
  rejectIf (¬ e.measurement.Valid) .invalidEvent

def eventId (C : Crypto) (e : DeveloperEvent) : Digest384 := commit C .canonicalValue e

theorem body_injective : Function.Injective (CanonicalType.body (α := DeveloperEvent)) := by
  intro e e' h
  obtain ⟨hh, hr⟩ := List.append_inj h rfl
  obtain ⟨hm, ht⟩ := DeveloperEventMeasurement.encode_append_inj hr
  cases e
  simp_all

theorem eventId_inj {C : Crypto} (hash : Function.Injective C.shake256) {e e' : DeveloperEvent}
    (h : e.eventId C = e'.eventId C) : e = e' :=
  body_injective (body_of_commit hash h)

end DeveloperEvent

structure ActivityEpoch where
  collectorId : Digest384
  projectId : Digest384
  firstCollectorSequence : Nat
  lastCollectorSequence : Nat
  firstProjectSequence : Nat
  lastProjectSequence : Nat
  eventCount : Nat
  wallStartMs : Nat
  wallEndMs : Nat
  monotonicStartNs : Nat
  monotonicEndNs : Nat
  eventRoot : Digest384
  previousEpochId : Digest384
  authorizationRevision : Nat
  policyId : Digest384
deriving DecidableEq

structure TelemetryEpochAnchorRequest where
  chainId : Digest384
  genesisCommitment : Digest384
  telemetrySchemaRevision : Nat
  submitterId : Digest384
  clientRequestId : List Nat
  epoch : ActivityEpoch
deriving DecidableEq

section Tree

variable (sha3 : HashFn)

def eventLeafHash (eventId : Digest384) : Digest384 := sha3 [.u8 0, .digest eventId]

def eventNodeHash (left right : Digest384) : Digest384 := sha3 [.u8 1, .digest left, .digest right]

/-- One level of a tree that repeats the last node of an odd level. -/
def pairLevel (node : Digest384 → Digest384 → Digest384) : List Digest384 → List Digest384
  | [] => []
  | [last] => [node last last]
  | left :: right :: rest => node left right :: pairLevel node rest

theorem length_pairLevel (node : Digest384 → Digest384 → Digest384) (level : List Digest384) :
    (pairLevel node level).length = (level.length + 1) / 2 := by
  fun_induction pairLevel node level with
  | case1 => rfl
  | case2 last => simp
  | case3 left right rest ih =>
    simp only [List.length_cons, ih]
    omega

def levelRoot (node : Digest384 → Digest384 → Digest384) : List Digest384 → Digest384
  | [] => Digest384.zero
  | [root] => root
  | left :: right :: rest => levelRoot node (pairLevel node (left :: right :: rest))
termination_by level => level.length
decreasing_by
  simp only [length_pairLevel, List.length_cons]
  omega

def telemetryMerkleRoot (eventIds : List Digest384) : Except TelemetryPrimitiveError Digest384 := do
  rejectIf (eventIds = [] ∨ maxTelemetryEvents < eventIds.length) .invalidEpoch
  return levelRoot (eventNodeHash sha3) (eventIds.map (eventLeafHash sha3))

end Tree

end ActiveChain
