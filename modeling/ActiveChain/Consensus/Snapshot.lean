import ActiveChain.Consensus.Engine

/-!
# Durable validator state (`PersistedValidatorState`, `ValidatorService::from_active_manifest`)

What a validator writes before it acts, and how it starts from it.  The peer sequence numbers kept
in the same file are transport state and are not part of the model.

* `ValidatorEngine.validateRestoredSafetyState` — the checks on a restored engine.
-/

namespace ActiveChain

open Except SortedMap

/-- Without the peer sequence numbers. -/
structure PersistedValidatorState where
  consensus : ConsensusState
  genesisCommitment : Digest384
  voteLocks : SortedMap LocalVoteSlot Digest384
  highestVotedRounds : VotedRounds
  lockedQc : Option QuorumCertificate
  certifiedBlocks : SortedMap Digest384 CertifiedBlockRecord
  activeAnchor : ConsensusBlockRef
  acceptedViewChange : Option ViewChangeCertificate
  timeoutLocks : TimeoutLocks

namespace ValidatorEngine

variable (e : ValidatorEngine)

/-- The state `save_validator_snapshot` writes. -/
def snapshot : PersistedValidatorState where
  consensus := e.state
  genesisCommitment := e.genesisCommitment
  voteLocks := e.localVoteLocks
  highestVotedRounds := e.highestVotedRounds
  lockedQc := e.lockedQc
  certifiedBlocks := e.certifiedBlocks
  activeAnchor := e.activeAnchor
  acceptedViewChange := e.acceptedViewChange
  timeoutLocks := e.timeoutLocks

/-- Install a snapshot in a fresh engine. -/
def withSnapshot (p : PersistedValidatorState) : ValidatorEngine :=
  { e with
    localVoteLocks := p.voteLocks
    highestVotedRounds := p.highestVotedRounds
    lockedQc := p.lockedQc
    certifiedBlocks := p.certifiedBlocks
    activeAnchor := p.activeAnchor
    acceptedViewChange := p.acceptedViewChange
    timeoutLocks := p.timeoutLocks }

def VoteLockCovered (slot : LocalVoteSlot) (commitment : Digest384) : Prop :=
  ∃ highest ∈ e.highestVotedRounds.get? ⟨slot.validator, slot.genesisCommitment, slot.epoch,
      slot.validatorSetRoot, slot.protocolRevision⟩,
    slot.round ≤ highest.round ∧ (highest.round = slot.round →
      highest.height = slot.height ∧ highest.proposalCommitment = commitment)
deriving Decidable

/-- A record key belongs to the engine's own domain. -/
def KeyInDomain (genesisCommitment : Digest384) (epoch : Nat) (validatorSetRoot : Digest384)
    (protocolRevision : Nat) : Prop :=
  genesisCommitment = e.genesisCommitment ∧ epoch = e.state.epoch ∧
    validatorSetRoot = e.state.validatorSetRoot ∧ protocolRevision = e.state.protocolRevision
deriving Decidable

/-- The vote-record part of `validate_restored_safety_state`. -/
def voteRecordsValid : Bool :=
  (e.localVoteLocks.entries.all fun (slot, commitment) =>
    decide (e.KeyInDomain slot.genesisCommitment slot.epoch slot.validatorSetRoot
      slot.protocolRevision) && decide (e.VoteLockCovered slot commitment)) &&
  decide (e.highestVotedRounds.length ≤ maxPersistedReplaySenders) &&
  (e.highestVotedRounds.entries.all fun (domain, highest) =>
    decide (e.KeyInDomain domain.genesisCommitment domain.epoch domain.validatorSetRoot
      domain.protocolRevision) && (e.validatorSet.stakeOf domain.validator).isSome &&
      decide (highest.proposalCommitment ≠ Digest384.zero))

/-- The timeout-record part of `validate_restored_safety_state`. -/
def timeoutRecordsValid : Bool :=
  decide (e.timeoutLocks.length ≤ maxPersistedVoteLocks) &&
  (e.timeoutLocks.entries.all fun (domain, slot) =>
    decide (e.KeyInDomain domain.genesisCommitment domain.epoch domain.validatorSetRoot
      domain.protocolRevision) && (e.validatorSet.stakeOf domain.validator).isSome &&
      decide (domain.height = slot.height ∧ domain.round = slot.round ∧
        checkedAdd 64 slot.parent.height 1 = some slot.height ∧ slot.round ≠ u64Max))

def checkRecord (C : Crypto) (e : ValidatorEngine) (entry : Digest384 × CertifiedBlockRecord) :
    EngineM Unit := do
  let record := entry.2
  rejectIf (entry.1 ≠ record.certificate.proposalCommitment ∨
    ¬ e.InDomain record.certificate.context ∨
    e.isAncestorOrEqual e.activeAnchor.proposalCommitment entry.1 = false) .invalidSafetySnapshot
  let proof ← (CertifiedBlock.new C record.proposal record.certificate record.votes).mapError
    fun _ => .invalidSafetySnapshot
  let proposerKey ← okOr (e.publicKeys.get? proof.proposal.proposer) .invalidSafetySnapshot
  (verifyBlockProposal C proposerKey proof.proposal).mapError fun _ => .invalidSafetySnapshot
  let votes ← proof.votes.mapM fun vote => do
    let key ← okOr (e.publicKeys.get? vote.validator) ValidatorEngineError.invalidSafetySnapshot
    .ok (key, vote)
  (CryptoProvider.verifyQuorumCertificate C record.certificate e.validatorSet votes).mapError
    fun _ => .invalidSafetySnapshot

def LockDurable (locked : QuorumCertificate) : Prop :=
  locked.blockRef = e.activeAnchor ∨
    (e.certifiedBlocks.get? locked.proposalCommitment).map CertifiedBlockRecord.certificate =
      some locked
deriving Decidable

def validateRestoredSafetyState (C : Crypto) (e : ValidatorEngine) : EngineM Unit := do
  let expectedAnchor ← (e.state.activeAnchor e.genesisCommitment).mapError
    fun _ => .invalidSafetySnapshot
  rejectIf (maxPersistedCertifiedBlocks < e.certifiedBlocks.length ∨
    e.activeAnchor ≠ expectedAnchor) .invalidSafetySnapshot
  rejectIf (e.voteRecordsValid = false) .invalidSafetySnapshot
  rejectIf (e.timeoutRecordsValid = false) .invalidSafetySnapshot
  e.certifiedBlocks.entries.forM (e.checkRecord C)
  rejectIf (∃ locked ∈ e.lockedQc, ¬ e.LockDurable locked) .invalidSafetySnapshot
  rejectIf (∃ view ∈ e.acceptedViewChange, view.height ≤ e.state.finalizedHeight ∨
    e.verifyViewChange C view ≠ .ok ()) .invalidSafetySnapshot

end ValidatorEngine

/-- `ValidatorService::from_active_manifest` with the state `load_snapshot` reads back; without a
snapshot file, a fresh engine of the genesis manifest. -/
def restoreEngine (C : Crypto) (manifest : ValidatorGenesis) :
    Option PersistedValidatorState → EngineM ValidatorEngine
  | none => do
    let state ← (ConsensusState.newWithConsensusContext manifest.epoch
      (manifest.validatorSetRoot C) manifest.protocolRevision).mapError fun _ => .invalidGenesis
    ValidatorEngine.fromActiveManifest C state manifest (manifest.genesisCommitment C)
  | some persisted => do
    let fresh ← ValidatorEngine.fromActiveManifest C persisted.consensus manifest
      persisted.genesisCommitment
    let e := fresh.withSnapshot persisted
    e.validateRestoredSafetyState C
    .ok e

/-! ## What a start gives -/

variable {manifest : ValidatorGenesis} {e : ValidatorEngine}

variable {C : Crypto} {genesis : Digest384}

open ValidatorEngine

theorem ValidatorEngine.fromActiveManifest_ok {state : ConsensusState}
    (h : fromActiveManifest C state manifest genesis = .ok e) :
    state.validatorSetRoot = manifest.validatorSetRoot C ∧
    manifest.validatorSet = .ok e.validatorSet ∧ e.publicKeys = manifestKeys manifest ∧
    state.activeAnchor genesis = .ok e.activeAnchor ∧
    e = { state, genesisCommitment := genesis, validatorSet := e.validatorSet,
          publicKeys := e.publicKeys, activeAnchor := e.activeAnchor
          collectors := empty, timeoutCollectors := empty
          currentProposal := none, localVoteLocks := empty
          highestVotedRounds := empty, lockedQc := none
          certifiedBlocks := empty, acceptedViewChange := none
          timeoutLocks := empty } := by
  simp only [fromActiveManifest, new, inversion] at h
  obtain ⟨-, hr, -, set, hset, -, -, anchor, han, rfl⟩ := h
  exact ⟨hr, hset, rfl, han, rfl⟩

theorem ValidatorEngine.new_fields {s : ConsensusState} {validatorSet : ValidatorSet}
    {keys : PublicKeys} (h : new s genesis validatorSet keys = .ok e) :
    e.state = s ∧ e.genesisCommitment = genesis ∧
      s.activeAnchor genesis = .ok e.activeAnchor := by
  simp only [new, inversion] at h
  obtain ⟨-, -, anchor, han, rfl⟩ := h
  exact ⟨rfl, rfl, han⟩

theorem restoreEngine_fresh (h : restoreEngine C manifest none = .ok e) :
    ∃ s validatorSet, ConsensusState.newWithConsensusContext manifest.epoch
        (manifest.validatorSetRoot C) manifest.protocolRevision = .ok s ∧
      manifest.validatorSet = .ok validatorSet ∧
      new s (manifest.genesisCommitment C) validatorSet (manifestKeys manifest) = .ok e := by
  simp only [restoreEngine, fromActiveManifest, inversion] at h
  obtain ⟨s, hs, -, -, -, validatorSet, hset, hnew⟩ := h
  exact ⟨s, validatorSet, hs, hset, hnew⟩

/-- **A start from disk reproduces what was on disk.** -/
theorem restoreEngine_snapshot {p : PersistedValidatorState}
    (h : restoreEngine C manifest (some p) = .ok e) : e.snapshot = p := by
  simp only [restoreEngine, inversion] at h
  obtain ⟨fresh, hf, -, rfl⟩ := h
  have hs := (fromActiveManifest_ok hf).2.2.2.2
  have h₁ : fresh.state = p.consensus := by rw [hs]
  have h₂ : fresh.genesisCommitment = p.genesisCommitment := by rw [hs]
  simp only [snapshot, withSnapshot, h₁, h₂]

theorem restoreEngine_members {disk : Option PersistedValidatorState}
    (h : restoreEngine C manifest disk = .ok e) :
    e.state.validatorSetRoot = manifest.validatorSetRoot C ∧
    manifest.validatorSet = .ok e.validatorSet ∧
    e.publicKeys = manifestKeys manifest ∧ e.collectors = empty := by
  have key : ∀ {state genesis} {e₁ : ValidatorEngine},
      fromActiveManifest C state manifest genesis = .ok e₁ →
      e₁.state.validatorSetRoot = manifest.validatorSetRoot C ∧
      manifest.validatorSet = .ok e₁.validatorSet ∧
      e₁.publicKeys = manifestKeys manifest ∧
      e₁.collectors = empty := by
    intro state genesis e₁ h₁
    obtain ⟨hr, hset, hk, -, heq⟩ := fromActiveManifest_ok h₁
    have hs : e₁.state = state := by rw [heq]
    have hc : e₁.collectors = empty := by rw [heq]
    exact ⟨hs ▸ hr, hset, hk, hc⟩
  cases disk with
  | none =>
    simp only [restoreEngine, inversion] at h
    obtain ⟨state, -, hf⟩ := h
    exact key hf
  | some p =>
    simp only [restoreEngine, inversion] at h
    obtain ⟨fresh, hf, -, rfl⟩ := h
    obtain ⟨hr, hset, hk, hc⟩ := key hf
    exact ⟨hr, hset, hk, hc⟩

end ActiveChain
