import ActiveChain.Consensus.Types

/-!
# Consensus state (`protocol-types/src/consensus_state.rs`)

The finalized head of one validator, the context it is in, and the two transitions: committing a
block and upgrading the context.

* `ConsensusState.activeAnchor` — the block new proposals must descend from: a pending certified
  handoff, the finalized head, or the genesis sentinel.
* `applyCommittedQc_spec`, `applyUpgrade_spec` — what each transition checks and changes.
-/

namespace ActiveChain

open Digest384 Except

def maxRetiredValidatorSetRoots : Nat := 64

inductive ConsensusStateError
  | wrongEpoch
  | nonMonotonicCertificate
  | invalidConsensusContext
  | invalidTransition
  | retiredValidatorSet
  | validatorSetHistoryFull
deriving DecidableEq, Repr

/-- The fixed array of retired roots and its count are a list. -/
structure ConsensusState where
  epoch : Nat
  finalizedHeight : Nat
  finalizedRound : Nat
  finalizedBlockDigest : Digest384
  finalizedProposalCommitment : Digest384
  certifiedHandoff : Option ConsensusBlockRef
  validatorSetRoot : Digest384
  protocolRevision : Nat
  retiredValidatorSetRoots : List Digest384
deriving DecidableEq

namespace ConsensusState

def newWithConsensusContext (epoch : Nat) (validatorSetRoot : Digest384) (protocolRevision : Nat) :
    Except ConsensusStateError ConsensusState := do
  rejectIf (validatorSetRoot = zero ∨ ¬ knownRevision protocolRevision)
    .invalidConsensusContext
  .ok { epoch, finalizedHeight := 0, finalizedRound := 0, finalizedBlockDigest := zero,
        finalizedProposalCommitment := zero, certifiedHandoff := none,
        validatorSetRoot, protocolRevision, retiredValidatorSetRoots := [] }

variable {genesis : Digest384} {anchor : ConsensusBlockRef} (s : ConsensusState)

/-- The identities of the finalized head; before the first commit, the genesis sentinel. -/
def finalizedIds (genesisCommitment : Digest384) : Digest384 × Digest384 :=
  if s.finalizedHeight = 0 then (genesisCommitment, genesisCommitment)
  else (s.finalizedBlockDigest, s.finalizedProposalCommitment)

def activeAnchor (genesisCommitment : Digest384) : Except ConsensusStateError ConsensusBlockRef :=
  if genesisCommitment = zero then .error .invalidConsensusContext
  else match s.certifiedHandoff with
    | some handoff => .ok handoff
    | none =>
      let ids := s.finalizedIds genesisCommitment
      if h : ids.1 ≠ zero ∧ ids.2 ≠ zero then
        .ok ⟨ids.1, ids.2, s.finalizedHeight, s.finalizedRound, h⟩
      else .error .invalidConsensusContext

/-- The state whose finalized head is the certified block. -/
def committed (qc : QuorumCertificate) : ConsensusState :=
  { s with
    finalizedHeight := qc.height
    finalizedRound := qc.round
    finalizedBlockDigest := qc.blockDigest
    finalizedProposalCommitment := qc.proposalCommitment
    certifiedHandoff := none }

def applyCommittedQc (qc : QuorumCertificate) : Except ConsensusStateError ConsensusState := do
  rejectIf (qc.context.epoch ≠ s.epoch) .wrongEpoch
  rejectIf (qc.context.validatorSetRoot ≠ s.validatorSetRoot ∨
    qc.context.protocolRevision ≠ s.protocolRevision) .invalidConsensusContext
  rejectIf (qc.height ≤ s.finalizedHeight) .nonMonotonicCertificate
  .ok (s.committed qc)

def retireRoot (authorization : ConsensusUpgradeAuthorization) :
    Except ConsensusStateError (List Digest384) := do
  if authorization.changesValidatorSet then
    rejectIf (authorization.nextValidatorSetRoot ∈ s.retiredValidatorSetRoots)
      .retiredValidatorSet
    rejectIf (s.retiredValidatorSetRoots.length = maxRetiredValidatorSetRoots)
      .validatorSetHistoryFull
    .ok (s.retiredValidatorSetRoots ++ [s.validatorSetRoot])
  else .ok s.retiredValidatorSetRoots

def applyUpgradeAfterCertifiedBlock (authorization : ConsensusUpgradeAuthorization)
    (certifiedHandoff : ConsensusBlockRef) : Except ConsensusStateError ConsensusState := do
  rejectIf (authorization.fromEpoch ≠ s.epoch ∨
    authorization.previousValidatorSetRoot ≠ s.validatorSetRoot ∨
    authorization.previousProtocolRevision ≠ s.protocolRevision ∨
    s.finalizedHeight < authorization.authorizationHeight ∨
    checkedAdd 64 s.finalizedHeight 1 ≠ some certifiedHandoff.height ∨
    checkedAdd 64 s.finalizedRound 1 ≠ some certifiedHandoff.round ∨
    checkedAdd 64 certifiedHandoff.height 1 ≠ some authorization.activationHeight ∨
    certifiedHandoff.proposalCommitment = s.finalizedProposalCommitment) .invalidTransition
  let retired ← s.retireRoot authorization
  .ok { s with
    retiredValidatorSetRoots := retired
    epoch := authorization.toEpoch
    validatorSetRoot := authorization.nextValidatorSetRoot
    protocolRevision := authorization.nextProtocolRevision
    certifiedHandoff := some certifiedHandoff }

/-! ## What the transitions do -/

variable {s s' : ConsensusState}

theorem applyCommittedQc_spec {qc : QuorumCertificate} (h : s.applyCommittedQc qc = .ok s') :
    s.finalizedHeight < qc.height ∧ s' = s.committed qc := by
  simp only [applyCommittedQc, inversion, not_le] at h
  obtain ⟨-, -, hlt, rfl⟩ := h
  exact ⟨hlt, rfl⟩

/-- The order in which contexts succeed each other. -/
def contextRank (s : ConsensusState) : Nat ×ₗ Nat := toLex (s.epoch, s.protocolRevision)

variable {handoff : ConsensusBlockRef}

/-- An upgrade keeps the finalized head, anchors the next context at the certified handoff one
height and one round above it, and moves the context strictly forward. -/
theorem applyUpgrade_spec {auth : ConsensusUpgradeAuthorization}
    (h : s.applyUpgradeAfterCertifiedBlock auth handoff = .ok s') :
    s'.finalizedHeight = s.finalizedHeight ∧ s'.finalizedRound = s.finalizedRound ∧
    s'.finalizedBlockDigest = s.finalizedBlockDigest ∧
    s'.finalizedProposalCommitment = s.finalizedProposalCommitment ∧
    s'.certifiedHandoff = some handoff ∧ handoff.height = s.finalizedHeight + 1 ∧
    handoff.round = s.finalizedRound + 1 ∧
    s'.epoch = auth.toEpoch ∧
    s'.validatorSetRoot = auth.nextValidatorSetRoot ∧
    s'.protocolRevision = auth.nextProtocolRevision ∧
    s.contextRank < s'.contextRank := by
  simp only [applyUpgradeAfterCertifiedBlock, inversion, not_lt] at h
  obtain ⟨⟨he, hroo, hrev, -, hh, hro, -, -⟩, retired, -, rfl⟩ := h
  refine ⟨rfl, rfl, rfl, rfl, rfl, hh.1, hro.1, rfl, rfl, rfl, ?_⟩
  obtain ⟨hs, hr, hc⟩ := auth.step
  rw [contextRank, contextRank, Prod.Lex.toLex_lt_toLex]
  by_cases hset : auth.previousValidatorSetRoot ≠ auth.nextValidatorSetRoot
  · -- a new validator set moves the epoch
    rw [if_pos hset, he] at hs
    have := eq_add_of_checkedAdd hs
    left; show s.epoch < auth.toEpoch; omega
  · -- otherwise the epoch stays and the revision moves
    rw [if_neg hset, he] at hs
    rcases hr with hr | hr
    · exact absurd hr (hc.resolve_left hset)
    · have := eq_add_of_checkedAdd hr
      right; exact ⟨hs, by show s.protocolRevision < auth.nextProtocolRevision; omega⟩

/-! ## Well-formed states -/

/-- The checks of `ConsensusSnapshot::decode`. -/
structure WellFormed (s : ConsensusState) : Prop where
  digest : s.finalizedHeight = 0 ↔ s.finalizedBlockDigest = zero
  commitment : s.finalizedHeight = 0 ↔ s.finalizedProposalCommitment = zero
  round : s.finalizedHeight = 0 → s.finalizedRound = 0
  handoff : ∀ h ∈ s.certifiedHandoff, s.finalizedHeight ≠ 0 ∧ h.height = s.finalizedHeight + 1 ∧
    h.round = s.finalizedRound + 1 ∧ h.proposalCommitment ≠ s.finalizedProposalCommitment

theorem WellFormed.fresh {epoch revision : Nat} {root : Digest384}
    (h : newWithConsensusContext epoch root revision = .ok s) : s.WellFormed := by
  simp only [newWithConsensusContext, inversion] at h
  obtain ⟨-, rfl⟩ := h
  exact ⟨by simp, by simp, by simp, by simp⟩

theorem WellFormed.committed (s : ConsensusState) (qc : QuorumCertificate) :
    (s.committed qc).WellFormed := by
  obtain ⟨hh, hd, hc, -⟩ := qc.bound
  exact ⟨iff_of_false hh hd, iff_of_false hh hc,
    fun h => absurd h hh, by simp [ConsensusState.committed]⟩

theorem WellFormed.upgrade (hs : s.WellFormed) {a : ConsensusUpgradeAuthorization}
    (h : s.applyUpgradeAfterCertifiedBlock a handoff = .ok s') : s'.WellFormed := by
  simp only [applyUpgradeAfterCertifiedBlock, inversion, not_lt] at h
  obtain ⟨⟨-, -, -, hau, hh, hr, -, hne⟩, retired, -, rfl⟩ := h
  refine ⟨hs.digest, hs.commitment, hs.round, ?_⟩
  intro next hn
  cases hn
  have hpos := a.prior.1
  exact ⟨by show s.finalizedHeight ≠ 0; omega, hh.1, hr.1, hne⟩

def FinalizedHead (s : ConsensusState) (genesisCommitment : Digest384) (head : ConsensusBlockRef) :
    Prop :=
  head.height = s.finalizedHeight ∧ head.round = s.finalizedRound ∧
    (head.blockDigest, head.proposalCommitment) = s.finalizedIds genesisCommitment

theorem FinalizedHead.unique {head head' : ConsensusBlockRef} (h : s.FinalizedHead genesis head)
    (h' : s.FinalizedHead genesis head') : head = head' := by
  obtain ⟨hh, hr, hids⟩ := h
  obtain ⟨hh', hr', hids'⟩ := h'
  obtain ⟨hd, hc⟩ := Prod.mk.inj (hids.trans hids'.symm)
  exact ConsensusBlockRef.ext hd hc (hh.trans hh'.symm) (hr.trans hr'.symm)

section

variable (h : s.activeAnchor genesis = .ok anchor)
include h

theorem activeAnchor_head (hn : s.certifiedHandoff = none) : s.FinalizedHead genesis anchor := by
  unfold activeAnchor at h
  rw [hn] at h
  split at h
  · cases h
  · simp only at h
    split at h
    · cases h
      exact ⟨rfl, rfl, rfl⟩
    · cases h

theorem activeAnchor_handoff (hs : s.certifiedHandoff = some handoff) : anchor = handoff := by
  unfold activeAnchor at h
  rw [hs] at h
  split at h
  · cases h
  · cases h
    rfl

theorem genesis_ne_zero_of_anchor : genesis ≠ zero := by
  unfold activeAnchor at h
  split at h
  · cases h
  · assumption

end

theorem WellFormed.exists_head (hs : s.WellFormed) (hg : genesis ≠ zero) :
    ∃ head, s.FinalizedHead genesis head := by
  by_cases hz : s.finalizedHeight = 0
  · refine ⟨⟨genesis, genesis, s.finalizedHeight, s.finalizedRound, hg, hg⟩, rfl, rfl, ?_⟩
    rw [finalizedIds, if_pos hz]
  · refine ⟨⟨s.finalizedBlockDigest, s.finalizedProposalCommitment, s.finalizedHeight,
      s.finalizedRound, fun h => hz (hs.digest.2 h), fun h => hz (hs.commitment.2 h)⟩, rfl, rfl, ?_⟩
    rw [finalizedIds, if_neg hz]

theorem WellFormed.anchor_height (hs : s.WellFormed) (h : s.activeAnchor genesis = .ok anchor) :
    s.finalizedHeight ≤ anchor.height ∧ anchor.height ≤ s.finalizedHeight + 1 := by
  cases hh : s.certifiedHandoff with
  | none =>
    have := (activeAnchor_head h hh).1
    omega
  | some handoff =>
    rw [activeAnchor_handoff h hh]
    have := (hs.handoff handoff hh).2.1
    omega

theorem activeAnchor_committed (qc : QuorumCertificate) (hg : genesis ≠ zero) :
    (s.committed qc).activeAnchor genesis = .ok qc.blockRef := by
  obtain ⟨hh, hd, hc, -⟩ := qc.bound
  have hids : (s.committed qc).finalizedIds genesis = (qc.blockDigest, qc.proposalCommitment) :=
    if_neg hh
  have hfst := congrArg Prod.fst hids
  have hsnd := congrArg Prod.snd hids
  unfold activeAnchor
  rw [if_neg hg]
  show (if h : _ then _ else _) = _
  split
  · exact congrArg Except.ok (ConsensusBlockRef.ext hfst hsnd rfl rfl)
  · rename_i hz
    exact absurd ⟨fun h => hd (hfst.symm.trans h), fun h => hc (hsnd.symm.trans h)⟩ hz

end ConsensusState

end ActiveChain
