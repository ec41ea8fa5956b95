import ActiveChain.Lib.SortedMap
import ActiveChain.Consensus.State
import ActiveChain.Consensus.Verifier
import Mathlib.Data.List.Lex

/-!
# The validator engine (`consensus-runtime/src/lib.rs`)

One validator's view of consensus: collectors of votes and timeouts, the certified blocks above the
finalized anchor, the safety lock, and the records that keep the validator from contradicting
itself.

* `VoteCollector`, `TimeoutCollector` — quorums in formation.
* `ValidatorEngine` — the state; `preferredJustification`, `activeRoundForHeight`,
  `isAncestorOrEqual` — what it derives from it.
* `verifyProposalSafety`, `verifyViewChange` — the checks before a vote or a certificate.
* `prepareCurrentVote`, `prepareTimeoutVote` — what a validator may sign.
* `applyVerifiedCertificateTransition`, `pruneFinalizedHistory` — certification, commitment of the
  parent, and pruning.
* `activateFinalizedValidatorSet`, `activateFinalizedProtocolUpgrade` — changes of context.
-/

namespace ActiveChain

/-! ## Errors -/

/-- As far as the engine and the replay guard raise it. -/
inductive TransportError
  | invalidBody
  | verification (error : VerificationError)
  | replay
deriving DecidableEq, Repr

inductive ProposalError
  | verification (error : VerificationError)
  | consensusContextMismatch
  | staleOrWrongEpoch
deriving DecidableEq, Repr

inductive VoteCollectionError
  | contextMismatch
  | duplicate
  | unknownValidator
  | verification (error : VerificationError)
  | stakeOverflow
  | insufficientStake
deriving DecidableEq, Repr

inductive RuntimeError
  | voteVerification (error : VerificationError)
  | state (error : ConsensusStateError)
deriving DecidableEq, Repr

inductive ValidatorEngineError
  | invalidGenesis
  | invalidEpochTransition
  | invalidProtocolUpgrade
  | invalidUpgradeAuthorizationProof
  | missingUpgradeHandoffCertificate
  | invalidUpgradeHandoffCertificate
  | genesisEpochMismatch
  | genesisRootMismatch
  | genesisRevisionMismatch
  | snapshotDomainMismatch
  | snapshotStateMismatch
  | snapshotUnknownSender
  | missingValidatorKey
  | unboundConsensusDomain
  | unknownValidator
  | missingProposal
  | conflictingLocalVote
  | conflictingTimeoutVote
  | staleLocalView
  | voteDomainMismatch
  | voteLockLimit
  | collectorLimit
  | certifiedBlockLimit
  | invalidFinalizedAnchor
  | unknownParentCertificate
  | missingCertifiedHistory
  | conflictingCertificate
  | conflictingFinalizedPrefix
  | unsafeProposal
  | invalidSafetySnapshot
  | invalidViewChange
  | ineligibleProposer
  | duplicateTimeoutVote
  | staleViewChange
  | heightOverflow
  | roundOverflow
  | proposal (error : ProposalError)
  | vote (error : VoteCollectionError)
  | transport (error : TransportError)
  | runtime (error : RuntimeError)
  | signer
deriving DecidableEq, Repr

abbrev EngineM : Type → Type := Except ValidatorEngineError

/-! ## Certified blocks and messages -/

section

variable (C : Crypto)

/-- The certificate certifies the proposal, and every vote is for it. -/
def CertifiedBlockBinds (proposal : BlockProposal) (certificate : QuorumCertificate)
    (votes : List ValidatorVote) : Prop :=
  (votes ≠ [] ∧ votes.length ≤ maxValidatorsPerEpoch) ∧
  certificate.context = proposal.context ∧ certificate.height = proposal.height ∧
  certificate.round = proposal.round ∧ certificate.blockDigest = proposal.blockDigest ∧
  certificate.proposalCommitment = proposal.commitment C ∧
  ∀ vote ∈ votes, VoteBinds certificate vote ∧ vote.proposalCommitment = proposal.commitment C
deriving Decidable

/-- A proposal with its certificate and the votes that make it up. -/
structure CertifiedBlock (C : Crypto) where
  proposal : BlockProposal
  certificate : QuorumCertificate
  votes : List ValidatorVote
  binds : CertifiedBlockBinds C proposal certificate votes
deriving DecidableEq

def CertifiedBlock.new (proposal : BlockProposal) (certificate : QuorumCertificate)
    (votes : List ValidatorVote) : Except TransportError (CertifiedBlock C) :=
  if h : CertifiedBlockBinds C proposal certificate votes then
    .ok ⟨proposal, certificate, votes, h⟩
  else .error .invalidBody

inductive ConsensusMessage (C : Crypto)
  | proposal (proposal : BlockProposal)
  | vote (vote : ValidatorVote)
  | certificate (proof : CertifiedBlock C)
  | certifiedBlockRequest (commitment : Digest384)
  | timeoutVote (vote : TimeoutVote)
  | viewChange (certificate : ViewChangeCertificate)

/-! ## Collectors -/

structure VoteCollector where
  proposal : BlockProposal
  genesisCommitment : Digest384
  validatorSetRoot : Digest384
  protocolRevision : Nat
  votes : List KeyedVote
  seen : List PrincipalId
  signerStake : Nat

def VoteCollector.new (proposal : BlockProposal) (genesisCommitment validatorSetRoot : Digest384)
    (protocolRevision : Nat) : VoteCollector :=
  ⟨proposal, genesisCommitment, validatorSetRoot, protocolRevision, [], [], 0⟩

/-- Insertion of a vote in validator order (`binary_search_by_key` followed by `insert`). -/
def insertVote (e : PublicKey × ValidatorVote) :
    List KeyedVote → List KeyedVote
  | [] => [e]
  | e' :: rest =>
    if e.2.validator < e'.2.validator then e :: e' :: rest else e' :: insertVote e rest

variable (c : VoteCollector) (validatorSet : ValidatorSet) (publicKey : PublicKey)
  (vote : ValidatorVote)

/-- The checks of `VoteCollector::add_vote` before it records anything. -/
def VoteCollector.checkVote : Except VoteCollectionError Nat := do
  rejectIf (vote.context.genesisCommitment ≠ c.genesisCommitment ∨
    vote.context.epoch ≠ c.proposal.context.epoch ∨
    vote.context.validatorSetRoot ≠ c.validatorSetRoot ∨
    vote.context.protocolRevision ≠ c.protocolRevision ∨ vote.height ≠ c.proposal.height ∨
    vote.round ≠ c.proposal.round ∨ vote.blockDigest ≠ c.proposal.blockDigest ∨
    vote.proposalCommitment ≠ c.proposal.commitment C) .contextMismatch
  rejectIf (vote.validator ∈ c.seen) .duplicate
  let stake ← okOr (validatorSet.stakeOf vote.validator) .unknownValidator
  (verifyValidatorVote C publicKey vote).mapError .verification
  .ok stake

/-- A stake overflow leaves the signer marked as seen. -/
def VoteCollector.addVote : Except VoteCollectionError Unit × VoteCollector :=
  match c.checkVote C validatorSet publicKey vote with
  | .error err => (.error err, c)
  | .ok stake =>
    let c := { c with seen := vote.validator :: c.seen }
    match checkedAdd 128 c.signerStake stake with
    | none => (.error .stakeOverflow, c)
    | some signerStake =>
      (.ok (), { c with signerStake, votes := insertVote (publicKey, vote) c.votes })

def VoteCollector.finalize (epoch : Nat) (validatorSet : ValidatorSet) :
    Except VoteCollectionError QuorumCertificate := do
  rejectIf (epoch ≠ c.proposal.context.epoch) .contextMismatch
  let reached ← okOr (quorumReached c.signerStake validatorSet.totalStake) .stakeOverflow
  rejectIf (reached = false) .insufficientStake
  let root := C.shake256 (.tag "ACTIVECHAIN-VOTE-SET-V1" :: c.votes.flatMap voteSetEntry)
  let context ← (ConsensusVoteContext.newWithRevision c.genesisCommitment epoch
    c.validatorSetRoot c.protocolRevision).mapError fun _ => .contextMismatch
  (QuorumCertificate.new context c.proposal.height c.proposal.round c.proposal.blockDigest
    (c.proposal.commitment C) root validatorSet.totalStake c.signerStake).mapError
    fun _ => .insufficientStake

structure TimeoutCollectorKey where
  height : Nat
  round : Nat
deriving DecidableEq

structure TimeoutCollector where
  context : ConsensusVoteContext
  key : TimeoutCollectorKey
  votes : SortedMap PrincipalId TimeoutVote
  signerStake : Nat

def TimeoutCollector.fromVote (vote : TimeoutVote) : TimeoutCollector :=
  ⟨vote.context, ⟨vote.height, vote.timedOutRound⟩, .empty, 0⟩

def TimeoutCollector.add (c : TimeoutCollector) (vote : TimeoutVote) (validatorSet : ValidatorSet)
    (publicKey : PublicKey) : EngineM TimeoutCollector := do
  rejectIf (vote.context ≠ c.context ∨ vote.height ≠ c.key.height ∨
    vote.timedOutRound ≠ c.key.round) .invalidViewChange
  rejectIf (c.votes.contains vote.validator = true) .duplicateTimeoutVote
  (verifyTimeoutVote C publicKey vote).mapError fun _ => .invalidViewChange
  let stake ← okOr (validatorSet.stakeOf vote.validator) .unknownValidator
  let signerStake ← okOr (checkedAdd 128 c.signerStake stake) .invalidViewChange
  .ok { c with signerStake, votes := c.votes.insert vote.validator vote }

end

def TimeoutCollector.certificate (c : TimeoutCollector) (validatorSet : ValidatorSet) :
    EngineM (Option ViewChangeCertificate) :=
  if quorumReached c.signerStake validatorSet.totalStake ≠ some true then .ok none
  else
    let build (parent : ConsensusBlockRef) (highestQc : Option QuorumCertificate) :=
      ((ViewChangeCertificate.new c.context c.key.height c.key.round parent highestQc
        validatorSet.totalStake c.signerStake c.votes.values).map some).mapError
        fun _ => .invalidViewChange
    match selectHighest c.votes.values, c.votes.values.head? with
    | some (qc, parent), _ => build parent (some qc)
    | none, some first => build first.parent none
    -- a quorum has at least one vote
    | none, none => .error .invalidViewChange

/-! ## Durable safety records -/

/-- What a validator declared in one timed-out view. -/
structure TimeoutSlot where
  height : Nat
  round : Nat
  parent : ConsensusBlockRef
  highestQc : Digest384
deriving DecidableEq

structure LocalTimeoutDomain where
  validator : PrincipalId
  genesisCommitment : Digest384
  epoch : Nat
  validatorSetRoot : Digest384
  protocolRevision : Nat
  height : Nat
  round : Nat
deriving DecidableEq

structure LocalVoteSlot where
  validator : PrincipalId
  genesisCommitment : Digest384
  epoch : Nat
  validatorSetRoot : Digest384
  protocolRevision : Nat
  height : Nat
  round : Nat
deriving DecidableEq

/-- Key of a highest voted round. -/
structure LocalVoteDomain where
  validator : PrincipalId
  genesisCommitment : Digest384
  epoch : Nat
  validatorSetRoot : Digest384
  protocolRevision : Nat
deriving DecidableEq

/-- The highest vote of a validator in one domain. -/
structure HighestVotedRound where
  height : Nat
  round : Nat
  proposalCommitment : Digest384
deriving DecidableEq

instance : LinearOrder TimeoutCollectorKey :=
  LinearOrder.lift' (fun k => [k.height, k.round]) fun a b h => by
    cases a; cases b; simpa using h

instance : LinearOrder LocalTimeoutDomain :=
  LinearOrder.lift' (fun k => [k.validator, k.genesisCommitment, k.epoch, k.validatorSetRoot,
    k.protocolRevision, k.height, k.round]) fun a b h => by
    cases a; cases b; simpa using h

instance : LinearOrder LocalVoteSlot :=
  LinearOrder.lift' (fun k => [k.validator, k.genesisCommitment, k.epoch, k.validatorSetRoot,
    k.protocolRevision, k.height, k.round]) fun a b h => by
    cases a; cases b; simpa using h

instance : LinearOrder LocalVoteDomain :=
  LinearOrder.lift' (fun k => [k.validator, k.genesisCommitment, k.epoch, k.validatorSetRoot,
    k.protocolRevision]) fun a b h => by
    cases a; cases b; simpa using h

/-- A certified block kept above the finalized anchor. -/
structure CertifiedBlockRecord where
  proposal : BlockProposal
  certificate : QuorumCertificate
  votes : List ValidatorVote
  parent : ConsensusBlockRef
deriving DecidableEq

def maxPersistedReplaySenders : Nat := maxValidatorsPerEpoch

def maxPersistedVoteLocks : Nat := 4096

def maxPersistedCertifiedBlocks : Nat := 4096

def maxActiveCollectors : Nat := maxValidatorsPerEpoch

/-! ## Engine state -/

abbrev PublicKeys := SortedMap PrincipalId PublicKey

abbrev VotedRounds := SortedMap LocalVoteDomain HighestVotedRound

abbrev TimeoutLocks := SortedMap LocalTimeoutDomain TimeoutSlot

structure ValidatorEngine where
  state : ConsensusState
  genesisCommitment : Digest384
  validatorSet : ValidatorSet
  publicKeys : PublicKeys
  collectors : SortedMap Digest384 VoteCollector
  timeoutCollectors : SortedMap TimeoutCollectorKey TimeoutCollector
  currentProposal : Option Digest384
  localVoteLocks : SortedMap LocalVoteSlot Digest384
  highestVotedRounds : VotedRounds
  lockedQc : Option QuorumCertificate
  certifiedBlocks : SortedMap Digest384 CertifiedBlockRecord
  activeAnchor : ConsensusBlockRef
  acceptedViewChange : Option ViewChangeCertificate
  timeoutLocks : TimeoutLocks

namespace ValidatorEngine

def new (state : ConsensusState) (genesisCommitment : Digest384) (validatorSet : ValidatorSet)
    (publicKeys : PublicKeys) : EngineM ValidatorEngine := do
  rejectIf (genesisCommitment = Digest384.zero ∨ state.validatorSetRoot = Digest384.zero)
    .unboundConsensusDomain
  rejectIf (∃ v ∈ validatorSet.validators, publicKeys.contains v.validator = false)
    .missingValidatorKey
  let activeAnchor ← (state.activeAnchor genesisCommitment).mapError
    fun _ => .invalidFinalizedAnchor
  .ok { state, genesisCommitment, validatorSet, publicKeys, activeAnchor
        collectors := .empty, timeoutCollectors := .empty
        currentProposal := none, localVoteLocks := .empty
        highestVotedRounds := .empty, lockedQc := none
        certifiedBlocks := .empty, acceptedViewChange := none
        timeoutLocks := .empty }

def manifestKeys (manifest : ValidatorGenesis) : PublicKeys :=
  manifest.entries.foldl (fun m entry => m.insert entry.validator entry.publicKey) SortedMap.empty

def fromActiveManifest (C : Crypto) (state : ConsensusState) (activeManifest : ValidatorGenesis)
    (chainGenesisCommitment : Digest384) : EngineM ValidatorEngine := do
  rejectIf (state.epoch ≠ activeManifest.epoch) .genesisEpochMismatch
  rejectIf (state.validatorSetRoot ≠ activeManifest.validatorSetRoot C) .genesisRootMismatch
  rejectIf (state.protocolRevision ≠ activeManifest.protocolRevision) .genesisRevisionMismatch
  let validatorSet ← activeManifest.validatorSet.mapError fun _ => .invalidGenesis
  new state chainGenesisCommitment validatorSet (manifestKeys activeManifest)

variable (C : Crypto) (e : ValidatorEngine) (proposal : BlockProposal)

/-- The four domain comparisons the engine repeats: the value is bound to this engine's genesis,
epoch, validator set and revision. -/
def InDomain (c : ConsensusVoteContext) : Prop :=
  c.genesisCommitment = e.genesisCommitment ∧ c.epoch = e.state.epoch ∧
    c.validatorSetRoot = e.state.validatorSetRoot ∧ c.protocolRevision = e.state.protocolRevision
deriving Decidable

def consensusContext : EngineM ConsensusVoteContext :=
  (ConsensusVoteContext.newWithRevision e.genesisCommitment e.state.epoch e.state.validatorSetRoot
    e.state.protocolRevision).mapError fun _ => .unboundConsensusDomain

/-! ## Ancestry -/

/-- The parent walk of `is_ancestor_or_equal`, bounded by the number of iterations. -/
def walkToAncestor (blocks : SortedMap Digest384 CertifiedBlockRecord) (ancestor : Digest384) :
    Nat → Digest384 → Bool
  | 0, _ => false
  | n + 1, cursor =>
    if cursor = ancestor then true
    else match blocks.get? cursor with
      | none => false
      | some record => walkToAncestor blocks ancestor n record.parent.proposalCommitment

def isAncestorOrEqual (ancestor descendant : Digest384) : Bool :=
  walkToAncestor e.certifiedBlocks ancestor (e.certifiedBlocks.length + 1) descendant

/-! ## What to build on -/

/-- An accepted view change, else the highest certified descendant of the anchor, else the anchor.
-/
def preferredJustification : ProposalJustification :=
  match e.acceptedViewChange with
  | some viewChange => .viewChange viewChange
  | none =>
    let candidates := e.certifiedBlocks.values.filter fun record =>
      decide (e.InDomain record.certificate.context) &&
        e.isAncestorOrEqual e.activeAnchor.proposalCommitment
          record.certificate.proposalCommitment
    match maxByKey? (fun record => record.certificate.rank) candidates with
    | some record => .quorum record.certificate
    | none => .finalized e.activeAnchor

/-- The round that follows a parent: genesis does not consume a round. -/
def roundAfter (parent : ConsensusBlockRef) : Option Nat :=
  if parent.height = 0 then some parent.round else checkedAdd 64 parent.round 1

def activeRoundForHeight (height : Nat) : EngineM Nat :=
  match e.acceptedViewChange.filter fun view => decide (view.height = height) with
  | some view => .ok view.nextRound
  | none =>
    let rounds := (e.collectors.values.filter fun c => decide (c.proposal.height = height)).map
      fun c => c.proposal.round
    match rounds.max? with
    | some round => .ok round
    | none => do
      let parent := e.preferredJustification.parent
      rejectIf (checkedAdd 64 parent.height 1 ≠ some height) .invalidViewChange
      okOr (roundAfter parent) .roundOverflow

def nextProposalPosition : EngineM (Nat × Nat) :=
  match e.preferredJustification with
  | .viewChange certificate => .ok (certificate.height, certificate.nextRound)
  | justification => do
    let height ← okOr (checkedAdd 64 justification.parent.height 1) .heightOverflow
    let round ← okOr (roundAfter justification.parent) .roundOverflow
    .ok (height, round)

/-! ## Safety checks -/

/-- A highest certificate named in a view change is the recorded one, and names the parent; without
one the parent is the anchor itself. -/
def checkHighestQc (parent : ConsensusBlockRef) (highestQc : Option QuorumCertificate) :
    EngineM Unit :=
  match highestQc with
  | some qc => do
    let record ← okOr (e.certifiedBlocks.get? qc.proposalCommitment) .unknownParentCertificate
    rejectIf (record.certificate ≠ qc ∨ parent ≠ qc.blockRef) .invalidViewChange
  | none => rejectIf (parent ≠ e.activeAnchor) .invalidViewChange

/-- The check of one vote of a view change: as for the certificate, and a parent certified by a
record must also descend from the anchor. -/
def checkTimeoutParent (vote : TimeoutVote) : EngineM Unit := do
  checkHighestQc e vote.parent vote.highestQc
  rejectIf (vote.highestQc.isSome = true ∧ e.isAncestorOrEqual e.activeAnchor.proposalCommitment
    vote.parent.proposalCommitment = false) .invalidViewChange

def verifyViewChange (certificate : ViewChangeCertificate) : EngineM Unit := do
  let context ← e.consensusContext
  rejectIf (certificate.context ≠ context ∨
    checkedAdd 64 certificate.parent.height 1 ≠ some certificate.height ∨
    e.isAncestorOrEqual e.activeAnchor.proposalCommitment
      certificate.parent.proposalCommitment = false) .invalidViewChange
  checkHighestQc e certificate.parent certificate.highestQc
  certificate.votes.forM e.checkTimeoutParent
  (verifyViewChangeCertificate C certificate e.validatorSet e.publicKeys.get?).mapError
    fun _ => .invalidViewChange

def checkJustification (justification : ProposalJustification) : EngineM Unit :=
  match justification with
  | .finalized candidate => rejectIf (candidate ≠ e.activeAnchor) .invalidFinalizedAnchor
  | .quorum certificate => do
    let record ← okOr (e.certifiedBlocks.get? certificate.proposalCommitment)
      .unknownParentCertificate
    rejectIf (record.certificate ≠ certificate) .conflictingCertificate
  | .viewChange certificate => e.verifyViewChange C certificate

/-- `validator_set.as_slice()[round % len].validator`. -/
def proposerAt (round : Nat) : Option PrincipalId :=
  (e.validatorSet.validators[round % e.validatorSet.validators.length]?).map
    ValidatorWeight.validator

/-- The proposal neither extends the lock nor carries a certificate newer than it. -/
def BreaksLock (locked : QuorumCertificate) : Prop :=
  e.isAncestorOrEqual locked.proposalCommitment proposal.parent.proposalCommitment = false ∧
    ¬ ∃ qc ∈ proposal.justification.certificate, locked.round < qc.round
deriving Decidable

def verifyProposalSafety : EngineM Unit := do
  rejectIf (e.proposerAt proposal.round ≠ some proposal.proposer) .ineligibleProposer
  e.checkJustification C proposal.justification
  rejectIf (e.isAncestorOrEqual e.activeAnchor.proposalCommitment
    proposal.parent.proposalCommitment = false) .conflictingFinalizedPrefix
  rejectIf (∃ locked ∈ e.lockedQc, e.BreaksLock proposal locked) .unsafeProposal

def admitProposal (proposerKey : PublicKey) : Except ProposalError Unit := do
  (verifyBlockProposal C proposerKey proposal).mapError .verification
  rejectIf (¬ e.InDomain proposal.context) .consensusContextMismatch
  rejectIf (proposal.height ≤ e.state.finalizedHeight) .staleOrWrongEpoch

/-! ## What a validator may sign -/

/-- `PreparedValidatorVote`. -/
structure PreparedVote where
  proposal : BlockProposal
  genesisCommitment : Digest384
  validatorSetRoot : Digest384
  protocolRevision : Nat

/-- `PreparedTimeoutVote`. -/
structure PreparedTimeout where
  context : ConsensusVoteContext
  height : Nat
  round : Nat
  parent : ConsensusBlockRef
  highestQc : Option QuorumCertificate

section

variable (validator : PrincipalId) (proposal : BlockProposal)

def voteSlot : LocalVoteSlot :=
  ⟨validator, e.genesisCommitment, proposal.context.epoch, e.state.validatorSetRoot,
    e.state.protocolRevision, proposal.height, proposal.round⟩

def voteDomain : LocalVoteDomain :=
  ⟨validator, e.genesisCommitment, proposal.context.epoch, e.state.validatorSetRoot,
    e.state.protocolRevision⟩

def checkHighestVoted (highest : Option HighestVotedRound) (proposal : BlockProposal)
    (commitment : Digest384) : EngineM Unit :=
  match highest with
  | none => .ok ()
  | some highest => do
    rejectIf (proposal.round < highest.round) .staleLocalView
    rejectIf (proposal.round = highest.round ∧
      (proposal.height ≠ highest.height ∨ commitment ≠ highest.proposalCommitment))
      .conflictingLocalVote

def recordVoteLock (locks : SortedMap LocalVoteSlot Digest384) (slot : LocalVoteSlot)
    (commitment : Digest384) : EngineM (SortedMap LocalVoteSlot Digest384) :=
  match locks.get? slot with
  | some existing => do
    rejectIf (existing ≠ commitment) .conflictingLocalVote
    .ok locks
  | none => do
    rejectIf (maxPersistedVoteLocks ≤ locks.length) .voteLockLimit
    .ok (locks.insert slot commitment)

def recordHighest (rounds : VotedRounds) (domain : LocalVoteDomain)
    (vote : HighestVotedRound) : VotedRounds :=
  if (∀ highest ∈ rounds.get? domain, highest.round < vote.round) then rounds.insert domain vote
  else rounds

/-- The safety lock after a vote: only a proposal justified directly by a quorum certificate moves
it. -/
def nextLock (locked : Option QuorumCertificate) (justification : ProposalJustification) :
    Option QuorumCertificate :=
  match justification with
  | .quorum parentQc =>
    if (∀ qc ∈ locked, qc.round < parentQc.round) then some parentQc else locked
  | _ => locked

def prepareCurrentVote : EngineM (PreparedVote × ValidatorEngine) := do
  let collector ← okOr (e.currentProposal.bind e.collectors.get?) .missingProposal
  let proposal := collector.proposal
  rejectIf (e.validatorSet.stakeOf validator = none) .unknownValidator
  e.verifyProposalSafety C proposal
  let commitment := proposal.commitment C
  let domain := e.voteDomain validator proposal
  checkHighestVoted (e.highestVotedRounds.get? domain) proposal commitment
  let locks ← recordVoteLock e.localVoteLocks (e.voteSlot validator proposal) commitment
  let prepared : PreparedVote := ⟨proposal, e.genesisCommitment, e.state.validatorSetRoot,
    e.state.protocolRevision⟩
  .ok (prepared,
    { e with
      localVoteLocks := locks
      highestVotedRounds := recordHighest e.highestVotedRounds domain
        ⟨proposal.height, proposal.round, commitment⟩
      lockedQc := nextLock e.lockedQc proposal.justification })

def recordTimeoutLock (locks : TimeoutLocks) (domain : LocalTimeoutDomain)
    (slot : TimeoutSlot) : EngineM TimeoutLocks :=
  match locks.get? domain with
  | some existing => do
    rejectIf (existing ≠ slot) .conflictingTimeoutVote
    .ok locks
  | none => do
    rejectIf (maxPersistedVoteLocks ≤ locks.length) .voteLockLimit
    .ok (locks.insert domain slot)

def timeoutDomain (context : ConsensusVoteContext) (height round : Nat) : LocalTimeoutDomain :=
  ⟨validator, context.genesisCommitment, context.epoch, context.validatorSetRoot,
    context.protocolRevision, height, round⟩

def timeoutSlot (height round : Nat) (parent : ConsensusBlockRef)
    (highestQc : Option QuorumCertificate) : TimeoutSlot :=
  ⟨height, round, parent, (highestQc.map QuorumCertificate.proposalCommitment).getD Digest384.zero⟩

def prepareTimeoutVote (height round : Nat) : EngineM (PreparedTimeout × ValidatorEngine) := do
  rejectIf (e.validatorSet.stakeOf validator = none) .invalidViewChange
  let activeRound ← e.activeRoundForHeight height
  rejectIf (round ≠ activeRound) .invalidViewChange
  let justification := e.preferredJustification
  let parent := justification.parent
  rejectIf (checkedAdd 64 parent.height 1 ≠ some height) .invalidViewChange
  let highestQc := justification.certificate
  let context ← e.consensusContext
  let locks ← recordTimeoutLock e.timeoutLocks (timeoutDomain validator context height round)
    (timeoutSlot height round parent highestQc)
  .ok (⟨context, height, round, parent, highestQc⟩, { e with timeoutLocks := locks })

end

/-! ## Certification and commitment -/

def pruneFinalizedHistory : ValidatorEngine :=
  { e with
    certifiedBlocks := e.certifiedBlocks.retain fun commitment record =>
      decide (e.activeAnchor.height < record.certificate.height) &&
        e.isAncestorOrEqual e.activeAnchor.proposalCommitment commitment
    lockedQc := e.lockedQc.filter fun locked => decide (e.activeAnchor.height < locked.height) }

variable (certificate : QuorumCertificate) (votes : List ValidatorVote)

/-- The parent committed by a certified child, if the child's justification carries one: the
child's height is the parent's plus one and its round is later, not necessarily the next. -/
def commitParent : EngineM (ConsensusState × ConsensusBlockRef) :=
  match proposal.justification.certificate with
  | none => .ok (e.state, e.activeAnchor)
  | some parentQc =>
    if checkedAdd 64 parentQc.height 1 = some certificate.height ∧
        parentQc.round < certificate.round then
      if e.state.finalizedHeight < parentQc.height then do
        let state ← (e.state.applyCommittedQc parentQc).mapError fun err => .runtime (.state err)
        .ok (state, parentQc.blockRef)
      else if parentQc.height = e.state.finalizedHeight then do
        rejectIf (parentQc.blockDigest ≠ e.state.finalizedBlockDigest ∨
          parentQc.proposalCommitment ≠ e.state.finalizedProposalCommitment)
          .conflictingFinalizedPrefix
        .ok (e.state, e.activeAnchor)
      else do
        rejectIf (e.isAncestorOrEqual parentQc.proposalCommitment
          e.state.finalizedProposalCommitment = false) .conflictingFinalizedPrefix
        .ok (e.state, e.activeAnchor)
    else .ok (e.state, e.activeAnchor)

def survivingViewChange (accepted : Option ViewChangeCertificate) (state : ConsensusState)
    (certificate : QuorumCertificate) : Option ViewChangeCertificate :=
  accepted.filter fun view => !decide (view.height ≤ state.finalizedHeight ∨
    (view.height = certificate.height ∧ view.nextRound ≤ certificate.round))

def recordCertified (state : ConsensusState) (anchor : ConsensusBlockRef) : ValidatorEngine :=
  { e with
    certifiedBlocks := e.certifiedBlocks.insert certificate.proposalCommitment
      ⟨proposal, certificate, votes, proposal.parent⟩
    state := state
    activeAnchor := anchor
    acceptedViewChange := survivingViewChange e.acceptedViewChange state certificate }

/-- The engine after a new certified block, before the safety records are trimmed. -/
def insertCertified (state : ConsensusState) (anchor : ConsensusBlockRef) : ValidatorEngine :=
  let recorded := e.recordCertified proposal certificate votes state anchor
  if e.state.finalizedHeight < state.finalizedHeight then recorded.pruneFinalizedHistory
  else recorded

/-- A safety record of this epoch and height can still be contradicted. -/
def stillOpen (state : ConsensusState) (epoch height : Nat) : Bool :=
  decide (state.epoch < epoch ∨ (epoch = state.epoch ∧ state.finalizedHeight < height))

/-- Vote and timeout records of finalized heights are dropped. -/
def trimLocks : ValidatorEngine :=
  { e with
    localVoteLocks := e.localVoteLocks.retain fun slot _ => stillOpen e.state slot.epoch slot.height
    timeoutLocks := e.timeoutLocks.retain fun domain _ =>
      stillOpen e.state domain.epoch domain.height }

def applyVerifiedCertificateTransition : EngineM ValidatorEngine := do
  rejectIf (¬ e.InDomain certificate.context ∨ certificate.height ≠ proposal.height ∨
    certificate.round ≠ proposal.round ∨ certificate.blockDigest ≠ proposal.blockDigest ∨
    certificate.proposalCommitment ≠ proposal.commitment C) .voteDomainMismatch
  match e.certifiedBlocks.get? certificate.proposalCommitment with
  | some existing => do
    rejectIf (existing.certificate ≠ certificate ∨ existing.parent ≠ proposal.parent)
      .conflictingCertificate
    .ok e
  | none => do
    e.verifyProposalSafety C proposal
    rejectIf (maxPersistedCertifiedBlocks ≤ e.certifiedBlocks.length) .certifiedBlockLimit
    let committed ← e.commitParent proposal certificate
    .ok (e.insertCertified proposal certificate votes committed.1 committed.2).trimLocks

/-- The votes of a proof with the keys this engine holds for their signers. -/
def keyedVotes (outOfDomain unknown : ValidatorEngineError) : EngineM (List KeyedVote) :=
  votes.mapM fun vote => do
    rejectIf (¬ e.InDomain vote.context) outOfDomain
    let key ← okOr (e.publicKeys.get? vote.validator) unknown
    .ok (key, vote)

def applyCertificate (proof : CertifiedBlock C) : EngineM ValidatorEngine := do
  rejectIf (¬ e.InDomain proof.certificate.context) .voteDomainMismatch
  let proposerKey ← okOr (e.publicKeys.get? proof.proposal.proposer) .unknownValidator
  (verifyBlockProposal C proposerKey proof.proposal).mapError
    fun err => .proposal (.verification err)
  let votes ← e.keyedVotes proof.votes .voteDomainMismatch .unknownValidator
  (CryptoProvider.verifyQuorumCertificate C proof.certificate e.validatorSet votes).mapError
    fun err => .runtime (.voteVerification err)
  e.applyVerifiedCertificateTransition C proof.proposal proof.certificate proof.votes

/-! ## Messages -/

def checkProposal : EngineM Unit := do
  let key ← okOr (e.publicKeys.get? proposal.proposer) .unknownValidator
  (e.admitProposal C proposal key).mapError .proposal
  e.verifyProposalSafety C proposal

/-- A view change carried by a proposal replaces the accepted one, whatever its round. -/
def adoptViewChange : ValidatorEngine :=
  match proposal.justification with
  | .viewChange certificate => { e with acceptedViewChange := some certificate }
  | _ => e

/-- Make the proposal current, with a collector for its votes. -/
def openCollector : EngineM Unit × ValidatorEngine :=
  let commitment := proposal.commitment C
  if e.collectors.contains commitment = true then
    (.ok (), { e with currentProposal := some commitment })
  else if maxActiveCollectors ≤ e.collectors.length then (.error .collectorLimit, e)
  else
    (.ok (), { e with
      collectors := e.collectors.insert commitment (VoteCollector.new proposal
        e.genesisCommitment e.state.validatorSetRoot e.state.protocolRevision)
      currentProposal := some commitment })

/-- The proposal branch of `process`. -/
def processProposal : EngineM Unit × ValidatorEngine :=
  match e.checkProposal C proposal with
  | .error err => (.error err, e)
  | .ok () => (e.adoptViewChange proposal).openCollector C proposal

/-- The proof a vote completes, and the engine with the vote counted: `add_vote`, `finalize` and
`CertifiedBlock::new`. -/
def collectVote (vote : ValidatorVote) : EngineM (Option (CertifiedBlock C)) × ValidatorEngine :=
  match e.publicKeys.get? vote.validator with
  | none => (.error .unknownValidator, e)
  | some key =>
    match e.collectors.get? vote.proposalCommitment with
    | none => (.error .missingProposal, e)
    | some collector =>
      let (added, collector) := collector.addVote C e.validatorSet key vote
      let e := { e with collectors := e.collectors.insert vote.proposalCommitment collector }
      match added with
      | .error err => (.error (.vote err), e)
      | .ok () =>
        match collector.finalize C e.state.epoch e.validatorSet with
        | .error .insufficientStake => (.ok none, e)
        | .error err => (.error (.vote err), e)
        | .ok certificate =>
          match CertifiedBlock.new C collector.proposal certificate
              (collector.votes.map Prod.snd) with
          | .error err => (.error (.transport err), e)
          | .ok proof => (.ok (some proof), e)

/-- After a certificate was applied its collector is closed. -/
def closeCollector (commitment : Digest384) : ValidatorEngine :=
  { e with
    collectors := e.collectors.erase commitment
    currentProposal := if e.currentProposal = some commitment then none else e.currentProposal }

/-- The certificate branch of `process`, also the end of the vote branch. -/
def certify (proof : CertifiedBlock C) (commitment : Digest384) : EngineM Unit × ValidatorEngine :=
  match e.applyCertificate C proof with
  | .error err => (.error err, e)
  | .ok e => (.ok (), e.closeCollector commitment)

/-- The vote branch of `process`. -/
def processVote (vote : ValidatorVote) : EngineM (Option (CertifiedBlock C)) × ValidatorEngine :=
  match e.collectVote C vote with
  | (.ok (some proof), e) =>
    match e.certify C proof vote.proposalCommitment with
    | (.ok (), e) => (.ok (some proof), e)
    | (.error err, e) => (.error err, e)
  | other => other

/-- The checks of `admit_timeout_vote` before it records anything. -/
def checkTimeoutVote (vote : TimeoutVote) : EngineM PublicKey := do
  let context ← e.consensusContext
  rejectIf (vote.context ≠ context) .invalidViewChange
  let activeRound ← e.activeRoundForHeight vote.height
  rejectIf (vote.timedOutRound ≠ activeRound) .invalidViewChange
  e.checkHighestQc vote.parent vote.highestQc
  okOr (e.publicKeys.get? vote.validator) .unknownValidator

/-- Install a view change completed by a timeout vote and drop the collectors it overtakes. -/
def acceptCompleted (key : TimeoutCollectorKey) (certificate : ViewChangeCertificate) :
    EngineM Unit × ValidatorEngine :=
  match e.verifyViewChange C certificate with
  | .error err => (.error err, e)
  | .ok () => (.ok (), { e with
      acceptedViewChange := some certificate
      timeoutCollectors := e.timeoutCollectors.retain fun candidate _ =>
        decide (key.height < candidate.height ∨
          (candidate.height = key.height ∧ key.round < candidate.round)) })

def admitTimeoutVote (vote : TimeoutVote) : EngineM Unit × ValidatorEngine :=
  match e.checkTimeoutVote vote with
  | .error err => (.error err, e)
  | .ok publicKey =>
    let key : TimeoutCollectorKey := ⟨vote.height, vote.timedOutRound⟩
    if e.timeoutCollectors.contains key = false ∧
        maxActiveCollectors ≤ e.timeoutCollectors.length then (.error .collectorLimit, e)
    else
      let collector := (e.timeoutCollectors.get? key).getD (TimeoutCollector.fromVote vote)
      let e := { e with timeoutCollectors := e.timeoutCollectors.insert key collector }
      match collector.add C vote e.validatorSet publicKey with
      | .error err => (.error err, e)
      | .ok collector =>
        let e := { e with timeoutCollectors := e.timeoutCollectors.insert key collector }
        match collector.certificate e.validatorSet with
        | .error err => (.error err, e)
        | .ok none => (.ok (), e)
        | .ok (some certificate) => e.acceptCompleted C key certificate

/-- The view-change branch of `process`. -/
def processViewChange (certificate : ViewChangeCertificate) : EngineM ValidatorEngine := do
  e.verifyViewChange C certificate
  let current ← e.activeRoundForHeight certificate.height
  rejectIf (certificate.nextRound ≤ current) .staleViewChange
  .ok { e with acceptedViewChange := some certificate }

/-- `CertifiedBlockRecord::proof` of a requested block. -/
def requestedProof (commitment : Digest384) : EngineM (CertifiedBlock C) := do
  let record ← okOr (e.certifiedBlocks.get? commitment) .missingCertifiedHistory
  (CertifiedBlock.new C record.proposal record.certificate record.votes).mapError
    fun _ => .invalidSafetySnapshot

/-- The result of one message and the engine it leaves. -/
def process (message : ConsensusMessage C) :
    EngineM (Option (CertifiedBlock C)) × ValidatorEngine :=
  match message with
  | .proposal proposal =>
    let (result, e) := e.processProposal C proposal
    (result.map fun _ => none, e)
  | .vote vote => e.processVote C vote
  | .certificate proof =>
    let (result, e) := e.certify C proof proof.certificate.proposalCommitment
    (result.map fun _ => none, e)
  | .certifiedBlockRequest commitment => ((e.requestedProof C commitment).map some, e)
  | .timeoutVote vote =>
    let (result, e) := e.admitTimeoutVote C vote
    (result.map fun _ => none, e)
  | .viewChange certificate =>
    match e.processViewChange C certificate with
    | .error err => (.error err, e)
    | .ok e => (.ok none, e)

/-! ## Changes of context -/

variable (authorization : ConsensusUpgradeAuthorization)

def verifyFinalizedUpgradeAuthorization (proof : CertifiedBlock C) : EngineM Unit := do
  let certificate := proof.certificate
  rejectIf (certificate.height ≠ authorization.authorizationHeight ∨
    e.state.finalizedHeight < certificate.height ∨
    certificate.blockDigest ≠ authorization.commitment C ∨ ¬ e.InDomain certificate.context)
    .invalidUpgradeAuthorizationProof
  let votes ← e.keyedVotes proof.votes .invalidUpgradeAuthorizationProof
    .invalidUpgradeAuthorizationProof
  (CryptoProvider.verifyQuorumCertificate C certificate e.validatorSet votes).mapError
    fun _ => .invalidUpgradeAuthorizationProof

/-- The certified children of the authorization block in the round right after it. -/
def handoffs (authorizationCertificate : QuorumCertificate) : List CertifiedBlockRecord :=
  e.certifiedBlocks.values.filter fun record =>
    decide (record.parent = authorizationCertificate.blockRef ∧
      checkedAdd 64 authorizationCertificate.round 1 = some record.certificate.round)

def upgradeHandoffAnchor (proof : CertifiedBlock C) : EngineM ConsensusBlockRef := do
  let certificate := proof.certificate
  rejectIf (e.activeAnchor ≠ certificate.blockRef ∧
    (e.certifiedBlocks.get? certificate.proposalCommitment).map CertifiedBlockRecord.certificate ≠
      some certificate) .invalidUpgradeAuthorizationProof
  match e.handoffs certificate with
  | [] => .error .missingUpgradeHandoffCertificate
  | handoff :: others => do
    rejectIf (others ≠ [] ∨ checkedAdd 64 handoff.certificate.height 1 ≠
      some authorization.activationHeight) .invalidUpgradeHandoffCertificate
    .ok handoff.certificate.blockRef

/-- The engine at the start of a new context: everything collected or recorded for the old one is
cleared. -/
def enterContext (state : ConsensusState) (validatorSet : ValidatorSet)
    (publicKeys : PublicKeys) (anchor : ConsensusBlockRef) :
    ValidatorEngine where
  state := state
  genesisCommitment := e.genesisCommitment
  validatorSet := validatorSet
  publicKeys := publicKeys
  collectors := .empty
  timeoutCollectors := .empty
  currentProposal := none
  localVoteLocks := .empty
  highestVotedRounds := .empty
  lockedQc := none
  certifiedBlocks := .empty
  activeAnchor := anchor
  acceptedViewChange := none
  timeoutLocks := .empty

def activateFinalizedValidatorSet (authorizationProof : CertifiedBlock C)
    (nextGenesis : ValidatorGenesis) : EngineM ValidatorEngine := do
  rejectIf (¬ authorization.changesValidatorSet ∨ authorization.toEpoch ≠ nextGenesis.epoch ∨
    authorization.activationHeight ≠ nextGenesis.activationHeight ∨
    authorization.nextValidatorSetRoot ≠ nextGenesis.validatorSetRoot C ∨
    authorization.nextProtocolRevision ≠ nextGenesis.protocolRevision) .invalidEpochTransition
  e.verifyFinalizedUpgradeAuthorization C authorization authorizationProof
  let handoffAnchor ← e.upgradeHandoffAnchor C authorization authorizationProof
  let validatorSet ← nextGenesis.validatorSet.mapError fun _ => .invalidGenesis
  let state ← (e.state.applyUpgradeAfterCertifiedBlock authorization handoffAnchor).mapError
    fun _ => .invalidEpochTransition
  .ok (e.enterContext state validatorSet (manifestKeys nextGenesis) handoffAnchor)

def activateFinalizedProtocolUpgrade (authorizationProof : CertifiedBlock C) :
    EngineM ValidatorEngine := do
  rejectIf (authorization.changesValidatorSet ∨ ¬ authorization.changesProtocolRevision)
    .invalidProtocolUpgrade
  e.verifyFinalizedUpgradeAuthorization C authorization authorizationProof
  let handoffAnchor ← e.upgradeHandoffAnchor C authorization authorizationProof
  let state ← (e.state.applyUpgradeAfterCertifiedBlock authorization handoffAnchor).mapError
    fun _ => .invalidProtocolUpgrade
  .ok (e.enterContext state e.validatorSet e.publicKeys handoffAnchor)

end ValidatorEngine

end ActiveChain
