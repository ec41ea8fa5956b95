import ActiveChain.Primitives
import Mathlib.Data.Prod.Lex

/-!
# Consensus messages (`protocol-types/src/consensus.rs`)

The signed and certified values the validators exchange.  A type whose constructor checks its
arguments carries the checked facts as a field, so a value of it is one `new` accepted.

* `ConsensusVoteContext`, `ValidatorVote`, `QuorumCertificate` — votes and weighted certificates.
* `ProposalJustification`, `BlockProposal` — what a block builds on.
* `ValidatorSet`, `ValidatorGenesis`, `ConsensusUpgradeAuthorization` — membership and its changes.
-/

namespace ActiveChain

open Digest384

/-! ## Votes -/

inductive ValidatorVoteError
  | invalidConsensusSuite
  | unboundConsensusDomain
deriving DecidableEq, Repr

/-- The domain a consensus signature is bound to. -/
@[ext] structure ConsensusVoteContext where
  genesisCommitment : Digest384
  epoch : Nat
  validatorSetRoot : Digest384
  protocolRevision : Nat
  bound : genesisCommitment ≠ zero ∧ validatorSetRoot ≠ zero ∧
    knownRevision protocolRevision
deriving DecidableEq

def ConsensusVoteContext.newWithRevision (genesisCommitment : Digest384) (epoch : Nat)
    (validatorSetRoot : Digest384) (protocolRevision : Nat) :
    Except ValidatorVoteError ConsensusVoteContext :=
  if h : genesisCommitment ≠ zero ∧ validatorSetRoot ≠ zero ∧
      knownRevision protocolRevision then
    .ok ⟨genesisCommitment, epoch, validatorSetRoot, protocolRevision, h⟩
  else .error .unboundConsensusDomain

/-- The context's part of a signing payload. -/
def ConsensusVoteContext.transcript (c : ConsensusVoteContext) : Transcript :=
  [.digest c.genesisCommitment, .u64 c.epoch, .digest c.validatorSetRoot, .u64 c.protocolRevision]

structure ValidatorVote where
  validator : PrincipalId
  context : ConsensusVoteContext
  height : Nat
  round : Nat
  blockDigest : Digest384
  proposalCommitment : Digest384
  signature : ProtocolSignature
  suite : signature.suite = .mlDsa44
  bound : blockDigest ≠ zero ∧ proposalCommitment ≠ zero
deriving DecidableEq

abbrev KeyedVote := PublicKey × ValidatorVote

section

variable (validator : PrincipalId) (context : ConsensusVoteContext) (height round : Nat)
  (blockDigest proposalCommitment : Digest384)

def ValidatorVote.new (signature : ProtocolSignature) : Except ValidatorVoteError ValidatorVote :=
  if hs : signature.suite = .mlDsa44 then
    if hb : blockDigest ≠ zero ∧ proposalCommitment ≠ zero then
      .ok ⟨validator, context, height, round, blockDigest, proposalCommitment, signature, hs, hb⟩
    else .error .unboundConsensusDomain
  else .error .invalidConsensusSuite

/-- The payload of a vote, as a function of the signed fields. -/
def votePayload : Transcript :=
  [.tag "ACTIVECHAIN-VOTE-V4", .u16 4] ++ context.transcript ++
    [.digest validator, .u64 height, .u64 round, .digest blockDigest, .digest proposalCommitment]

end

def ValidatorVote.signingPayload (v : ValidatorVote) : Transcript :=
  votePayload v.validator v.context v.height v.round v.blockDigest v.proposalCommitment

/-! ## Quorum certificates -/

inductive QuorumCertificateError
  | unboundCertificate
  | invalidStake
  | insufficientStake
  | stakeOverflow
deriving DecidableEq, Repr

/-- A weighted certificate for one block in one round. -/
@[ext] structure QuorumCertificate where
  context : ConsensusVoteContext
  height : Nat
  round : Nat
  blockDigest : Digest384
  proposalCommitment : Digest384
  voteSetRoot : Digest384
  totalStake : Nat
  signerStake : Nat
  bound : height ≠ 0 ∧ blockDigest ≠ zero ∧ proposalCommitment ≠ zero ∧
    voteSetRoot ≠ zero
  stake : totalStake ≠ 0 ∧ signerStake ≤ totalStake
  quorum : quorumReached signerStake totalStake = some true
deriving DecidableEq

variable {qc : QuorumCertificate} (context : ConsensusVoteContext)

def QuorumCertificate.new (height round : Nat)
    (blockDigest proposalCommitment voteSetRoot : Digest384) (totalStake signerStake : Nat) :
    Except QuorumCertificateError QuorumCertificate :=
  if hb : height ≠ 0 ∧ blockDigest ≠ zero ∧ proposalCommitment ≠ zero ∧
      voteSetRoot ≠ zero then
    if hs : totalStake ≠ 0 ∧ signerStake ≤ totalStake then
      match hq : quorumReached signerStake totalStake with
      | some true => .ok ⟨context, height, round, blockDigest, proposalCommitment, voteSetRoot,
          totalStake, signerStake, hb, hs, hq⟩
      | some false => .error .insufficientStake
      | none => .error .stakeOverflow
    else .error .invalidStake
  else .error .unboundCertificate

/-- `append_quorum_certificate_transcript`. -/
def QuorumCertificate.transcript (c : QuorumCertificate) : Transcript :=
  c.context.transcript ++
    [.u64 c.height, .u64 c.round, .digest c.blockDigest, .digest c.proposalCommitment,
      .digest c.voteSetRoot, .u128 c.totalStake, .u128 c.signerStake]

/-! ## Block references and timeout votes -/

/-- Position of a block in one consensus history.  (`ConsensusBlockRef::new` refuses zero
digests.) -/
@[ext] structure ConsensusBlockRef where
  blockDigest : Digest384
  proposalCommitment : Digest384
  height : Nat
  round : Nat
  bound : blockDigest ≠ zero ∧ proposalCommitment ≠ zero
deriving DecidableEq

/-- The reference's part of a signing payload. -/
def ConsensusBlockRef.transcript (r : ConsensusBlockRef) : Transcript :=
  [.digest r.blockDigest, .digest r.proposalCommitment, .u64 r.height, .u64 r.round]

def QuorumCertificate.blockRef (c : QuorumCertificate) : ConsensusBlockRef :=
  ⟨c.blockDigest, c.proposalCommitment, c.height, c.round, c.bound.2.1, c.bound.2.2.1⟩

inductive TimeoutVoteError
  | zeroHeight
  | roundOverflow
  | invalidParent
  | invalidConsensusSuite
  | invalidHighestQc
deriving DecidableEq, Repr

/-- The highest certificate named by a timeout vote certifies the vote's parent, in the vote's own
context, no later than the round that timed out. -/
def HighestQcBinds (height timedOutRound : Nat) (parent : ConsensusBlockRef)
    (qc : QuorumCertificate) : Prop :=
  qc.context = context ∧ qc.height < height ∧ qc.round ≤ timedOutRound ∧ qc.blockRef = parent
deriving Decidable

/-- A signed declaration that one view expired without a certificate. -/
@[ext] structure TimeoutVote where
  validator : PrincipalId
  context : ConsensusVoteContext
  height : Nat
  timedOutRound : Nat
  parent : ConsensusBlockRef
  highestQc : Option QuorumCertificate
  signature : ProtocolSignature
  position : height ≠ 0 ∧ timedOutRound ≠ u64Max
  extendsParent : checkedAdd 64 parent.height 1 = some height ∧ parent.round ≤ timedOutRound
  suite : signature.suite = .mlDsa44
  highest : ∀ qc ∈ highestQc, HighestQcBinds context height timedOutRound parent qc
deriving DecidableEq

section

variable (validator : PrincipalId) (context : ConsensusVoteContext) (height timedOutRound : Nat)
  (parent : ConsensusBlockRef) (highestQc : Option QuorumCertificate)

def TimeoutVote.new (signature : ProtocolSignature) : Except TimeoutVoteError TimeoutVote :=
  if h₁ : height = 0 then .error .zeroHeight
  else if h₂ : timedOutRound = u64Max then .error .roundOverflow
  else if h₃ : checkedAdd 64 parent.height 1 = some height ∧ parent.round ≤ timedOutRound then
    if h₄ : signature.suite = .mlDsa44 then
      if h₅ : ∀ qc ∈ highestQc, HighestQcBinds context height timedOutRound parent qc then
        .ok ⟨validator, context, height, timedOutRound, parent, highestQc, signature,
          ⟨h₁, h₂⟩, h₃, h₄, h₅⟩
      else .error .invalidHighestQc
    else .error .invalidConsensusSuite
  else .error .invalidParent

/-- The payload of a timeout vote, as a function of the signed fields. -/
def timeoutPayload : Transcript :=
  [.tag "ACTIVECHAIN-TIMEOUT-VOTE-V1", .u16 1, .digest validator] ++ context.transcript ++
    [.u64 height, .u64 timedOutRound] ++ parent.transcript ++
    match highestQc with
    | none => [.u8 0]
    | some qc => .u8 1 :: qc.transcript

def TimeoutVote.signingPayload (v : TimeoutVote) : Transcript :=
  timeoutPayload v.validator v.context v.height v.timedOutRound v.parent v.highestQc

/-! ## View-change certificates -/

def maxValidatorsPerEpoch : Nat := 256

inductive ViewChangeCertificateError
  | bounds
  | roundOverflow
  | stakeOverflow
  | insufficientStake
  | mismatchedVote
deriving DecidableEq, Repr

/-- The order in which competing certificates are preferred: round, then height, then commitment. -/
def QuorumCertificate.rank (c : QuorumCertificate) : Nat ×ₗ Nat ×ₗ Nat :=
  toLex (c.round, toLex (c.height, c.proposalCommitment))

/-- The highest certificate named by the votes, with the parent of the vote that names it. -/
def selectHighest (votes : List TimeoutVote) : Option (QuorumCertificate × ConsensusBlockRef) :=
  maxByKey? (fun e => e.1.rank)
    (votes.filterMap fun vote => vote.highestQc.map fun qc => (qc, vote.parent))

/-- The certificate's own highest certificate and parent are the ones its votes select; without
one, every vote names the same parent. -/
def HighestSelected (votes : List TimeoutVote) : Prop :=
  selectHighest votes = highestQc.map (fun qc => (qc, parent)) ∧
    (highestQc = none → ∀ vote ∈ votes, vote.parent = parent)
deriving Decidable

end

/-- A quorum of timeout votes that opens exactly the next view. -/
@[ext] structure ViewChangeCertificate where
  context : ConsensusVoteContext
  height : Nat
  timedOutRound : Nat
  parent : ConsensusBlockRef
  highestQc : Option QuorumCertificate
  totalStake : Nat
  signerStake : Nat
  votes : List TimeoutVote
  bounds : votes ≠ [] ∧ votes.length ≤ maxValidatorsPerEpoch
  stake : totalStake ≠ 0 ∧ signerStake ≤ totalStake
  quorum : quorumReached signerStake totalStake = some true
  round : timedOutRound ≠ u64Max
  ordered : (votes.map TimeoutVote.validator).Pairwise (· < ·)
  agree : ∀ vote ∈ votes, vote.context = context ∧ vote.height = height ∧
    vote.timedOutRound = timedOutRound
  selected : HighestSelected parent highestQc votes
deriving DecidableEq

def ViewChangeCertificate.new (height timedOutRound : Nat) (parent : ConsensusBlockRef)
    (highestQc : Option QuorumCertificate) (totalStake signerStake : Nat)
    (votes : List TimeoutVote) : Except ViewChangeCertificateError ViewChangeCertificate :=
  if hb : votes ≠ [] ∧ votes.length ≤ maxValidatorsPerEpoch then
    if hs : totalStake ≠ 0 ∧ signerStake ≤ totalStake then
      match hq : quorumReached signerStake totalStake with
      | none => .error .stakeOverflow
      | some false => .error .insufficientStake
      | some true =>
        if hr : timedOutRound ≠ u64Max then
          if ho : (votes.map TimeoutVote.validator).Pairwise (· < ·) ∧
              ∀ vote ∈ votes, vote.context = context ∧ vote.height = height ∧
                vote.timedOutRound = timedOutRound then
            if hsel : HighestSelected parent highestQc votes then
              .ok ⟨context, height, timedOutRound, parent, highestQc, totalStake, signerStake,
                votes, hb, hs, hq, hr, ho.1, ho.2, hsel⟩
            else .error .mismatchedVote
          else .error .mismatchedVote
        else .error .roundOverflow
    else .error .insufficientStake
  else .error .bounds

def ViewChangeCertificate.nextRound (c : ViewChangeCertificate) : Nat := c.timedOutRound + 1

/-- One vote inside a view-change transcript: its payload behind its length, then its signature. -/
def TimeoutVote.transcript (v : TimeoutVote) : Transcript :=
  .u32 v.signingPayload.length :: (v.signingPayload ++ [.bytes v.signature.bytes])

/-- The view-change branch of `append_justification_transcript`. -/
def ViewChangeCertificate.transcript (c : ViewChangeCertificate) : Transcript :=
  c.context.transcript ++ [.u64 c.height, .u64 c.timedOutRound] ++ c.parent.transcript ++
    [.u128 c.totalStake, .u128 c.signerStake, .u16 c.votes.length] ++
    c.votes.flatMap TimeoutVote.transcript

/-! ## Proposals -/

/-- What a proposal builds on. -/
inductive ProposalJustification
  | finalized (anchor : ConsensusBlockRef)
  | quorum (certificate : QuorumCertificate)
  | viewChange (certificate : ViewChangeCertificate)
deriving DecidableEq

def ProposalJustification.parent : ProposalJustification → ConsensusBlockRef
  | .finalized anchor => anchor
  | .quorum certificate => certificate.blockRef
  | .viewChange certificate => certificate.parent

def ProposalJustification.certificate : ProposalJustification → Option QuorumCertificate
  | .finalized _ => none
  | .quorum certificate => some certificate
  | .viewChange certificate => certificate.highestQc

/-- `append_justification_transcript`. -/
def ProposalJustification.transcript : ProposalJustification → Transcript
  | .finalized anchor => .u8 0 :: anchor.transcript
  | .quorum certificate => .u8 1 :: certificate.transcript
  | .viewChange certificate => .u8 2 :: certificate.transcript

inductive BlockProposalError
  | invalidConsensusSuite
  | zeroBlockDigest
  | zeroProposalCommitment
  | nonConsecutiveHeight
  | nonConsecutiveRound
  | wrongConsensusContext
deriving DecidableEq, Repr

/-- The justification belongs to the proposal's own context (and, for a view change, height). -/
def ProposalJustification.InContext (height : Nat) : ProposalJustification → Prop
  | .finalized _ => True
  | .quorum certificate => certificate.context = context
  | .viewChange certificate => certificate.context = context ∧ certificate.height = height

instance (height : Nat) (j : ProposalJustification) : Decidable (j.InContext context height) :=
  match j with
  | .finalized _ => inferInstanceAs (Decidable True)
  | .quorum _ => inferInstanceAs (Decidable (_ = _))
  | .viewChange _ => inferInstanceAs (Decidable (_ ∧ _))

/-- The round a proposal with this justification must carry; `none` is an overflow. -/
def ProposalJustification.expectedRound : ProposalJustification → Option Nat
  | .finalized anchor =>
    if anchor.height = 0 then some anchor.round else checkedAdd 64 anchor.round 1
  | .quorum certificate => checkedAdd 64 certificate.round 1
  | .viewChange certificate => some certificate.nextRound

@[ext] structure BlockProposal where
  proposer : PrincipalId
  context : ConsensusVoteContext
  height : Nat
  round : Nat
  blockDigest : Digest384
  justification : ProposalJustification
  signature : ProtocolSignature
  suite : signature.suite = .mlDsa44
  bound : blockDigest ≠ zero
  nextHeight : checkedAdd 64 justification.parent.height 1 = some height
  inContext : justification.InContext context height
  nextRound : justification.expectedRound = some round
deriving DecidableEq

section

variable (proposer : PrincipalId) (context : ConsensusVoteContext) (height round : Nat)
  (blockDigest : Digest384) (justification : ProposalJustification)

def BlockProposal.new (signature : ProtocolSignature) : Except BlockProposalError BlockProposal :=
  if h₁ : signature.suite = .mlDsa44 then
    if h₂ : blockDigest ≠ zero then
      if h₃ : checkedAdd 64 justification.parent.height 1 = some height then
        if h₄ : justification.InContext context height then
          if h₅ : justification.expectedRound = some round then
            .ok ⟨proposer, context, height, round, blockDigest, justification, signature,
              h₁, h₂, h₃, h₄, h₅⟩
          else .error .nonConsecutiveRound
        else .error .wrongConsensusContext
      else .error .nonConsecutiveHeight
    else .error .zeroBlockDigest
  else .error .invalidConsensusSuite

def BlockProposal.parent (p : BlockProposal) : ConsensusBlockRef := p.justification.parent

/-- The payload of a proposal, as a function of the signed fields. -/
def proposalPayload : Transcript :=
  [.tag "ACTIVECHAIN-PROPOSAL-V3", .u16 3, .digest proposer] ++ context.transcript ++
    [.u64 height, .u64 round, .digest blockDigest] ++ justification.transcript

end

def BlockProposal.signingPayload (p : BlockProposal) : Transcript :=
  proposalPayload p.proposer p.context p.height p.round p.blockDigest p.justification

def BlockProposal.commitment (C : Crypto) (p : BlockProposal) : Digest384 :=
  C.shake256 ([.tag "ACTIVECHAIN-PROPOSAL-COMMITMENT-V3", .u64 p.signingPayload.length] ++
    p.signingPayload ++ [.bytes p.signature.bytes])

/-! ## Validator sets -/

structure ValidatorWeight where
  validator : PrincipalId
  stake : Nat
deriving DecidableEq, Repr

inductive ValidatorSetError
  | bounds
  | zeroStake
  | stakeOverflow
  | notStrictlyOrdered
deriving DecidableEq, Repr

/-- The stake total, in checked `u128` arithmetic. -/
def sumStake (validators : List ValidatorWeight) : Option Nat :=
  validators.foldlM (fun total v => checkedAdd 128 total v.stake) 0

/-- A nonempty validator set with positive stakes, in strictly increasing order. -/
structure ValidatorSet where
  validators : List ValidatorWeight
  totalStake : Nat
  bounds : validators ≠ [] ∧ validators.length ≤ maxValidatorsPerEpoch
  positive : ∀ v ∈ validators, v.stake ≠ 0
  total : sumStake validators = some totalStake
  ordered : (validators.map ValidatorWeight.validator).Pairwise (· < ·)
deriving DecidableEq

def ValidatorSet.new (validators : List ValidatorWeight) : Except ValidatorSetError ValidatorSet :=
  if h₁ : validators ≠ [] ∧ validators.length ≤ maxValidatorsPerEpoch then
    if h₂ : ∀ v ∈ validators, v.stake ≠ 0 then
      match h₃ : sumStake validators with
      | none => .error .stakeOverflow
      | some totalStake =>
        if h₄ : (validators.map ValidatorWeight.validator).Pairwise (· < ·) then
          .ok ⟨validators, totalStake, h₁, h₂, h₃, h₄⟩
        else .error .notStrictlyOrdered
    else .error .zeroStake
  else .error .bounds

def ValidatorSet.stakeOf (s : ValidatorSet) (validator : PrincipalId) : Option Nat :=
  (s.validators.find? fun entry => entry.validator = validator).map ValidatorWeight.stake

inductive ValidatorGenesisError
  | bounds
  | zeroStake
  | unknownProtocolRevision
  | notStrictlyOrdered
deriving DecidableEq, Repr

@[ext] structure ValidatorGenesisEntry where
  validator : PrincipalId
  stake : Nat
  publicKey : PublicKey
  positive : stake ≠ 0

instance : DecidableEq ValidatorGenesisEntry :=
  fun _ _ => decidable_of_iff _ ValidatorGenesisEntry.ext_iff.symm

structure ValidatorGenesis where
  epoch : Nat
  activationHeight : Nat
  protocolRevision : Nat
  entries : List ValidatorGenesisEntry
  bounds : activationHeight ≠ 0 ∧ entries ≠ [] ∧ entries.length ≤ maxValidatorsPerEpoch
  revision : knownRevision protocolRevision
  ordered : (entries.map ValidatorGenesisEntry.validator).Pairwise (· < ·)
deriving DecidableEq

def ValidatorGenesisEntry.new (validator : PrincipalId) (stake : Nat) (publicKey : PublicKey) :
    Except ValidatorGenesisError ValidatorGenesisEntry :=
  if h : stake ≠ 0 then .ok ⟨validator, stake, publicKey, h⟩ else .error .zeroStake

def ValidatorGenesis.newWithRevision (epoch activationHeight protocolRevision : Nat)
    (entries : List ValidatorGenesisEntry) : Except ValidatorGenesisError ValidatorGenesis :=
  if h₁ : activationHeight ≠ 0 ∧ entries ≠ [] ∧ entries.length ≤ maxValidatorsPerEpoch then
    if h₂ : knownRevision protocolRevision then
      if h₃ : (entries.map ValidatorGenesisEntry.validator).Pairwise (· < ·) then
        .ok ⟨epoch, activationHeight, protocolRevision, entries, h₁, h₂, h₃⟩
      else .error .notStrictlyOrdered
    else .error .unknownProtocolRevision
  else .error .bounds

def ValidatorGenesis.validatorSet (g : ValidatorGenesis) : Except ValidatorSetError ValidatorSet :=
  ValidatorSet.new (g.entries.map fun entry => ⟨entry.validator, entry.stake⟩)

def ValidatorGenesis.validatorSetRoot (C : Crypto) (g : ValidatorGenesis) : Digest384 :=
  C.shake256 (.tag "ACTIVECHAIN-VALIDATOR-SET-V1" :: g.entries.flatMap fun entry =>
    [.digest entry.validator, .u128 entry.stake, .key entry.publicKey])

def ValidatorGenesis.genesisCommitment (C : Crypto) (g : ValidatorGenesis) : Digest384 :=
  C.shake256 [.tag "ACTIVECHAIN-CONSENSUS-GENESIS-V2", .u64 g.epoch, .u64 g.activationHeight,
    .u64 g.protocolRevision, .digest (g.validatorSetRoot C)]

/-! ## Upgrade authorizations -/

inductive ConsensusUpgradeAuthorizationError
  | authorizationNotPrior
  | zeroValidatorSetRoot
  | unknownProtocolRevision
  | invalidEpochTransition
  | protocolRevisionDowngrade
  | protocolRevisionSkip
  | noChange
deriving DecidableEq, Repr

/-- The epoch moves by one exactly when the validator set changes, the revision by at most one,
and something changes. -/
def UpgradeStep (fromEpoch toEpoch : Nat) (previousRoot nextRoot : Digest384)
    (previousRevision nextRevision : Nat) : Prop :=
  (if previousRoot ≠ nextRoot then checkedAdd 64 fromEpoch 1 = some toEpoch
    else fromEpoch = toEpoch) ∧
  (nextRevision = previousRevision ∨ checkedAdd 64 previousRevision 1 = some nextRevision) ∧
  (previousRoot ≠ nextRoot ∨ nextRevision ≠ previousRevision)
deriving Decidable

/-- A committed change of the validator set, of the protocol revision, or of both. -/
structure ConsensusUpgradeAuthorization where
  authorizationHeight : Nat
  activationHeight : Nat
  fromEpoch : Nat
  toEpoch : Nat
  previousValidatorSetRoot : Digest384
  nextValidatorSetRoot : Digest384
  previousProtocolRevision : Nat
  nextProtocolRevision : Nat
  prior : authorizationHeight ≠ 0 ∧ authorizationHeight < activationHeight
  roots : previousValidatorSetRoot ≠ zero ∧ nextValidatorSetRoot ≠ zero
  revisions : knownRevision previousProtocolRevision ∧ knownRevision nextProtocolRevision
  step : UpgradeStep fromEpoch toEpoch previousValidatorSetRoot nextValidatorSetRoot
    previousProtocolRevision nextProtocolRevision
deriving DecidableEq

def ConsensusUpgradeAuthorization.new (authorizationHeight activationHeight fromEpoch toEpoch : Nat)
    (previousRoot nextRoot : Digest384) (previousRevision nextRevision : Nat) :
    Except ConsensusUpgradeAuthorizationError ConsensusUpgradeAuthorization :=
  if h₁ : authorizationHeight ≠ 0 ∧ authorizationHeight < activationHeight then
    if h₂ : previousRoot ≠ zero ∧ nextRoot ≠ zero then
      if h₃ : knownRevision previousRevision ∧ knownRevision nextRevision then
        if h₄ : UpgradeStep fromEpoch toEpoch previousRoot nextRoot previousRevision
            nextRevision then
          .ok ⟨authorizationHeight, activationHeight, fromEpoch, toEpoch, previousRoot, nextRoot,
            previousRevision, nextRevision, h₁, h₂, h₃, h₄⟩
        else if (if previousRoot ≠ nextRoot then checkedAdd 64 fromEpoch 1 ≠ some toEpoch
            else fromEpoch ≠ toEpoch) then .error .invalidEpochTransition
        else if nextRevision < previousRevision then .error .protocolRevisionDowngrade
        else if nextRevision ≠ previousRevision ∧
            checkedAdd 64 previousRevision 1 ≠ some nextRevision then .error .protocolRevisionSkip
        else .error .noChange
      else .error .unknownProtocolRevision
    else .error .zeroValidatorSetRoot
  else .error .authorizationNotPrior

def ConsensusUpgradeAuthorization.changesValidatorSet (a : ConsensusUpgradeAuthorization) : Prop :=
  a.previousValidatorSetRoot ≠ a.nextValidatorSetRoot
deriving Decidable

def ConsensusUpgradeAuthorization.changesProtocolRevision (a : ConsensusUpgradeAuthorization) :
    Prop :=
  a.previousProtocolRevision ≠ a.nextProtocolRevision
deriving Decidable

def ConsensusUpgradeAuthorization.commitment (C : Crypto) (a : ConsensusUpgradeAuthorization) :
    Digest384 :=
  C.shake256 [.tag "ACTIVECHAIN-CONSENSUS-UPGRADE-V1", .u16 1, .u64 a.authorizationHeight,
    .u64 a.activationHeight, .u64 a.fromEpoch, .u64 a.toEpoch,
    .digest a.previousValidatorSetRoot, .digest a.nextValidatorSetRoot,
    .u64 a.previousProtocolRevision, .u64 a.nextProtocolRevision]

/-! ## Consequences of the constructors' checks -/

variable {vc : ViewChangeCertificate}

theorem ViewChangeCertificate.exists_vote (h : vc.highestQc = some qc) :
    ∃ vote ∈ vc.votes, vote.highestQc = some qc ∧ vote.parent = vc.parent := by
  have hsel := vc.selected.1
  rw [h] at hsel
  obtain ⟨vote, hv, hmap⟩ := List.mem_filterMap.1 (mem_of_maxByKey? hsel)
  obtain ⟨qc', hqc', heq⟩ := Option.map_eq_some_iff.1 hmap
  obtain ⟨rfl, hp⟩ := Prod.mk.inj heq
  exact ⟨vote, hv, hqc', hp⟩

theorem QuorumCertificate.round_le_of_rank {a b : QuorumCertificate} (h : a.rank ≤ b.rank) :
    a.round ≤ b.round := by
  rcases Prod.Lex.toLex_le_toLex.1 h with hlt | ⟨heq, -⟩
  · exact hlt.le
  · exact heq.le

theorem ViewChangeCertificate.exists_round_le {vote : TimeoutVote} (hv : vote ∈ vc.votes)
    (h : vote.highestQc = some qc) : ∃ highest ∈ vc.highestQc, qc.round ≤ highest.round := by
  have hmem : (qc, vote.parent) ∈ vc.votes.filterMap fun vote =>
      vote.highestQc.map fun qc => (qc, vote.parent) :=
    List.mem_filterMap.2 ⟨vote, hv, by rw [h]; rfl⟩
  obtain ⟨⟨highest, parent⟩, hmax, hle⟩ :=
    exists_maxByKey?_le (fun e : QuorumCertificate × ConsensusBlockRef => e.1.rank) hmem
  obtain ⟨highest', hqc, heq⟩ := Option.map_eq_some_iff.1 (vc.selected.1.symm.trans hmax)
  obtain rfl : highest' = highest := congrArg Prod.fst heq
  exact ⟨highest', hqc, QuorumCertificate.round_le_of_rank hle⟩

theorem ViewChangeCertificate.highest_binds (h : vc.highestQc = some qc) :
    HighestQcBinds vc.context vc.height vc.timedOutRound vc.parent qc := by
  obtain ⟨vote, hv, hqc, hp⟩ := exists_vote h
  obtain ⟨hctx, hh, hr⟩ := vc.agree vote hv
  have := vote.highest qc hqc
  rwa [hctx, hh, hr, hp] at this

theorem ViewChangeCertificate.exists_parent (vc : ViewChangeCertificate) :
    ∃ vote ∈ vc.votes, vote.parent = vc.parent := by
  cases hqc : vc.highestQc with
  | some qc =>
    obtain ⟨vote, hv, -, hp⟩ := exists_vote hqc
    exact ⟨vote, hv, hp⟩
  | none =>
    obtain ⟨vote, hv⟩ := List.exists_mem_of_ne_nil _ vc.bounds.1
    exact ⟨vote, hv, vc.selected.2 hqc vote hv⟩

theorem ViewChangeCertificate.extendsParent (vc : ViewChangeCertificate) :
    checkedAdd 64 vc.parent.height 1 = some vc.height ∧ vc.parent.round ≤ vc.timedOutRound := by
  obtain ⟨vote, hmem, hp⟩ := vc.exists_parent
  obtain ⟨-, hh, hr⟩ := vc.agree vote hmem
  rw [← hp, ← hh, ← hr]
  exact vote.extendsParent

theorem ViewChangeCertificate.parent_height (vc : ViewChangeCertificate) :
    vc.parent.height + 1 = vc.height :=
  (eq_add_of_checkedAdd vc.extendsParent.1).symm

theorem BlockProposal.height_eq (p : BlockProposal) : p.height = p.parent.height + 1 :=
  eq_add_of_checkedAdd p.nextHeight

theorem BlockProposal.parent_round_le (p : BlockProposal) : p.parent.round ≤ p.round := by
  have hr := p.nextRound
  unfold parent
  cases hj : p.justification with
  | finalized anchor =>
    rw [hj, ProposalJustification.expectedRound] at hr
    split at hr
    · exact (Option.some.inj hr).le
    · have := eq_add_of_checkedAdd hr
      show anchor.round ≤ p.round
      omega
  | quorum cert =>
    rw [hj] at hr
    have := eq_add_of_checkedAdd hr
    show cert.round ≤ p.round
    omega
  | viewChange view =>
    rw [hj] at hr
    have hn : view.timedOutRound + 1 = p.round := Option.some.inj hr
    have := view.extendsParent.2
    show view.parent.round ≤ p.round
    omega

theorem BlockProposal.certificate_binds {p : BlockProposal}
    (h : p.justification.certificate = some qc) :
    qc.context = p.context ∧ qc.blockRef = p.parent ∧ qc.round < p.round := by
  have hctx := p.inContext
  have hr := p.nextRound
  unfold parent
  cases hj : p.justification with
  | finalized anchor => rw [hj] at h; cases h
  | quorum cert =>
    rw [hj] at h hctx hr
    cases h
    exact ⟨hctx, rfl, by have := eq_add_of_checkedAdd hr; omega⟩
  | viewChange cert =>
    rw [hj] at h hctx hr
    obtain ⟨hq, -, hqro, hqr⟩ := ViewChangeCertificate.highest_binds h
    have hn : cert.nextRound = p.round := Option.some.inj hr
    refine ⟨hq.trans hctx.1, hqr, ?_⟩
    rw [← hn, ViewChangeCertificate.nextRound]
    omega

end ActiveChain
