import ActiveChain.Consensus.Members
import ActiveChain.Consensus.Service
import ActiveChain.State.Tree

/-!
# The light client (`light-client`, `finality-types`)

A client that holds one finalized header and the validator manifest in force, and moves on when a
quorum certificate for the next header is shown to it.

* `FinalizedBlockHeader`, `FinalityCertificateBundle` — a header and the votes that certify it.
* `LightClientState` — `bootstrap`, `ingestFinality`, `authorizeUpgrade`, `restore`.
* `verifyFinality_ok`, `ingestFinality_ok`, `authorizeUpgrade_ok` — what each accepted call checked.
-/

namespace ActiveChain

open Except List Option

/-! ## Headers -/

/-- What the execution proof of a block binds. -/
@[ext] structure ProofPublicInputs where
  chainId : ChainId
  epoch : Nat
  height : Nat
  protocolRevision : Nat
  validatorSetRoot : Digest384
  parentBlockId : Digest384
  preState : StateCommitment
  authorizationRoot : Digest384
  actionRoot : Digest384
  executionOrderRoot : Digest384
  totalFees : Nat
  preSupply : Nat
  issuance : Nat
  burn : Nat
  postSupply : Nat
  preCashCellRoot : Digest384
  cashActionRoot : Digest384
  cashCellRoot : Digest384
  postState : StateCommitment
  receiptRoot : Digest384
  dataAvailabilityCommitment : Digest384

@[ext] structure FinalizedBlockHeader where
  inputs : ProofPublicInputs
  proofStatementCommitment : Digest384

def StateCommitment.transcript (s : StateCommitment) : Transcript :=
  [.digest s.root, .u64 s.objectCount]

def ProofPublicInputs.transcript (i : ProofPublicInputs) : Transcript :=
  [.digest i.chainId, .u64 i.epoch, .u64 i.height, .u64 i.protocolRevision,
    .digest i.validatorSetRoot, .digest i.parentBlockId] ++ i.preState.transcript ++
  [.digest i.authorizationRoot, .digest i.actionRoot, .digest i.executionOrderRoot,
    .u128 i.totalFees, .u128 i.preSupply, .u128 i.issuance, .u128 i.burn, .u128 i.postSupply,
    .digest i.preCashCellRoot, .digest i.cashActionRoot, .digest i.cashCellRoot] ++
  i.postState.transcript ++ [.digest i.receiptRoot, .digest i.dataAvailabilityCommitment]

/-- `encode_envelope` of a header: type tag, schema version, LEB128 length of the body, body.  The
body always has 792 bytes, so the encoding never fails. -/
def FinalizedBlockHeader.envelope (h : FinalizedBlockHeader) : Transcript :=
  [.u16 0x0079, .u16 3, .u8 0x98, .u8 0x06] ++ h.inputs.transcript ++
    [.digest h.proofStatementCommitment]

def FinalizedBlockHeader.digest (C : Crypto) (h : FinalizedBlockHeader) : Digest384 :=
  C.shake256 ([.tag "ACTIVECHAIN-FINALIZED-BLOCK-HEADER-V1", .u64 798] ++ h.envelope)

theorem FinalizedBlockHeader.digest_ne_commitment {C : Crypto}
    (hash : Function.Injective C.shake256) (h : FinalizedBlockHeader)
    (a : ConsensusUpgradeAuthorization) : h.digest C ≠ a.commitment C := by
  intro heq
  have htag := congrArg head? (hash heq)
  simp at htag

/-! ## Certified headers and upgrades -/

inductive LightClientError
  | malformed
  | wrongChain
  | wrongGenesis
  | wrongValidatorSet
  | wrongRevision
  | invalidFinality
  | stale
  | fork
  | height
  | overflow
  | proof
  | persistence
  | corrupt
  | upgrade
  | retiredValidatorSet
  | dataAvailability
deriving DecidableEq, Repr

abbrev ClientM : Type → Type := Except LightClientError

/-- Everything needed to authenticate one header. -/
@[ext] structure FinalityCertificateBundle where
  header : FinalizedBlockHeader
  validatorGenesis : ValidatorGenesis
  certificate : QuorumCertificate
  votes : List ValidatorVote
  bounds : votes ≠ [] ∧ votes.length ≤ maxValidatorsPerEpoch

/-- An upgrade with the certificate that authorizes it. -/
@[ext] structure UpgradeCertificateBundle where
  authorization : ConsensusUpgradeAuthorization
  certificate : QuorumCertificate
  votes : List ValidatorVote
  nextGenesis : ValidatorGenesis
  bounds : votes ≠ [] ∧ votes.length ≤ maxValidatorsPerEpoch

/-- Each vote with the key its signer has in the manifest. -/
def keyedBy (genesis : ValidatorGenesis) (votes : List ValidatorVote) (unknown : LightClientError) :
    ClientM (List KeyedVote) :=
  votes.mapM fun vote => do
    let entry ← okOr (genesis.entries.find? fun entry => entry.validator = vote.validator) unknown
    return (entry.publicKey, vote)

/-- The votes are a quorum of the manifest for the certificate; whatever fails is reported as
`invalid`. -/
def verifyVotes (C : Crypto) (genesis : ValidatorGenesis) (certificate : QuorumCertificate)
    (votes : List ValidatorVote) (invalid : LightClientError) : ClientM Unit := do
  let validatorSet ← genesis.validatorSet.mapError fun _ => invalid
  let keyed ← keyedBy genesis votes invalid
  (ConsensusVerifier.verifyQuorumCertificate C certificate validatorSet keyed).mapError
    fun _ => invalid

def verifyFinality (C : Crypto) (bundle : FinalityCertificateBundle)
    (chainGenesisCommitment : Digest384) : ClientM Unit := do
  let inputs := bundle.header.inputs
  let genesis := bundle.validatorGenesis
  let certificate := bundle.certificate
  rejectIf (certificate.context.genesisCommitment ≠ chainGenesisCommitment) .wrongGenesis
  rejectIf (genesis.epoch ≠ inputs.epoch ∨ genesis.protocolRevision ≠ inputs.protocolRevision ∨
      genesis.validatorSetRoot C ≠ inputs.validatorSetRoot ∨
      certificate.context.epoch ≠ inputs.epoch ∨
      certificate.context.protocolRevision ≠ inputs.protocolRevision ∨
      certificate.context.validatorSetRoot ≠ inputs.validatorSetRoot ∨
      certificate.height ≠ inputs.height ∨ bundle.header.digest C ≠ certificate.blockDigest)
    .invalidFinality
  verifyVotes C genesis certificate bundle.votes .invalidFinality

/-! ## The client's state -/

def maxWeakSubjectivityWindow : Nat := 1000000

def maxRetiredValidatorSets : Nat := 8

@[ext] structure LightClientState where
  chainId : ChainId
  chainGenesisCommitment : Digest384
  activeGenesis : ValidatorGenesis
  finalizedHeader : FinalizedBlockHeader
  weakSubjectivityPeriod : Nat
  weakSubjectivityUntil : Nat
  retiredValidatorSetRoots : List Digest384
  pendingUpgrade : Option UpgradeCertificateBundle

namespace LightClientState

variable (C : Crypto)

def bootstrap (expectedChain : ChainId) (chainGenesisCommitment : Digest384)
    (checkpoint : FinalityCertificateBundle) (weakSubjectivityPeriod : Nat) :
    ClientM LightClientState := do
  rejectIf (chainGenesisCommitment = Digest384.zero ∨ weakSubjectivityPeriod = 0 ∨
    maxWeakSubjectivityWindow < weakSubjectivityPeriod) .malformed
  verifyFinality C checkpoint chainGenesisCommitment
  let header := checkpoint.header
  rejectIf (header.inputs.chainId ≠ expectedChain) .wrongChain
  let until_ ← okOr (checkedAdd 64 header.inputs.height weakSubjectivityPeriod) .overflow
  return {
    chainId := expectedChain
    chainGenesisCommitment
    activeGenesis := checkpoint.validatorGenesis
    finalizedHeader := header
    weakSubjectivityPeriod
    weakSubjectivityUntil := until_
    retiredValidatorSetRoots := []
    pendingUpgrade := none }

/-- The manifest a header at `height` must come with, and the upgrade it activates, if any. -/
def expectedGenesis (s : LightClientState) (height : Nat) :
    ClientM (ValidatorGenesis × Option UpgradeCertificateBundle) :=
  match s.pendingUpgrade with
  | none => .ok (s.activeGenesis, none)
  | some upgrade =>
    let activation := upgrade.authorization.activationHeight
    if activation < height then .error .upgrade
    else if height = activation then .ok (upgrade.nextGenesis, some upgrade)
    else .ok (s.activeGenesis, none)

variable (s : LightClientState) (upgrade : UpgradeCertificateBundle)

/-- The bounded history of replaced validator sets: the oldest root is dropped when it is full. -/
def retire : List Digest384 :=
  if upgrade.authorization.changesValidatorSet then
    (if s.retiredValidatorSetRoots.length = maxRetiredValidatorSets then
      s.retiredValidatorSetRoots.drop 1 else s.retiredValidatorSetRoots) ++
      [s.activeGenesis.validatorSetRoot C]
  else s.retiredValidatorSetRoots

def activate : LightClientState :=
  { s with
    retiredValidatorSetRoots := s.retire C upgrade
    activeGenesis := upgrade.nextGenesis
    pendingUpgrade := none }

/-- The caller keeps the old state when it fails. -/
def ingestFinality (bundle : FinalityCertificateBundle) (observedNetworkHeight : Nat) :
    ClientM LightClientState := do
  rejectIf (s.weakSubjectivityUntil < observedNetworkHeight) .stale
  let header := bundle.header
  let (expected, activating) ← s.expectedGenesis header.inputs.height
  verifyFinality C bundle s.chainGenesisCommitment
  rejectIf (header.inputs.chainId ≠ s.chainId) .wrongChain
  rejectIf (bundle.validatorGenesis ≠ expected) .wrongValidatorSet
  rejectIf (header.inputs.epoch ≠ expected.epoch ∨
    header.inputs.protocolRevision ≠ expected.protocolRevision) .wrongRevision
  let expectedHeight ← okOr (checkedAdd 64 s.finalizedHeader.inputs.height 1) .overflow
  rejectIf (header.inputs.height ≠ expectedHeight ∨
    observedNetworkHeight < header.inputs.height) .height
  rejectIf (header.inputs.parentBlockId ≠ s.finalizedHeader.digest C) .fork
  let until_ ← okOr (checkedAdd 64 header.inputs.height s.weakSubjectivityPeriod) .overflow
  let next := { s with weakSubjectivityUntil := until_, finalizedHeader := header }
  return match activating with
    | some upgrade => next.activate C upgrade
    | none => next

def authorizeUpgrade (bundle : UpgradeCertificateBundle) : ClientM LightClientState := do
  rejectIf (s.pendingUpgrade.isSome = true) .upgrade
  let authorization := bundle.authorization
  let active := s.activeGenesis
  let next := bundle.nextGenesis
  rejectIf (s.finalizedHeader.inputs.height < authorization.authorizationHeight ∨
    authorization.activationHeight ≤ s.finalizedHeader.inputs.height ∨
    authorization.fromEpoch ≠ active.epoch ∨
    authorization.previousValidatorSetRoot ≠ active.validatorSetRoot C ∨
    authorization.previousProtocolRevision ≠ active.protocolRevision ∨
    authorization.toEpoch ≠ next.epoch ∨
    authorization.activationHeight ≠ next.activationHeight ∨
    authorization.nextValidatorSetRoot ≠ next.validatorSetRoot C ∨
    authorization.nextProtocolRevision ≠ next.protocolRevision) .upgrade
  rejectIf (authorization.nextValidatorSetRoot ∈ s.retiredValidatorSetRoots) .retiredValidatorSet
  let certificate := bundle.certificate
  rejectIf (certificate.context.genesisCommitment ≠ s.chainGenesisCommitment ∨
    certificate.context.epoch ≠ active.epoch ∨
    certificate.context.validatorSetRoot ≠ active.validatorSetRoot C ∨
    certificate.context.protocolRevision ≠ active.protocolRevision ∨
    certificate.height ≠ authorization.authorizationHeight ∨
    certificate.blockDigest ≠ authorization.commitment C) .upgrade
  verifyVotes C active certificate bundle.votes .upgrade
  return { s with pendingUpgrade := some bundle }

/-- The roots are bound and none is repeated. -/
def RetiredWellFormed (roots : List Digest384) : Prop :=
  roots.length ≤ maxRetiredValidatorSets ∧ Digest384.zero ∉ roots ∧ roots.Nodup
deriving Decidable

/-- The checks of `decode` on a saved state: bounds and bindings, and the pending upgrade is
authorized once more. -/
def restore (saved : LightClientState) : ClientM LightClientState := do
  let inputs := saved.finalizedHeader.inputs
  rejectIf (inputs.protocolRevision = 0 ∨ inputs.validatorSetRoot = Digest384.zero ∨
    saved.finalizedHeader.proofStatementCommitment = Digest384.zero) .corrupt
  rejectIf (¬ RetiredWellFormed saved.retiredValidatorSetRoots) .corrupt
  let minimumUntil ← okOr (checkedAdd 64 inputs.height saved.weakSubjectivityPeriod) .corrupt
  rejectIf (saved.chainGenesisCommitment = Digest384.zero ∨ saved.weakSubjectivityPeriod = 0 ∨
    maxWeakSubjectivityWindow < saved.weakSubjectivityPeriod ∨ inputs.chainId ≠ saved.chainId ∨
    inputs.epoch ≠ saved.activeGenesis.epoch ∨
    inputs.protocolRevision ≠ saved.activeGenesis.protocolRevision ∨
    inputs.validatorSetRoot ≠ saved.activeGenesis.validatorSetRoot C ∨
    saved.activeGenesis.validatorSetRoot C ∈ saved.retiredValidatorSetRoots ∨
    saved.weakSubjectivityUntil < minimumUntil) .corrupt
  let value := { saved with pendingUpgrade := none }
  match saved.pendingUpgrade with
  | none => return value
  | some upgrade => (value.authorizeUpgrade C upgrade).mapError fun _ => .corrupt

end LightClientState

/-! ## What an accepted call checked -/

section Accepted

variable {C : Crypto}

variable {votes : List ValidatorVote} {genesis : ValidatorGenesis}

theorem keyedBy_ok {unknown : LightClientError} {keyed : List KeyedVote}
    (h : keyedBy genesis votes unknown = .ok keyed) :
    keyed.map Prod.snd = votes ∧ ∀ e ∈ keyed, ∃ member ∈ genesis.entries,
      member.validator = e.2.validator ∧ member.publicKey = e.1 := by
  unfold keyedBy at h
  induction votes generalizing keyed with
  | nil =>
    cases h
    simp
  | cons vote votes ih =>
    simp only [mapM_cons, inversion] at h
    obtain ⟨_, ⟨member, hf, rfl⟩, rest, hr, rfl⟩ := h
    obtain ⟨hmap, hk⟩ := ih hr
    have hs : member.validator = vote.validator := by simpa using find?_some hf
    refine ⟨by rw [map_cons, hmap], fun e he => ?_⟩
    rcases mem_cons.1 he with rfl | he
    · exact ⟨member, mem_of_find?_eq_some hf, hs, rfl⟩
    · exact hk e he

theorem verifyVotes_ok {cert : QuorumCertificate} {invalid : LightClientError}
    (h : verifyVotes C genesis cert votes invalid = .ok ()) :
    QuorumOf C genesis votes ∧ ∀ vote ∈ votes, VoteBinds cert vote := by
  simp only [verifyVotes, inversion] at h
  obtain ⟨set, hset, keyed, hk, hve⟩ := h
  obtain ⟨rfl, hke⟩ := keyedBy_ok hk
  have hv := (ConsensusVerifier.verify_ok_iff C).1 hve
  refine ⟨quorumOf_of_verified hset hke hv, fun vote hvo => ?_⟩
  obtain ⟨e, he, rfl⟩ := mem_map.1 hvo
  exact hv.binds e he

/-- The header is certified by a quorum of the bundle's manifest, on the given chain. -/
structure FinalityVerified (C : Crypto) (bundle : FinalityCertificateBundle)
    (chainGenesisCommitment : Digest384) : Prop where
  chain : bundle.certificate.context.genesisCommitment = chainGenesisCommitment
  root : bundle.validatorGenesis.validatorSetRoot C = bundle.certificate.context.validatorSetRoot
  height : bundle.certificate.height = bundle.header.inputs.height
  digest : bundle.header.digest C = bundle.certificate.blockDigest
  quorum : QuorumOf C bundle.validatorGenesis bundle.votes
  binds : ∀ vote ∈ bundle.votes, VoteBinds bundle.certificate vote

theorem verifyFinality_ok {bundle : FinalityCertificateBundle} {chainGenesisCommitment : Digest384}
    (h : verifyFinality C bundle chainGenesisCommitment = .ok ()) :
    FinalityVerified C bundle chainGenesisCommitment := by
  simp only [verifyFinality, inversion] at h
  obtain ⟨hc, ⟨-, -, hr, -, -, hcr, hh, hd⟩, hv⟩ := h
  obtain ⟨hq, hb⟩ := verifyVotes_ok hv
  exact ⟨hc, hr.trans hcr.symm, hh, hd, hq, hb⟩

namespace LightClientState

variable {s s' : LightClientState}

theorem expectedGenesis_ok {height : Nat} {expected : ValidatorGenesis}
    {activating : Option UpgradeCertificateBundle}
    (h : s.expectedGenesis height = .ok (expected, activating)) :
    (expected = s.activeGenesis ∧ activating = none) ∨
      ∃ upgrade, s.pendingUpgrade = some upgrade ∧ expected = upgrade.nextGenesis ∧
        activating = some upgrade := by
  unfold expectedGenesis at h
  split at h
  · cases h
    exact .inl ⟨rfl, rfl⟩
  · rename_i upgrade hp
    dsimp only at h
    split at h
    · cases h
    · split at h
      · cases h
        exact .inr ⟨upgrade, hp, rfl, rfl⟩
      · cases h
        exact .inl ⟨rfl, rfl⟩

/-- The header extends the finalized one, certified by the manifest in force at its height. -/
structure Ingested (C : Crypto) (s : LightClientState) (bundle : FinalityCertificateBundle)
    (s' : LightClientState) : Prop where
  finality : FinalityVerified C bundle s.chainGenesisCommitment
  header : s'.finalizedHeader = bundle.header
  height : bundle.header.inputs.height = s.finalizedHeader.inputs.height + 1
  parent : bundle.header.inputs.parentBlockId = s.finalizedHeader.digest C
  /-- The bundle comes with the active manifest, or activates the pending upgrade. -/
  manifest : (bundle.validatorGenesis = s.activeGenesis ∧ s'.activeGenesis = s.activeGenesis ∧
      s'.pendingUpgrade = s.pendingUpgrade) ∨
    ∃ upgrade, s.pendingUpgrade = some upgrade ∧ bundle.validatorGenesis = upgrade.nextGenesis ∧
      s'.activeGenesis = upgrade.nextGenesis ∧ s'.pendingUpgrade = none

theorem ingestFinality_ok {bundle : FinalityCertificateBundle} {observed : Nat}
    (h : s.ingestFinality C bundle observed = .ok s') : Ingested C s bundle s' := by
  simp only [ingestFinality, inversion, Prod.exists] at h
  obtain ⟨-, expected, activating, hexpected, hf, -, hm, -, next, hn,
    ⟨hh, -⟩, hp, until_, -, rfl⟩ := h
  have hh := hh.trans hn.1
  have hf := verifyFinality_ok hf
  rcases expectedGenesis_ok hexpected with ⟨rfl, rfl⟩ | ⟨upgrade, hpe, rfl, rfl⟩
  · exact ⟨hf, rfl, hh, hp, .inl ⟨hm, rfl, rfl⟩⟩
  · exact ⟨hf, rfl, hh, hp, .inr ⟨upgrade, hpe, hm, rfl, rfl⟩⟩

theorem authorizeUpgrade_ok {bundle : UpgradeCertificateBundle}
    (h : s.authorizeUpgrade C bundle = .ok s') :
    s.pendingUpgrade = none ∧ bundle.certificate.blockDigest = bundle.authorization.commitment C ∧
      s' = { s with pendingUpgrade := some bundle } := by
  simp only [authorizeUpgrade, inversion, Bool.not_eq_true,
    isSome_eq_false_iff, isNone_iff_eq_none] at h
  obtain ⟨hn, -, -, ⟨-, -, -, -, -, hd⟩, -, rfl⟩ := h
  exact ⟨hn, hd, rfl⟩

/-- **A restored state is the saved one.** -/
theorem restore_ok {saved : LightClientState} (h : saved.restore C = .ok s) : s = saved := by
  simp only [restore, inversion] at h
  obtain ⟨-, -, _, -, -, h⟩ := h
  split at h
  · rename_i hn
    cases h
    rw [← hn]
  · rename_i upgrade hp
    rw [(authorizeUpgrade_ok (mapError_eq_ok.1 h)).2.2, ← hp]

end LightClientState

end Accepted

/-! ## The client with its file -/

def FinalityCertificateBundle.block (C : Crypto) (bundle : FinalityCertificateBundle) :
    FinalizedBlock :=
  let context := bundle.certificate.context
  ⟨context.genesisCommitment, context.epoch, context.validatorSetRoot, context.protocolRevision,
    bundle.header.inputs.height, bundle.header.digest C, bundle.certificate.proposalCommitment⟩

/-- The state in memory (`none` while closed), the snapshot file, and the history of ingested
headers, newest first. -/
structure PersistentLightClient where
  state : Option LightClientState
  disk : Option LightClientState
  accepted : List FinalizedBlock

inductive LightClientOp
  /-- `bootstrap`, then `create`. -/
  | create (expectedChain : ChainId) (chainGenesisCommitment : Digest384)
      (checkpoint : FinalityCertificateBundle) (period : Nat) (save : SaveOutcome)
  | ingestFinality (bundle : FinalityCertificateBundle) (observed : Nat) (save : SaveOutcome)
  | authorizeUpgrade (bundle : UpgradeCertificateBundle) (save : SaveOutcome)
  /-- The process stops. -/
  | close
  | load

namespace PersistentLightClient

def fresh : PersistentLightClient := ⟨none, none, []⟩

/-- Save the next state and install it if the save succeeded. -/
def commit (c : PersistentLightClient) (outcome : SaveOutcome) (next : LightClientState) :
    PersistentLightClient :=
  { c with
    state := if outcome = .written then some next else c.state
    disk := if outcome = .lost then c.disk else some next }

/-- One operation.  A header that passes every check goes into the history whatever becomes of the
save. -/
def exec (C : Crypto) (c : PersistentLightClient) : LightClientOp → PersistentLightClient
  | .create expectedChain chainGenesisCommitment checkpoint period save =>
    match LightClientState.bootstrap C expectedChain chainGenesisCommitment checkpoint period with
    | .ok next => c.commit save next
    | .error _ => c
  | .ingestFinality bundle observed save =>
    match c.state with
    | none => c
    | some s => match s.ingestFinality C bundle observed with
      | .ok next => { c.commit save next with accepted := bundle.block C :: c.accepted }
      | .error _ => c
  | .authorizeUpgrade bundle save =>
    match c.state with
    | none => c
    | some s => match s.authorizeUpgrade C bundle with
      | .ok next => c.commit save next
      | .error _ => c
  | .close => { c with state := none }
  | .load => match c.disk.map (LightClientState.restore C) with
    | some (.ok s) => { c with state := some s }
    | _ => c

/-- A state the client continues from, or could. -/
def Holds (c : PersistentLightClient) (s : LightClientState) : Prop :=
  c.state = some s ∨ c.disk = some s

variable {C : Crypto} {c : PersistentLightClient} {s : LightClientState}

theorem holds_commit {o : SaveOutcome} {next : LightClientState}
    (h : (c.commit o next).Holds s) : c.Holds s ∨ s = next := by
  cases o with
  | written => exact .inr (h.elim (fun h => (some.inj h).symm) fun h => (some.inj h).symm)
  | lost => exact .inl h
  | late => exact h.elim (fun h => .inl (.inl h)) fun h => .inr (some.inj h).symm

/-- Where the states of a client come from. -/
inductive Next (C : Crypto) (c : PersistentLightClient) :
    LightClientOp → LightClientState → Prop
  | create {chain genesis checkpoint period save s}
      (h : LightClientState.bootstrap C chain genesis checkpoint period = .ok s) :
      Next C c (.create chain genesis checkpoint period save) s
  | ingest {s₀ bundle observed save s} (hs : c.state = some s₀)
      (h : s₀.ingestFinality C bundle observed = .ok s) :
      Next C c (.ingestFinality bundle observed save) s
  | authorize {s₀ bundle save s} (hs : c.state = some s₀)
      (h : s₀.authorizeUpgrade C bundle = .ok s) : Next C c (.authorizeUpgrade bundle save) s

variable {op : LightClientOp}

/-- **Every state held after an operation was held before or is the operation's result.** -/
theorem exec_holds (h : (c.exec C op).Holds s) : c.Holds s ∨ Next C c op s := by
  cases op with
  | create chain genesis checkpoint period save =>
    simp only [exec] at h
    split at h
    · rename_i hb
      exact (holds_commit h).imp_right (by rintro rfl; exact .create hb)
    · exact .inl h
  | ingestFinality bundle observed save =>
    simp only [exec] at h
    split at h
    · exact .inl h
    · rename_i s₀ hs
      split at h
      · rename_i hi
        exact (holds_commit h).imp_right (by rintro rfl; exact .ingest hs hi)
      · exact .inl h
  | authorizeUpgrade bundle save =>
    simp only [exec] at h
    split at h
    · exact .inl h
    · rename_i s₀ hs
      split at h
      · rename_i hau
        exact (holds_commit h).imp_right (by rintro rfl; exact .authorize hs hau)
      · exact .inl h
  | close => exact .inl (h.elim (fun h => by cases h) .inr)
  | load =>
    simp only [exec] at h
    split at h
    · rename_i s' hl
      obtain ⟨saved, hd, hr⟩ := map_eq_some_iff.1 hl
      rcases h with h | h
      · rw [← some.inj h, LightClientState.restore_ok hr]
        exact .inl (.inr hd)
      · exact .inl (.inr h)
    · exact .inl h

theorem exec_accepted {a : FinalizedBlock} (h : a ∈ (c.exec C op).accepted) : a ∈ c.accepted ∨
      ∃ bundle observed save s₀ s, op = .ingestFinality bundle observed save ∧
        c.state = some s₀ ∧ s₀.ingestFinality C bundle observed = .ok s ∧ a = bundle.block C := by
  cases op with
  | ingestFinality bundle observed save =>
    simp only [exec] at h
    split at h
    · exact .inl h
    · rename_i s₀ hs
      split at h
      · rename_i s hi
        rcases mem_cons.1 h with rfl | h
        · exact .inr ⟨bundle, observed, save, s₀, s, rfl, hs, hi, rfl⟩
        · exact .inl h
      · exact .inl h
  | create _ _ _ _ _ =>
    left
    simp only [exec] at h
    split at h <;> exact h
  | authorizeUpgrade _ _ =>
    left
    simp only [exec] at h
    split at h
    · exact h
    · split at h <;> exact h
  | close => exact .inl h
  | load =>
    left
    simp only [exec] at h
    split at h <;> exact h

end PersistentLightClient

end ActiveChain
