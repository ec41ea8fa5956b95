import ActiveChain.Consensus.Anchor
import ActiveChain.Consensus.Transcripts

/-!
# One validator with its disk (`ValidatorService`)

The service runs the engine on a copy, saves the copy, and only then installs it and uses the key.
A save may fail before or after the new file is in place.

* `NodeOp`, `ValidatorNode.exec` — the operations of the service, with crashes and restarts.
* `exec_cases` — **an operation is quiet, or signs one recorded vote or timeout vote.**
* `Holds`, `exec_carry` — the states a node could continue from, and their invariant rule.
* `exec_memory`, `exec_holds`, `exec_finalized` — where everything after an operation comes from.
-/

namespace ActiveChain

open ValidatorEngine

/-! ## Signing -/

section

variable (C : Crypto) (validator : PrincipalId) (key : PublicKey)

/-- `ValidatorSigner::sign_vote` on a prepared vote. -/
def signPreparedVote (prepared : PreparedVote) : EngineM ValidatorVote := do
  let proposal := prepared.proposal
  let context ← (ConsensusVoteContext.newWithRevision prepared.genesisCommitment
    proposal.context.epoch prepared.validatorSetRoot prepared.protocolRevision).mapError
    fun _ => .unboundConsensusDomain
  let payload := votePayload validator context proposal.height proposal.round proposal.blockDigest
    (proposal.commitment C)
  (ValidatorVote.new validator context proposal.height proposal.round proposal.blockDigest
    (proposal.commitment C) ⟨.mlDsa44, C.sign key payload⟩).mapError fun _ => .signer

def signTimeoutVote (prepared : PreparedTimeout) : EngineM TimeoutVote :=
  let payload := timeoutPayload validator prepared.context prepared.height prepared.round
    prepared.parent prepared.highestQc
  (TimeoutVote.new validator prepared.context prepared.height prepared.round prepared.parent
    prepared.highestQc ⟨.mlDsa44, C.sign key payload⟩).mapError fun _ => .invalidViewChange

def signProposal (context : ConsensusVoteContext) (height round : Nat) (blockDigest : Digest384)
    (justification : ProposalJustification) : EngineM BlockProposal :=
  let payload := proposalPayload validator context height round blockDigest justification
  (BlockProposal.new validator context height round blockDigest justification
    ⟨.mlDsa44, C.sign key payload⟩).mapError fun _ => .signer

end

/-! ## Nodes -/

/-- A vote that left the node, with the proposal it is for. -/
structure SignedVote where
  proposal : BlockProposal
  vote : ValidatorVote

/-- A block an engine finalized, in the context it was in. -/
@[ext] structure FinalizedBlock where
  genesisCommitment : Digest384
  epoch : Nat
  validatorSetRoot : Digest384
  protocolRevision : Nat
  height : Nat
  blockDigest : Digest384
  proposalCommitment : Digest384
deriving DecidableEq

def ValidatorEngine.finalizedBlock (e : ValidatorEngine) : FinalizedBlock :=
  ⟨e.genesisCommitment, e.state.epoch, e.state.validatorSetRoot, e.state.protocolRevision,
    e.state.finalizedHeight, e.state.finalizedBlockDigest, e.state.finalizedProposalCommitment⟩

/-- A validator service, with the history of what it signed and finalized, newest first. -/
structure ValidatorNode where
  validator : PrincipalId
  key : PublicKey
  genesis : ValidatorGenesis
  memory : Option ValidatorEngine
  disk : Option PersistedValidatorState
  votes : List SignedVote
  timeouts : List TimeoutVote
  proposals : List BlockProposal
  finalized : List FinalizedBlock

def ValidatorNode.fresh (validator : PrincipalId) (key : PublicKey) (genesis : ValidatorGenesis) :
    ValidatorNode :=
  ⟨validator, key, genesis, none, none, [], [], [], []⟩

inductive NodeOp (C : Crypto)
  /-- `process_message`: save with the new replay guard, process, save the result. -/
  | deliver (m : ConsensusMessage C) (first second : SaveOutcome)
  /-- `reserve_sequence_range`: save the current engine. -/
  | reserve (save : SaveOutcome)
  /-- `sign_current_vote_durably`. -/
  | signVote (save : SaveOutcome)
  /-- `timeout_round`, up to the signature. -/
  | timeout (height round : Nat) (save : SaveOutcome)
  /-- The proposal of `propose_round`. -/
  | propose (height round : Nat) (blockDigest : Digest384)
  /-- `activate_finalized_validator_set`. -/
  | activateValidatorSet (authorization : ConsensusUpgradeAuthorization) (proof : CertifiedBlock C)
      (next : ValidatorGenesis) (save : SaveOutcome)
  /-- `activate_finalized_protocol_upgrade`. -/
  | activateProtocol (authorization : ConsensusUpgradeAuthorization) (proof : CertifiedBlock C)
      (save : SaveOutcome)
  /-- The process stops. -/
  | crash
  /-- The process starts, from the snapshot file and the active manifest if there is a file, from
  the genesis manifest otherwise. -/
  | start (manifest : ValidatorGenesis)

namespace ValidatorNode

variable (C : Crypto)

section

variable (n : ValidatorNode)

/-- `save_validator_snapshot`. -/
def save (outcome : SaveOutcome) (p : PersistedValidatorState) : ValidatorNode :=
  match outcome with
  | .lost => n
  | .written | .late => { n with disk := some p }

/-- Save the candidate engine and install it if the save succeeded.  What the candidate finalized
goes into the history whatever becomes of the save: a late one may still be started from. -/
def commit (outcome : SaveOutcome) (e e' : ValidatorEngine) : ValidatorNode :=
  let n := n.save outcome e'.snapshot
  { n with
    memory := if outcome = .written then some e' else n.memory
    finalized := if e.state.finalizedHeight < e'.state.finalizedHeight then
      e'.finalizedBlock :: n.finalized else n.finalized }

variable (e : ValidatorEngine)

def deliver (m : ConsensusMessage C) (first second : SaveOutcome) : ValidatorNode :=
  let n := n.save first e.snapshot
  if first = .written then
    match e.process C m with
    | (.ok _, e') => n.commit second e e'
    | (.error _, _) => n
  else n

def signVote (outcome : SaveOutcome) : ValidatorNode :=
  match e.prepareCurrentVote C n.validator with
  | .error _ => n
  | .ok (prepared, e') =>
    let n := n.commit outcome e e'
    match outcome, signPreparedVote C n.validator n.key prepared with
    | .written, .ok vote => { n with votes := ⟨prepared.proposal, vote⟩ :: n.votes }
    | _, _ => n

def timeout (height round : Nat) (outcome : SaveOutcome) : ValidatorNode :=
  match e.prepareTimeoutVote n.validator height round with
  | .error _ => n
  | .ok (prepared, e') =>
    let n := n.commit outcome e e'
    match outcome, signTimeoutVote C n.validator n.key prepared with
    | .written, .ok vote => { n with timeouts := vote :: n.timeouts }
    | _, _ => n

def propose (height round : Nat) (blockDigest : Digest384) : ValidatorNode :=
  match e.consensusContext with
  | .error _ => n
  | .ok context =>
    match signProposal C n.validator n.key context height round blockDigest
        e.preferredJustification with
    | .error _ => n
    | .ok proposal => { n with proposals := proposal :: n.proposals }

def activate (result : EngineM ValidatorEngine) (outcome : SaveOutcome) : ValidatorNode :=
  match result with
  | .error _ => n
  | .ok e' => n.commit outcome e e'

def start (manifest : ValidatorGenesis) : ValidatorNode :=
  let manifest := if n.disk.isSome then manifest else n.genesis
  match restoreEngine C manifest n.disk with
  | .error _ => n
  | .ok e => { n with memory := some e }

/-- One operation; a stopped node only starts. -/
def exec (op : NodeOp C) : ValidatorNode :=
  match n.memory with
  | none =>
    match op with
    | .start manifest => n.start C manifest
    | _ => n
  | some e =>
    match op with
    | .deliver m first second => n.deliver C e m first second
    | .reserve outcome => n.save outcome e.snapshot
    | .signVote outcome => n.signVote C e outcome
    | .timeout height round outcome => n.timeout C e height round outcome
    | .propose height round blockDigest => n.propose C e height round blockDigest
    | .activateValidatorSet authorization proof next outcome =>
      n.activate e (e.activateFinalizedValidatorSet C authorization proof next) outcome
    | .activateProtocol authorization proof outcome =>
      n.activate e (e.activateFinalizedProtocolUpgrade C authorization proof) outcome
    | .crash => { n with memory := none }
    | .start _ => n

def run (ops : List (NodeOp C)) : ValidatorNode := ops.foldl (exec C) n

/-! ## What an operation can do -/

/-- The engine act an operation performs. -/
def act : NodeOp C → Option (EngineAct C)
  | .deliver m _ _ => some (.message m)
  | .signVote _ => some (.vote n.validator)
  | .timeout height round _ => some (.timeout n.validator height round)
  | .activateValidatorSet authorization proof next _ =>
    some (.validatorSet authorization proof next)
  | .activateProtocol authorization proof _ => some (.protocol authorization proof)
  | _ => none

/-- `e'` comes from the engine in memory by the operation's own act. -/
def Acts (op : NodeOp C) (e e' : ValidatorEngine) : Prop :=
  n.memory = some e ∧ ∃ a ∈ n.act C op, EngineStep C e a e'

end

/-- An operation after which nothing new is signed with the voting key.  Whatever is in memory or
on disk was there before, was restored from disk, or is the result of one act of the engine. -/
structure Quiet (n : ValidatorNode) (op : NodeOp C) (n' : ValidatorNode) : Prop where
  identity : n'.validator = n.validator ∧ n'.key = n.key ∧ n'.genesis = n.genesis
  signed : n'.votes = n.votes ∧ n'.timeouts = n.timeouts
  memory : ∀ e' ∈ n'.memory, e' ∈ n.memory ∨ (∃ e, n.Acts C op e e') ∨
    ∃ manifest, (n.disk = none → manifest = n.genesis) ∧ restoreEngine C manifest n.disk = .ok e'
  disk : ∀ p ∈ n'.disk, p ∈ n.disk ∨ (∃ e ∈ n.memory, p = e.snapshot) ∨
    ∃ e e', n.Acts C op e e' ∧ p = e'.snapshot
  kept : n'.disk = none → n.disk = none
  finalized : n'.finalized = n.finalized ∨ ∃ e e', n.Acts C op e e' ∧
    e.state.finalizedHeight < e'.state.finalizedHeight ∧
    n'.finalized = e'.finalizedBlock :: n.finalized

/-- A vote was prepared, saved, and signed. -/
def Voted (n n' : ValidatorNode) : Prop :=
  ∃ e prepared e' vote, n.memory = some e ∧
    e.prepareCurrentVote C n.validator = .ok (prepared, e') ∧
    signPreparedVote C n.validator n.key prepared = .ok vote ∧
    n' = { n with
      memory := some e', disk := some e'.snapshot
      votes := ⟨prepared.proposal, vote⟩ :: n.votes }

/-- A timeout vote was prepared, saved, and signed. -/
def TimedOut (n n' : ValidatorNode) : Prop :=
  ∃ e height round prepared e' vote, n.memory = some e ∧
    e.prepareTimeoutVote n.validator height round = .ok (prepared, e') ∧
    signTimeoutVote C n.validator n.key prepared = .ok vote ∧
    n' = { n with
      memory := some e', disk := some e'.snapshot, timeouts := vote :: n.timeouts }

variable {C} {n n' : ValidatorNode} {op : NodeOp C} {e e' : ValidatorEngine}

theorem Quiet.refl (n : ValidatorNode) (op : NodeOp C) : n.Quiet C op n :=
  ⟨⟨rfl, rfl, rfl⟩, ⟨rfl, rfl⟩, fun _ h => .inl h, fun _ h => .inl h, id, .inl rfl⟩

theorem commit_quiet (hac : n.Acts C op e e')
    (hn : n' = n ∨ n' = { n with disk := some e.snapshot })
    (o : SaveOutcome) : n.Quiet C op (n'.commit o e e') := by
  have hd : ∀ p, n'.disk = some p → p ∈ n.disk ∨ (∃ e ∈ n.memory, p = e.snapshot) ∨
      ∃ e e', n.Acts C op e e' ∧ p = e'.snapshot := by
    intro p hp
    rcases hn with rfl | rfl
    · exact .inl hp
    · cases hp
      exact .inr (.inl ⟨e, hac.1, rfl⟩)
  have hk : n'.disk = none → n.disk = none := by
    rcases hn with rfl | rfl
    · exact id
    · simp
  have hs : n'.validator = n.validator ∧ n'.key = n.key ∧ n'.genesis = n.genesis ∧
      n'.votes = n.votes ∧ n'.timeouts = n.timeouts ∧ n'.memory = n.memory ∧
      n'.finalized = n.finalized := by
    rcases hn with rfl | rfl <;> exact ⟨rfl, rfl, rfl, rfl, rfl, rfl, rfl⟩
  obtain ⟨hv, hkey, hg, hvo, ht, hm, hf⟩ := hs
  have hlog : ((if e.state.finalizedHeight < e'.state.finalizedHeight then
      e'.finalizedBlock :: n'.finalized else n'.finalized) = n.finalized) ∨
      ∃ e₁ e₂, n.Acts C op e₁ e₂ ∧ e₁.state.finalizedHeight < e₂.state.finalizedHeight ∧
        (if e.state.finalizedHeight < e'.state.finalizedHeight then
          e'.finalizedBlock :: n'.finalized else n'.finalized) =
            e₂.finalizedBlock :: n.finalized := by
    split
    · exact .inr ⟨e, e', hac, ‹_›, by rw [hf]⟩
    · exact .inl hf
  have hw : ∀ p ∈ some e'.snapshot, p ∈ n.disk ∨ (∃ e ∈ n.memory, p = e.snapshot) ∨
      ∃ e e', n.Acts C op e e' ∧ p = e'.snapshot := by
    intro p hp
    cases hp
    exact .inr (.inr ⟨e, e', hac, rfl⟩)
  cases o with
  | lost =>
    refine ⟨⟨hv, hkey, hg⟩, ⟨hvo, ht⟩, ?_, hd, hk, hlog⟩
    intro e₁ he₁
    exact .inl (hm ▸ he₁)
  | late =>
    refine ⟨⟨hv, hkey, hg⟩, ⟨hvo, ht⟩, ?_, hw, fun h => (by cases h), hlog⟩
    intro e₁ he₁
    exact .inl (hm ▸ he₁)
  | written =>
    refine ⟨⟨hv, hkey, hg⟩, ⟨hvo, ht⟩, ?_, hw, fun h => (by cases h), hlog⟩
    intro e₁ he₁
    cases he₁
    exact .inr (.inl ⟨e, hac⟩)

theorem commit_written_of_state (hs : e'.state = e.state) :
    n.commit .written e e' = { n with memory := some e', disk := some e'.snapshot } := by
  simp [commit, save, hs]

section

variable (hmem : n.memory = some e)
include hmem

theorem save_quiet (op : NodeOp C) (o : SaveOutcome) : n.Quiet C op (n.save o e.snapshot) := by
  have hw : n.Quiet C op { n with disk := some e.snapshot } := by
    refine ⟨⟨rfl, rfl, rfl⟩, ⟨rfl, rfl⟩, fun _ h => .inl h, ?_, by simp, .inl rfl⟩
    intro p hp
    cases hp
    exact .inr (.inl ⟨e, hmem, rfl⟩)
  cases o with
  | lost => exact .refl n op
  | written => exact hw
  | late => exact hw

theorem deliver_quiet (m : ConsensusMessage C) (first second : SaveOutcome) :
    n.Quiet C (.deliver m first second) (n.deliver C e m first second) := by
  unfold deliver
  split
  · rename_i hf
    subst hf
    split
    · rename_i e' hp
      have hs : EngineStep C e (.message m) e' := by
        have h := EngineStep.message e m
        rwa [hp] at h
      exact commit_quiet ⟨hmem, _, rfl, hs⟩ (.inr rfl) second
    · exact save_quiet hmem _ .written
  · exact save_quiet hmem _ first

theorem signVote_cases (o : SaveOutcome) :
    n.Quiet C (.signVote o) (n.signVote C e o) ∨
      n.Voted C (n.signVote C e o) := by
  unfold signVote
  split
  · exact .inl (.refl n _)
  · rename_i prepared e' hp
    have hac : n.Acts C (.signVote o) e e' := ⟨hmem, _, rfl, EngineStep.vote hp⟩
    have hq := commit_quiet hac (.inl rfl) o
    simp only
    split
    · rename_i vote hs
      right
      have hst : e'.state = e.state := by
        obtain ⟨_, _, _, -, -, -, -, rfl⟩ := prepareCurrentVote_cases hp
        rfl
      rw [commit_written_of_state hst] at hs ⊢
      exact ⟨e, prepared, e', vote, hmem, hp, hs, rfl⟩
    · exact .inl hq

theorem timeout_cases (height round : Nat) (o : SaveOutcome) :
    n.Quiet C (.timeout height round o) (n.timeout C e height round o) ∨
      n.TimedOut C (n.timeout C e height round o) := by
  unfold timeout
  split
  · exact .inl (.refl n _)
  · rename_i prepared e' hp
    have hac : n.Acts C (.timeout height round o) e e' := ⟨hmem, _, rfl, EngineStep.timeout hp⟩
    have hq := commit_quiet hac (.inl rfl) o
    simp only
    split
    · rename_i vote hs
      right
      have hst : e'.state = e.state := by
        obtain ⟨_, _, -, -, -, -, rfl⟩ := prepareTimeoutVote_cases hp
        rfl
      rw [commit_written_of_state hst] at hs ⊢
      exact ⟨e, height, round, prepared, e', vote, hmem, hp, hs, rfl⟩
    · exact .inl hq

end

theorem start_quiet (manifest : ValidatorGenesis) :
    n.Quiet C (.start manifest) (n.start C manifest) := by
  unfold start
  simp only
  split
  · exact .refl n _
  · rename_i e hr
    refine ⟨⟨rfl, rfl, rfl⟩, ⟨rfl, rfl⟩, ?_, fun _ h => .inl h, id, .inl rfl⟩
    intro e' he'
    cases he'
    refine .inr (.inr ⟨_, ?_, hr⟩)
    intro hn
    rw [hn]
    rfl

theorem exec_cases (n : ValidatorNode) (op : NodeOp C) :
    n.Quiet C op (n.exec C op) ∨ n.Voted C (n.exec C op) ∨ n.TimedOut C (n.exec C op) := by
  unfold exec
  cases hmem : n.memory with
  | none =>
    cases op with
    | start manifest => exact .inl (start_quiet manifest)
    | _ => exact .inl (.refl n _)
  | some e =>
    cases op with
    | deliver m first second => exact .inl (deliver_quiet hmem m first second)
    | reserve o => exact .inl (save_quiet hmem _ o)
    | signVote o => exact (signVote_cases hmem o).imp id .inl
    | timeout height round o =>
      exact (timeout_cases hmem height round o).imp id .inr
    | propose height round blockDigest =>
      left
      simp only [propose]
      split
      · exact .refl n _
      · split
        · exact .refl n _
        · exact ⟨⟨rfl, rfl, rfl⟩, ⟨rfl, rfl⟩, fun _ h => .inl h, fun _ h => .inl h, id, .inl rfl⟩
    | activateValidatorSet a proof next o =>
      left
      simp only [activate]
      split
      · exact .refl n _
      · rename_i e' hac
        exact commit_quiet ⟨hmem, _, rfl, EngineStep.validatorSet hac⟩ (.inl rfl) o
    | activateProtocol a proof o =>
      left
      simp only [activate]
      split
      · exact .refl n _
      · rename_i e' hac
        exact commit_quiet ⟨hmem, _, rfl, EngineStep.protocol hac⟩ (.inl rfl) o
    | crash =>
      exact .inl ⟨⟨rfl, rfl, rfl⟩, ⟨rfl, rfl⟩, fun _ h => (by cases h),
        fun _ h => .inl h, id, .inl rfl⟩
    | start manifest => exact .inl (.refl n _)

/-! ## States to continue from -/

/-- A state the node could continue from: the one in memory, or the one on disk. -/
def Holds (n : ValidatorNode) (p : PersistedValidatorState) : Prop :=
  p ∈ n.disk ∨ ∃ e ∈ n.memory, e.snapshot = p

variable {p : PersistedValidatorState}

theorem Quiet.holds (h : n.Quiet C op n') (hp : n'.Holds p) :
    n.Holds p ∨ (∃ e e', n.Acts C op e e' ∧ p = e'.snapshot) ∨
      (n.disk = none ∧ ∃ e, restoreEngine C n.genesis none = .ok e ∧ p = e.snapshot) := by
  rcases hp with hd | ⟨e', hmem, rfl⟩
  · rcases h.disk p hd with hold | ⟨e, he, rfl⟩ | hac
    · exact .inl (.inl hold)
    · exact .inl (.inr ⟨e, he, rfl⟩)
    · exact .inr (.inl hac)
  · rcases h.memory e' hmem with hold | ⟨e, hac⟩ | ⟨manifest, hg, hr⟩
    · exact .inl (.inr ⟨e', hold, rfl⟩)
    · exact .inr (.inl ⟨e, e', hac, rfl⟩)
    · cases hd : n.disk with
      | none =>
        rw [hg hd, hd] at hr
        exact .inr (.inr ⟨rfl, e', hr, rfl⟩)
      | some p =>
        rw [hd] at hr
        rw [restoreEngine_snapshot hr]
        exact .inl (.inl hd)

theorem holds_recorded (hmem : n.memory = some e) (hd : n.disk = some e.snapshot) (hp : n.Holds p) :
    p = e.snapshot := by
  rcases hp with h | ⟨e', he', rfl⟩
  · exact Option.some.inj (h.symm.trans hd)
  · rw [Option.some.inj (he'.symm.trans hmem)]

/-! ## Where everything comes from -/

/-- The acts an operation can be the cause of. -/
def ActOf (op : NodeOp C) : EngineAct C → Prop
  | .message m => ∃ first second, op = .deliver m first second
  | .validatorSet authorization proof next =>
    ∃ outcome, op = .activateValidatorSet authorization proof next outcome
  | _ => True

/-- `e'` comes from the engine in memory by an act the operation can cause. -/
def Stepped (n : ValidatorNode) (op : NodeOp C) (e e' : ValidatorEngine) : Prop :=
  n.memory = some e ∧ ∃ a, ActOf op a ∧ EngineStep C e a e'

theorem Acts.stepped (h : n.Acts C op e e') : n.Stepped op e e' := by
  obtain ⟨hmem, a, ha, hs⟩ := h
  refine ⟨hmem, a, ?_, hs⟩
  cases op <;> cases ha
  case deliver m first second => exact ⟨first, second, rfl⟩
  case activateValidatorSet authorization proof next outcome => exact ⟨outcome, rfl⟩
  all_goals trivial

variable (n op)

/-- An operation is quiet, or records a step of the engine with what was signed. -/
theorem exec_recorded : n.Quiet C op (n.exec C op) ∨
    ∃ e e' votes timeouts, n.Stepped op e e' ∧ (∀ x ∈ n.votes, x ∈ votes) ∧
      n.exec C op = { n with
        memory := some e', disk := some e'.snapshot, votes := votes, timeouts := timeouts } := by
  rcases n.exec_cases op with h | ⟨e, _, e', _, hmem, hp, -, h⟩ |
    ⟨e, height, round, _, e', _, hmem, hp, -, h⟩
  · exact .inl h
  · exact .inr ⟨e, e', _, _, ⟨hmem, .vote n.validator, trivial, .vote hp⟩,
      fun _ => List.mem_cons_of_mem _, h⟩
  · exact .inr ⟨e, e', _, _, ⟨hmem, .timeout n.validator height round, trivial, .timeout hp⟩,
      fun _ => id, h⟩

theorem exec_memory : ∀ e' ∈ (n.exec C op).memory,
    e' ∈ n.memory ∨ (∃ e, n.Stepped op e e') ∨
      ∃ manifest, (n.disk = none → manifest = n.genesis) ∧
        restoreEngine C manifest n.disk = .ok e' := by
  intro e' he'
  rcases n.exec_recorded op with h | ⟨e, _, _, _, hs, -, h⟩
  · rcases h.memory e' he' with h | ⟨e, h⟩ | h
    · exact .inl h
    · exact .inr (.inl ⟨e, h.stepped⟩)
    · exact .inr (.inr h)
  · rw [h] at he'
    cases he'
    exact .inr (.inl ⟨e, hs⟩)

theorem exec_holds (hp : (n.exec C op).Holds p) :
    n.Holds p ∨ (∃ e e', n.Stepped op e e' ∧ p = e'.snapshot) ∨
      (n.disk = none ∧ ∃ e, restoreEngine C n.genesis none = .ok e ∧ p = e.snapshot) := by
  rcases n.exec_recorded op with h | ⟨e, e', _, _, hs, -, h⟩
  · rcases h.holds hp with h | ⟨e, e', h, heq⟩ | h
    · exact .inl h
    · exact .inr (.inl ⟨e, e', h.stepped, heq⟩)
    · exact .inr (.inr h)
  · rw [h] at hp
    exact .inr (.inl ⟨e, e', hs, holds_recorded rfl rfl hp⟩)

/-- **The invariant rule for snapshots.** What holds of every state to continue from, is kept by
the operation's act, and holds of a first start, holds after the operation. -/
theorem exec_carry {P : PersistedValidatorState → Prop} (hold : ∀ p, n.Holds p → P p)
    (hste : ∀ e e', n.Stepped op e e' → n.Holds e.snapshot → P e.snapshot → P e'.snapshot)
    (hst : n.disk = none → ∀ e, restoreEngine C n.genesis none = .ok e → P e.snapshot) :
    ∀ p, (n.exec C op).Holds p → P p := by
  intro p hp
  rcases n.exec_holds op hp with hp | ⟨e, e', hs, rfl⟩ | ⟨hn, e, hr, rfl⟩
  · exact hold p hp
  · have hh : n.Holds e.snapshot := .inr ⟨e, hs.1, rfl⟩
    exact hste e e' hs hh (hold _ hh)
  · exact hst hn e hr

theorem exec_finalized : ∀ b ∈ (n.exec C op).finalized,
    b ∈ n.finalized ∨ ∃ e e', n.Stepped op e e' ∧
      e.state.finalizedHeight < e'.state.finalizedHeight ∧ b = e'.finalizedBlock := by
  intro b hb
  rcases n.exec_recorded op with h | ⟨_, _, _, _, -, -, h⟩
  · rcases h.finalized with hs | ⟨e, e', hac, hlt, hnew⟩
    · exact .inl (hs ▸ hb)
    · rw [hnew] at hb
      rcases List.mem_cons.1 hb with rfl | hb
      · exact .inr ⟨e, e', hac.stepped, hlt, rfl⟩
      · exact .inl hb
  · rw [h] at hb
    exact .inl hb

end ValidatorNode

end ActiveChain
