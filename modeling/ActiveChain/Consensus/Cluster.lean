import ActiveChain.Consensus.Locks
import ActiveChain.Consensus.Members
import Mathlib.Data.Fintype.Basic

/-!
# Agreement between validators

The honest validators of a chain, with everybody else and the network as one adversary: it delivers
whatever it likes, as often and as late as it likes, but cannot sign for an honest validator.

* `Voted`, `Backed` — who voted for a proposal, and that a quorum did.
* `votingRules` — the nodes keep to the rules of locked voting.
* `Quartet` — four validators: a run that agrees, and one through a view change that does not.
-/

namespace ActiveChain

open ValidatorEngine QuorumVoting Function List ConsensusState

/-! ## Signatures -/

def ProposalJustification.signatures : ProposalJustification → List (Transcript × Nat)
  | .viewChange certificate =>
    certificate.votes.map fun vote => (vote.signingPayload, vote.signature.bytes)
  | _ => []

def BlockProposal.signatures (p : BlockProposal) : List (Transcript × Nat) :=
  (p.signingPayload, p.signature.bytes) :: p.justification.signatures

def ConsensusMessage.signatures {C : Crypto} : ConsensusMessage C → List (Transcript × Nat)
  | .proposal p => p.signatures
  | .vote v => [(v.signingPayload, v.signature.bytes)]
  | .certificate proof => proof.proposal.signatures ++
      proof.votes.map fun v => (v.signingPayload, v.signature.bytes)
  | .certifiedBlockRequest _ => []
  | .timeoutVote t => [(t.signingPayload, t.signature.bytes)]
  | .viewChange view => view.votes.map fun t => (t.signingPayload, t.signature.bytes)

def ValidatorNode.signed (n : ValidatorNode) : List Transcript :=
  n.votes.map (fun s => s.vote.signingPayload) ++ n.timeouts.map TimeoutVote.signingPayload ++
    n.proposals.map BlockProposal.signingPayload

theorem ValidatorNode.mem_signed_vote {n : ValidatorNode} {v : ValidatorVote}
    (h : v.signingPayload ∈ n.signed) :
    ∃ s ∈ n.votes, s.vote.signingPayload = v.signingPayload := by
  rcases mem_append.1 h with h | h
  · rcases mem_append.1 h with h | h
    · exact mem_map.1 h
    · obtain ⟨t, -, ht⟩ := mem_map.1 h
      have htag := congrArg head? ht
      simp [TimeoutVote.signingPayload, timeoutPayload, ValidatorVote.signingPayload, votePayload]
        at htag
  · obtain ⟨p, -, hp⟩ := mem_map.1 h
    have htag := congrArg head? hp
    simp [BlockProposal.signingPayload, proposalPayload, ValidatorVote.signingPayload,
      votePayload] at htag

/-! ## The model -/

section Model

variable {ι : Type} (C : Crypto)

/-- An identity and its key. -/
abbrev Member := PrincipalId × PublicKey

/-- The honest validators. -/
abbrev Cluster (ι : Type) := ι → ValidatorNode

variable (who : ι → Member)

def Cluster.start (genesis : ValidatorGenesis) : Cluster ι :=
  fun i => ValidatorNode.fresh (who i).1 (who i).2 genesis

/-- A member of a manifest that is one of the honest validators, under its own key. -/
def Honest (member : ValidatorGenesisEntry) : Prop :=
  ∃ i, who i = (member.validator, member.publicKey)

instance [Fintype ι] : DecidablePred (Honest who) :=
  fun _ => inferInstanceAs (Decidable (∃ _, _))

/-- Members holding less than one third of the stake are faulty. -/
def FaultyBelowThird [Fintype ι] (g : ValidatorGenesis) : Prop :=
  FewFaulty ValidatorGenesisEntry.stake g.entries (fun member => ¬ Honest who member)
deriving Decidable

/-- Nothing in the message is forged: what verifies under the key of an honest validator was signed
by it. -/
def Authentic (s : Cluster ι) (m : ConsensusMessage C) : Prop :=
  ∀ i, ∀ x ∈ m.signatures, C.verifyMlDsa44 (s i).key x.1 x.2 = .ok () → x.1 ∈ (s i).signed

/-- What can happen: authentic messages, and activations of validator sets with few faulty
members.  Restarts, crashes and failed saves are unrestricted. -/
def Permitted [Fintype ι] (s : Cluster ι) : NodeOp C → Prop
  | .deliver m _ _ => Authentic C s m
  | .activateValidatorSet _ _ next _ => FaultyBelowThird who next
  | _ => True

instance [Fintype ι] (s : Cluster ι) (op : NodeOp C) : Decidable (Permitted C who s op) :=
  match op with
  | .deliver m _ _ => inferInstanceAs (Decidable (∀ _, ∀ x ∈ m.signatures, _ → _))
  | .activateValidatorSet _ _ next _ => inferInstanceAs (Decidable (FaultyBelowThird who next))
  | .reserve _ | .signVote _ | .timeout .. | .propose .. | .activateProtocol .. | .crash
  | .start _ => inferInstanceAs (Decidable True)

def Cluster.exec [DecidableEq ι] (s : Cluster ι) (i : ι) (op : NodeOp C) : Cluster ι :=
  update s i ((s i).exec C op)

/-- One permitted operation that meets the condition `Q`. -/
def ClusterStep [Fintype ι] [DecidableEq ι] (Q : Cluster ι → ι → NodeOp C → Prop)
    (s s' : Cluster ι) : Prop :=
  ∃ i op, Permitted C who s op ∧ Q s i op ∧ s' = s.exec C i op

/-- A run of permitted operations that all meet the condition `Q`. -/
def ClusterRun [Fintype ι] [DecidableEq ι] (Q : Cluster ι → ι → NodeOp C → Prop) :
    Cluster ι → Cluster ι → Prop :=
  Relation.ReflTransGen (ClusterStep C who Q)

/-- The justification is no view change that carries a certificate. -/
def ProposalJustification.Direct : ProposalJustification → Prop
  | .viewChange certificate => certificate.highestQc = none
  | _ => True

instance (j : ProposalJustification) : Decidable j.Direct :=
  match j with
  | .viewChange certificate => inferInstanceAs (Decidable (certificate.highestQc = none))
  | .finalized _ | .quorum _ => inferInstanceAs (Decidable True)

/-- The message completes no certified block that is justified by a view change with a
certificate: neither a presented one, nor one whose votes are being collected. -/
def CommitsDirectly {C : Crypto} (e : ValidatorEngine) : ConsensusMessage C → Prop
  | .certificate proof => proof.proposal.justification.Direct
  | .vote vote => ∀ collector ∈ e.collectors.get? vote.proposalCommitment,
      collector.proposal.justification.Direct
  | _ => True

instance (e : ValidatorEngine) (m : ConsensusMessage C) : Decidable (CommitsDirectly e m) :=
  match m with
  | .certificate proof => inferInstanceAs (Decidable proof.proposal.justification.Direct)
  | .vote v => inferInstanceAs (Decidable (∀ collector ∈ e.collectors.get? v.proposalCommitment, _))
  | .proposal _ | .certifiedBlockRequest _ | .timeoutVote _ | .viewChange _ =>
    inferInstanceAs (Decidable True)

/-- Whatever is delivered commits directly. -/
def DirectOnly (s : Cluster ι) (i : ι) : NodeOp C → Prop
  | .deliver m _ _ => ∀ e ∈ (s i).memory, CommitsDirectly e m
  | _ => True

instance (s : Cluster ι) (i : ι) (op : NodeOp C) : Decidable (DirectOnly C s i op) :=
  match op with
  | .deliver m _ _ => inferInstanceAs (Decidable (∀ e ∈ (s i).memory, CommitsDirectly e m))
  | .activateValidatorSet .. | .reserve _ | .signVote _ | .timeout .. | .propose ..
  | .activateProtocol .. | .crash | .start _ => inferInstanceAs (Decidable True)

end Model

open Cluster

/-! ## What only grows -/

section Growth

variable {ι : Type} {C : Crypto}

/-- Identities stay, and signed votes are never forgotten. -/
def Grows (s s' : Cluster ι) : Prop :=
  ∀ i, (s' i).validator = (s i).validator ∧ (s' i).key = (s i).key ∧
    ∀ x ∈ (s i).votes, x ∈ (s' i).votes

theorem ValidatorNode.exec_grows (n : ValidatorNode) (op : NodeOp C) :
    (n.exec C op).validator = n.validator ∧ (n.exec C op).key = n.key ∧
      ∀ x ∈ n.votes, x ∈ (n.exec C op).votes := by
  rcases n.exec_recorded op with h | ⟨_, _, _, _, -, hv, h⟩
  · refine ⟨h.identity.1, h.identity.2.1, fun x hx => ?_⟩
    rw [h.signed.1]
    exact hx
  · rw [h]
    exact ⟨rfl, rfl, hv⟩

theorem Cluster.exec_grows [DecidableEq ι] (s : Cluster ι) (i : ι) (op : NodeOp C) :
    Grows s (s.exec C i op) := by
  intro j
  unfold exec
  by_cases hj : j = i
  · subst hj
    rw [update_self]
    exact (s j).exec_grows op
  · rw [update_of_ne hj]
    exact ⟨rfl, rfl, fun _ hx => hx⟩

variable {s : Cluster ι}

theorem forall_exec [DecidableEq ι] {i : ι} {op : NodeOp C} (P : ι → ValidatorNode → Prop)
    (hold : ∀ j, P j (s j)) (hnew : P i ((s i).exec C op)) : ∀ j, P j (s.exec C i op j) := by
  intro j
  unfold exec
  by_cases hj : j = i
  · subst hj
    rw [update_self]
    exact hnew
  · rw [update_of_ne hj]
    exact hold j

/-- The vote, if it verifies for an honest validator, was signed by it. -/
def Unforged (C : Crypto) (s : Cluster ι) (v : ValidatorVote) : Prop :=
  ∀ i, verifyValidatorVote C (s i).key v = .ok () →
    ∃ x ∈ (s i).votes, x.vote.signingPayload = v.signingPayload

variable {s' : Cluster ι} {v : ValidatorVote}

theorem Unforged.mono (h : Grows s s') (hv : Unforged C s v) : Unforged C s' v := by
  intro i hve
  rw [(h i).2.1] at hve
  obtain ⟨x, hx, heq⟩ := hv i hve
  exact ⟨x, (h i).2.2 x hx, heq⟩

variable {m : ConsensusMessage C}

theorem Authentic.unforged (h : Authentic C s m)
    (hv : (v.signingPayload, v.signature.bytes) ∈ m.signatures) : Unforged C s v :=
  fun i hve => ValidatorNode.mem_signed_vote (h i _ hv hve)

theorem unforged_of_deliver (h : Authentic C s m) :
    (∀ v, m = .vote v → Unforged C s v) ∧
      ∀ proof, m = .certificate proof → ∀ v ∈ proof.votes, Unforged C s v := by
  refine ⟨fun v hm => h.unforged ?_, fun proof hm v hv => h.unforged ?_⟩
  · rw [hm]
    exact mem_singleton_self _
  · rw [hm]
    exact mem_append_right _ (mem_map_of_mem hv)

def Voted (s : Cluster ι) (i : ι) (p : BlockProposal) : Prop := ∃ x ∈ (s i).votes, x.proposal = p

/-- A quorum of a manifest with few faulty members voted for the proposal. -/
def Backed [Fintype ι] (C : Crypto) (who : ι → Member) (s : Cluster ι) (p : BlockProposal) : Prop :=
  ∃ (g : ValidatorGenesis) (voters : List PrincipalId),
    g.validatorSetRoot C = p.context.validatorSetRoot ∧ FaultyBelowThird who g ∧
    IsQuorum ValidatorGenesisEntry.stake g.entries (fun member => member.validator ∈ voters) ∧
    ∀ member ∈ g.entries, member.validator ∈ voters →
      ∀ i, who i = (member.validator, member.publicKey) → Voted s i p

variable {who : ι → Member}

theorem Backed.mono [Fintype ι] (h : Grows s s') {p : BlockProposal} (hp : Backed C who s p) :
    Backed C who s' p := by
  obtain ⟨g, voters, hr, hf, hq, hv⟩ := hp
  refine ⟨g, voters, hr, hf, hq, fun member hm hvo i hi => ?_⟩
  obtain ⟨x, hx, heq⟩ := hv member hm hvo i hi
  exact ⟨x, (h i).2.2 x hx, heq⟩

/-- **Two backed proposals of one context have a common honest voter.** -/
theorem Backed.common [Fintype ι] (hash : Injective C.shake256) {p q : BlockProposal}
    (hp : Backed C who s p) (hq : Backed C who s q) (hc : p.context = q.context) :
    ∃ i, Voted s i p ∧ Voted s i q := by
  obtain ⟨g, voters, hr, hf, hqu, hv⟩ := hp
  obtain ⟨g', voters', hr', -, hq', hv'⟩ := hq
  have he : g'.entries = g.entries := by
    refine ValidatorGenesis.entries_of_root hash ?_
    rw [hr', ← hc, hr]
  rw [he] at hq' hv'
  obtain ⟨member, hm, hin, hin', hh⟩ := exists_common hqu hq' hf
  obtain ⟨i, hi⟩ := not_not.1 hh
  exact ⟨i, hv member hm hin i hi, hv' member hm hin' i hi⟩

end Growth

/-! ## The rules of voting -/

section Rules

variable {ι : Type} {C : Crypto} {s : Cluster ι}

/-- The child is justified directly by a certificate for the parent. -/
def DirectChild (C : Crypto) (child parent : BlockProposal) : Prop :=
  ∃ qc, child.justification = .quorum qc ∧ qc.proposalCommitment = parent.commitment C ∧
    qc.height = parent.height ∧ qc.round = parent.round

theorem DirectChild.next {child parent : BlockProposal} (h : DirectChild C child parent) :
    child.round = parent.round + 1 ∧ child.height = parent.height + 1 := by
  obtain ⟨qc, hj, -, hhe, hro⟩ := h
  have hr := child.nextRound
  have hh := child.height_eq
  unfold BlockProposal.parent at hh
  rw [hj] at hr hh
  constructor
  · rw [eq_add_of_checkedAdd hr, hro]
  · rw [hh, ← hhe]
    rfl

theorem votingRules (hash : Injective C.shake256) (nodes : ∀ i, NodeInv C (s i))
    (locks : ∀ i, LockInv C (s i)) (context : ConsensusVoteContext) :
    VotingRules BlockProposal.round BlockProposal.height (DirectChild C)
      (fun i p => p.context = context ∧ Voted s i p) := by
  refine ⟨?_, ?_, fun child parent h => h.next⟩
  · rintro i b c ⟨hb, x, hx, rfl⟩ ⟨hc, y, hy, rfl⟩ hr
    have hvx := (nodes i).votes x hx
    have hvy := (nodes i).votes y hy
    have hco := (nodes i).one_proposal x hx y hy
      (by rw [hvx.context, hvy.context, hb, hc]) (by rw [hvx.round, hvy.round, hr])
    rw [hvx.commitment, hvy.commitment] at hco
    exact BlockProposal.commitment_injective hash hco
  · rintro i child parent c ⟨qc, hj, -, hh, -⟩ ⟨hch, x, hx, rfl⟩ ⟨hc, y, hy, rfl⟩ hr
    have hvx := (nodes i).votes x hx
    have hvy := (nodes i).votes y hy
    have hab := later_vote_above (nodes i) (locks i) hx hy
      (by rw [hvx.context, hvy.context, hch, hc]) (by rw [hvx.round, hvy.round]; exact hr) hj
    rwa [hh, hvy.height] at hab

end Rules

/-! ## The invariant -/

section Invariant

variable {ι : Type} [Fintype ι] {C : Crypto} {who : ι → Member}
  {s s' : Cluster ι}

theorem ValidatorNode.exec_genesis (n : ValidatorNode) (op : NodeOp C) :
    (n.exec C op).genesis = n.genesis := by
  rcases n.exec_recorded op with h | ⟨_, _, _, _, -, -, h⟩
  · exact h.identity.2.2
  · rw [h]

section

variable {e : ValidatorEngine}

theorem restoreEngine_fresh_records {manifest : ValidatorGenesis}
    (h : restoreEngine C manifest none = .ok e) : e.certifiedBlocks = SortedMap.empty := by
  obtain ⟨_, _, -, -, hnew⟩ := restoreEngine_fresh h
  simp only [ValidatorEngine.new, Except.inversion] at hnew
  obtain ⟨-, -, _, -, rfl⟩ := hnew
  rfl

theorem process_records (inv : AnchorInv C e.snapshot) (m : ConsensusMessage C)
    {c : Digest384} {record : CertifiedBlockRecord}
    (h : (e.process C m).2.certifiedBlocks.get? c = some record) :
    e.certifiedBlocks.get? c = some record ∨
      ∃ proof, e.presentedProof C m = some proof ∧ QuorumVerified C e proof ∧
        e.InDomain proof.certificate.context ∧ record.proposal = proof.proposal := by
  change (e.process C m).2.snapshot.certifiedBlocks.get? c = some record at h
  rcases process_snapshot C e m with hk | ⟨proof, s, anchor, hpr, hnew, hs⟩
  · left
    rwa [hk.snapshot] at h
  · rw [hs] at h
    change (e.insertCertified proof.proposal proof.certificate proof.votes s
      anchor).trimLocks.certifiedBlocks.get? c = some record at h
    have hf : ∀ r, r = recordOf proof → ∃ proof, e.presentedProof C m = some proof ∧
        QuorumVerified C e proof ∧ e.InDomain proof.certificate.context ∧
        r.proposal = proof.proposal := by
      rintro _ rfl
      exact ⟨proof, hpr, hnew.quorum, hnew.domain, rfl⟩
    rcases newBlock_cases inv hnew with
      ⟨-, -, rfl, rfl⟩ | ⟨qc, -, hc, hp, hfi, rfl, rfl⟩
    · rw [(sibling_records e proof).1, SortedMap.get?_insert] at h
      split at h
      · exact .inr (hf record (Option.some.inj h).symm)
      · exact .inl h
    · exact .inr (hf record (((commit_records inv hc hp hfi).1 _ _).1 h).2)

/-- What holds in every reachable cluster. -/
structure ClusterInv (C : Crypto) (who : ι → Member) (s : Cluster ι) : Prop where
  identity : ∀ i, ((s i).validator, (s i).key) = who i
  nodes : ∀ i, NodeInv C (s i)
  locks : ∀ i, LockInv C (s i)
  /-- Every root a node could continue from has few faulty members. -/
  roots : ∀ i p, (s i).Holds p → ∃ g : ValidatorGenesis,
    p.consensus.validatorSetRoot = g.validatorSetRoot C ∧ FaultyBelowThird who g
  genesis : ∀ i, FaultyBelowThird who (s i).genesis
  members : ∀ i, ∀ e ∈ (s i).memory, ∃ g, MembersOf C e g
  collectors : ∀ i, ∀ e ∈ (s i).memory, CollectorsHold C (Unforged C s) e
  records : ∀ i p, (s i).Holds p → ∀ commitment record,
    p.certifiedBlocks.get? commitment = some record → Backed C who s record.proposal

variable {g : ValidatorGenesis}

/-- The unforged vote of an honest member is one that it signed. -/
theorem ClusterInv.signed_vote (inv : ClusterInv C who s) {votes : List ValidatorVote}
    (hq : QuorumOf C g votes) (hvo : ∀ v ∈ votes, Unforged C s v) {member : ValidatorGenesisEntry}
    (hm : member ∈ g.entries) (hvot : member.validator ∈ votes.map ValidatorVote.validator) {i : ι}
    (hi : who i = (member.validator, member.publicKey)) :
    ∃ v ∈ votes, ∃ x ∈ (s i).votes, x.vote.signingPayload = v.signingPayload := by
  obtain ⟨v, hv, hva⟩ := mem_map.1 hvot
  have hkey : (s i).key = member.publicKey := congrArg Prod.snd ((inv.identity i).trans hi)
  have hve := hq.signed member hm v hv hva
  rw [← hkey] at hve
  exact ⟨v, hv, hvo v hv i hve⟩

variable (hash : Injective C.shake256)
include hash

theorem FaultyBelowThird.of_root {g' : ValidatorGenesis} (h : FaultyBelowThird who g)
    (hr : g'.validatorSetRoot C = g.validatorSetRoot C) : FaultyBelowThird who g' := by
  unfold FaultyBelowThird at h ⊢
  rwa [ValidatorGenesis.entries_of_root hash hr]

variable (inv : ClusterInv C who s)
include inv

/-- **A proposal that a quorum of unforged votes commits to is backed.** -/
theorem ClusterInv.backed_of_votes (hf : FaultyBelowThird who g) {votes : List ValidatorVote}
    (hq : QuorumOf C g votes) (hvo : ∀ v ∈ votes, Unforged C s v) {p : BlockProposal}
    (hr : g.validatorSetRoot C = p.context.validatorSetRoot)
    (hc : ∀ v ∈ votes, v.proposalCommitment = p.commitment C) : Backed C who s p := by
  refine ⟨g, votes.map ValidatorVote.validator, hr, hf, hq.quorum, ?_⟩
  intro member hm hvot i hi
  obtain ⟨v, hv, x, hx, hp⟩ := inv.signed_vote hq hvo hm hvot hi
  refine ⟨x, hx, BlockProposal.commitment_injective hash ?_⟩
  rw [← ((inv.nodes i).votes x hx).commitment, (votePayload_inj hp).2.2.2.2.2, hc v hv]

variable {i : ι} (hmem : (s i).memory = some e)
include hmem

theorem ClusterInv.trusted : ∃ g, MembersOf C e g ∧ FaultyBelowThird who g := by
  obtain ⟨g, hm⟩ := inv.members i e hmem
  obtain ⟨g', hr, hf⟩ := inv.roots i e.snapshot (.inr ⟨e, hmem, rfl⟩)
  exact ⟨g, hm, hf.of_root hash (hm.1.symm.trans hr)⟩

/-- **A block presented by an authentic message and verified is backed.** -/
theorem ClusterInv.presented {m : ConsensusMessage C} (hau : Authentic C s m)
    {cb : CertifiedBlock C} (hp : e.presentedProof C m = some cb) (hv : QuorumVerified C e cb)
    (hd : e.InDomain cb.certificate.context) : Backed C who s cb.proposal := by
  obtain ⟨g, hm, hf⟩ := inv.trusted hash hmem
  obtain ⟨hvo, hpr⟩ := unforged_of_deliver hau
  obtain ⟨-, hc, -, -, -, -, hb⟩ := cb.binds
  refine inv.backed_of_votes hash hf (hv.quorumOf hm)
    ((inv.collectors i e hmem).presented hvo hpr hp) ?_ fun v hv => (hb v hv).2
  rw [← hc, hd.2.2.1, hm.1]

end

/-! ### One operation -/

section Step

variable {i : ι} {op : NodeOp C}

theorem ClusterInv.exec_roots (inv : ClusterInv C who s) (hpe : Permitted C who s op)
    {p : PersistedValidatorState} (hp : ((s i).exec C op).Holds p) :
    ∃ g : ValidatorGenesis, p.consensus.validatorSetRoot = g.validatorSetRoot C ∧
      FaultyBelowThird who g := by
  rcases (s i).exec_holds op hp with hold | ⟨e, e', ⟨hmem, a, ha, hs⟩, rfl⟩ | ⟨-, e, hr, rfl⟩
  · exact inv.roots i p hold
  · have hh : (s i).Holds e.snapshot := .inr ⟨e, hmem, rfl⟩
    obtain ⟨g, hm⟩ := inv.members i e hmem
    obtain ⟨g', hm', hro | ⟨auth, proof, rfl⟩⟩ := hm.step ((inv.nodes i).shape _ hh) hs
    · obtain ⟨g₀, hr₀, hf⟩ := inv.roots i _ hh
      exact ⟨g₀, (hm'.1.trans hro).trans hr₀, hf⟩
    · obtain ⟨o, rfl⟩ := ha
      exact ⟨g', hm'.1, hpe⟩
  · exact ⟨(s i).genesis, (restoreEngine_members hr).1, inv.genesis i⟩

variable {e' : ValidatorEngine}

theorem ClusterInv.exec_members (inv : ClusterInv C who s) (he' : e' ∈ ((s i).exec C op).memory) :
    ∃ g, MembersOf C e' g := by
  rcases (s i).exec_memory op e' he' with hold | ⟨e, hmem, a, -, hs⟩ | ⟨manifest, -, hr⟩
  · exact inv.members i e' hold
  · obtain ⟨g, hm⟩ := inv.members i e hmem
    obtain ⟨g', hm', -⟩ := hm.step ((inv.nodes i).shape _ (.inr ⟨e, hmem, rfl⟩)) hs
    exact ⟨g', hm'⟩
  · obtain ⟨hro, hset, hk, -⟩ := restoreEngine_members hr
    exact ⟨manifest, hro, hset, hk⟩

theorem ClusterInv.exec_collectors (inv : ClusterInv C who s) (hp : Permitted C who s op)
    (he' : e' ∈ ((s i).exec C op).memory) : CollectorsHold C (Unforged C s) e' := by
  rcases (s i).exec_memory op e' he' with hold | ⟨e, hmem, a, ha, hs⟩ | ⟨manifest, -, hr⟩
  · exact inv.collectors i e' hold
  · refine (inv.collectors i e hmem).step hs ?_
    rintro v rfl
    obtain ⟨first, second, rfl⟩ := ha
    exact (unforged_of_deliver hp).1 v rfl
  · exact CollectorsHold.of_empty (restoreEngine_members hr).2.2.2

section

variable (hash : Injective C.shake256) (inv : ClusterInv C who s) (hpe : Permitted C who s op)
include hash inv hpe

theorem ClusterInv.exec_records {p : PersistedValidatorState}
    (hp : ((s i).exec C op).Holds p) {c : Digest384} {r : CertifiedBlockRecord}
    (hget : p.certifiedBlocks.get? c = some r) : Backed C who s r.proposal := by
  rcases (s i).exec_holds op hp with hold | ⟨e, e', ⟨hmem, a, ha, hst⟩, rfl⟩ | ⟨-, e, hr, rfl⟩
  · exact inv.records i p hold _ _ hget
  · have hh : (s i).Holds e.snapshot := .inr ⟨e, hmem, rfl⟩
    have hs := (inv.nodes i).shape _ hh
    have hold : ∀ r, e.certifiedBlocks.get? c = some r →
        Backed C who s r.proposal := fun r h => inv.records i _ hh _ _ h
    rcases hst.kinds with ⟨m, rfl, rfl⟩ | ⟨_, _, _, _, rfl⟩ | ⟨_, _, _, _, _, -, -, rfl⟩ | ⟨_, hr⟩
    · obtain ⟨first, second, rfl⟩ := ha
      rcases process_records hs m hget with h | ⟨proof, hpro, hv, hd, heq⟩
      · exact hold r h
      · rw [heq]
        exact inv.presented hash hmem hpe hpro hv hd
    · exact hold r hget
    · cases hget
    · rw [restoreEngine_snapshot hr] at hget
      exact hold r hget
  · change e.certifiedBlocks.get? c = some r at hget
    rw [restoreEngine_fresh_records hr] at hget
    cases hget

/-- **Every permitted operation keeps the invariant.** -/
theorem ClusterInv.exec [DecidableEq ι] : ClusterInv C who (s.exec C i op) := by
  have hg := s.exec_grows i op
  refine ⟨fun j => ?_, ?_, ?_, ?_, ?_, ?_, ?_, ?_⟩
  · rw [(hg j).1, (hg j).2.1]
    exact inv.identity j
  · exact forall_exec (fun _ n => NodeInv C n) inv.nodes ((inv.nodes i).exec op)
  · exact forall_exec (fun _ n => LockInv C n) inv.locks ((inv.locks i).exec hash (inv.nodes i) op)
  · exact forall_exec (fun _ n => ∀ p, n.Holds p → ∃ g : ValidatorGenesis,
      p.consensus.validatorSetRoot = g.validatorSetRoot C ∧ FaultyBelowThird who g) inv.roots
      fun p hp => inv.exec_roots hpe hp
  · exact forall_exec (fun _ n => FaultyBelowThird who n.genesis) inv.genesis
      ((s i).exec_genesis op ▸ inv.genesis i)
  · exact forall_exec (fun _ n => ∀ e ∈ n.memory, ∃ g, MembersOf C e g) inv.members
      fun e' he' => inv.exec_members he'
  · exact forall_exec (fun _ n => ∀ e ∈ n.memory, CollectorsHold C (Unforged C (s.exec C i op)) e)
      (fun j e he => CollectorsHold.imp (inv.collectors j e he) fun v hv => hv.mono hg)
      fun e' he' => (inv.exec_collectors hpe he').imp fun v hv => hv.mono hg
  · exact forall_exec (fun _ n => ∀ p, n.Holds p → ∀ commitment record,
      p.certifiedBlocks.get? commitment = some record →
        Backed C who (s.exec C i op) record.proposal)
      (fun j p hp c r hget => (inv.records j p hp c r hget).mono hg)
      fun p hp c r hget => (inv.exec_records hash hpe hp hget).mono hg

end

end Step

theorem ClusterInv.start {genesis : ValidatorGenesis} (hf : FaultyBelowThird who genesis) :
    ClusterInv C who (Cluster.start who genesis) := by
  have hh : ∀ i p, ¬ (Cluster.start who genesis i).Holds p := by
    rintro i p (h | ⟨e, h, -⟩) <;> cases h
  exact ⟨fun _ => rfl, fun i => NodeInv.fresh _ _ _, fun i => LockInv.fresh _ _ _,
    fun i p hp => absurd hp (hh i p), fun _ => hf, fun _ e he => (by cases he),
    fun _ e he => (by cases he), fun i p hp => absurd hp (hh i p)⟩

/-- **Every run keeps the invariant.** -/
theorem ClusterInv.run [DecidableEq ι] (hash : Injective C.shake256)
    {Q : Cluster ι → ι → NodeOp C → Prop} (inv : ClusterInv C who s)
    (hrun : ClusterRun C who Q s s') : ClusterInv C who s' := by
  induction hrun with
  | refl => exact inv
  | tail _ hs ih =>
    obtain ⟨i, op, hp, -, rfl⟩ := hs
    exact ih.exec hash hp

end Invariant

/-! ## Agreement -/

section Agreement

variable {ι : Type} [Fintype ι] {C : Crypto} {who : ι → Member}
  {s s' : Cluster ι}

/-- A finalized block, with the proposals that made it so: a backed one and a backed direct
child. -/
def Finalized (C : Crypto) (who : ι → Member) (s : Cluster ι) (b : FinalizedBlock) : Prop :=
  ∃ parent child : BlockProposal, Backed C who s parent ∧ Backed C who s child ∧
    DirectChild C child parent ∧ child.context = parent.context ∧
    parent.context.genesisCommitment = b.genesisCommitment ∧ parent.context.epoch = b.epoch ∧
    parent.context.validatorSetRoot = b.validatorSetRoot ∧
    parent.context.protocolRevision = b.protocolRevision ∧ parent.height = b.height ∧
    parent.blockDigest = b.blockDigest ∧ parent.commitment C = b.proposalCommitment

theorem Finalized.mono (h : Grows s s') {b : FinalizedBlock} (hb : Finalized C who s b) :
    Finalized C who s' b := by
  obtain ⟨parent, child, hp, hc, hr⟩ := hb
  exact ⟨parent, child, hp.mono h, hc.mono h, hr⟩

variable {e : ValidatorEngine}

theorem presented_direct {m : ConsensusMessage C} (h : CommitsDirectly e m)
    {proof : CertifiedBlock C} (hp : e.presentedProof C m = some proof) :
    proof.proposal.justification.Direct := by
  cases m with
  | certificate given =>
    obtain rfl : given = proof := Option.some.inj hp
    exact h
  | vote v =>
    have hr : (e.collectVote C v).1 = .ok (some proof) := by
      simp only [presentedProof] at hp
      split at hp
      · rename_i heq
        rw [heq, hp]
      · cases hp
    rcases collectVote_cases C e v with ⟨-, hn⟩ | ⟨key, c, hget, -, hv⟩
    · exact absurd hr (hn proof)
    · rw [(hv proof hr).1, (addVote_frame C c e.validatorSet key v).1]
      exact h c hget
  | proposal _ => cases hp
  | certifiedBlockRequest _ => cases hp
  | timeoutVote _ => cases hp
  | viewChange _ => cases hp

theorem quorum_of_direct {j : ProposalJustification} {qc : QuorumCertificate} (h : j.Direct)
    (hqc : j.certificate = some qc) : j = .quorum qc := by
  cases j with
  | finalized anchor => cases hqc
  | quorum cert =>
    cases hqc
    rfl
  | viewChange view =>
    have hn : view.highestQc = none := h
    change view.highestQc = some qc at hqc
    rw [hn] at hqc
    cases hqc

variable {op : NodeOp C} {e' : ValidatorEngine}

theorem ValidatorNode.Stepped.message_of_height {n : ValidatorNode} (h : n.Stepped op e e')
    (hh : e.state.finalizedHeight < e'.state.finalizedHeight) :
    ∃ m first second, op = .deliver m first second ∧ e' = (e.process C m).2 := by
  obtain ⟨-, a, ha, hst⟩ := h
  have hs : e'.state.finalizedHeight ≠ e.state.finalizedHeight := hh.ne'
  rcases hst.kinds with ⟨m, rfl, rfl⟩ | ⟨_, _, _, _, rfl⟩ | ⟨_, _, _, _, _, -, hu, rfl⟩ | ⟨_, hr⟩
  · obtain ⟨first, second, rfl⟩ := ha
    exact ⟨m, first, second, rfl, rfl⟩
  · exact absurd rfl hs
  · exact absurd (applyUpgrade_spec hu).1 hs
  · exact absurd (congrArg (fun p => p.consensus.finalizedHeight) (restoreEngine_snapshot hr)) hs

/-- **A head that moves was backed and has a backed direct child.** -/
theorem ClusterInv.finalized_of_step (hash : Injective C.shake256)
    (inv : ClusterInv C who s) {i : ι} (hp : Permitted C who s op) (hdi : DirectOnly C s i op)
    (hst : (s i).Stepped op e e') (hhe : e.state.finalizedHeight < e'.state.finalizedHeight) :
    Finalized C who s e'.finalizedBlock := by
  have hmem := hst.1
  have hhel : (s i).Holds e.snapshot := .inr ⟨e, hmem, rfl⟩
  have hsh := (inv.nodes i).shape _ hhel
  obtain ⟨m, first, second, rfl, rfl⟩ := hst.message_of_height hhe
  rcases process_commits hsh m with ⟨-, -, hs⟩ |
    ⟨proof, qc, hpr, hv, hdo, hqc, ⟨r, hget, rfl⟩, -, hs⟩
  · rw [hs] at hhe
    exact absurd hhe (Nat.lt_irrefl _)
  · have hj := quorum_of_direct (presented_direct (hdi e hmem) hpr) hqc
    obtain ⟨-, -, -, ⟨-, hc, hh, hr, hd, hco, -⟩, hin⟩ := hsh.record _ _ hget
    have hf := process_frame hsh m
    obtain ⟨d₁, d₂, d₃, d₄⟩ := hin
    refine ⟨r.proposal, proof.proposal, inv.records i _ hhel _ _ hget,
      inv.presented hash hmem hp hpr hv hdo,
      ⟨r.certificate, hj, hco, hh, hr⟩, ?_, ?_, ?_, ?_, ?_, ?_, ?_, ?_⟩
    · rw [← (BlockProposal.certificate_binds hqc).1, hc]
    · rw [← hc, d₁]
      exact hf.genesis.symm
    · rw [← hc, d₂]
      exact hf.context.1.symm
    · rw [← hc, d₃]
      exact hf.context.2.1.symm
    · rw [← hc, d₄]
      exact hf.context.2.2.symm
    · rw [← hh]
      exact (congrArg finalizedHeight hs).symm
    · rw [← hd]
      exact (congrArg finalizedBlockDigest hs).symm
    · rw [← hco]
      exact (congrArg finalizedProposalCommitment hs).symm

theorem finalized_of_run [DecidableEq ι] (hash : Injective C.shake256)
    {genesis : ValidatorGenesis} (hf : FaultyBelowThird who genesis)
    (hrun : ClusterRun C who (DirectOnly C) (start who genesis) s) :
    ∀ i, ∀ b ∈ (s i).finalized, Finalized C who s b := by
  induction hrun with
  | refl =>
    intro i b hb
    cases hb
  | @tail t _ hbe hst ih =>
    have inv := (ClusterInv.start hf).run hash hbe
    obtain ⟨i, op, hp, hd, rfl⟩ := hst
    have hg := t.exec_grows i op
    refine forall_exec (fun _ n => ∀ b ∈ n.finalized, Finalized C who (t.exec C i op) b)
      (fun j b hb => (ih j b hb).mono hg) fun b hb => ?_
    rcases (t i).exec_finalized op b hb with hb | ⟨e, e', hs, hh, rfl⟩
    · exact (ih i b hb).mono hg
    · exact (inv.finalized_of_step hash hp hd hs hh).mono hg

def SameContext (b c : FinalizedBlock) : Prop :=
  b.genesisCommitment = c.genesisCommitment ∧ b.epoch = c.epoch ∧
    b.validatorSetRoot = c.validatorSetRoot ∧ b.protocolRevision = c.protocolRevision
deriving Decidable

/-- **Two finalized blocks of one height and context are the same.** -/
theorem ClusterInv.finalized_unique (hash : Injective C.shake256)
    (inv : ClusterInv C who s) {b c : FinalizedBlock} (hb : Finalized C who s b)
    (hc : Finalized C who s c) (hco : SameContext b c) (hh : b.height = c.height) : b = c := by
  obtain ⟨p, p', hp, hp', hd, hctx, h₁, h₂, h₃, h₄, hph, hpd, hpc⟩ := hb
  obtain ⟨q, q', hq, hq', hd', hctx', k₁, k₂, k₃, k₄, hqh, hqd, hqc⟩ := hc
  obtain ⟨e₁, e₂, e₃, e₄⟩ := hco
  have hs : p.context = q.context := ConsensusVoteContext.ext (by rw [h₁, k₁, e₁])
    (by rw [h₂, k₂, e₂]) (by rw [h₃, k₃, e₃]) (by rw [h₄, k₄, e₄])
  have common : ∀ x y : BlockProposal, (x.context = p.context ∧ Backed C who s x) →
      (y.context = p.context ∧ Backed C who s y) →
      ∃ i, (x.context = p.context ∧ Voted s i x) ∧ (y.context = p.context ∧ Voted s i y) := by
    rintro x y ⟨hx, hbx⟩ ⟨hy, hby⟩
    obtain ⟨i, hvx, hvy⟩ := hbx.common hash hby (hx.trans hy.symm)
    exact ⟨i, ⟨hx, hvx⟩, ⟨hy, hvy⟩⟩
  have hpq : p = q := (votingRules hash inv.nodes inv.locks p.context).committed_agree common
    ⟨⟨rfl, hp⟩, p', hd, hctx, hp'⟩
    ⟨⟨hs.symm, hq⟩, q', hd', hctx'.trans hs.symm, hq'⟩ (by rw [hph, hqh, hh])
  subst hpq
  exact FinalizedBlock.ext e₁ e₂ e₃ e₄ hh (hpd.symm.trans hqd) (hpc.symm.trans hqc)

/-- **Agreement.** In every run in which no block is committed through a view change, no two honest
engines finalize different blocks at the same height of the same context. -/
theorem agreement [DecidableEq ι] (hash : Injective C.shake256)
    {genesis : ValidatorGenesis} (hfaulty : FaultyBelowThird who genesis)
    (hrun : ClusterRun C who (DirectOnly C) (Cluster.start who genesis) s) {i j : ι}
    {b c : FinalizedBlock} (hb : b ∈ (s i).finalized) (hc : c ∈ (s j).finalized)
    (hcontext : b.genesisCommitment = c.genesisCommitment ∧ b.epoch = c.epoch ∧
      b.validatorSetRoot = c.validatorSetRoot ∧ b.protocolRevision = c.protocolRevision)
    (hheight : b.height = c.height) : b = c :=
  ((ClusterInv.start hfaulty).run hash hrun).finalized_unique hash
    (finalized_of_run hash hfaulty hrun i b hb) (finalized_of_run hash hfaulty hrun j c hc)
    hcontext hheight

/-- **One certified block in a round.** In every run, commits through view changes included, the
certified blocks that honest nodes have in memory or on disk are equal if their rounds and contexts
are. -/
theorem certified_unique [DecidableEq ι] (hash : Injective C.shake256)
    {genesis : ValidatorGenesis} (hfaulty : FaultyBelowThird who genesis)
    {Q : Cluster ι → ι → NodeOp C → Prop} (hrun : ClusterRun C who Q (start who genesis) s)
      {i j : ι} {p q : PersistedValidatorState} (hp : (s i).Holds p) (hq : (s j).Holds q)
    {x y : Digest384} {b c : CertifiedBlockRecord}
    (hb : p.certifiedBlocks.get? x = some b) (hc : q.certifiedBlocks.get? y = some c)
    (hcontext : b.proposal.context = c.proposal.context)
    (hround : b.proposal.round = c.proposal.round) : b.proposal = c.proposal := by
  have inv := (ClusterInv.start hfaulty).run hash hrun
  obtain ⟨k, hkb, hkc⟩ :=
    (inv.records i p hp x b hb).common hash (inv.records j q hq y c hc) hcontext
  exact (votingRules hash inv.nodes inv.locks _).single k _ _ ⟨hcontext, hkb⟩ ⟨rfl, hkc⟩ hround

end Agreement

/-! ## Four validators -/

namespace Quartet

abbrev crypto : Crypto := Crypto.transparent

/-- Validators `1` to `4` with stakes `3, 1, 1, 3`: the first and the last are a quorum. -/
def manifest : ValidatorGenesis :=
  ⟨0, 1, 1, [⟨1, 3, 101, by decide⟩, ⟨2, 1, 102, Nat.one_ne_zero⟩, ⟨3, 1, 103, Nat.one_ne_zero⟩,
    ⟨4, 3, 104, by decide⟩], by decide, SoloChain.manifest.revision, by decide⟩

def who (i : Fin 4) : Member := (i + 1, i + 101)

structure Net where
  first : ValidatorNode
  second : ValidatorNode
  third : ValidatorNode
  fourth : ValidatorNode

def Net.node (net : Net) : Cluster (Fin 4)
  | 0 => net.first
  | 1 => net.second
  | 2 => net.third
  | 3 => net.fourth

def Net.set (net : Net) (i : Fin 4) (n : ValidatorNode) : Net :=
  match i with
  | 0 => { net with first := n }
  | 1 => { net with second := n }
  | 2 => { net with third := n }
  | 3 => { net with fourth := n }

theorem Net.set_node (net : Net) (i : Fin 4) (n : ValidatorNode) :
    (net.set i n).node = update net.node i n := by
  funext j
  match i, j with
  | 0, 0 | 0, 1 | 0, 2 | 0, 3 | 1, 0 | 1, 1 | 1, 2 | 1, 3 | 2, 0 | 2, 1 | 2, 2 | 2, 3 | 3, 0
  | 3, 1 | 3, 2 | 3, 3 => rfl

def Net.init : Net :=
  let n (i : Fin 4) := ValidatorNode.fresh (who i).1 (who i).2 manifest
  ⟨n 0, n 1, n 2, n 3⟩

theorem Net.init_node : Net.init.node = start who manifest := by
  funext i
  match i with
  | 0 | 1 | 2 | 3 => rfl

/-- What the four do, in terms of what they have signed last. -/
inductive Move
  | start (i : Fin 4)
  | timeout (i : Fin 4) (height round : Nat)
  | propose (i : Fin 4) (height round : Nat) (blockDigest : Digest384)
  | vote (i : Fin 4)
  | sendTimeout (sender i : Fin 4)
  | sendProposal (sender i : Fin 4)
  | sendVote (sender i : Fin 4)
  /-- The sender's certificate for the proposer's last proposal. -/
  | sendCertificate (sender proposer i : Fin 4)

def Move.mover : Move → Fin 4
  | .start i | .timeout i _ _ | .propose i _ _ _ | .vote i | .sendTimeout _ i | .sendProposal _ i
  | .sendVote _ i | .sendCertificate _ _ i => i

def received (m : ConsensusMessage crypto) : NodeOp crypto := .deliver m .written .written

def Move.op (net : Net) : Move → Option (NodeOp crypto)
  | .start _ => some (.start manifest)
  | .timeout _ height round => some (.timeout height round .written)
  | .propose _ height round blockDigest => some (.propose height round blockDigest)
  | .vote _ => some (.signVote .written)
  | .sendTimeout sender _ => (net.node sender).timeouts.head?.map fun t => received (.timeoutVote t)
  | .sendProposal sender _ => (net.node sender).proposals.head?.map fun p => received (.proposal p)
  | .sendVote sender _ => (net.node sender).votes.head?.map fun v => received (.vote v.vote)
  | .sendCertificate sender proposer _ => do
    let e ← (net.node sender).memory
    let p ← (net.node proposer).proposals.head?
    let proof ← (e.requestedProof crypto (p.commitment crypto)).toOption
    return received (.certificate proof)

def play (check : Net → Fin 4 → NodeOp crypto → Bool) (net : Net) : List Move → Option Net
  | [] => some net
  | move :: rest =>
    match move.op net with
    | none => none
    | some op =>
      if Permitted crypto who net.node op ∧ check net move.mover op = true then
        play check (net.set move.mover ((net.node move.mover).exec crypto op)) rest
      else none

variable {Q : Cluster (Fin 4) → Fin 4 → NodeOp crypto → Prop}

theorem play_run {check : Net → Fin 4 → NodeOp crypto → Bool}
    (hc : ∀ net i op, check net i op = true → Q net.node i op) (moves : List Move) :
    ∀ net net', play check net moves = some net' →
      ClusterRun crypto who Q net.node net'.node := by
  induction moves with
  | nil =>
    intro net net' h
    cases h
    exact Relation.ReflTransGen.refl
  | cons move rest ih =>
    intro net net' h
    rw [play] at h
    split at h
    · cases h
    · split at h
      · rename_i op _ hop
        refine Relation.ReflTransGen.head ⟨move.mover, op, hop.1, hc _ _ _ hop.2, rfl⟩ ?_
        rw [exec, ← Net.set_node]
        exact ih _ _ h
      · cases h

theorem exists_run (check : Net → Fin 4 → NodeOp crypto → Bool)
    (hc : ∀ net i op, check net i op = true → Q net.node i op) (moves : List Move)
    {P : Cluster (Fin 4) → Prop} [DecidablePred P]
    (h : (play check Net.init moves).any (fun net => decide (P net.node)) = true) :
    ∃ s, ClusterRun crypto who Q (start who manifest) s ∧ P s := by
  obtain ⟨net, hnet, hP⟩ := (Option.any_eq_true _ _).1 h
  have hrun := play_run hc _ _ _ hnet
  rw [Net.init_node] at hrun
  exact ⟨net.node, hrun, of_decide_eq_true hP⟩

/-- A proposer takes in its own proposal, votes for it, and counts the vote. -/
def own (i : Fin 4) : List Move := [.sendProposal i i, .vote i, .sendVote i i]

/-- Two blocks in consecutive rounds; the first and the second validator finalize the first one. -/
def consecutive : List Move := List.flatten
  [[.start 0, .start 1, .start 3, .propose 0 1 0 10], own 0,
    [.sendProposal 0 3, .vote 3, .sendVote 3 0, .sendCertificate 0 0 1, .sendCertificate 0 0 3],
    [.propose 1 2 1 20], own 1,
    [.sendProposal 1 0, .vote 0, .sendVote 0 1, .sendProposal 1 3, .vote 3, .sendVote 3 1,
      .sendCertificate 1 1 0]]

def SameSlot (b c : FinalizedBlock) : Prop :=
  (b.genesisCommitment = c.genesisCommitment ∧ b.epoch = c.epoch ∧
    b.validatorSetRoot = c.validatorSetRoot ∧ b.protocolRevision = c.protocolRevision) ∧
  b.height = c.height
deriving Decidable

theorem consecutive_reached : ∃ s, ClusterRun crypto who (DirectOnly crypto)
    (start who manifest) s ∧
    ∃ b ∈ (s 0).finalized, ∃ c ∈ (s 1).finalized, SameSlot b c := by
  apply exists_run (fun net i op => decide (DirectOnly crypto net.node i op))
    (fun net i op h => of_decide_eq_true h) consecutive
  decide +kernel

/-- The first two validators finalize a block in one slot, and it is the same block. -/
theorem consecutive_agree : ∃ s : Cluster (Fin 4), FaultyBelowThird who manifest ∧
    ClusterRun crypto who (DirectOnly crypto) (Cluster.start who manifest) s ∧
    ∃ b ∈ (s 0).finalized, ∃ c ∈ (s 1).finalized, SameSlot b c ∧ b = c := by
  obtain ⟨s, hrun, b, hb, c, hc, hs⟩ := consecutive_reached
  have hf : FaultyBelowThird who manifest := by decide
  exact ⟨s, hf, hrun, b, hb, c, hc, hs,
    agreement Crypto.transparent_injective hf hrun hb hc hs.1 hs.2⟩

/-- The first two validators have the certificate of the second block, and it is the same block. -/
theorem consecutive_certified : ∃ s : Cluster (Fin 4),
    ClusterRun crypto who (fun _ _ _ => True) (start who manifest) s ∧
    ∃ e ∈ (s 0).memory, ∃ f ∈ (s 1).memory, ∃ x y, ∃ b ∈ e.certifiedBlocks.get? x,
      ∃ c ∈ f.certifiedBlocks.get? y, b.proposal = c.proposal := by
  obtain ⟨s, hrun, e, he, f, hf, p, -, b, hb, c, hc, hcontext, hround⟩ :=
    exists_run (Q := fun _ _ _ => True) (fun _ _ _ => true) (fun _ _ _ _ => trivial) consecutive
      (P := fun s => ∃ e ∈ (s 0).memory, ∃ f ∈ (s 1).memory, ∃ p ∈ (s 1).proposals,
        ∃ b ∈ e.certifiedBlocks.get? (p.commitment crypto),
        ∃ c ∈ f.certifiedBlocks.get? (p.commitment crypto),
          b.proposal.context = c.proposal.context ∧ b.proposal.round = c.proposal.round)
      (by decide +kernel)
  exact ⟨s, hrun, e, he, f, hf, _, _, b, hb, c, hc,
    certified_unique Crypto.transparent_injective (by decide) hrun (.inr ⟨e, he, rfl⟩)
      (.inr ⟨f, hf, rfl⟩) hb hc hcontext hround⟩

/-- A view change carries the first block's certificate to a child in a later round; its voters do
not lock the first block.  An old proposal brings the two large validators back to height `1`, where
they certify another block and its direct child. -/
def split : List Move := List.flatten
  [[.start 0, .start 1, .start 2, .start 3,
      .timeout 0 1 0, .sendTimeout 0 0, .timeout 3 1 0, .sendTimeout 3 3,
      .sendTimeout 0 1, .sendTimeout 3 1, .propose 1 1 1 20], own 1,
    -- the first block, certified in round 0
    [.propose 0 1 0 10], own 0,
    [.sendProposal 0 3, .vote 3, .sendVote 3 0, .sendCertificate 0 0 3, .sendCertificate 0 0 2,
      .timeout 0 2 1, .sendTimeout 0 0, .timeout 3 2 1, .sendTimeout 3 3,
      .sendTimeout 0 2, .sendTimeout 3 2],
    -- its child in round 2: the third validator finalizes the first block
    [.propose 2 2 2 30], own 2,
    [.sendProposal 2 0, .vote 0, .sendProposal 2 3, .vote 3, .sendVote 0 2, .sendVote 3 2],
    -- back to height 1, up to round 3
    [.sendProposal 1 0, .sendProposal 1 3,
      .timeout 0 1 1, .sendTimeout 0 0, .timeout 3 1 1, .sendTimeout 3 3, .sendTimeout 3 0,
      .sendTimeout 0 3,
      .timeout 0 1 2, .sendTimeout 0 0, .timeout 3 1 2, .sendTimeout 3 3, .sendTimeout 0 3],
    -- another block at height 1 and its direct child: the first validator finalizes it
    [.propose 3 1 3 40], own 3,
    [.sendProposal 3 0, .vote 0, .sendVote 0 3, .sendCertificate 3 3 0],
    [.propose 0 2 4 50], own 0, [.sendProposal 0 3, .vote 3, .sendVote 3 0]]

theorem split_reached : ∃ s, ClusterRun crypto who (fun _ _ _ => True)
    (start who manifest) s ∧ ∃ b ∈ (s 0).finalized, ∃ c ∈ (s 2).finalized,
      SameSlot b c ∧ b.blockDigest ≠ c.blockDigest := by
  apply exists_run (fun _ _ _ => true) (fun _ _ _ _ => trivial) split
  decide +kernel

/-- **Four honest validators finalize two blocks at one height.** -/
theorem honest_engines_disagree : ∃ s : Cluster (Fin 4),
    Injective crypto.shake256 ∧ FaultyBelowThird who manifest ∧
    ClusterRun crypto who (fun _ _ _ => True) (Cluster.start who manifest) s ∧
    ∃ b ∈ (s 0).finalized, ∃ c ∈ (s 2).finalized,
      SameSlot b c ∧ b.blockDigest ≠ c.blockDigest := by
  obtain ⟨s, hrun, hm⟩ := split_reached
  exact ⟨s, Crypto.transparent_injective, by decide, hrun, hm⟩

end Quartet

end ActiveChain
