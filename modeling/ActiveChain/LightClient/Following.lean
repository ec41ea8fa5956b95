import ActiveChain.Consensus.Cluster
import ActiveChain.LightClient.State

/-!
# A light client beside the validators

The honest validators and one client that follows their chain, with the same adversary between them.
The client takes a single quorum certificate for final; the engines wait for a certified child.
-/

namespace ActiveChain

open Function ValidatorEngine QuorumVoting LightClientState ConsensusBlockRef PersistentLightClient

/-! ## The model -/

section Model

variable {ι : Type} [Fintype ι] [DecidableEq ι] (C : Crypto) (who : ι → Member)

/-- The validators and a client. -/
structure Network (ι : Type) where
  cluster : Cluster ι
  client : PersistentLightClient

def Network.start (who : ι → Member) (genesis : ValidatorGenesis) : Network ι :=
  ⟨Cluster.start who genesis, .fresh⟩

/-- An operation of a validator or of the client. -/
inductive NetworkOp (C : Crypto) (ι : Type)
  | node (i : ι) (op : NodeOp C)
  | client (op : LightClientOp)

def Network.exec (t : Network ι) : NetworkOp C ι → Network ι
  | .node i op => { t with cluster := t.cluster.exec C i op }
  | .client op => { t with client := t.client.exec C op }

/-- What can happen to the client: few members of a checkpoint's manifest and of a manifest to be
activated are faulty, and no vote shown to it is forged. -/
def ClientPermitted (s : Cluster ι) : LightClientOp → Prop
  | .create _ _ checkpoint _ _ => FaultyBelowThird who checkpoint.validatorGenesis
  | .ingestFinality bundle _ _ => ∀ v ∈ bundle.votes, Unforged C s v
  | .authorizeUpgrade bundle _ => FaultyBelowThird who bundle.nextGenesis
  | .close | .load => True

def NetworkPermitted (t : Network ι) : NetworkOp C ι → Prop
  | .node _ op => Permitted C who t.cluster op
  | .client op => ClientPermitted C who t.cluster op

variable (Q : Network ι → NetworkOp C ι → Prop)

/-- One permitted operation that meets the condition `Q`. -/
def NetworkStep (t t' : Network ι) : Prop :=
  ∃ op, NetworkPermitted C who t op ∧ Q t op ∧ t' = t.exec C op

/-- A run of permitted operations that all meet the condition `Q`. -/
def NetworkRun : Network ι → Network ι → Prop := Relation.ReflTransGen (NetworkStep C who Q)

/-- The votes are for the certified proposal, and a quorum has already voted for a child that is
justified by a certificate for the same block. -/
def Settled (s : Cluster ι) (bundle : FinalityCertificateBundle) : Prop :=
  (∀ v ∈ bundle.votes, v.proposalCommitment = bundle.certificate.proposalCommitment) ∧
    ∃ child qc, Backed C who s child ∧ child.context = bundle.certificate.context ∧
      child.justification = .quorum qc ∧ qc.blockRef = bundle.certificate.blockRef

/-- The condition on each operation.  Messages commit directly, and headers accepted above the head
of the engine they reach are of its context; a header shown to the client is settled, and blocks
finalized at its height are of its context. -/
def FollowsFinality (t : Network ι) : NetworkOp C ι → Prop
  | .node i (.deliver m first second) => DirectOnly C t.cluster i (.deliver m first second) ∧
      ∀ e ∈ (t.cluster i).memory, ∀ a ∈ t.client.accepted, e.state.finalizedHeight < a.height →
        SameContext a e.finalizedBlock
  | .client (.ingestFinality bundle _ _) => Settled C who t.cluster bundle ∧
      ∀ i, ∀ b ∈ (t.cluster i).finalized, b.height = bundle.header.inputs.height →
        SameContext (bundle.block C) b
  | _ => True

end Model

/-! ## A settled header is finalized -/

section Headers

variable {ι : Type} [Fintype ι] {C : Crypto} {who : ι → Member} {s : Cluster ι}

/-- **A verified and settled header is finalized in the engines' sense.** -/
theorem ClusterInv.finalized_of_bundle (hash : Injective C.shake256)
    (inv : ClusterInv C who s) {bundle : FinalityCertificateBundle} {chain : Digest384}
    (hve : FinalityVerified C bundle chain) (hf : FaultyBelowThird who bundle.validatorGenesis)
    (hvot : ∀ v ∈ bundle.votes, Unforged C s v) (hse : Settled C who s bundle) :
    Finalized C who s (bundle.block C) := by
  obtain ⟨hco, child, qc, hch, hcon, hj, href⟩ := hse
  -- the proposal behind the certificate is the one an honest signer voted for
  obtain ⟨member, hm, hin, -, hh⟩ := exists_common hve.quorum.quorum hve.quorum.quorum hf
  obtain ⟨i, hi⟩ := not_not.1 hh
  obtain ⟨v, hv, x, hx, hpa⟩ := inv.signed_vote hve.quorum hvot hm hin hi
  obtain ⟨-, hctx, hh, hr, hd, hp⟩ := votePayload_inj hpa
  have hvo := (inv.nodes i).votes x hx
  obtain ⟨bctx, bheight, bround, bdigest⟩ := hve.binds v hv
  have hc : x.proposal.commitment C = bundle.certificate.proposalCommitment := by
    rw [← hvo.commitment, hp, hco v hv]
  have hs : x.proposal.context = bundle.certificate.context := by
    rw [← hvo.context, hctx, bctx]
  have hhe : x.proposal.height = bundle.certificate.height := by
    rw [← hvo.height, hh, bheight]
  have hro : x.proposal.round = bundle.certificate.round := by
    rw [← hvo.round, hr, bround]
  have hb : Backed C who s x.proposal :=
    inv.backed_of_votes hash hf hve.quorum hvot (by rw [hs, hve.root])
      fun w hw => (hco w hw).trans hc.symm
  refine ⟨x.proposal, child, hb, hch, ⟨qc, hj, ?_, ?_, ?_⟩, hcon.trans hs.symm,
    ?_, ?_, ?_, ?_, ?_, ?_, hc⟩
  · exact (congrArg proposalCommitment href).trans hc.symm
  · exact (congrArg height href).trans hhe.symm
  · exact (congrArg round href).trans hro.symm
  · rw [hs]; rfl
  · rw [hs]; rfl
  · rw [hs]; rfl
  · rw [hs]; rfl
  · exact hhe.trans hve.height
  · rw [← hvo.digest, hd, bdigest]
    exact hve.digest.symm

end Headers

open Network

/-! ## The invariant -/

section Invariant

variable {ι : Type} [Fintype ι] {C : Crypto} {who : ι → Member}

/-- The manifests a client state relies on have few faulty members. -/
def Trusted (who : ι → Member) (s : LightClientState) : Prop :=
  FaultyBelowThird who s.activeGenesis ∧
    ∀ upgrade, s.pendingUpgrade = some upgrade → FaultyBelowThird who upgrade.nextGenesis

/-- What holds in every reachable network. -/
structure NetworkInv (C : Crypto) (who : ι → Member) (t : Network ι) : Prop where
  cluster : ClusterInv C who t.cluster
  finalized : ∀ i, ∀ b ∈ (t.cluster i).finalized, Finalized C who t.cluster b
  trusted : ∀ s, t.client.Holds s → Trusted who s
  accepted : ∀ a ∈ t.client.accepted, Finalized C who t.cluster a
  aligned : ∀ a ∈ t.client.accepted, ∀ i, ∀ b ∈ (t.cluster i).finalized, a.height = b.height →
    SameContext a b

theorem Trusted.next {s : Cluster ι} {c : PersistentLightClient} {op : LightClientOp}
    {next : LightClientState} (ht : ∀ s, c.Holds s → Trusted who s)
    (hpe : ClientPermitted C who s op) (h : c.Next C op next) : Trusted who next := by
  cases h with
  | create hb =>
    simp only [bootstrap, Except.inversion] at hb
    obtain ⟨-, -, -, _, -, rfl⟩ := hb
    exact ⟨hpe, fun _ h => by cases h⟩
  | @ingest s₀ _ _ _ _ hs hi =>
    have hold := ht s₀ (.inl hs)
    rcases (ingestFinality_ok hi).manifest with
      ⟨-, hac, hp⟩ | ⟨upgrade, hp, -, hac, hn⟩
    · exact ⟨hac ▸ hold.1, fun upgrade h => hold.2 upgrade (hp ▸ h)⟩
    · refine ⟨hac ▸ hold.2 upgrade hp, fun upgrade h => ?_⟩
      rw [hn] at h
      cases h
  | @authorize s₀ bundle _ _ hs hau =>
    have hold := ht s₀ (.inl hs)
    obtain ⟨-, -, rfl⟩ := authorizeUpgrade_ok hau
    refine ⟨hold.1, fun upgrade h => ?_⟩
    cases h
    exact hpe

theorem Trusted.ingested {s s' : LightClientState} {bundle : FinalityCertificateBundle}
    (h : Trusted who s) (hi : Ingested C s bundle s') :
    FaultyBelowThird who bundle.validatorGenesis := by
  rcases hi.manifest with ⟨hm, -, -⟩ | ⟨upgrade, hp, hm, -, -⟩
  · exact hm ▸ h.1
  · exact hm ▸ h.2 upgrade hp

theorem SameContext.trans {b c d : FinalizedBlock} (h : SameContext b c) (h' : SameContext c d) :
    SameContext b d :=
  ⟨h.1.trans h'.1, h.2.1.trans h'.2.1, h.2.2.1.trans h'.2.2.1, h.2.2.2.trans h'.2.2.2⟩

theorem NetworkInv.start {genesis : ValidatorGenesis} (hf : FaultyBelowThird who genesis) :
    NetworkInv C who (start who genesis) := by
  refine ⟨ClusterInv.start hf, fun i b hb => ?_, fun s hs => ?_, fun a ha => ?_, fun a ha => ?_⟩
  · cases hb
  · rcases hs with hs | hs <;> cases hs
  · cases ha
  · cases ha

variable [DecidableEq ι] {t t' : Network ι}

section

variable (hash : Injective C.shake256) (inv : NetworkInv C who t)
include hash inv

theorem NetworkInv.node {i : ι} {op : NodeOp C} (hp : Permitted C who t.cluster op)
    (hf : FollowsFinality C who t (.node i op)) : NetworkInv C who (t.exec C (.node i op)) := by
  have hg := t.cluster.exec_grows i op
  -- what the engine finalizes now was finalized directly, in the context of the headers above it
  have hnew : ∀ b ∈ ((t.cluster i).exec C op).finalized, b ∈ (t.cluster i).finalized ∨
      Finalized C who t.cluster b ∧
        ∀ a ∈ t.client.accepted, a.height = b.height → SameContext a b := by
    intro b hb
    refine ((t.cluster i).exec_finalized op b hb).imp_right ?_
    rintro ⟨e, e', hs, hh, rfl⟩
    obtain ⟨m, first, second, rfl, rfl⟩ := hs.message_of_height hh
    obtain ⟨hd, hal⟩ := hf
    refine ⟨inv.cluster.finalized_of_step hash hp hd hs hh, fun a ha hsa => ?_⟩
    have hsh := (inv.cluster.nodes i).shape _ (.inr ⟨e, hs.1, rfl⟩)
    have hf := process_frame hsh m
    exact (hal e hs.1 a ha (hsa ▸ hh)).trans
      ⟨hf.genesis.symm, hf.context.1.symm, hf.context.2.1.symm, hf.context.2.2.symm⟩
  refine ⟨inv.cluster.exec hash hp, ?_, inv.trusted, fun a ha => (inv.accepted a ha).mono hg, ?_⟩
  · exact forall_exec (fun _ n => ∀ b ∈ n.finalized, Finalized C who (t.cluster.exec C i op) b)
      (fun j b hb => (inv.finalized j b hb).mono hg) fun b hb =>
        ((hnew b hb).elim (inv.finalized i b) And.left).mono hg
  · intro a ha
    exact forall_exec (fun _ n => ∀ b ∈ n.finalized, a.height = b.height → SameContext a b)
      (inv.aligned a ha) fun b hb hsa =>
        (hnew b hb).elim (fun hold => inv.aligned a ha i b hold hsa) fun h => h.2 a ha hsa

theorem NetworkInv.client {op : LightClientOp} (hp : ClientPermitted C who t.cluster op)
    (hf : FollowsFinality C who t (.client op)) : NetworkInv C who (t.exec C (.client op)) := by
  have hnew : ∀ a ∈ (t.client.exec C op).accepted, a ∈ t.client.accepted ∨
      Finalized C who t.cluster a ∧
        ∀ i, ∀ b ∈ (t.cluster i).finalized, a.height = b.height → SameContext a b := by
    intro a ha
    refine (exec_accepted ha).imp_right ?_
    rintro ⟨bundle, observed, save, s, s', rfl, hs, hin, rfl⟩
    obtain ⟨hse, hal⟩ := hf
    have hi := ingestFinality_ok hin
    have ht := (inv.trusted s (.inl hs)).ingested hi
    exact ⟨inv.cluster.finalized_of_bundle hash hi.finality ht hp hse,
      fun i b hb hsa => hal i b hb hsa.symm⟩
  refine ⟨inv.cluster, inv.finalized, fun s hs => ?_, fun a ha => ?_, fun a ha => ?_⟩
  · rcases exec_holds hs with hold | hn
    · exact inv.trusted s hold
    · exact Trusted.next inv.trusted hp hn
  · exact (hnew a ha).elim (inv.accepted a) And.left
  · exact (hnew a ha).elim (inv.aligned a) And.right

/-- **Every run that follows finality keeps the invariant.** -/
theorem NetworkInv.run
    (hrun : NetworkRun C who (FollowsFinality C who) t t') : NetworkInv C who t' := by
  induction hrun with
  | refl => exact inv
  | tail _ hs ih =>
    obtain ⟨op, hp, hf, rfl⟩ := hs
    cases op with
    | node i op => exact ih.node hash hp hf
    | client op => exact ih.client hash hp hf

end

/-- **A followed chain is the finalized one.** In every run in which the client is shown settled
headers only, an accepted header is the block of every honest engine that finalizes its height. -/
theorem accepted_header_agrees (hash : Injective C.shake256) {genesis : ValidatorGenesis}
    (hfaulty : FaultyBelowThird who genesis)
    (hrun : NetworkRun C who (FollowsFinality C who) (Network.start who genesis) t)
    {a b : FinalizedBlock} (ha : a ∈ t.client.accepted) {i : ι}
    (hb : b ∈ (t.cluster i).finalized) (hheight : a.height = b.height) :
    a.blockDigest = b.blockDigest := by
  have inv := (NetworkInv.start hfaulty).run hash hrun
  have hs := inv.aligned a ha i b hb hheight
  have heq := inv.cluster.finalized_unique hash (inv.accepted a ha) (inv.finalized i b hb) hs
    hheight
  rw [heq]

end Invariant

/-! ## Four validators and a client -/

section Lift

variable {ι : Type} [Fintype ι] [DecidableEq ι] {C : Crypto} {who : ι → Member}

variable {Q : Network ι → NetworkOp C ι → Prop}

theorem NetworkRun.of_cluster {P : Cluster ι → ι → NodeOp C → Prop} (c : PersistentLightClient)
    (hQ : ∀ s i op, P s i op → Q ⟨s, c⟩ (.node i op)) {s s' : Cluster ι}
    (h : ClusterRun C who P s s') : NetworkRun C who Q ⟨s, c⟩ ⟨s', c⟩ := by
  induction h with
  | refl => exact Relation.ReflTransGen.refl
  | tail _ hs ih =>
    obtain ⟨i, op, hp, hc, rfl⟩ := hs
    exact ih.tail ⟨.node i op, hp, hQ _ i op hc, rfl⟩

theorem NetworkRun.client {t : Network ι} {s : Cluster ι} {c : PersistentLightClient}
    (h : NetworkRun C who Q t ⟨s, c⟩) (op : LightClientOp) (hp : ClientPermitted C who s op)
    (hc : Q ⟨s, c⟩ (.client op)) : NetworkRun C who Q t ⟨s, c.exec C op⟩ :=
  h.tail ⟨.client op, hp, hc, rfl⟩

end Lift

namespace Quartet

instance four_neZero : NeZero 4 := inferInstance

def header (height : Nat) (parent : Digest384) : FinalizedBlockHeader :=
  ⟨⟨9, 0, height, 1, manifest.validatorSetRoot crypto, parent, ⟨10, 0⟩, 11, 12, 13, 0, 0, 0, 0, 0,
    18, 19, 18, ⟨14, 0⟩, 15, 16⟩, 17⟩

def header₁ : FinalizedBlockHeader := header 1 3

def header₂ : FinalizedBlockHeader := header 2 (header₁.digest crypto)

def votesFor (s : Cluster (Fin 4)) (h : FinalizedBlockHeader) : List ValidatorVote :=
  [s 0, s 3].filterMap fun n =>
    (n.votes.find? fun x => x.vote.blockDigest = h.digest crypto).map SignedVote.vote

def bundleFor (s : Cluster (Fin 4)) (h : FinalizedBlockHeader) :
    Option FinalityCertificateBundle := do
  let votes := votesFor s h
  let v ← votes.head?
  let root := crypto.shake256 (.tag "ACTIVECHAIN-VOTE-SET-V1" ::
    votes.flatMap fun v => voteSetEntry (v.validator + 100, v))
  let qc ← (QuorumCertificate.new v.context v.height v.round v.blockDigest v.proposalCommitment
    root 8 6).toOption
  if hb : votes ≠ [] ∧ votes.length ≤ maxValidatorsPerEpoch then
    return ⟨h, manifest, qc, votes, hb⟩
  else none

variable (bundle : FinalityCertificateBundle)

def bootstrapOp : LightClientOp := .create 9 (manifest.genesisCommitment crypto) bundle 10 .written

def ingestOp : LightClientOp := .ingestFinality bundle 2 .written

def follow (first second : FinalityCertificateBundle) : PersistentLightClient :=
  (PersistentLightClient.fresh.exec crypto (bootstrapOp first)).exec crypto (ingestOp second)

theorem follow_run {Q : Network (Fin 4) → NetworkOp crypto (Fin 4) → Prop} {s : Cluster (Fin 4)}
    (hn : NetworkRun crypto who Q (start who manifest) ⟨s, .fresh⟩)
    {first second : FinalityCertificateBundle} (hf : FaultyBelowThird who first.validatorGenesis)
    (hv : ∀ v ∈ second.votes, Unforged crypto s v) (hfi : ∀ t, Q t (.client (bootstrapOp first)))
    (hs : ∀ c, Q ⟨s, c⟩ (.client (ingestOp second))) :
    NetworkRun crypto who Q (start who manifest) ⟨s, follow first second⟩ := by
  have hb := hn.client (bootstrapOp first) hf (hfi _)
  exact hb.client (ingestOp second) hv (hs _)

instance (s : Cluster (Fin 4)) (v : ValidatorVote) : Decidable (Unforged crypto s v) :=
  inferInstanceAs (Decidable (∀ _, _ → ∃ x ∈ _, _))

/-- The second header is certified but abandoned: no honest engine sees its certificate, a view
change replaces it by another block, and that one is finalized. -/
def abandon : List Move := List.flatten
  [[.start 0, .start 1, .start 2, .start 3, .propose 0 1 0 (header₁.digest crypto)], own 0,
    [.sendProposal 0 3, .vote 3, .sendVote 3 0, .sendCertificate 0 0 1, .sendCertificate 0 0 2,
      .sendCertificate 0 0 3],
    -- the votes for the second header reach the client only
    [.propose 1 2 1 (header₂.digest crypto), .sendProposal 1 0, .vote 0,
      .sendProposal 1 3, .vote 3],
    [.timeout 0 2 1, .sendTimeout 0 0, .timeout 3 2 1, .sendTimeout 3 3,
      .sendTimeout 0 2, .sendTimeout 3 2],
    [.propose 2 2 2 30], own 2,
    [.sendProposal 2 0, .vote 0, .sendProposal 2 3, .vote 3, .sendVote 0 2, .sendVote 3 2,
      .sendCertificate 2 2 3, .sendCertificate 2 2 0],
    [.propose 3 3 3 40], own 3, [.sendProposal 3 0, .vote 0, .sendVote 0 3]]

theorem abandon_reached : ∃ s, ClusterRun crypto who (fun _ _ _ => True)
    (Cluster.start who manifest) s ∧
    ∃ first ∈ bundleFor s header₁, ∃ second ∈ bundleFor s header₂,
      FaultyBelowThird who first.validatorGenesis ∧ (∀ v ∈ second.votes, Unforged crypto s v) ∧
      ∃ a ∈ (follow first second).accepted, ∃ b ∈ (s 3).finalized,
        a.height = b.height ∧ SameContext a b ∧ a.blockDigest ≠ b.blockDigest := by
  apply exists_run (fun _ _ _ => true) (fun _ _ _ _ => trivial) abandon
  decide +kernel

/-- **The client accepts a header at a height where an honest engine finalizes another block.** -/
theorem client_leaves_chain : ∃ t : Network (Fin 4),
    Injective crypto.shake256 ∧ FaultyBelowThird who manifest ∧
    NetworkRun crypto who (fun _ _ => True) (Network.start who manifest) t ∧
    ∃ a ∈ t.client.accepted, ∃ b ∈ (t.cluster 3).finalized,
      a.height = b.height ∧ SameContext a b ∧ a.blockDigest ≠ b.blockDigest := by
  obtain ⟨s, hrun, first, -, second, -, hf, hv, hm⟩ := abandon_reached
  have hn : NetworkRun crypto who (fun _ _ => True) (start who manifest) ⟨s, .fresh⟩ :=
    NetworkRun.of_cluster .fresh (fun _ _ _ _ => trivial) hrun
  exact ⟨⟨s, follow first second⟩, Crypto.transparent_injective, by decide,
    follow_run hn hf hv (fun _ => trivial) (fun _ => trivial), hm⟩

/-- Three blocks in consecutive rounds; the second header is finalized and has a certified child. -/
def extend : List Move := List.flatten
  [[.start 0, .start 1, .start 2, .start 3, .propose 0 1 0 (header₁.digest crypto)], own 0,
    [.sendProposal 0 3, .vote 3, .sendVote 3 0, .sendCertificate 0 0 1, .sendCertificate 0 0 3],
    [.propose 1 2 1 (header₂.digest crypto)], own 1,
    [.sendProposal 1 0, .vote 0, .sendVote 0 1, .sendProposal 1 3, .vote 3, .sendVote 3 1,
      .sendCertificate 0 0 2, .sendCertificate 1 1 2, .sendCertificate 1 1 0,
      .sendCertificate 1 1 3],
    [.propose 2 3 2 40], own 2,
    [.sendProposal 2 0, .vote 0, .sendVote 0 2, .sendProposal 2 3, .vote 3, .sendVote 3 2]]

def LargeVoted (s : Cluster (Fin 4)) (p : BlockProposal) : Prop :=
  manifest.validatorSetRoot crypto = p.context.validatorSetRoot ∧
    ∀ i ∈ [(0 : Fin 4), 3], ∃ x ∈ (s i).votes, x.proposal = p
deriving Decidable

theorem LargeVoted.backed {s : Cluster (Fin 4)} {p : BlockProposal} (h : LargeVoted s p) :
    Backed crypto who s p := by
  have hl : ∀ member ∈ manifest.entries, member.validator ∈ [1, 4] →
      ∀ i, who i = (member.validator, member.publicKey) → i ∈ [(0 : Fin 4), 3] := by decide
  have hq : IsQuorum ValidatorGenesisEntry.stake manifest.entries
      (fun member => member.validator ∈ [1, 4]) := by
    unfold IsQuorum
    decide
  exact ⟨manifest, [1, 4], h.1, by decide, hq,
    fun member hm hv i hi => h.2 i (hl member hm hv i hi)⟩

theorem extend_reached : ∃ s, ClusterRun crypto who (DirectOnly crypto)
    (Cluster.start who manifest) s ∧
    ∃ first ∈ bundleFor s header₁, ∃ second ∈ bundleFor s header₂,
      FaultyBelowThird who first.validatorGenesis ∧ (∀ v ∈ second.votes, Unforged crypto s v) ∧
      ((∀ v ∈ second.votes, v.proposalCommitment = second.certificate.proposalCommitment) ∧
        ∃ child ∈ (s 2).proposals, ∃ qc ∈ child.justification.certificate, LargeVoted s child ∧
          child.context = second.certificate.context ∧ child.justification = .quorum qc ∧
          qc.blockRef = second.certificate.blockRef) ∧
      (∀ i, ∀ b ∈ (s i).finalized, b.height = second.header.inputs.height →
        SameContext (second.block crypto) b) ∧
      ∃ a ∈ (follow first second).accepted, ∃ b ∈ (s 2).finalized, a.height = b.height := by
  apply exists_run (fun net i op => decide (DirectOnly crypto net.node i op))
    (fun net i op h => of_decide_eq_true h) extend
  decide +kernel

theorem client_follows_chain : ∃ t : Network (Fin 4), FaultyBelowThird who manifest ∧
    NetworkRun crypto who (FollowsFinality crypto who) (Network.start who manifest) t ∧
    ∃ a ∈ t.client.accepted, ∃ b ∈ (t.cluster 2).finalized, a.height = b.height ∧
      a.blockDigest = b.blockDigest := by
  obtain ⟨s, hrun, first, -, second, -, hf, hv, ⟨hco, child, -, qc, -, hvo, hr⟩,
    hal, a, ha, b, hb, hh⟩ := extend_reached
  have hs : Settled crypto who s second := ⟨hco, child, qc, hvo.backed, hr⟩
  have hn : NetworkRun crypto who (FollowsFinality crypto who) (start who manifest)
      ⟨s, .fresh⟩ := by
    refine NetworkRun.of_cluster .fresh (fun s i op hd => ?_) hrun
    cases op with
    | deliver m f g => exact ⟨hd, fun e _ a ha => by cases ha⟩
    | reserve | signVote | timeout | propose | activateValidatorSet | activateProtocol | crash
    | start => trivial
  have hc := follow_run hn hf hv (fun _ => trivial) (fun _ => ⟨hs, hal⟩)
  have hm : FaultyBelowThird who manifest := by decide
  exact ⟨⟨s, follow first second⟩, hm, hc, a, ha, b, hb, hh,
    accepted_header_agrees Crypto.transparent_injective hm hc ha hb hh⟩

end Quartet

/-! ## What the certificate of an upgrade certifies -/

/-- **An accepted upgrade is never authorized by a certificate for a header.** The certified
digest is the commitment of the upgrade, which is the digest of no header. -/
theorem accepted_upgrade_certifies_no_header {C : Crypto} (hash : Injective C.shake256)
    {s s' : LightClientState} {bundle : UpgradeCertificateBundle}
    (h : s.authorizeUpgrade C bundle = .ok s') (header : FinalizedBlockHeader) :
    bundle.certificate.blockDigest ≠ header.digest C := by
  rw [(authorizeUpgrade_ok h).2.1]
  exact (header.digest_ne_commitment hash _).symm

namespace SoloChain

def header : FinalizedBlockHeader :=
  ⟨⟨9, 0, 1, 1, manifest.validatorSetRoot crypto, 3, ⟨10, 0⟩, 11, 12, 13, 0, 0, 0, 0, 0, 18, 19, 18,
    ⟨14, 0⟩, 15, 16⟩, 17⟩

def headerVote : ValidatorVote :=
  ⟨1, context, 1, 2, header.digest crypto, 17, ⟨.mlDsa44, 7⟩, first.suite, by decide +kernel⟩

def headerQc : QuorumCertificate :=
  ⟨context, 1, 2, header.digest crypto, 17,
    crypto.shake256 (.tag "ACTIVECHAIN-VOTE-SET-V1" :: voteSetEntry (7, headerVote)), 1, 1,
    by decide +kernel, firstQc.stake, firstQc.quorum⟩

def checkpoint : FinalityCertificateBundle := ⟨header, manifest, headerQc, [headerVote], by decide⟩

/-- The upgrade to revision `2`, with the certificate of the block that commits to it. -/
def upgradeBundle : UpgradeCertificateBundle :=
  ⟨upgrade, firstQc, [firstVote],
    ⟨0, 3, 2, manifest.entries, by decide, by decide, by decide⟩, by decide⟩

theorem upgrade_accepted : ∃ s s' : LightClientState,
    bootstrap crypto 9 (manifest.genesisCommitment crypto) checkpoint 10 = .ok s ∧
    s.authorizeUpgrade crypto upgradeBundle = .ok s' ∧
    upgrade.authorizationHeight = s.finalizedHeader.inputs.height ∧
    upgradeBundle.certificate.blockDigest ≠ s.finalizedHeader.digest crypto := by
  have hrun : ∃ s ∈ (bootstrap crypto 9 (manifest.genesisCommitment crypto)
      checkpoint 10).toOption, ∃ s' ∈ (s.authorizeUpgrade crypto upgradeBundle).toOption,
      upgrade.authorizationHeight = s.finalizedHeader.inputs.height ∧
      upgradeBundle.certificate.blockDigest ≠ s.finalizedHeader.digest crypto := by
    decide +kernel
  obtain ⟨s, hs, s', hs', hr⟩ := hrun
  exact ⟨s, s', Except.mem_toOption.1 hs, Except.mem_toOption.1 hs', hr⟩

/-- **A client accepts an upgrade whose certificate is for another block than the one it finalized
at the authorization height.** -/
theorem upgrade_outside_chain : ∃ s s' : LightClientState,
    Injective crypto.shake256 ∧
    LightClientState.bootstrap crypto 9 (manifest.genesisCommitment crypto) checkpoint 10 = .ok s ∧
    s.authorizeUpgrade crypto upgradeBundle = .ok s' ∧
    upgrade.authorizationHeight = s.finalizedHeader.inputs.height ∧
    upgradeBundle.certificate.blockDigest ≠ s.finalizedHeader.digest crypto := by
  obtain ⟨s, s', h⟩ := upgrade_accepted
  exact ⟨s, s', Crypto.transparent_injective, h⟩

theorem upgrade_certifies_no_header : ∃ s s' : LightClientState,
    s.authorizeUpgrade crypto upgradeBundle = .ok s' ∧
      ∀ header : FinalizedBlockHeader,
        upgradeBundle.certificate.blockDigest ≠ header.digest crypto := by
  obtain ⟨s, s', -, h, -⟩ := upgrade_accepted
  exact ⟨s, s', h, accepted_upgrade_certifies_no_header Crypto.transparent_injective h⟩

end SoloChain

end ActiveChain
