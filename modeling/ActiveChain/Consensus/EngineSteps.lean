import ActiveChain.Consensus.Snapshot

/-!
# What one message does to an engine

Every invariant of the engine follows from one statement of what `process` can do: housekeeping,
which touches only collectors and the accepted view change, or the certification of one block the
message puts before the engine.

* `process_cases` — **every message is housekeeping or one certification.**
-/

namespace ActiveChain

open Except List SortedMap

namespace ValidatorEngine

variable {C : Crypto} {e e' : ValidatorEngine}

/-! ## Housekeeping -/

/-- A step that certifies nothing: only collectors and the accepted view change move, and a view
change is accepted only after `verify_view_change`. -/
structure Housekeeping (C : Crypto) (e e' : ValidatorEngine) : Prop where
  snapshot : e'.snapshot = { e.snapshot with acceptedViewChange := e'.acceptedViewChange }
  members : e'.validatorSet = e.validatorSet ∧ e'.publicKeys = e.publicKeys
  accepted : e'.acceptedViewChange = e.acceptedViewChange ∨
    ∃ view, e'.acceptedViewChange = some view ∧ e.verifyViewChange C view = .ok ()

theorem Housekeeping.refl (C : Crypto) (e : ValidatorEngine) : Housekeeping C e e :=
  ⟨rfl, ⟨rfl, rfl⟩, .inl rfl⟩

section

variable {authorization : ConsensusUpgradeAuthorization} {proposal : BlockProposal}
  {proof : CertifiedBlock C}

variable {view : ViewChangeCertificate}

theorem checkProposal_ok (h : e.checkProposal C proposal = .ok ()) :
    e.InDomain proposal.context ∧ e.state.finalizedHeight < proposal.height ∧
      e.verifyProposalSafety C proposal = .ok () := by
  simp only [checkProposal, admitProposal, inversion, not_le] at h
  obtain ⟨key, -, ⟨-, hd, hh⟩, hs⟩ := h
  exact ⟨hd, hh, hs⟩

theorem adoptViewChange_housekeeping (h : e.verifyProposalSafety C proposal = .ok ()) :
    Housekeeping C e (e.adoptViewChange proposal) := by
  unfold adoptViewChange
  split
  · rename_i view hj
    simp only [verifyProposalSafety, hj, inversion] at h
    exact ⟨rfl, ⟨rfl, rfl⟩, .inr ⟨view, rfl, h.2.1⟩⟩
  · exact .refl C e

theorem processViewChange_cases (h : e.processViewChange C view = .ok e') :
    e.verifyViewChange C view = .ok () ∧ e' = { e with acceptedViewChange := some view } := by
  simp only [processViewChange, inversion] at h
  obtain ⟨hv, _, _, _, rfl⟩ := h
  exact ⟨hv, rfl⟩

variable (C e)

theorem openCollector_cases (p : BlockProposal) :
    ∃ collectors current,
      (e.openCollector C p).2 =
        { e with collectors := collectors, currentProposal := current } ∧
      (collectors = e.collectors ∨ collectors = e.collectors.insert (p.commitment C)
        (VoteCollector.new p e.genesisCommitment e.state.validatorSetRoot
          e.state.protocolRevision)) := by
  unfold openCollector
  simp only
  split
  · exact ⟨_, _, rfl, .inl rfl⟩
  · split
    · exact ⟨_, _, rfl, .inl rfl⟩
    · exact ⟨_, _, rfl, .inr rfl⟩

theorem processProposal_housekeeping (p : BlockProposal) :
    Housekeeping C e (e.processProposal C p).2 := by
  unfold processProposal
  split
  · exact .refl C e
  · rename_i hc
    have hk := adoptViewChange_housekeeping (checkProposal_ok hc).2.2
    obtain ⟨cs, current, h, -⟩ := openCollector_cases C (e.adoptViewChange p) p
    rw [h]
    exact ⟨hk.snapshot, hk.members, hk.accepted⟩

theorem collectVote_cases (vote : ValidatorVote) :
    ((e.collectVote C vote).2 = e ∧ ∀ proof, (e.collectVote C vote).1 ≠ .ok (some proof)) ∨
    ∃ key c,
      e.collectors.get? vote.proposalCommitment = some c ∧
      (e.collectVote C vote).2 = { e with
        collectors := e.collectors.insert vote.proposalCommitment
          (c.addVote C e.validatorSet key vote).2 } ∧
      ∀ proof, (e.collectVote C vote).1 = .ok (some proof) →
        proof.proposal = (c.addVote C e.validatorSet key vote).2.proposal ∧
        proof.votes = (c.addVote C e.validatorSet key vote).2.votes.map Prod.snd := by
  unfold collectVote
  split
  · exact .inl ⟨rfl, by simp⟩
  · rename_i key _
    split
    · exact .inl ⟨rfl, by simp⟩
    · rename_i c hc
      refine .inr ⟨key, c, hc, ?_⟩
      simp only
      split
      · exact ⟨rfl, by simp⟩
      · split
        · exact ⟨rfl, by simp⟩
        · exact ⟨rfl, by simp⟩
        · split
          · exact ⟨rfl, by simp⟩
          · rename_i proof hp
            refine ⟨rfl, ?_⟩
            intro proof' hp'
            obtain rfl : proof = proof' := by simpa using hp'
            unfold CertifiedBlock.new at hp
            split at hp
            · cases hp
              exact ⟨rfl, rfl⟩
            · cases hp

theorem collectVote_housekeeping (vote : ValidatorVote) :
    Housekeeping C e (e.collectVote C vote).2 := by
  rcases collectVote_cases C e vote with ⟨h, -⟩ | ⟨_, _, -, h, -⟩
  · rw [h]
    exact .refl C e
  · rw [h]
    exact ⟨rfl, ⟨rfl, rfl⟩, .inl rfl⟩

theorem admitTimeoutVote_cases (vote : TimeoutVote) :
    ∃ timeoutCollectors accepted, (e.admitTimeoutVote C vote).2 = { e with
      timeoutCollectors := timeoutCollectors, acceptedViewChange := accepted } ∧
      (accepted = e.acceptedViewChange ∨
        ∃ view, accepted = some view ∧ e.verifyViewChange C view = .ok ()) := by
  unfold admitTimeoutVote
  split
  · exact ⟨_, _, rfl, .inl rfl⟩
  · simp only
    split
    · exact ⟨_, _, rfl, .inl rfl⟩
    · split
      · exact ⟨_, _, rfl, .inl rfl⟩
      · split
        · exact ⟨_, _, rfl, .inl rfl⟩
        · exact ⟨_, _, rfl, .inl rfl⟩
        · unfold acceptCompleted
          split
          · exact ⟨_, _, rfl, .inl rfl⟩
          · rename_i view _ _ hv
            exact ⟨_, _, rfl, .inr ⟨view, rfl, hv⟩⟩

theorem admitTimeoutVote_housekeeping (vote : TimeoutVote) :
    Housekeeping C e (e.admitTimeoutVote C vote).2 := by
  obtain ⟨_, accepted, h, hac⟩ := admitTimeoutVote_cases C e vote
  rw [h]
  exact ⟨rfl, ⟨rfl, rfl⟩, hac⟩

/-! ## One message -/

/-- The certified block a message puts before the engine. -/
def presentedProof : ConsensusMessage C → Option (CertifiedBlock C)
  | .certificate proof => some proof
  | .vote vote =>
    match (e.collectVote C vote).1 with
    | .ok proof => proof
    | .error _ => none
  | _ => none

/-- The engine that applies it: a vote is counted first. -/
def afterCollect : ConsensusMessage C → ValidatorEngine
  | .vote vote => (e.collectVote C vote).2
  | _ => e

theorem afterCollect_housekeeping (m : ConsensusMessage C) :
    Housekeeping C e (e.afterCollect C m) := by
  cases m with
  | vote vote => exact collectVote_housekeeping C e vote
  | _ => exact .refl C e

/-- The block the message presents was certified: its proof was applied, and its collector
closed. -/
def Certification (m : ConsensusMessage C) (e' : ValidatorEngine) : Prop :=
  ∃ proof e₁ commitment, e.presentedProof C m = some proof ∧
    (e.afterCollect C m).applyCertificate C proof = .ok e₁ ∧ e' = e₁.closeCollector commitment

theorem processVote_cases (vote : ValidatorVote) :
    (e.processVote C vote).2 = (e.collectVote C vote).2 ∨
      Certification C e (.vote vote) (e.processVote C vote).2 := by
  unfold processVote
  split
  · rename_i proof e₀ hc
    unfold certify
    cases hap : e₀.applyCertificate C proof with
    | error err => exact .inl (by rw [hc])
    | ok e₁ =>
      refine .inr ⟨proof, e₁, vote.proposalCommitment, ?_, ?_, rfl⟩
      · simp only [presentedProof, hc]
      · simpa only [afterCollect, hc] using hap
  · exact .inl rfl

theorem process_cases (m : ConsensusMessage C) :
    Housekeeping C e (e.process C m).2 ∨ Certification C e m (e.process C m).2 := by
  cases m with
  | proposal proposal => exact .inl (processProposal_housekeeping C e proposal)
  | vote vote =>
    rcases processVote_cases C e vote with h | h
    · left
      show Housekeeping C e (e.processVote C vote).2
      rw [h]
      exact collectVote_housekeeping C e vote
    · exact .inr h
  | certificate proof =>
    simp only [process, certify]
    cases hap : e.applyCertificate C proof with
    | error err => exact .inl (.refl C e)
    | ok e₁ => exact .inr ⟨proof, e₁, _, rfl, hap, rfl⟩
  | certifiedBlockRequest c => exact .inl (.refl C e)
  | timeoutVote vote => exact .inl (admitTimeoutVote_housekeeping C e vote)
  | viewChange view =>
    left
    simp only [process]
    cases hvi : e.processViewChange C view with
    | error err => exact .refl C e
    | ok e₁ =>
      obtain ⟨hv, rfl⟩ := processViewChange_cases hvi
      exact ⟨rfl, ⟨rfl, rfl⟩, .inr ⟨view, rfl, hv⟩⟩

/-! ## Certification -/

/-- The signed part of a certification: the votes verify under the engine's own keys and set. -/
def QuorumVerified (proof : CertifiedBlock C) : Prop :=
  ∃ votes, e.keyedVotes proof.votes .voteDomainMismatch .unknownValidator = .ok votes ∧
    CryptoProvider.verifyQuorumCertificate C proof.certificate e.validatorSet votes = .ok ()

/-- A certified block the engine did not hold: its votes verify, its proposal is safe, and it is
recorded with the commitment it causes. -/
structure NewBlock (proof : CertifiedBlock C) (state : ConsensusState)
    (anchor : ConsensusBlockRef) : Prop where
  proposer : ∃ key, e.publicKeys.get? proof.proposal.proposer = some key ∧
    verifyBlockProposal C key proof.proposal = .ok ()
  quorum : QuorumVerified C e proof
  domain : e.InDomain proof.certificate.context
  fresh : e.certifiedBlocks.get? proof.certificate.proposalCommitment = none
  safe : e.verifyProposalSafety C proof.proposal = .ok ()
  commit : e.commitParent proof.proposal proof.certificate = .ok (state, anchor)

variable {C e} in
theorem applyCertificate_cases (h : e.applyCertificate C proof = .ok e') :
    e' = e ∨ ∃ s anchor, NewBlock C e proof s anchor ∧
      e' = (e.insertCertified proof.proposal proof.certificate proof.votes s anchor).trimLocks := by
  simp only [applyCertificate, inversion] at h
  obtain ⟨hd, key, hkey, hp, votes, hk, hv, h⟩ := h
  simp only [applyVerifiedCertificateTransition, inversion] at h
  obtain ⟨-, h⟩ := h
  split at h
  · simp only [inversion] at h
    exact .inl h.2.symm
  · rename_i hf
    simp only [inversion, Prod.exists] at h
    obtain ⟨hs, -, s, anchor, hc, rfl⟩ := h
    exact .inr ⟨s, anchor, ⟨⟨key, hkey, hp⟩, ⟨votes, hk, hv⟩, hd, hf, hs, hc⟩, rfl⟩

variable {C e} in
theorem commitParent_context {cert : QuorumCertificate} {s : ConsensusState}
    {anchor : ConsensusBlockRef} (h : e.commitParent proposal cert = .ok (s, anchor)) :
    s.epoch = e.state.epoch ∧ s.validatorSetRoot = e.state.validatorSetRoot ∧
      s.protocolRevision = e.state.protocolRevision := by
  have hs : (s, anchor) = (e.state, e.activeAnchor) →
      s.epoch = e.state.epoch ∧ s.validatorSetRoot = e.state.validatorSetRoot ∧
        s.protocolRevision = e.state.protocolRevision := by
    intro heq
    obtain ⟨rfl, -⟩ := Prod.mk.inj heq
    exact ⟨rfl, rfl, rfl⟩
  unfold commitParent at h
  split at h
  · exact hs (ok.inj h).symm
  · split at h
    · split at h
      · simp only [inversion, Prod.mk.injEq] at h
        obtain ⟨committed, hc, rfl, -⟩ := h
        obtain ⟨-, rfl⟩ := ConsensusState.applyCommittedQc_spec hc
        exact ⟨rfl, rfl, rfl⟩
      · split at h <;> simp only [inversion] at h <;> exact hs h.2.symm
    · exact hs (ok.inj h).symm

theorem insertCertified_frame (p : BlockProposal) (cert : QuorumCertificate)
    (votes : List ValidatorVote) (s : ConsensusState) (anchor : ConsensusBlockRef) :
    let e' := (e.insertCertified p cert votes s anchor).trimLocks
    e'.state = s ∧ e'.activeAnchor = anchor ∧ e'.genesisCommitment = e.genesisCommitment ∧
    e'.validatorSet = e.validatorSet ∧ e'.publicKeys = e.publicKeys ∧
    e'.collectors = e.collectors ∧ e'.highestVotedRounds = e.highestVotedRounds ∧
    e'.acceptedViewChange = survivingViewChange e.acceptedViewChange s cert ∧
    e'.timeoutLocks = e.timeoutLocks.retain fun domain _ =>
      stillOpen s domain.epoch domain.height := by
  unfold insertCertified
  split <;> exact ⟨rfl, rfl, rfl, rfl, rfl, rfl, rfl, rfl, rfl⟩

theorem afterCollect_eq (m : ConsensusMessage C) :
    ∃ collectors, e.afterCollect C m = { e with collectors := collectors } := by
  cases m with
  | vote vote =>
    rcases collectVote_cases C e vote with ⟨h, -⟩ | ⟨_, _, -, h, -⟩
    · exact ⟨e.collectors, h⟩
    · exact ⟨_, h⟩
  | _ => exact ⟨e.collectors, rfl⟩

/-- **What a message does to the persisted state**: housekeeping, or the certification of a new
block it presents. -/
theorem process_snapshot (m : ConsensusMessage C) :
    Housekeeping C e (e.process C m).2 ∨
    ∃ proof s anchor, e.presentedProof C m = some proof ∧ NewBlock C e proof s anchor ∧
      (e.process C m).2.snapshot = (e.insertCertified proof.proposal proof.certificate proof.votes
        s anchor).trimLocks.snapshot := by
  rcases process_cases C e m with h | ⟨proof, e₁, c, hp, hap, heq⟩
  · exact .inl h
  · obtain ⟨cs, hc⟩ := afterCollect_eq C e m
    have hs : (e.process C m).2.snapshot = e₁.snapshot := by
      rw [heq]
      rfl
    rw [hc] at hap
    rcases applyCertificate_cases hap with rfl | ⟨s, anchor, hnew, rfl⟩
    · left
      rw [heq]
      exact ⟨rfl, ⟨rfl, rfl⟩, .inl rfl⟩
    · refine .inr ⟨proof, s, anchor, hp,
        ⟨hnew.proposer, hnew.quorum, hnew.domain, hnew.fresh, hnew.safe, hnew.commit⟩, ?_⟩
      rw [hs]
      unfold insertCertified
      split <;> rfl

/-! ## Preparation and activation -/

variable {C e}

theorem prepareCurrentVote_cases {validator : PrincipalId} {prepared : PreparedVote}
    (h : e.prepareCurrentVote C validator = .ok (prepared, e')) :
    ∃ commitment collector locks, e.collectors.get? commitment = some collector ∧
      e.verifyProposalSafety C collector.proposal = .ok () ∧
      checkHighestVoted (e.highestVotedRounds.get? (e.voteDomain validator collector.proposal))
        collector.proposal (collector.proposal.commitment C) = .ok () ∧
      prepared = ⟨collector.proposal, e.genesisCommitment, e.state.validatorSetRoot,
        e.state.protocolRevision⟩ ∧
      e' = { e with
        localVoteLocks := locks
        highestVotedRounds := recordHighest e.highestVotedRounds
          (e.voteDomain validator collector.proposal) ⟨collector.proposal.height,
            collector.proposal.round, collector.proposal.commitment C⟩
        lockedQc := nextLock e.lockedQc collector.proposal.justification } := by
  simp only [prepareCurrentVote, inversion, Prod.mk.injEq, Option.bind_eq_some_iff] at h
  obtain ⟨collector, ⟨commitment, -, hget⟩, -, hs, hh, locks, -, rfl, rfl⟩ := h
  exact ⟨commitment, collector, locks, hget, hs, hh, rfl, rfl⟩

theorem prepareTimeoutVote_cases {v : PrincipalId} {height round : Nat} {p : PreparedTimeout}
    (h : e.prepareTimeoutVote v height round = .ok (p, e')) :
    ∃ context locks, e.consensusContext = .ok context ∧
      checkedAdd 64 e.preferredJustification.parent.height 1 = some height ∧
      recordTimeoutLock e.timeoutLocks (timeoutDomain v context height round)
        (timeoutSlot height round e.preferredJustification.parent
          e.preferredJustification.certificate) = .ok locks ∧
      p = ⟨context, height, round, e.preferredJustification.parent,
        e.preferredJustification.certificate⟩ ∧
      e' = { e with timeoutLocks := locks } := by
  simp only [prepareTimeoutVote, inversion, Prod.mk.injEq] at h
  obtain ⟨-, _, -, -, hh, context, hc, locks, hl, rfl, rfl⟩ := h
  exact ⟨context, locks, hc, checkedAdd_eq_some.2 hh, hl, rfl, rfl⟩

theorem upgradeHandoffAnchor_record {handoff : ConsensusBlockRef}
    (h : e.upgradeHandoffAnchor C authorization proof = .ok handoff) :
    ∃ r ∈ e.certifiedBlocks.values, r.certificate.blockRef = handoff := by
  simp only [upgradeHandoffAnchor, inversion] at h
  obtain ⟨-, h⟩ := h
  split at h
  · cases h
  · rename_i r others hh
    simp only [inversion] at h
    have hmem : r ∈ e.handoffs proof.certificate := by
      rw [hh]
      exact mem_cons_self
    exact ⟨r, (mem_filter.1 hmem).1, h.2⟩

/-- **Either activation enters a new context at a recorded handoff block.** -/
theorem activateValidatorSet_cases {next : ValidatorGenesis}
    (h : e.activateFinalizedValidatorSet C authorization proof next = .ok e') :
    ∃ s validatorSet handoff,
      (∃ r ∈ e.certifiedBlocks.values, r.certificate.blockRef = handoff) ∧
      e.state.applyUpgradeAfterCertifiedBlock authorization handoff = .ok s ∧
      next.validatorSet = .ok validatorSet ∧
      authorization.nextValidatorSetRoot = next.validatorSetRoot C ∧
      e' = e.enterContext s validatorSet (manifestKeys next) handoff := by
  simp only [activateFinalizedValidatorSet, inversion] at h
  obtain ⟨⟨-, -, -, hr, -⟩, -, handoff, hh, validatorSet, hset, s, hs, rfl⟩ := h
  exact ⟨s, validatorSet, handoff, upgradeHandoffAnchor_record hh, hs, hset, hr, rfl⟩

theorem activateProtocolUpgrade_cases
    (h : e.activateFinalizedProtocolUpgrade C authorization proof = .ok e') :
    ∃ s handoff,
      (∃ r ∈ e.certifiedBlocks.values, r.certificate.blockRef = handoff) ∧
      e.state.applyUpgradeAfterCertifiedBlock authorization handoff = .ok s ∧
      ¬ authorization.changesValidatorSet ∧
      e' = e.enterContext s e.validatorSet e.publicKeys handoff := by
  simp only [activateFinalizedProtocolUpgrade, inversion] at h
  obtain ⟨⟨hset, -⟩, -, handoff, hh, s, hs, rfl⟩ := h
  exact ⟨s, handoff, upgradeHandoffAnchor_record hh, hs, hset, rfl⟩

end

/-! ## Collectors -/

/-- Where a collector that is open after a message comes from: it was open, it took the vote, or the
message is its proposal. -/
inductive CollectorAfter (C : Crypto) (e : ValidatorEngine) :
    ConsensusMessage C → Digest384 → VoteCollector → Prop
  | kept {m : ConsensusMessage C} {commitment : Digest384} {collector : VoteCollector}
      (h : e.collectors.get? commitment = some collector) :
      CollectorAfter C e m commitment collector
  | voted {vote : ValidatorVote} {key : PublicKey} {old : VoteCollector}
      (h : e.collectors.get? vote.proposalCommitment = some old) :
      CollectorAfter C e (.vote vote) vote.proposalCommitment
        (old.addVote C e.validatorSet key vote).2
  | opened {proposal : BlockProposal} (h : e.checkProposal C proposal = .ok ()) :
      CollectorAfter C e (.proposal proposal) (proposal.commitment C) (VoteCollector.new proposal
        e.genesisCommitment e.state.validatorSetRoot e.state.protocolRevision)

section

variable {commitment commitment' : Digest384} {collector : VoteCollector}

theorem collectVote_collectors {vote : ValidatorVote}
    (h : (e.collectVote C vote).2.collectors.get? commitment = some collector) :
    CollectorAfter C e (.vote vote) commitment collector := by
  rcases collectVote_cases C e vote with ⟨heq, -⟩ | ⟨key, old, hold, heq, -⟩
  · exact .kept (heq ▸ h)
  · rw [heq] at h
    rw [get?_insert] at h
    split at h
    · subst_vars
      cases h
      exact .voted hold
    · exact .kept h

theorem certified_collectors {cb : CertifiedBlock C} (hap : e.applyCertificate C cb = .ok e')
    (h : (e'.closeCollector commitment').collectors.get? commitment = some collector) :
    e.collectors.get? commitment = some collector := by
  have hget := (get?_retain_eq_some.1 h).1
  rcases applyCertificate_cases hap with rfl | ⟨s, anchor, -, rfl⟩
  · exact hget
  · rwa [(insertCertified_frame e _ _ _ s anchor).2.2.2.2.2.1] at hget

/-- **The collectors after one message.** -/
theorem process_collectors {m : ConsensusMessage C}
    (h : (e.process C m).2.collectors.get? commitment = some collector) :
    CollectorAfter C e m commitment collector := by
  cases m with
  | proposal proposal =>
    change (e.processProposal C proposal).2.collectors.get? _ = _ at h
    unfold processProposal at h
    split at h
    · exact .kept h
    · rename_i hch
      have had : ∃ view, e.adoptViewChange proposal = { e with acceptedViewChange := view } := by
        unfold adoptViewChange
        split <;> exact ⟨_, rfl⟩
      obtain ⟨view, had⟩ := had
      rw [had] at h
      obtain ⟨collectors, _, heq, hc⟩ :=
        openCollector_cases C { e with acceptedViewChange := view } proposal
      rw [heq] at h
      rcases hc with rfl | rfl
      · exact .kept h
      · rw [get?_insert] at h
        split at h
        · subst_vars
          cases h
          exact .opened hch
        · exact .kept h
  | vote vote =>
    rcases processVote_cases C e vote with heq | ⟨proof, e₁, commitment, -, hap, heq⟩
    · exact collectVote_collectors (heq ▸ h)
    · exact collectVote_collectors (certified_collectors hap (heq ▸ h))
  | certificate proof =>
    simp only [process, certify] at h
    split at h
    · exact .kept h
    · exact .kept (certified_collectors ‹_› h)
  | certifiedBlockRequest commitment => exact .kept h
  | timeoutVote vote =>
    obtain ⟨_, _, heq, -⟩ := admitTimeoutVote_cases C e vote
    change (e.admitTimeoutVote C vote).2.collectors.get? _ = _ at h
    rw [heq] at h
    exact .kept h
  | viewChange view =>
    simp only [process] at h
    split at h
    · exact .kept h
    · obtain ⟨-, rfl⟩ := processViewChange_cases ‹_›
      exact .kept h

end

/-- Every open collector is for a proposal of the engine's own domain, under its commitment, and
holds votes that satisfy `P`. -/
def CollectorsHold (C : Crypto) (P : ValidatorVote → Prop) (e : ValidatorEngine) : Prop :=
  ∀ commitment collector, e.collectors.get? commitment = some collector →
    collector.proposal.commitment C = commitment ∧ e.InDomain collector.proposal.context ∧
      ∀ entry ∈ collector.votes, P entry.2

variable {P : ValidatorVote → Prop}

theorem inDomain_congr (hg : e'.genesisCommitment = e.genesisCommitment)
    (he : e'.state.epoch = e.state.epoch)
    (hro : e'.state.validatorSetRoot = e.state.validatorSetRoot)
    (hr : e'.state.protocolRevision = e.state.protocolRevision)
    (c : ConsensusVoteContext) : e'.InDomain c ↔ e.InDomain c := by
  unfold InDomain
  rw [hg, he, hro, hr]

theorem process_inDomain (C : Crypto) (e : ValidatorEngine) (m : ConsensusMessage C)
    (c : ConsensusVoteContext) : (e.process C m).2.InDomain c ↔ e.InDomain c := by
  rcases process_snapshot C e m with h | ⟨proof, s, anchor, -, hnew, h⟩
  · have hs : (e.process C m).2.state = e.state :=
      congrArg (·.consensus) h.snapshot
    exact inDomain_congr (congrArg (·.genesisCommitment) h.snapshot)
      (by rw [hs]) (by rw [hs]) (by rw [hs]) c
  · obtain ⟨hs, -, hg, -⟩ :=
      insertCertified_frame e proof.proposal proof.certificate proof.votes s anchor
    have hs := (congrArg (·.consensus) h).trans hs
    change (e.process C m).2.state = s at hs
    obtain ⟨he, hro, hr⟩ := commitParent_context hnew.commit
    refine inDomain_congr ((congrArg (·.genesisCommitment) h).trans hg)
      ?_ ?_ ?_ c <;> rw [hs] <;> assumption

theorem CollectorsHold.of_empty (h : e.collectors = empty) : CollectorsHold C P e := by
  intro c c hget
  rw [h] at hget
  cases hget

theorem CollectorsHold.imp {Q : ValidatorVote → Prop} (h : CollectorsHold C P e)
    (hPQ : ∀ v, P v → Q v) : CollectorsHold C Q e := by
  intro commitment collector hget
  obtain ⟨hkey, hd, hv⟩ := h commitment collector hget
  exact ⟨hkey, hd, fun entry he => hPQ _ (hv entry he)⟩

theorem insertVote_mem {e entry' : PublicKey × ValidatorVote}
    {votes : List KeyedVote} (h : entry' ∈ insertVote e votes) : entry' = e ∨ entry' ∈ votes := by
  induction votes with
  | nil => simpa [insertVote] using h
  | cons hd tl ih =>
    rw [insertVote] at h
    split at h
    · exact mem_cons.1 h
    · rcases mem_cons.1 h with h | h
      · exact .inr (h ▸ mem_cons_self)
      · exact (ih h).imp id (mem_cons_of_mem _)

theorem addVote_frame (C : Crypto) (c : VoteCollector) (validatorSet : ValidatorSet)
    (key : PublicKey) (vote : ValidatorVote) :
    (c.addVote C validatorSet key vote).2.proposal = c.proposal ∧
    ∀ e ∈ (c.addVote C validatorSet key vote).2.votes,
      e.2 = vote ∨ e ∈ c.votes := by
  unfold VoteCollector.addVote
  split
  · exact ⟨rfl, fun _ h => .inr h⟩
  · simp only
    split
    · exact ⟨rfl, fun _ h => .inr h⟩
    · refine ⟨rfl, fun e h => ?_⟩
      exact (insertVote_mem h).imp (fun h => by rw [h]) id

variable {m : ConsensusMessage C}

theorem CollectorsHold.presented (h : CollectorsHold C P e) {proof : CertifiedBlock C}
    (hvot : ∀ vote, m = .vote vote → P vote)
    (hpr : ∀ proof, m = .certificate proof → ∀ vote ∈ proof.votes, P vote)
    (hp : e.presentedProof C m = some proof) : ∀ vote ∈ proof.votes, P vote := by
  cases m with
  | certificate given =>
    obtain rfl : given = proof := Option.some.inj hp
    exact hpr given rfl
  | vote vote =>
    have hr : (e.collectVote C vote).1 = .ok (some proof) := by
      simp only [presentedProof] at hp
      split at hp
      · rename_i heq
        rw [heq, hp]
      · cases hp
    rcases collectVote_cases C e vote with ⟨-, hn⟩ | ⟨key, c, hget, -, hvo⟩
    · exact absurd hr (hn proof)
    · intro v hv
      obtain ⟨-, hl⟩ := hvo proof hr
      rw [hl] at hv
      obtain ⟨entry, he, rfl⟩ := mem_map.1 hv
      rcases (addVote_frame C c e.validatorSet key vote).2 entry he with heq | hold
      · rw [heq]
        exact hvot vote rfl
      · exact (h _ _ hget).2.2 entry hold
  | proposal _ => cases hp
  | certifiedBlockRequest _ => cases hp
  | timeoutVote _ => cases hp
  | viewChange _ => cases hp

/-- **One message keeps what is known of the collectors**, when its own vote satisfies `P`. -/
theorem CollectorsHold.process (h : CollectorsHold C P e) (hvo : ∀ vote, m = .vote vote → P vote) :
    CollectorsHold C P (e.process C m).2 := by
  intro c c hget
  rw [process_inDomain]
  cases process_collectors hget with
  | kept hold => exact h _ _ hold
  | @voted vote key old hold =>
    obtain ⟨hkey, hd, hv⟩ := h _ _ hold
    obtain ⟨hp, he⟩ := addVote_frame C old e.validatorSet key vote
    rw [hp]
    refine ⟨hkey, hd, fun entry hen => ?_⟩
    rcases he entry hen with heq | hmem
    · exact heq ▸ hvo vote rfl
    · exact hv entry hmem
  | opened hc => exact ⟨rfl, (checkProposal_ok hc).1, nofun⟩

end ValidatorEngine

end ActiveChain
