import ActiveChain.Consensus.EngineSteps

/-!
# The shape of a reachable engine

A proposal builds on the anchor or on a recorded block, and a certified block that carries its
parent's certificate commits the parent at once.  So every recorded block is a child of the anchor:
recording a second level moves the anchor up and prunes the first.

* `newBlock_cases`, `commit_records` — a new block joins its siblings, or commits its parent and is
  the only record left.
* `EngineStep`, `AnchorInv.step` — everything that changes an engine, and that it keeps the shape.
-/

namespace ActiveChain

open Except SortedMap ConsensusState

/-! ## The invariant -/

namespace PersistedValidatorState

/-- The context is the snapshot's own. -/
def InDomain (p : PersistedValidatorState) (c : ConsensusVoteContext) : Prop :=
  c.genesisCommitment = p.genesisCommitment ∧ c.epoch = p.consensus.epoch ∧
    c.validatorSetRoot = p.consensus.validatorSetRoot ∧
    c.protocolRevision = p.consensus.protocolRevision

def Certifies (p : PersistedValidatorState) (qc : QuorumCertificate) : Prop :=
  ∃ record, p.certifiedBlocks.get? qc.proposalCommitment = some record ∧ record.certificate = qc

end PersistedValidatorState

/-- The certified block is recorded, or no higher than the anchor. -/
def PersistedValidatorState.Known (p : PersistedValidatorState) (qc : QuorumCertificate) : Prop :=
  qc.height ≤ p.activeAnchor.height ∨ p.Certifies qc

/-- A record of a verified block whose parent is the anchor. -/
structure ChildRecord (C : Crypto) (p : PersistedValidatorState) (commitment : Digest384)
    (record : CertifiedBlockRecord) : Prop where
  key : record.certificate.proposalCommitment = commitment
  parent : record.parent = p.activeAnchor
  proposal : record.proposal.parent = record.parent
  binds : CertifiedBlockBinds C record.proposal record.certificate record.votes
  domain : p.InDomain record.certificate.context

/-- The shape of every reachable engine. -/
structure AnchorInv (C : Crypto) (p : PersistedValidatorState) : Prop where
  state : p.consensus.WellFormed
  anchor : p.consensus.activeAnchor p.genesisCommitment = .ok p.activeAnchor
  record : ∀ commitment record, p.certifiedBlocks.get? commitment = some record →
    ChildRecord C p commitment record
  locked : ∀ qc ∈ p.lockedQc, p.Certifies qc
  accepted : ∀ view ∈ p.acceptedViewChange, p.consensus.finalizedHeight < view.height ∧
    ∀ qc ∈ view.highestQc, p.Known qc

section Shape

variable {C : Crypto} {p : PersistedValidatorState}

theorem ChildRecord.height {c : Digest384} {r : CertifiedBlockRecord} (h : ChildRecord C p c r) :
    r.certificate.height = p.activeAnchor.height + 1 := by
  rw [h.binds.2.2.1, r.proposal.height_eq, h.proposal, h.parent]

theorem AnchorInv.certified_height (inv : AnchorInv C p) {qc : QuorumCertificate}
    (h : p.Certifies qc) : qc.height = p.activeAnchor.height + 1 := by
  obtain ⟨r, hget, rfl⟩ := h
  exact (inv.record _ _ hget).height

theorem AnchorInv.finalized_le (inv : AnchorInv C p) :
    p.consensus.finalizedHeight ≤ p.activeAnchor.height :=
  (inv.state.anchor_height inv.anchor).1

theorem PersistedValidatorState.Certifies.unique {qc qc' : QuorumCertificate}
    (h : p.Certifies qc) (h' : p.Certifies qc')
    (heq : qc.proposalCommitment = qc'.proposalCommitment) : qc = qc' := by
  obtain ⟨r, hget, rfl⟩ := h
  obtain ⟨record', hget', rfl⟩ := h'
  rw [heq, hget'] at hget
  cases hget
  rfl

end Shape

namespace ValidatorEngine

variable {C : Crypto} {e e' : ValidatorEngine}

/-! ## What a justified proposal builds on -/

variable {parent : ConsensusBlockRef} {qc : QuorumCertificate}

theorem checkHighestQc_some (h : e.checkHighestQc parent (some qc) = .ok ()) :
    e.snapshot.Certifies qc ∧ parent = qc.blockRef := by
  simp only [checkHighestQc, inversion] at h
  obtain ⟨r, hget, hc, hp⟩ := h
  exact ⟨⟨r, hget, hc⟩, hp⟩

theorem checkHighestQc_none (h : e.checkHighestQc parent none = .ok ()) :
    parent = e.activeAnchor := by
  simpa [checkHighestQc] using h

theorem verifyViewChange_ok {view : ViewChangeCertificate}
    (h : e.verifyViewChange C view = .ok ()) :
    e.consensusContext = .ok view.context ∧
      e.checkHighestQc view.parent view.highestQc = .ok () := by
  simp only [verifyViewChange, inversion] at h
  obtain ⟨context, hc, ⟨rfl, -, -⟩, hh, -⟩ := h
  exact ⟨hc, hh⟩

theorem justified_cases {j : ProposalJustification} (h : e.checkJustification C j = .ok ()) :
    (j.certificate = none ∧ j.parent = e.activeAnchor) ∨
    ∃ qc, j.certificate = some qc ∧ e.snapshot.Certifies qc ∧ j.parent = qc.blockRef := by
  cases j with
  | finalized anchor =>
    simp only [checkJustification, rejectIf_eq_ok, not_not] at h
    exact .inl ⟨rfl, h⟩
  | quorum cert =>
    simp only [checkJustification, inversion] at h
    obtain ⟨r, hget, hc⟩ := h
    exact .inr ⟨cert, rfl, ⟨r, hget, hc⟩, rfl⟩
  | viewChange view =>
    obtain ⟨-, hh⟩ := verifyViewChange_ok h
    cases hqc : view.highestQc with
    | none =>
      rw [hqc] at hh
      exact .inl ⟨hqc, checkHighestQc_none hh⟩
    | some qc =>
      rw [hqc] at hh
      obtain ⟨hce, hp⟩ := checkHighestQc_some hh
      exact .inr ⟨qc, hqc, hce, hp⟩

theorem safety_cases {p : BlockProposal} (h : e.verifyProposalSafety C p = .ok ()) :
    (p.justification.certificate = none ∧ p.parent = e.activeAnchor) ∨
    ∃ qc, p.justification.certificate = some qc ∧ e.snapshot.Certifies qc ∧
      p.parent = qc.blockRef := by
  simp only [verifyProposalSafety, inversion] at h
  exact justified_cases h.2.1

/-! ## Certification -/

variable {cb : CertifiedBlock C}

theorem newBlock_cases (inv : AnchorInv C e.snapshot) {s : ConsensusState}
    {anchor : ConsensusBlockRef} (h : NewBlock C e cb s anchor) :
    (cb.proposal.justification.certificate = none ∧ cb.proposal.parent = e.activeAnchor ∧
      s = e.state ∧ anchor = e.activeAnchor) ∨
    ∃ qc, cb.proposal.justification.certificate = some qc ∧ e.snapshot.Certifies qc ∧
      cb.proposal.parent = qc.blockRef ∧ e.state.finalizedHeight < qc.height ∧
      s = e.state.committed qc ∧ anchor = qc.blockRef := by
  have hc := h.commit
  unfold commitParent at hc
  rcases safety_cases h.safe with ⟨hno, hp⟩ | ⟨qc, hqc, hce, hp⟩
  · rw [hno] at hc
    obtain ⟨hs, han⟩ := Prod.mk.inj (Except.ok.inj hc)
    exact .inl ⟨hno, hp, hs.symm, han.symm⟩
  · right
    rw [hqc] at hc
    obtain ⟨-, -, hhe, hro, -⟩ := cb.binds
    have hh : checkedAdd 64 qc.height 1 = some cb.certificate.height := by
      have hn := cb.proposal.nextHeight
      change checkedAdd 64 cb.proposal.parent.height 1 = _ at hn
      rw [hp] at hn
      rw [hhe, ← hn]
      rfl
    have hr : qc.round < cb.certificate.round := by
      rw [hro]
      exact (BlockProposal.certificate_binds hqc).2.2
    have hf : e.state.finalizedHeight < qc.height := by
      have h₁ : e.state.finalizedHeight ≤ e.activeAnchor.height := inv.finalized_le
      have h₂ : qc.height = e.activeAnchor.height + 1 := inv.certified_height hce
      omega
    simp only [if_pos (And.intro hh hr), if_pos hf] at hc
    simp only [inversion, Prod.mk.injEq] at hc
    obtain ⟨committed, hap, rfl, rfl⟩ := hc
    obtain ⟨-, rfl⟩ := applyCommittedQc_spec hap
    exact ⟨qc, hqc, hce, hp, hf, rfl, rfl⟩

def recordOf (proof : CertifiedBlock C) : CertifiedBlockRecord :=
  ⟨proof.proposal, proof.certificate, proof.votes, proof.proposal.parent⟩

theorem sibling_records (e : ValidatorEngine) (cb : CertifiedBlock C) :
    let e' := (e.insertCertified cb.proposal cb.certificate cb.votes e.state
      e.activeAnchor).trimLocks
    e'.certifiedBlocks = e.certifiedBlocks.insert cb.certificate.proposalCommitment
      (recordOf cb) ∧ e'.lockedQc = e.lockedQc := by
  unfold insertCertified
  simp only [lt_self_iff_false, if_false]
  exact ⟨rfl, rfl⟩

theorem isAncestorOrEqual_of_parent {c : Digest384} {r : CertifiedBlockRecord}
    (h : e.certifiedBlocks.get? c = some r) :
    e.isAncestorOrEqual r.parent.proposalCommitment c = true := by
  obtain ⟨n, hn⟩ := Nat.exists_eq_add_of_lt (length_pos_of_get? h)
  unfold isAncestorOrEqual
  rw [hn, Nat.zero_add, walkToAncestor]
  split
  · rfl
  · rw [h]
    simp [walkToAncestor]

theorem commit_records (inv : AnchorInv C e.snapshot) (hc : e.snapshot.Certifies qc)
    (hp : cb.proposal.parent = qc.blockRef) (hf : e.state.finalizedHeight < qc.height) :
    let e' := (e.insertCertified cb.proposal cb.certificate cb.votes
      (e.state.committed qc) qc.blockRef).trimLocks
    (∀ c r, e'.certifiedBlocks.get? c = some r ↔
      c = cb.certificate.proposalCommitment ∧ r = recordOf cb) ∧
    e'.lockedQc = none := by
  have hq : qc.height = e.activeAnchor.height + 1 := inv.certified_height hc
  have hce : cb.certificate.height = qc.height + 1 := by
    rw [cb.binds.2.2.1, cb.proposal.height_eq, hp]
    rfl
  unfold insertCertified
  rw [if_pos (show e.state.finalizedHeight < (e.state.committed qc).finalizedHeight from hf)]
  constructor
  · intro c r
    show (retain _ _).get? c = some r ↔ _
    rw [get?_retain_eq_some, Bool.and_eq_true, decide_eq_true_eq]
    show (insert _ _ _).get? c = some r ∧ _ ↔ _
    rw [get?_insert]
    constructor
    · rintro ⟨hget, hh, -⟩
      split at hget
      · exact ⟨‹_›, (Option.some.inj hget).symm⟩
      · -- an old record is at the height of the new anchor
        have hold : r.certificate.height = e.activeAnchor.height + 1 := (inv.record _ _ hget).height
        change qc.height < r.certificate.height at hh
        omega
    · rintro ⟨rfl, rfl⟩
      refine ⟨if_pos rfl, ?_, ?_⟩
      · show qc.height < cb.certificate.height
        omega
      · have hget : (e.recordCertified cb.proposal cb.certificate cb.votes
            (e.state.committed qc) qc.blockRef).certifiedBlocks.get?
            cb.certificate.proposalCommitment = some (recordOf cb) :=
          get?_insert_self _ _ _
        have hw := isAncestorOrEqual_of_parent hget
        rwa [show (recordOf cb).parent = qc.blockRef from hp] at hw
  · -- a lock is a recorded certificate, so it is not above the new anchor either
    show Option.filter _ e.lockedQc = none
    rw [Option.filter_eq_none_iff]
    intro locked hl
    have hh : locked.height = e.activeAnchor.height + 1 :=
      inv.certified_height (inv.locked locked hl)
    rw [decide_eq_true_eq]
    show ¬ qc.height < locked.height
    omega

end ValidatorEngine

/-! ## Preservation -/

section Preservation

open ValidatorEngine

variable {C : Crypto} {e e' : ValidatorEngine}

variable {view : ViewChangeCertificate}

theorem AnchorInv.verified_view (inv : AnchorInv C e.snapshot)
    (h : e.verifyViewChange C view = .ok ()) :
    e.state.finalizedHeight < view.height ∧ ∀ qc ∈ view.highestQc, e.snapshot.Certifies qc := by
  obtain ⟨-, hh⟩ := verifyViewChange_ok h
  have hhe := view.parent_height
  have hf : e.state.finalizedHeight ≤ e.activeAnchor.height := inv.finalized_le
  cases hqc : view.highestQc with
  | none =>
    rw [hqc] at hh
    rw [checkHighestQc_none hh] at hhe
    exact ⟨by omega, by simp⟩
  | some qc =>
    rw [hqc] at hh
    obtain ⟨hc, hp⟩ := checkHighestQc_some hh
    have hab : qc.height = e.activeAnchor.height + 1 := inv.certified_height hc
    rw [hp] at hhe
    change qc.height + 1 = view.height at hhe
    refine ⟨by omega, ?_⟩
    intro qc' hqc'
    cases hqc'
    exact hc

theorem AnchorInv.housekeeping (inv : AnchorInv C e.snapshot) (h : Housekeeping C e e') :
    AnchorInv C e'.snapshot := by
  rw [h.snapshot]
  refine ⟨inv.state, inv.anchor, fun c r hget => ?_, inv.locked, ?_⟩
  · obtain ⟨hkey, hpa, hp, hb, hd⟩ := inv.record c r hget
    exact ⟨hkey, hpa, hp, hb, hd⟩
  · intro view hv
    rcases h.accepted with hs | ⟨view', hv', hve⟩
    · rw [hs] at hv
      exact inv.accepted view hv
    · rw [hv'] at hv
      cases hv
      obtain ⟨hh, hqc⟩ := inv.verified_view hve
      exact ⟨hh, fun qc hmem => .inr (hqc qc hmem)⟩

variable {qc : QuorumCertificate}

theorem certifies_insert {p : PersistedValidatorState} {c : Digest384}
    {record : CertifiedBlockRecord} (hf : p.certifiedBlocks.get? c = none) (h : p.Certifies qc) :
    ∃ r, (p.certifiedBlocks.insert c record).get? qc.proposalCommitment = some r ∧
      r.certificate = qc := by
  obtain ⟨r, hget, hr⟩ := h
  refine ⟨r, ?_, hr⟩
  rw [get?_insert_ne _ _ ?_, hget]
  intro heq
  rw [heq, hf] at hget
  cases hget

variable {state : ConsensusState} {proof : CertifiedBlock C}

theorem known_newBlock (inv : AnchorInv C e.snapshot) {anchor : ConsensusBlockRef}
    (h : NewBlock C e proof state anchor)
    (he : e' = (e.insertCertified proof.proposal proof.certificate proof.votes state
      anchor).trimLocks) (hk : e.snapshot.Known qc) : e'.snapshot.Known qc := by
  have hf := insertCertified_frame e proof.proposal proof.certificate proof.votes state anchor
  rw [← he] at hf
  have han : e'.snapshot.activeAnchor = anchor := hf.2.1
  unfold PersistedValidatorState.Known at hk ⊢
  rw [han]
  rcases newBlock_cases inv h with ⟨-, -, rfl, rfl⟩ | ⟨parentQc, -, hc, -, -, rfl, rfl⟩
  · have hb := (sibling_records e proof).1
    rw [← he] at hb
    refine hk.imp id (fun hce => ?_)
    show ∃ r, e'.certifiedBlocks.get? _ = some r ∧ _
    rw [hb]
    exact certifies_insert h.fresh hce
  · left
    show qc.height ≤ parentQc.height
    have hp : parentQc.height = e.snapshot.activeAnchor.height + 1 := inv.certified_height hc
    rcases hk with hle | hce
    · omega
    · have := inv.certified_height hce
      omega

theorem mem_survivingViewChange {accepted : Option ViewChangeCertificate} {cert : QuorumCertificate}
    (h : view ∈ survivingViewChange accepted state cert) :
    view ∈ accepted ∧ state.finalizedHeight < view.height := by
  obtain ⟨hmem, hf⟩ := Option.filter_eq_some_iff.1 h
  simp only [Bool.not_eq_true', decide_eq_false_iff_not, not_or, not_le] at hf
  exact ⟨hmem, hf.1⟩

section

variable (inv : AnchorInv C e.snapshot)
include inv

theorem AnchorInv.newBlock {anchor : ConsensusBlockRef} (h : NewBlock C e proof state anchor)
    (he : e' = (e.insertCertified proof.proposal proof.certificate proof.votes state
      anchor).trimLocks) :
    AnchorInv C e'.snapshot := by
  have hf := insertCertified_frame e proof.proposal proof.certificate proof.votes state anchor
  rw [← he] at hf
  obtain ⟨hs, han, hg, -, -, -, -, hac, -⟩ := hf
  obtain ⟨hep, hro, hrev⟩ := commitParent_context h.commit
  have hd : ∀ c, e.snapshot.InDomain c → e'.snapshot.InDomain c := by
    intro c hc
    refine (inDomain_congr hg ?_ ?_ ?_ c).2 hc <;> rw [hs] <;> assumption
  have hn := hd _ h.domain
  -- an accepted view change that survives is above the new head, and what it names stays known
  have hvi : ∀ view ∈ e'.snapshot.acceptedViewChange,
      e'.snapshot.consensus.finalizedHeight < view.height ∧
        ∀ qc ∈ view.highestQc, e'.snapshot.Known qc := by
    intro view hv
    change view ∈ e'.acceptedViewChange at hv
    rw [hac] at hv
    obtain ⟨hmem, hh⟩ := mem_survivingViewChange hv
    refine ⟨?_, fun qc hqc => known_newBlock inv h he ((inv.accepted view hmem).2 qc hqc)⟩
    show e'.state.finalizedHeight < view.height
    rwa [hs]
  rcases newBlock_cases inv h with
    ⟨-, hp, rfl, rfl⟩ | ⟨parentQc, -, hce, hp, hfi, rfl, rfl⟩
  · obtain ⟨hb, hl⟩ := sibling_records e proof
    rw [← he] at hb hl
    refine ⟨?_, ?_, ?_, ?_, hvi⟩
    · show e'.state.WellFormed
      rw [hs]
      exact inv.state
    · show e'.state.activeAnchor e'.genesisCommitment = .ok e'.activeAnchor
      rw [hs, hg, han]
      exact inv.anchor
    · intro commitment record hget
      change e'.certifiedBlocks.get? commitment = some record at hget
      rw [hb, get?_insert] at hget
      split at hget
      · rename_i heq
        cases hget
        exact ⟨heq.symm, hp.trans han.symm, rfl, proof.binds, hn⟩
      · obtain ⟨hkey, hr, hpr, hbi, hre⟩ := inv.record _ _ hget
        exact ⟨hkey, hr.trans han.symm, hpr, hbi, hd _ hre⟩
    · intro qc hqc
      change qc ∈ e'.lockedQc at hqc
      rw [hl] at hqc
      show ∃ r, e'.certifiedBlocks.get? _ = some r ∧ _
      rw [hb]
      exact certifies_insert h.fresh (inv.locked qc hqc)
  · obtain ⟨hb, hl⟩ := commit_records inv hce hp hfi
    rw [← he] at hb hl
    refine ⟨?_, ?_, ?_, ?_, hvi⟩
    · show e'.state.WellFormed
      rw [hs]
      exact WellFormed.committed _ _
    · show e'.state.activeAnchor e'.genesisCommitment = .ok e'.activeAnchor
      rw [hs, hg, han]
      exact activeAnchor_committed _ (genesis_ne_zero_of_anchor inv.anchor)
    · intro commitment record hget
      obtain ⟨rfl, rfl⟩ := (hb commitment record).1 hget
      exact ⟨rfl, hp.trans han.symm, rfl, proof.binds, hn⟩
    · intro qc hqc
      change qc ∈ e'.lockedQc at hqc
      rw [hl] at hqc
      cases hqc

theorem AnchorInv.applied (h : e.applyCertificate C proof = .ok e') : AnchorInv C e'.snapshot := by
  rcases applyCertificate_cases h with rfl | ⟨s, anchor, hnew, he⟩
  · exact inv
  · exact inv.newBlock hnew he

/-- **One message keeps the shape.** -/
theorem AnchorInv.process (m : ConsensusMessage C) : AnchorInv C (e.process C m).2.snapshot := by
  rcases process_cases C e m with h | ⟨proof, e₁, c, -, happ, heq⟩
  · exact inv.housekeeping h
  · have hap := (inv.housekeeping (afterCollect_housekeeping C e m)).applied happ
    rw [heq]
    exact hap

variable {v : PrincipalId}

theorem AnchorInv.vote {p : PreparedVote} (h : e.prepareCurrentVote C v = .ok (p, e')) :
    AnchorInv C e'.snapshot := by
  obtain ⟨_, col, locks, -, hs, -, -, rfl⟩ := prepareCurrentVote_cases h
  refine ⟨inv.state, inv.anchor, fun c r hget => ?_, ?_, inv.accepted⟩
  · obtain ⟨hkey, hpa, hp, hb, hd⟩ := inv.record c r hget
    exact ⟨hkey, hpa, hp, hb, hd⟩
  · intro qc hqc
    unfold nextLock at hqc
    split at hqc
    · rename_i parentQc hj
      split at hqc
      · cases hqc
        -- the new lock is the parent's certificate, which the safety check found recorded
        rcases safety_cases hs with ⟨hn, -⟩ | ⟨qc', hqc', hc, -⟩
        · rw [hj] at hn
          cases hn
        · rw [hj] at hqc'
          cases hqc'
          exact hc
      · exact inv.locked qc hqc
    · exact inv.locked qc hqc

theorem AnchorInv.timeout {height round : Nat} {p : PreparedTimeout}
    (h : e.prepareTimeoutVote v height round = .ok (p, e')) : AnchorInv C e'.snapshot := by
  obtain ⟨_, locks, -, -, -, -, rfl⟩ := prepareTimeoutVote_cases h
  refine ⟨inv.state, inv.anchor, fun c r hget => ?_, inv.locked, inv.accepted⟩
  obtain ⟨hkey, hpa, hp, hb, hd⟩ := inv.record c r hget
  exact ⟨hkey, hpa, hp, hb, hd⟩

theorem AnchorInv.enterContext {a : ConsensusUpgradeAuthorization} {handoff : ConsensusBlockRef}
    (h : e.state.applyUpgradeAfterCertifiedBlock a handoff = .ok state)
    (validatorSet : ValidatorSet) (keys : PublicKeys) :
    AnchorInv C (e.enterContext state validatorSet keys handoff).snapshot := by
  have hg : e.genesisCommitment ≠ Digest384.zero :=
    ConsensusState.genesis_ne_zero_of_anchor inv.anchor
  refine ⟨inv.state.upgrade h, ?_, fun c r hget => (by cases hget), fun qc hqc => (by cases hqc),
    fun view hv => (by cases hv)⟩
  show state.activeAnchor e.genesisCommitment = .ok handoff
  have hh := (ConsensusState.applyUpgrade_spec h).2.2.2.2.1
  unfold ConsensusState.activeAnchor
  rw [if_neg hg, hh]

end

theorem AnchorInv.start {genesis : Digest384} {validatorSet : ValidatorSet}
    {keys : PublicKeys} (hs : state.WellFormed)
    (h : ValidatorEngine.new state genesis validatorSet keys = .ok e) : AnchorInv C e.snapshot := by
  simp only [ValidatorEngine.new, inversion] at h
  obtain ⟨-, -, anchor, han, rfl⟩ := h
  exact ⟨hs, han, fun c r hget => (by cases hget), fun qc hqc => (by cases hqc),
    fun view hv => (by cases hv)⟩

end Preservation

/-! ## Every act of an engine -/

open ValidatorEngine

/-- Everything that changes an engine: a message, a vote or a timeout prepared for signing, an
upgrade, and a restart from the persisted state. -/
inductive EngineAct (C : Crypto)
  | message (m : ConsensusMessage C)
  | vote (validator : PrincipalId)
  | timeout (validator : PrincipalId) (height round : Nat)
  | validatorSet (authorization : ConsensusUpgradeAuthorization) (proof : CertifiedBlock C)
      (next : ValidatorGenesis)
  | protocol (authorization : ConsensusUpgradeAuthorization) (proof : CertifiedBlock C)
  | restart (manifest : ValidatorGenesis)

/-- What each act does; a failed message leaves the engine as the call left it. -/
inductive EngineStep (C : Crypto) : ValidatorEngine → EngineAct C → ValidatorEngine → Prop
  | message (e : ValidatorEngine) (m : ConsensusMessage C) :
      EngineStep C e (.message m) (e.process C m).2
  | vote {e e' : ValidatorEngine} {validator : PrincipalId} {prepared : PreparedVote}
      (h : e.prepareCurrentVote C validator = .ok (prepared, e')) :
      EngineStep C e (.vote validator) e'
  | timeout {e e' : ValidatorEngine} {validator : PrincipalId} {height round : Nat}
      {prepared : PreparedTimeout}
      (h : e.prepareTimeoutVote validator height round = .ok (prepared, e')) :
      EngineStep C e (.timeout validator height round) e'
  | validatorSet {e e' : ValidatorEngine} {authorization : ConsensusUpgradeAuthorization}
      {proof : CertifiedBlock C} {next : ValidatorGenesis}
      (h : e.activateFinalizedValidatorSet C authorization proof next = .ok e') :
      EngineStep C e (.validatorSet authorization proof next) e'
  | protocol {e e' : ValidatorEngine} {authorization : ConsensusUpgradeAuthorization}
      {proof : CertifiedBlock C}
      (h : e.activateFinalizedProtocolUpgrade C authorization proof = .ok e') :
      EngineStep C e (.protocol authorization proof) e'
  | restart {e e' : ValidatorEngine} {manifest : ValidatorGenesis}
      (h : restoreEngine C manifest (some e.snapshot) = .ok e') :
      EngineStep C e (.restart manifest) e'

variable {C : Crypto} {e e' : ValidatorEngine} {act : EngineAct C}

/-- **Every act keeps the shape.** -/
theorem AnchorInv.step (inv : AnchorInv C e.snapshot) (h : EngineStep C e act e') :
    AnchorInv C e'.snapshot := by
  cases h with
  | message m => exact inv.process m
  | vote h => exact inv.vote h
  | timeout h => exact inv.timeout h
  | validatorSet h =>
    obtain ⟨s, set, handoff, -, hu, -, -, rfl⟩ := activateValidatorSet_cases h
    exact inv.enterContext hu _ _
  | protocol h =>
    obtain ⟨s, handoff, -, hu, -, rfl⟩ := activateProtocolUpgrade_cases h
    exact inv.enterContext hu _ _
  | restart h => exact restoreEngine_snapshot h ▸ inv

/-- **The acts in four kinds**: a message; a signature, which changes only what is signed and
locked; an upgrade, which enters a new context at a recorded handoff block; a restart. -/
theorem EngineStep.kinds (h : EngineStep C e act e') :
    (∃ m, act = .message m ∧ e' = (e.process C m).2) ∨
    (∃ votes rounds locked timeouts, e' = { e with
      localVoteLocks := votes
      highestVotedRounds := rounds
      lockedQc := locked
      timeoutLocks := timeouts }) ∨
    (∃ a handoff s set keys, (∃ r ∈ e.certifiedBlocks.values, r.certificate.blockRef = handoff) ∧
      e.state.applyUpgradeAfterCertifiedBlock a handoff = .ok s ∧
      e' = e.enterContext s set keys handoff) ∨
    ∃ manifest, restoreEngine C manifest (some e.snapshot) = .ok e' := by
  cases h with
  | message m => exact .inl ⟨m, rfl, rfl⟩
  | vote hp =>
    obtain ⟨_, _, _, -, -, -, -, rfl⟩ := prepareCurrentVote_cases hp
    exact .inr (.inl ⟨_, _, _, _, rfl⟩)
  | timeout hp =>
    obtain ⟨_, _, -, -, -, -, rfl⟩ := prepareTimeoutVote_cases hp
    exact .inr (.inl ⟨_, _, _, _, rfl⟩)
  | validatorSet hac =>
    obtain ⟨_, _, _, hh, hu, -, -, rfl⟩ := activateValidatorSet_cases hac
    exact .inr (.inr (.inl ⟨_, _, _, _, _, hh, hu, rfl⟩))
  | protocol hac =>
    obtain ⟨_, _, hh, hu, -, rfl⟩ := activateProtocolUpgrade_cases hac
    exact .inr (.inr (.inl ⟨_, _, _, _, _, hh, hu, rfl⟩))
  | restart hr => exact .inr (.inr (.inr ⟨_, hr⟩))

theorem ValidatorEngine.CollectorsHold.step {P : ValidatorVote → Prop} (h : CollectorsHold C P e)
    (hs : EngineStep C e act e') (hv : ∀ vote, act = .message (.vote vote) → P vote) :
    CollectorsHold C P e' := by
  rcases hs.kinds with ⟨m, rfl, rfl⟩ | ⟨_, _, _, _, rfl⟩ | ⟨_, _, _, _, _, -, -, rfl⟩ | ⟨_, hr⟩
  · exact h.process fun vote hm => hv vote (by rw [hm])
  · exact h
  · exact CollectorsHold.of_empty rfl
  · exact CollectorsHold.of_empty (restoreEngine_members hr).2.2.2

/-! ## What a message keeps -/

/-- What no message changes, and how far the rest can move. -/
structure MessageFrame (e e' : ValidatorEngine) : Prop where
  genesis : e'.genesisCommitment = e.genesisCommitment
  context : e'.state.epoch = e.state.epoch ∧
    e'.state.validatorSetRoot = e.state.validatorSetRoot ∧
    e'.state.protocolRevision = e.state.protocolRevision
  members : e'.validatorSet = e.validatorSet ∧ e'.publicKeys = e.publicKeys
  rounds : e'.highestVotedRounds = e.highestVotedRounds
  height : e.state.finalizedHeight ≤ e'.state.finalizedHeight
  timeouts : ∀ domain slot, e.timeoutLocks.get? domain = some slot →
    domain.epoch = e.state.epoch → e'.state.finalizedHeight < domain.height →
    e'.timeoutLocks.get? domain = some slot
  known : ∀ qc, e.snapshot.Known qc → e'.snapshot.Known qc
  accepted : ∀ view ∈ e'.acceptedViewChange, view ∈ e.acceptedViewChange ∨
    ∀ qc ∈ view.highestQc, e.snapshot.Certifies qc

open MessageFrame

section Frame

variable {C : Crypto} {e e' e'' : ValidatorEngine}

theorem MessageFrame.of_housekeeping (inv : AnchorInv C e.snapshot) (h : Housekeeping C e e') :
    MessageFrame e e' := by
  have hs : e'.state = e.state := congrArg (·.consensus) h.snapshot
  have ht : e'.timeoutLocks = e.timeoutLocks :=
    congrArg (·.timeoutLocks) h.snapshot
  refine ⟨congrArg (·.genesisCommitment) h.snapshot, ?_, h.members,
    congrArg (·.highestVotedRounds) h.snapshot, by rw [hs], ?_, ?_, ?_⟩
  · rw [hs]
    exact ⟨rfl, rfl, rfl⟩
  · intro domain slot hget _ _
    rwa [ht]
  · intro qc hqc
    rw [h.snapshot]
    exact hqc
  · intro view hv
    rcases h.accepted with hsa | ⟨view', hv', hve⟩
    · exact .inl (hsa ▸ hv)
    · rw [hv'] at hv
      cases hv
      exact .inr (inv.verified_view hve).2

theorem MessageFrame.of_newBlock (inv : AnchorInv C e.snapshot) {cb : CertifiedBlock C}
    {s : ConsensusState} {anchor : ConsensusBlockRef} (h : NewBlock C e cb s anchor)
    (he : e' = (e.insertCertified cb.proposal cb.certificate cb.votes s
      anchor).trimLocks) : MessageFrame e e' := by
  have hf := insertCertified_frame e cb.proposal cb.certificate cb.votes s anchor
  rw [← he] at hf
  obtain ⟨hs, -, hg, hset, hk, -, hro, hac, ht⟩ := hf
  obtain ⟨hep, hroo, hr⟩ := commitParent_context h.commit
  refine ⟨hg, by rw [hs]; exact ⟨hep, hroo, hr⟩, ⟨hset, hk⟩, hro, ?_,
    ?_, fun qc hqc => known_newBlock inv h he hqc, ?_⟩
  · rw [hs]
    rcases newBlock_cases inv h with ⟨-, -, rfl, -⟩ | ⟨qc, -, -, -, hfi, rfl, -⟩
    · exact le_rfl
    · exact hfi.le
  · intro domain slot hget hd hh
    rw [hs] at hh
    rw [ht, get?_retain_eq_some]
    refine ⟨hget, ?_⟩
    unfold stillOpen
    rw [decide_eq_true_eq]
    exact .inr ⟨by rw [hd, hep], hh⟩
  · intro view hv
    rw [hac] at hv
    exact .inl (mem_survivingViewChange hv).1

theorem MessageFrame.trans (h : MessageFrame e e') (h' : MessageFrame e' e'')
    (hre : ∀ qc, e'.snapshot.Certifies qc → e.snapshot.Certifies qc) : MessageFrame e e'' := by
  obtain ⟨he, hro, hr⟩ := h.context
  obtain ⟨he', hro', hr'⟩ := h'.context
  refine ⟨h'.genesis.trans h.genesis, ⟨he'.trans he, hro'.trans hro, hr'.trans hr⟩,
    ⟨h'.members.1.trans h.members.1, h'.members.2.trans h.members.2⟩, h'.rounds.trans h.rounds,
    h.height.trans h'.height, ?_, fun qc hqc => h'.known qc (h.known qc hqc), ?_⟩
  · intro domain slot hget hd hh
    refine h'.timeouts domain slot ?_ (hd.trans he.symm) hh
    exact h.timeouts domain slot hget hd (h'.height.trans_lt hh)
  · intro view hv
    rcases h'.accepted view hv with hold | hnew
    · exact h.accepted view hold
    · exact .inr fun qc hqc => hre qc (hnew qc hqc)

/-- **What every message keeps.** -/
theorem process_frame (inv : AnchorInv C e.snapshot) (m : ConsensusMessage C) :
    MessageFrame e (e.process C m).2 := by
  rcases process_cases C e m with h | ⟨proof, e₁, c, -, hap, heq⟩
  · exact of_housekeeping inv h
  · have hk := afterCollect_housekeeping C e m
    have hf := of_housekeeping inv hk
    have hr : ∀ qc, (e.afterCollect C m).snapshot.Certifies qc → e.snapshot.Certifies qc := by
      intro qc hqc
      rw [hk.snapshot] at hqc
      exact hqc
    have hw : MessageFrame e e₁ := by
      rcases applyCertificate_cases hap with rfl | ⟨s, anchor, hnew, he⟩
      · exact hf
      · exact hf.trans (of_newBlock (inv.housekeeping hk) hnew he) hr
    rw [heq]
    exact ⟨hw.genesis, hw.context, hw.members, hw.rounds, hw.height,
      hw.timeouts, hw.known, hw.accepted⟩

end Frame

end ActiveChain
