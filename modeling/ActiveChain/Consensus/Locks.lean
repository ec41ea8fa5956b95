import ActiveChain.Consensus.Equivocation

/-!
# What a vote for a direct child locks

A vote for a proposal justified directly by its parent's certificate locks that parent.  From then
on the validator votes, within the context, only above the parent: either the lock is still held
and forbids everything at the parent's height, or the anchor has reached it.

* `process_commits` — a message commits nothing, or the parent of the block it presents.
* `safety_iff` — what an engine accepts as the next proposal.
* `LockInv` — the invariant of a node; `later_vote_above` — **after a vote for a direct child, votes
  in later rounds are above the parent.**
-/

namespace ActiveChain

open ValidatorEngine BlockProposal ConsensusState Function

section Engine

variable {C : Crypto} {e e' : ValidatorEngine}

/-! ## Commitment -/

theorem process_commits (inv : AnchorInv C e.snapshot) (m : ConsensusMessage C) :
    ((e.process C m).2.activeAnchor = e.activeAnchor ∧
      (e.process C m).2.lockedQc = e.lockedQc ∧ (e.process C m).2.state = e.state) ∨
    ∃ proof qc, e.presentedProof C m = some proof ∧ QuorumVerified C e proof ∧
      e.InDomain proof.certificate.context ∧ proof.proposal.justification.certificate = some qc ∧
      e.snapshot.Certifies qc ∧ (e.process C m).2.activeAnchor = qc.blockRef ∧
      (e.process C m).2.state = e.state.committed qc := by
  rcases process_snapshot C e m with h | ⟨proof, s, anchor, hp, hnew, hsn⟩
  · have hs := h.snapshot
    exact .inl ⟨congrArg (·.activeAnchor) hs,
      congrArg (·.lockedQc) hs, congrArg (·.consensus) hs⟩
  · obtain ⟨hst, han, -⟩ :=
      insertCertified_frame e proof.proposal proof.certificate proof.votes s anchor
    have ha' := (congrArg (·.activeAnchor) hsn).trans han
    have hs' := (congrArg (·.consensus) hsn).trans hst
    rcases newBlock_cases inv hnew with
      ⟨-, -, rfl, rfl⟩ | ⟨qc, hqc, hc, -, -, rfl, rfl⟩
    · refine .inl ⟨ha', ?_, hs'⟩
      exact (congrArg (·.lockedQc) hsn).trans (sibling_records e proof).2
    · exact .inr ⟨proof, qc, hp, hnew.quorum, hnew.domain, hqc, hc, ha', hs'⟩

/-! ## The anchor's commitment -/

/-- A proposal that commits to the anchor has the anchor's height. -/
def AnchorFixed (C : Crypto) (p : PersistedValidatorState) : Prop :=
  ∀ proposal : BlockProposal, proposal.commitment C = p.activeAnchor.proposalCommitment →
    proposal.height = p.activeAnchor.height

theorem height_of_certifies (hash : Injective C.shake256) (inv : AnchorInv C e.snapshot)
    {qc : QuorumCertificate} (h : e.snapshot.Certifies qc) {p : BlockProposal}
    (hc : p.commitment C = qc.proposalCommitment) : p.height = qc.height := by
  obtain ⟨r, hget, rfl⟩ := h
  obtain ⟨-, -, hh, -, -, hb, -⟩ := (inv.record _ _ hget).binds
  rw [hb] at hc
  rw [commitment_injective hash hc, hh]

theorem AnchorFixed.fresh (hash : Injective C.shake256) {manifest : ValidatorGenesis}
    (h : restoreEngine C manifest none = .ok e) : AnchorFixed C e.snapshot := by
  obtain ⟨s, validatorSet, hs, -, hnew⟩ := restoreEngine_fresh h
  obtain ⟨-, -, han⟩ := new_fields hnew
  simp only [newWithConsensusContext, Except.inversion] at hs
  have hids := (activeAnchor_head han (by rw [← hs.2])).2.2
  have hz : s.finalizedHeight = 0 := by rw [← hs.2]
  rw [finalizedIds, if_pos hz] at hids
  intro p hc
  have hg : e.activeAnchor.proposalCommitment = manifest.genesisCommitment C := (Prod.mk.inj hids).2
  exact absurd (hc.trans hg) (commitment_ne_genesis hash _ _)

theorem AnchorFixed.step (hash : Injective C.shake256) (inv : AnchorInv C e.snapshot)
    (h : AnchorFixed C e.snapshot) {act : EngineAct C} (hs : EngineStep C e act e') :
    AnchorFixed C e'.snapshot := by
  -- a new anchor is the block of a recorded certificate
  have hm : ∀ qc, e.snapshot.Certifies qc → e'.activeAnchor = qc.blockRef →
      AnchorFixed C e'.snapshot := by
    intro qc hce han p hc
    change p.commitment C = e'.activeAnchor.proposalCommitment at hc
    show p.height = e'.activeAnchor.height
    rw [han] at hc ⊢
    exact height_of_certifies hash inv hce hc
  rcases hs.kinds with
    ⟨m, rfl, rfl⟩ | ⟨_, _, _, _, rfl⟩ | ⟨_, _, _, _, _, ⟨r, hmem, rfl⟩, -, rfl⟩ | ⟨_, hres⟩
  · rcases process_commits inv m with ⟨han, -, -⟩ | ⟨_, qc, -, -, -, -, hce, han, -⟩
    · intro p
      show _ = (e.process C m).2.activeAnchor.proposalCommitment → _ =
        (e.process C m).2.activeAnchor.height
      rw [han]
      exact h p
    · exact hm qc hce han
  · exact h
  · obtain ⟨c, hget⟩ := SortedMap.mem_values.1 hmem
    exact hm r.certificate ⟨r, (inv.record _ _ hget).key ▸ hget, rfl⟩ rfl
  · exact restoreEngine_snapshot hres ▸ h

/-! ## The guard -/

/-- A state from which nothing is voted at the height of a locked parent: the context has moved on,
the anchor has reached the parent, or a lock is held right above the anchor. -/
def LockGuard (p : PersistedValidatorState) (s : SignedVote) : Prop :=
  s.vote.context.rank < p.consensus.contextRank ∨
    (p.InDomain s.vote.context ∧ ∀ qc, s.proposal.justification = .quorum qc →
      qc.height ≤ p.activeAnchor.height ∨
        (qc.height = p.activeAnchor.height + 1 ∧ p.lockedQc ≠ none))

theorem nextLock_ne_none {locked : Option QuorumCertificate} {j : ProposalJustification}
    (h : locked ≠ none ∨ ∃ qc, j = .quorum qc) : nextLock locked j ≠ none := by
  unfold nextLock
  split
  · split
    · simp
    · rename_i hl
      rcases h with h | -
      · exact h
      · -- an empty lock is always replaced
        rintro rfl
        simp at hl
  · rename_i hj
    rcases h with h | ⟨qc, rfl⟩
    · exact h
    · exact absurd rfl (hj qc)

theorem LockGuard.step {s : SignedVote} (inv : AnchorInv C e.snapshot)
    (h : LockGuard e.snapshot s) {act : EngineAct C} (hs : EngineStep C e act e') :
    LockGuard e'.snapshot s := by
  refine guard_step (R := fun p => ∀ qc, s.proposal.justification = .quorum qc →
      qc.height ≤ p.activeAnchor.height ∨ qc.height = p.activeAnchor.height + 1 ∧ p.lockedQc ≠ none)
    inv h hs ?_ ?_ ?_
  · intro m hd hl qc hqc
    show qc.height ≤ (e.process C m).2.activeAnchor.height ∨ _ =
      (e.process C m).2.activeAnchor.height + 1 ∧ (e.process C m).2.lockedQc ≠ none
    rcases process_commits inv m with ⟨han, hlo, -⟩ |
      ⟨_, parentQc, -, -, -, -, hc, han, -⟩
    · rw [han, hlo]
      exact hl qc hqc
    · -- the new anchor is one higher, so it reaches whatever was locked
      left
      have hh : parentQc.height = e.activeAnchor.height + 1 := inv.certified_height hc
      rw [han]
      show qc.height ≤ parentQc.height
      rcases hl qc hqc with hle | ⟨heq, -⟩
      · change qc.height ≤ e.activeAnchor.height at hle
        omega
      · change qc.height = e.activeAnchor.height + 1 at heq
        omega
  · intro _ _ _ hp hl
    obtain ⟨_, c, _, -, -, -, -, rfl⟩ := prepareCurrentVote_cases hp
    exact fun qc hqc => (hl qc hqc).imp id fun ⟨heq, hne⟩ =>
      ⟨heq, nextLock_ne_none (.inl hne)⟩
  · intro _ _ _ _ _ hp hl
    obtain ⟨_, _, -, -, -, -, rfl⟩ := prepareTimeoutVote_cases hp
    exact hl

theorem isAncestorOrEqual_refl (c : Digest384) : e.isAncestorOrEqual c c = true := by
  rw [isAncestorOrEqual, walkToAncestor, if_pos rfl]

section

variable (inv : AnchorInv C e.snapshot) (fixed : AnchorFixed C e.snapshot)
include inv fixed

theorem AnchorFixed.not_recorded :
    e.certifiedBlocks.get? e.activeAnchor.proposalCommitment = none := by
  cases hget : e.certifiedBlocks.get? e.activeAnchor.proposalCommitment with
  | none => rfl
  | some r =>
    obtain ⟨hkey, hpa, hp, ⟨-, -, hh, -, -, hc, -⟩, -⟩ := inv.record _ _ hget
    have hs : r.proposal.height = e.activeAnchor.height := fixed _ (hc.symm.trans hkey)
    have hab : r.proposal.height = e.activeAnchor.height + 1 := by
      rw [r.proposal.height_eq, hp, hpa]
      rfl
    omega

/-- What a checked justification continues descends from the lock only if it is the locked block:
the walk from a recorded block ends at the anchor. -/
theorem extends_lock_iff {j : ProposalJustification} (hj : e.checkJustification C j = .ok ())
    {locked : QuorumCertificate} (hl : e.snapshot.Certifies locked) :
    e.isAncestorOrEqual locked.proposalCommitment j.parent.proposalCommitment = true ↔
      j.certificate = some locked := by
  have hn := fixed.not_recorded inv
  have hne : e.activeAnchor.proposalCommitment ≠ locked.proposalCommitment := by
    intro heq
    obtain ⟨r, hr, -⟩ := hl
    change e.certifiedBlocks.get? locked.proposalCommitment = some r at hr
    rw [← heq, hn] at hr
    cases hr
  have han : ∀ n, walkToAncestor e.certifiedBlocks locked.proposalCommitment n
      e.activeAnchor.proposalCommitment = false := by
    intro n
    cases n with
    | zero => rfl
    | succ n => rw [walkToAncestor, if_neg hne, hn]
  rcases justified_cases hj with ⟨hc, hp⟩ | ⟨qc, hc, hce, hp⟩
  · rw [hp, hc, isAncestorOrEqual, han]
    simp
  · rw [hp, hc, isAncestorOrEqual, walkToAncestor, Option.some.injEq]
    constructor
    · intro h
      split at h
      · exact hce.unique hl ‹_›
      · obtain ⟨r, hget, -⟩ := hce
        change e.certifiedBlocks.get? qc.blockRef.proposalCommitment = some r at hget
        rw [hget] at h
        simp only [(inv.record _ _ hget).parent] at h
        exact absurd h (by rw [show e.snapshot.activeAnchor = e.activeAnchor from rfl, han]; simp)
    · rintro rfl
      exact if_pos rfl

theorem safety_iff {p : BlockProposal} :
    e.verifyProposalSafety C p = .ok () ↔
      e.proposerAt p.round = some p.proposer ∧
      e.checkJustification C p.justification = .ok () ∧
      ∀ locked ∈ e.lockedQc, ∃ qc ∈ p.justification.certificate,
        qc = locked ∨ locked.round < qc.round := by
  simp only [verifyProposalSafety, Except.inversion, Bool.not_eq_false]
  refine and_congr_right fun _ => and_congr_right fun hj => ?_
  have han : e.isAncestorOrEqual e.activeAnchor.proposalCommitment
      p.parent.proposalCommitment = true := by
    rcases justified_cases hj with ⟨-, hp⟩ | ⟨qc, -, ⟨r, hget, rfl⟩, hp⟩
    · rw [parent, hp]
      exact isAncestorOrEqual_refl _
    · rw [parent, hp]
      have hw := isAncestorOrEqual_of_parent hget
      rwa [(inv.record _ _ hget).parent] at hw
  simp only [han, true_and, not_exists, not_and]
  refine forall_congr' fun locked => imp_congr_right fun hl => ?_
  rw [BreaksLock, ← Bool.not_eq_true, parent,
    extends_lock_iff inv fixed hj (inv.locked locked hl), not_and_or, not_not, not_not]
  constructor
  · rintro (h | ⟨qc, hqc, hlt⟩)
    · exact ⟨locked, h, .inl rfl⟩
    · exact ⟨qc, hqc, .inr hlt⟩
  · rintro ⟨qc, hqc, rfl | hlt⟩
    · exact .inl hqc
    · exact .inr ⟨qc, hqc, hlt⟩

theorem not_locked_of_safe {p : BlockProposal} (hs : e.verifyProposalSafety C p = .ok ())
    (hn : p.justification.certificate = none) : e.lockedQc = none := by
  cases hl : e.lockedQc with
  | none => rfl
  | some locked =>
    obtain ⟨qc, hqc, -⟩ := ((safety_iff inv fixed).1 hs).2.2 locked hl
    rw [hn] at hqc
    cases hqc

/-- **A new vote is guarded, and is above every parent an older vote locked.** -/
theorem vote_locked {P : ValidatorVote → Prop} (hc : CollectorsHold C P e) {validator : PrincipalId}
    {key : PublicKey} {p : PreparedVote} {v : ValidatorVote}
    (hpr : e.prepareCurrentVote C validator = .ok (p, e'))
    (hsi : signPreparedVote C validator key p = .ok v) :
    LockGuard e'.snapshot ⟨p.proposal, v⟩ ∧
    ∀ older : SignedVote, LockGuard e.snapshot older → older.vote.context = v.context →
      ∀ qc, older.proposal.justification = .quorum qc → qc.height < v.height := by
  obtain ⟨hv, -, -⟩ := vote_guarded hc hpr hsi
  obtain ⟨_, c, _, hget, hs, -, rfl, rfl⟩ := prepareCurrentVote_cases hpr
  have hd : e.snapshot.InDomain v.context := hv.context ▸ (hc _ _ hget).2.1
  have hce : ∀ qc, c.proposal.justification.certificate = some qc →
      qc.height = e.activeAnchor.height + 1 := by
    intro qc hqc
    rcases safety_cases hs with ⟨hn, -⟩ | ⟨qc', hqc', hcer, -⟩
    · rw [hn] at hqc
      cases hqc
    · rw [hqc'] at hqc
      cases hqc
      exact inv.certified_height hcer
  refine ⟨.inr ⟨hd, fun qc hqc => .inr ⟨?_, nextLock_ne_none (.inr ⟨qc, hqc⟩)⟩⟩, ?_⟩
  · exact hce qc (by rw [hqc]; rfl)
  · intro older hg hco qc hqc
    have hh : v.height = c.proposal.parent.height + 1 := hv.height.trans c.proposal.height_eq
    have hl : qc.height ≤ e.activeAnchor.height ∨
        (qc.height = e.activeAnchor.height + 1 ∧ e.lockedQc ≠ none) := by
      rcases hg with hr | ⟨-, hl⟩
      · rw [hco, rank_of_inDomain hd] at hr
        exact absurd hr (lt_irrefl _)
      · exact hl qc hqc
    rcases safety_cases hs with ⟨hn, hp⟩ | ⟨qc', hqc', -, hp⟩
    · rw [hp] at hh
      rcases hl with hle | ⟨-, hlo⟩
      · omega
      · exact absurd (not_locked_of_safe inv fixed hs hn) hlo
    · have hab := hce qc' hqc'
      rw [hp] at hh
      change v.height = qc'.height + 1 at hh
      omega

end

end Engine

/-! ## Nodes -/

/-- A later vote of a context is above every parent an earlier one locked. -/
def LockFollows (later earlier : SignedVote) : Prop :=
  earlier.vote.context = later.vote.context →
    ∀ qc, earlier.proposal.justification = .quorum qc → qc.height < later.vote.height

/-- Each state a node could continue from guards what its votes locked. -/
structure LockInv (C : Crypto) (n : ValidatorNode) : Prop where
  fixed : ∀ p, n.Holds p → AnchorFixed C p
  guard : ∀ p, n.Holds p → ∀ s ∈ n.votes, LockGuard p s
  above : n.votes.Pairwise LockFollows

section Nodes

variable {C : Crypto} {n n' : ValidatorNode} {op : NodeOp C}

theorem LockInv.fresh (v : PrincipalId) (key : PublicKey) (genesis : ValidatorGenesis) :
    LockInv C (ValidatorNode.fresh v key genesis) := by
  have hh : ∀ p, ¬ (ValidatorNode.fresh v key genesis).Holds p := by
    rintro p (h | ⟨e, h, -⟩) <;> cases h
  exact ⟨fun p h => absurd h (hh p), fun p h => absurd h (hh p), List.Pairwise.nil⟩

theorem LockInv.exec (hash : Injective C.shake256) (node : NodeInv C n)
    (inv : LockInv C n) (op : NodeOp C) : LockInv C (n.exec C op) := by
  have hf : ∀ p, (n.exec C op).Holds p → AnchorFixed C p := n.exec_carry op inv.fixed
      (fun e e' ⟨_, a, _, hst⟩ hh hp => hp.step hash (node.shape _ hh) hst)
      fun _ e hr => AnchorFixed.fresh hash hr
  have hg : ∀ p, (n.exec C op).Holds p → ∀ s ∈ n.votes, LockGuard p s := by
    refine n.exec_carry op inv.guard (fun e e' ⟨_, a, _, hst⟩ hh hp s hs => ?_)
      fun hn e _ s hs => ?_
    · exact (hp s hs).step (node.shape _ hh) hst
    · rw [(node.unsaved hn).1] at hs
      cases hs
  rcases n.exec_cases op with h | ⟨e, prepared, e', vote, hmem, hpr, hsi, h⟩ |
    ⟨_, _, _, _, _, _, -, -, -, h⟩
  · exact ⟨hf, h.signed.1 ▸ hg, h.signed.1 ▸ inv.above⟩
  · have hh : n.Holds e.snapshot := .inr ⟨e, hmem, rfl⟩
    obtain ⟨hgu, hab⟩ := vote_locked (node.shape _ hh) (inv.fixed _ hh)
      (node.collectors e hmem) hpr hsi
    rw [h] at hf hg ⊢
    refine ⟨hf, fun p hp => List.forall_mem_cons.2 ⟨?_, hg p hp⟩,
      List.pairwise_cons.2 ⟨fun s hs => hab s (inv.guard _ hh s hs), inv.above⟩⟩
    rw [ValidatorNode.holds_recorded rfl rfl hp]
    exact hgu
  · rw [h] at hf hg ⊢
    exact ⟨hf, hg, inv.above⟩

/-- **After a vote for a direct child, votes in later rounds are above the parent.** -/
theorem later_vote_above (node : NodeInv C n) (inv : LockInv C n) {s s' : SignedVote}
    (hs : s ∈ n.votes) (hs' : s' ∈ n.votes) (hc : s.vote.context = s'.vote.context)
    (hr : s.vote.round < s'.vote.round) {qc : QuorumCertificate}
    (hqc : s.proposal.justification = .quorum qc) : qc.height < s'.vote.height := by
  let R (a b : SignedVote) : Prop := a.vote.context = b.vote.context →
    (a.vote.round < b.vote.round → ∀ qc, a.proposal.justification = .quorum qc →
      qc.height < b.vote.height) ∧
    (b.vote.round < a.vote.round → ∀ qc, b.proposal.justification = .quorum qc →
      qc.height < a.vote.height)
  have hsy : Std.Symm R := ⟨fun a b h hc => (h hc.symm).symm⟩
  have hR : n.votes.Pairwise R := by
    -- of two votes the one in the earlier round was signed first
    refine (node.ordered.and inv.above).imp ?_
    rintro later earlier ⟨hf, hl⟩ hc
    refine ⟨fun hlt => ?_, fun _ qc hqc => hl hc.symm qc hqc⟩
    exact absurd (hf hc.symm).1 (not_le.2 hlt)
  have hre : ∀ x ∈ n.votes, R x x := fun x _ _ =>
    ⟨fun h => absurd h (lt_irrefl _), fun h => absurd h (lt_irrefl _)⟩
  exact (hR.forall_of_forall hre hs hs' hc).1 hr qc hqc

end Nodes

end ActiveChain
