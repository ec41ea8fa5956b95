import ActiveChain.Consensus.FinalizedChain
import ActiveChain.Consensus.Service

/-!
# What a validator never signs

Every vote and timeout vote that left a node stays guarded by each state the node could continue
from, in memory or on disk: either the context has moved on for good, or the records still forbid
what would contradict it.

* `vote_guarded`, `timeout_guarded` — a new signature is guarded and contradicts no older one.
-/

namespace ActiveChain

open ValidatorEngine Except List SortedMap ConsensusBlockRef ValidatorNode ConsensusState

/-! ## Guards -/

/-- The order in which contexts succeed each other. -/
def ConsensusVoteContext.rank (c : ConsensusVoteContext) : Nat ×ₗ Nat :=
  toLex (c.epoch, c.protocolRevision)

def voteDomainOf (validator : PrincipalId) (c : ConsensusVoteContext) : LocalVoteDomain :=
  ⟨validator, c.genesisCommitment, c.epoch, c.validatorSetRoot, c.protocolRevision⟩

section

variable (validator : PrincipalId) (p : PersistedValidatorState) (v : ValidatorVote)

/-- The highest vote of the domain is in a later round, or in the same round for the same
proposal. -/
def Covered : Prop :=
  ∃ highest, p.highestVotedRounds.get? (voteDomainOf validator v.context) = some highest ∧
    v.round ≤ highest.round ∧ (v.round = highest.round →
      v.height = highest.height ∧ v.proposalCommitment = highest.proposalCommitment)

/-- A state from which the vote cannot be contradicted. -/
def VoteGuard : Prop :=
  v.context.rank < p.consensus.contextRank ∨ (p.InDomain v.context ∧ Covered validator p v)

/-- The timeout is recorded until its height is finalized, and the certificate it names is the
recorded one wherever it can be named again. -/
structure Recorded (t : TimeoutVote) : Prop where
  slot : t.height ≤ p.consensus.finalizedHeight ∨
    p.timeoutLocks.get? (timeoutDomain validator t.context t.height t.timedOutRound) =
      some (timeoutSlot t.height t.timedOutRound t.parent t.highestQc)
  known : ∀ qc ∈ t.highestQc, p.Known qc
  view : ∀ view ∈ p.acceptedViewChange, ∀ qc ∈ t.highestQc, ∀ qc' ∈ view.highestQc,
    qc'.blockRef = qc.blockRef → qc' = qc

/-- A state from which the timeout vote cannot be contradicted. -/
def TimeoutGuard (t : TimeoutVote) : Prop :=
  t.context.rank < p.consensus.contextRank ∨ (p.InDomain t.context ∧ Recorded validator p t)

end

open ConsensusVoteContext

section Guards

variable {C : Crypto} {e e' : ValidatorEngine} {validator : PrincipalId} {v : ValidatorVote}
  {t : TimeoutVote}

variable {c : ConsensusVoteContext}

theorem rank_of_inDomain {p : PersistedValidatorState} (h : p.InDomain c) :
    c.rank = p.consensus.contextRank := by
  unfold rank contextRank
  rw [h.2.1, h.2.2.2]

theorem rank_lt_of_upgrade {s : ConsensusState} {a : ConsensusUpgradeAuthorization}
    {handoff : ConsensusBlockRef} (h : e.state.applyUpgradeAfterCertifiedBlock a handoff = .ok s)
    (hc : c.rank < e.state.contextRank ∨ e.snapshot.InDomain c) : c.rank < s.contextRank := by
  have hlt : e.state.contextRank < s.contextRank := (applyUpgrade_spec h).2.2.2.2.2.2.2.2.2.2
  rcases hc with hc | hc
  · exact hc.trans hlt
  · have hr : c.rank = e.state.contextRank := rank_of_inDomain hc
    rwa [hr]

theorem MessageFrame.rank (h : MessageFrame e e') : e'.state.contextRank = e.state.contextRank := by
  unfold contextRank
  rw [h.context.1, h.context.2.2]

theorem recordHighest_covers {n : VotedRounds}
    {domain domain' : LocalVoteDomain} {vote highest : HighestVotedRound}
    (h : n.get? domain = some highest) :
    ∃ highest', (recordHighest n domain' vote).get? domain = some highest' ∧
      (highest' = highest ∨ highest.round < highest'.round) := by
  unfold recordHighest
  split
  · rename_i hl
    rw [get?_insert]
    split
    · rename_i heq
      subst heq
      exact ⟨vote, rfl, .inr (hl highest h)⟩
    · exact ⟨highest, h, .inl rfl⟩
  · exact ⟨highest, h, .inl rfl⟩

variable {act : EngineAct C}

/-- **The invariant rule for guards.** What is required of the states of a context has to be kept by
messages and by signing; an upgrade leaves the context behind. -/
theorem guard_step {R : PersistedValidatorState → Prop} (inv : AnchorInv C e.snapshot)
    (h : c.rank < e.snapshot.consensus.contextRank ∨ e.snapshot.InDomain c ∧ R e.snapshot)
    (hs : EngineStep C e act e')
    (hm : ∀ m, e.snapshot.InDomain c → R e.snapshot → R (e.process C m).2.snapshot)
    (hv : ∀ v p e', e.prepareCurrentVote C v = .ok (p, e') → R e.snapshot → R e'.snapshot)
    (ht : ∀ v height round p e', e.prepareTimeoutVote v height round = .ok (p, e') → R e.snapshot
      → R e'.snapshot) :
    c.rank < e'.snapshot.consensus.contextRank ∨ e'.snapshot.InDomain c ∧ R e'.snapshot := by
  cases hs with
  | message m =>
    have hf := process_frame inv m
    exact h.imp (fun hra => hra.trans_eq hf.rank.symm) fun ⟨hd, hr⟩ =>
      ⟨(inDomain_congr hf.genesis hf.context.1 hf.context.2.1 hf.context.2.2 _).2 hd, hm m hd hr⟩
  | vote hp =>
    have hr := hv _ _ _ hp
    obtain ⟨_, col, locks, -, -, -, -, rfl⟩ := prepareCurrentVote_cases hp
    exact h.imp id fun ⟨hd, hold⟩ => ⟨hd, hr hold⟩
  | timeout hp =>
    have hr := ht _ _ _ _ _ hp
    obtain ⟨_, _, -, -, -, -, rfl⟩ := prepareTimeoutVote_cases hp
    exact h.imp id fun ⟨hd, hold⟩ => ⟨hd, hr hold⟩
  | validatorSet hac =>
    obtain ⟨_, _, _, -, hu, -, -, rfl⟩ := activateValidatorSet_cases hac
    exact .inl (rank_lt_of_upgrade hu (h.imp id And.left))
  | protocol hac =>
    obtain ⟨_, _, -, hu, -, rfl⟩ := activateProtocolUpgrade_cases hac
    exact .inl (rank_lt_of_upgrade hu (h.imp id And.left))
  | restart hre => exact restoreEngine_snapshot hre ▸ h

theorem VoteGuard.step (inv : AnchorInv C e.snapshot) (h : VoteGuard validator e.snapshot v)
    (hs : EngineStep C e act e') : VoteGuard validator e'.snapshot v := by
  refine guard_step (R := (Covered validator · v)) inv h hs ?_ ?_ ?_
  · rintro m - ⟨highest, hget, hle⟩
    exact ⟨highest, (congrArg (get? · _) (process_frame inv m).rounds).trans hget, hle⟩
  · rintro _ _ _ hp ⟨highest, hget, hle, heq⟩
    obtain ⟨_, c, locks, -, -, -, -, rfl⟩ := prepareCurrentVote_cases hp
    obtain ⟨highest', hget', hca⟩ := recordHighest_covers hget
    refine ⟨highest', hget', ?_⟩
    rcases hca with rfl | hlt
    · exact ⟨hle, heq⟩
    · exact ⟨hle.trans hlt.le, fun h => absurd h (hle.trans_lt hlt).ne⟩
  · intro _ _ _ _ _ hp hc
    obtain ⟨_, _, -, -, -, -, rfl⟩ := prepareTimeoutVote_cases hp
    exact hc

theorem recordTimeoutLock_get {locks locks' : TimeoutLocks}
    {domain : LocalTimeoutDomain} {slot : TimeoutSlot}
    (h : recordTimeoutLock locks domain slot = .ok locks') :
    locks'.get? domain = some slot ∧ (∀ slot', locks.get? domain = some slot' → slot' = slot) ∧
      ∀ domain' slot', locks.get? domain' = some slot' → locks'.get? domain' = some slot' := by
  unfold recordTimeoutLock at h
  split at h
  · rename_i existing hget
    simp only [inversion] at h
    obtain ⟨rfl, rfl⟩ := h
    refine ⟨hget, fun slot' hs' => ?_, fun _ _ h => h⟩
    rw [hget] at hs'
    exact (Option.some.inj hs').symm
  · rename_i hn
    simp only [inversion] at h
    obtain ⟨-, rfl⟩ := h
    refine ⟨get?_insert_self _ _ _, fun slot' hs' => ?_, fun domain' slot' hget => ?_⟩
    · rw [hn] at hs'
      cases hs'
    · rw [get?_insert_ne _ _ ?_, hget]
      rintro rfl
      rw [hn] at hget
      cases hget

theorem Recorded.message (inv : AnchorInv C e.snapshot) (hd : e.snapshot.InDomain t.context)
    (h : Recorded validator e.snapshot t) (m : ConsensusMessage C) :
    Recorded validator (e.process C m).2.snapshot t := by
  have hf := process_frame inv m
  refine ⟨?_, fun qc hqc => hf.known qc (h.known qc hqc), ?_⟩
  · rcases h.slot with hle | hs
    · exact .inl (hle.trans hf.height)
    · by_cases hopen : (e.process C m).2.state.finalizedHeight < t.height
      · exact .inr (hf.timeouts _ _ hs hd.2.1 hopen)
      · exact .inl (not_lt.1 hopen)
  · intro view hvi qc hqc qc' hqc' href
    rcases hf.accepted view hvi with hold | hv
    · exact h.view view hold qc hqc qc' hqc' href
    · -- the newly accepted view change names a recorded certificate, one height above the anchor
      have hc := hv qc' hqc'
      have hhe : qc'.height = e.activeAnchor.height + 1 := inv.certified_height hc
      have hh : qc'.height = qc.height := congrArg height href
      rcases h.known qc hqc with hle | hce
      · change qc.height ≤ e.activeAnchor.height at hle
        omega
      · exact hc.unique hce (congrArg proposalCommitment href)

theorem TimeoutGuard.step (inv : AnchorInv C e.snapshot) (h : TimeoutGuard validator e.snapshot t)
    (hst : EngineStep C e act e') : TimeoutGuard validator e'.snapshot t := by
  refine guard_step (R := (Recorded validator · t)) inv h hst ?_ ?_ ?_
  · exact fun m hd hr => hr.message inv hd m
  · rintro _ _ _ hp ⟨hs, hk, hv⟩
    obtain ⟨_, c, locks, -, -, -, -, rfl⟩ := prepareCurrentVote_cases hp
    exact ⟨hs, hk, hv⟩
  · rintro _ _ _ _ _ hp ⟨hs, hk, hv⟩
    obtain ⟨_, locks, -, -, hl, -, rfl⟩ := prepareTimeoutVote_cases hp
    obtain ⟨-, -, hke⟩ := recordTimeoutLock_get hl
    exact ⟨hs.imp id (hke _ _), hk, hv⟩

end Guards

/-! ## New signatures -/

section Signing

variable {C : Crypto} {e e' : ValidatorEngine} {validator : PrincipalId} {key : PublicKey}

variable {c : ConsensusVoteContext}

theorem newWithRevision_fields {genesis : Digest384} {epoch : Nat} {root : Digest384}
    {revision : Nat} (h : newWithRevision genesis epoch root revision = .ok c) :
    c.genesisCommitment = genesis ∧ c.epoch = epoch ∧ c.validatorSetRoot = root ∧
      c.protocolRevision = revision := by
  unfold newWithRevision at h
  split at h
  · cases h
    exact ⟨rfl, rfl, rfl, rfl⟩
  · cases h

theorem consensusContext_inDomain (h : e.consensusContext = .ok c) : e.snapshot.InDomain c := by
  unfold consensusContext at h
  rw [mapError_eq_ok] at h
  exact newWithRevision_fields h

/-- What a signed vote says. -/
structure VoteOf (C : Crypto) (validator : PrincipalId) (proposal : BlockProposal)
    (v : ValidatorVote) : Prop where
  validator : v.validator = validator
  context : v.context = proposal.context
  height : v.height = proposal.height
  round : v.round = proposal.round
  digest : v.blockDigest = proposal.blockDigest
  commitment : v.proposalCommitment = proposal.commitment C

variable {p : PreparedVote} {v : ValidatorVote}

theorem signPreparedVote_voteOf (hg : p.genesisCommitment = e.genesisCommitment)
    (hro : p.validatorSetRoot = e.state.validatorSetRoot)
    (hr : p.protocolRevision = e.state.protocolRevision) (hd : e.InDomain p.proposal.context)
    (hs : signPreparedVote C validator key p = .ok v) : VoteOf C validator p.proposal v := by
  simp only [signPreparedVote, inversion] at hs
  obtain ⟨context, hc, hnew⟩ := hs
  obtain ⟨h₁, h₂, h₃, h₄⟩ := newWithRevision_fields hc
  obtain ⟨d₁, -, d₃, d₄⟩ := hd
  unfold ValidatorVote.new at hnew
  split at hnew
  · split at hnew
    · cases hnew
      refine ⟨rfl, ConsensusVoteContext.ext ?_ h₂ ?_ ?_, rfl, rfl, rfl, rfl⟩
      · rw [h₁, hg, d₁]
      · rw [h₃, hro, d₃]
      · rw [h₄, hr, d₄]
    · cases hnew
  · cases hnew

theorem vote_guarded {P : ValidatorVote → Prop} (hcol : CollectorsHold C P e)
    (hp : e.prepareCurrentVote C validator = .ok (p, e'))
    (hsi : signPreparedVote C validator key p = .ok v) :
    VoteOf C validator p.proposal v ∧ VoteGuard validator e'.snapshot v ∧
    ∀ older : ValidatorVote, VoteGuard validator e.snapshot older → older.context = v.context →
      older.round ≤ v.round ∧ (older.round = v.round →
        older.height = v.height ∧ older.proposalCommitment = v.proposalCommitment) := by
  obtain ⟨_, c, locks, hget, -, hh, rfl, rfl⟩ := prepareCurrentVote_cases hp
  have hdo := (hcol _ _ hget).2.1
  have hvo := signPreparedVote_voteOf rfl rfl rfl hdo hsi
  have ⟨_, hcon, hhe, hr, _, hco⟩ := hvo
  have hkey : voteDomainOf validator v.context = e.voteDomain validator c.proposal := by
    rw [hcon]
    obtain ⟨d₁, -, d₃, d₄⟩ := hdo
    unfold voteDomainOf voteDomain
    rw [d₁, d₃, d₄]
  have hv : e.snapshot.InDomain v.context := hcon ▸ hdo
  -- what the comparison with the highest vote allows
  have hch : ∀ highest, e.highestVotedRounds.get? (voteDomainOf validator v.context) =
      some highest → highest.round ≤ v.round ∧ (v.round = highest.round →
        v.height = highest.height ∧ v.proposalCommitment = highest.proposalCommitment) := by
    intro highest hs
    rw [hkey] at hs
    rw [hs] at hh
    simp only [checkHighestVoted, inversion, not_lt, not_and] at hh
    rw [hr, hhe, hco]
    exact hh
  refine ⟨hvo, .inr ⟨hv, ?_⟩, ?_⟩
  · rw [← hkey]
    unfold recordHighest
    split
    · refine ⟨_, get?_insert_self _ _ _, ?_, ?_⟩
      · rw [hr]
      · intro _
        exact ⟨hhe, hco⟩
    · rename_i hexists
      push Not at hexists
      obtain ⟨highest, hs, hle⟩ := hexists
      rw [← hr] at hle
      exact ⟨highest, hs, hle, (hch highest hs).2⟩
  · intro older hg hsa
    have hcu : Covered validator e.snapshot older := by
      rcases hg with hra | ⟨-, hcov⟩
      · rw [hsa, rank_of_inDomain hv] at hra
        exact absurd hra (lt_irrefl _)
      · exact hcov
    obtain ⟨highest, hs, hle, heq⟩ := hcu
    rw [hsa] at hs
    obtain ⟨hle', heq'⟩ := hch highest hs
    refine ⟨hle.trans hle', fun hro => ?_⟩
    have h₁ : older.round = highest.round := by omega
    have h₂ : v.round = highest.round := by omega
    obtain ⟨ha, hb⟩ := heq h₁
    obtain ⟨hc, hd⟩ := heq' h₂
    exact ⟨ha.trans hc.symm, hb.trans hd.symm⟩

section

variable (inv : AnchorInv C e.snapshot)
include inv

theorem preferredJustification_cases :
    (∃ view, e.acceptedViewChange = some view ∧ e.preferredJustification = .viewChange view) ∨
    (e.acceptedViewChange = none ∧
      ((∃ qc, e.preferredJustification = .quorum qc ∧ e.snapshot.Certifies qc) ∨
        e.preferredJustification = .finalized e.activeAnchor)) := by
  unfold preferredJustification
  cases e.acceptedViewChange with
  | some view => exact .inl ⟨view, rfl, rfl⟩
  | none =>
    refine .inr ⟨rfl, ?_⟩
    simp only
    split
    · rename_i record hmax
      obtain ⟨c, hget⟩ := mem_values.1 (mem_filter.1 (mem_of_maxByKey? hmax)).1
      refine .inl ⟨_, rfl, record, ?_, rfl⟩
      rw [(inv.record _ _ hget).key]
      exact hget
    · exact .inr rfl

theorem finalizedHeight_lt_of_preferred {height : Nat}
    (h : checkedAdd 64 e.preferredJustification.parent.height 1 = some height) :
    e.state.finalizedHeight < height := by
  have hh : height = e.preferredJustification.parent.height + 1 := (checkedAdd_eq_some.1 h).1
  have hle : e.state.finalizedHeight ≤ e.activeAnchor.height := inv.finalized_le
  rcases preferredJustification_cases inv with ⟨view, hac, hj⟩ | ⟨-, ⟨qc, hj, hqc⟩ | hj⟩
  · rw [hj] at hh
    have hlt : e.state.finalizedHeight < view.height := (inv.accepted view hac).1
    change height = view.parent.height + 1 at hh
    rwa [hh, view.parent_height]
  · rw [hj] at hh
    have hqc : qc.height = e.activeAnchor.height + 1 := inv.certified_height hqc
    change height = qc.height + 1 at hh
    omega
  · rw [hj] at hh
    change height = e.activeAnchor.height + 1 at hh
    omega

variable {t : TimeoutVote}

theorem preferred_certificate_unique {qc qc' : QuorumCertificate}
    (h : Recorded validator e.snapshot t) (hqc : qc ∈ t.highestQc)
    (hqc' : qc' ∈ e.preferredJustification.certificate) (href : qc'.blockRef = qc.blockRef) :
    qc' = qc := by
  rcases preferredJustification_cases inv with ⟨view, hac, hj⟩ | ⟨-, ⟨q, hj, hq⟩ | hj⟩
  · rw [hj] at hqc'
    exact h.view view hac qc hqc qc' hqc' href
  · rw [hj] at hqc'
    cases hqc'
    have hhe : qc'.height = e.activeAnchor.height + 1 := inv.certified_height hq
    have hh : qc'.height = qc.height := congrArg height href
    rcases h.known qc hqc with hle | hc
    · change qc.height ≤ e.activeAnchor.height at hle
      omega
    · exact hq.unique hc (congrArg proposalCommitment href)
  · rw [hj] at hqc'
    cases hqc'

theorem preferred_recorded (hh : t.highestQc = e.preferredJustification.certificate)
    {locks : TimeoutLocks}
    (hs : locks.get? (timeoutDomain validator t.context t.height t.timedOutRound) = some
      (timeoutSlot t.height t.timedOutRound t.parent t.highestQc)) :
    Recorded validator { e with timeoutLocks := locks }.snapshot t := by
  rcases preferredJustification_cases inv with ⟨view, hac, hj⟩ | ⟨hn, hc⟩
  · rw [hj] at hh
    refine ⟨.inr hs, ?_, ?_⟩
    · rw [hh]
      exact (inv.accepted view hac).2
    · intro view' hv' qc hqc qc' hqc' _
      cases hac.symm.trans hv'
      rw [hh] at hqc
      exact Option.some.inj (hqc'.symm.trans hqc)
  · refine ⟨.inr hs, ?_, fun view hv => ?_⟩
    · rw [hh]
      intro qc hqc
      rcases hc with ⟨q, hj, hq⟩ | hj
      · rw [hj] at hqc
        cases hqc
        exact .inr hq
      · rw [hj] at hqc
        cases hqc
    · cases hn.symm.trans hv

end

variable {t : TimeoutVote}

theorem signTimeoutVote_fields {p : PreparedTimeout}
    (h : signTimeoutVote C validator key p = .ok t) :
    t.validator = validator ∧ t.context = p.context ∧ t.height = p.height ∧
      t.timedOutRound = p.round ∧ t.parent = p.parent ∧
      t.highestQc = p.highestQc := by
  simp only [signTimeoutVote, mapError_eq_ok] at h
  unfold TimeoutVote.new at h
  split_ifs at h
  cases h
  exact ⟨rfl, rfl, rfl, rfl, rfl, rfl⟩

/-- The block of a highest certificate is never the zero digest, so the slot tells whether there is
one. -/
theorem timeoutSlot_eq_cases {t' : TimeoutVote}
    (h : timeoutSlot t.height t.timedOutRound t.parent t.highestQc = timeoutSlot t'.height
      t'.timedOutRound t'.parent t'.highestQc) :
    t.parent = t'.parent ∧ ((t.highestQc = none ∧ t'.highestQc = none) ∨
      ∃ qc ∈ t.highestQc, ∃ qc' ∈ t'.highestQc, qc'.blockRef = qc.blockRef) := by
  have hp : t.parent = t'.parent := congrArg (·.parent) h
  have hqc := congrArg (·.highestQc) h
  refine ⟨hp, ?_⟩
  cases hq : t.highestQc with
  | none =>
    cases hq' : t'.highestQc with
    | none => exact .inl ⟨rfl, rfl⟩
    | some qc' =>
      rw [hq, hq'] at hqc
      exact absurd hqc.symm qc'.bound.2.2.1
  | some qc =>
    cases hq' : t'.highestQc with
    | none =>
      rw [hq, hq'] at hqc
      exact absurd hqc qc.bound.2.2.1
    | some qc' =>
      refine .inr ⟨qc, rfl, qc', rfl, ?_⟩
      rw [(t'.highest qc' hq').2.2.2, (t.highest qc hq).2.2.2, hp]

theorem timeout_guarded (inv : AnchorInv C e.snapshot) {height round : Nat} {p : PreparedTimeout}
    (hpr : e.prepareTimeoutVote validator height round = .ok (p, e'))
    (hs : signTimeoutVote C validator key p = .ok t) :
    t.validator = validator ∧ TimeoutGuard validator e'.snapshot t ∧
    ∀ older : TimeoutVote, TimeoutGuard validator e.snapshot older → older.context = t.context →
      older.height = t.height → older.timedOutRound = t.timedOutRound →
      older.parent = t.parent ∧ older.highestQc = t.highestQc := by
  obtain ⟨context, locks, hcon, hhei, hl, rfl, rfl⟩ := prepareTimeoutVote_cases hpr
  obtain ⟨hv, hc, hh, hr, hp, hq⟩ := signTimeoutVote_fields hs
  dsimp only at hc hh hr hp hq
  have hd : e.snapshot.InDomain t.context := hc ▸ consensusContext_inDomain hcon
  rw [← hc, ← hh, ← hr, ← hp, ← hq] at hl
  obtain ⟨hsl, hexisting, -⟩ := recordTimeoutLock_get hl
  refine ⟨hv, .inr ⟨hd, preferred_recorded inv hq hsl⟩, ?_⟩
  intro older hg hco hhe hro
  have hre : Recorded validator e.snapshot older := by
    rcases hg with hra | ⟨-, hre⟩
    · rw [hco, rank_of_inDomain hd] at hra
      exact absurd hra (lt_irrefl _)
    · exact hre
  have hopen : e.state.finalizedHeight < older.height := by
    rw [hhe, hh]
    exact finalizedHeight_lt_of_preferred inv hhei
  have hold := hre.slot.resolve_left (not_le.2 hopen)
  have hkey : timeoutDomain validator older.context older.height older.timedOutRound =
      timeoutDomain validator t.context t.height t.timedOutRound := by
    rw [hco, hhe, hro]
  rw [hkey] at hold
  obtain ⟨hpa, ⟨hn, hn'⟩ | ⟨qc, hqc, qc', hqc', href⟩⟩ := timeoutSlot_eq_cases (hexisting _ hold)
  · exact ⟨hpa, hn.trans hn'.symm⟩
  · have heq := preferred_certificate_unique inv hre hqc (hq ▸ hqc') href
    rw [heq] at hqc'
    exact ⟨hpa, hqc.trans hqc'.symm⟩

end Signing

/-! ## Nodes -/

/-- A later vote of a context is in a later round, or repeats the proposal. -/
def VoteFollows (later earlier : SignedVote) : Prop :=
  earlier.vote.context = later.vote.context → earlier.vote.round ≤ later.vote.round ∧
    (earlier.vote.round = later.vote.round → earlier.vote.height = later.vote.height ∧
        earlier.vote.proposalCommitment = later.vote.proposalCommitment)

/-- Timeout votes for one view name the same parent and the same certificate. -/
def TimeoutAgrees (later earlier : TimeoutVote) : Prop :=
  earlier.context = later.context → earlier.height = later.height →
    earlier.timedOutRound = later.timedOutRound →
    earlier.parent = later.parent ∧ earlier.highestQc = later.highestQc

/-- What every node satisfies: each state it could continue from guards all it has signed. -/
structure NodeInv (C : Crypto) (n : ValidatorNode) : Prop where
  shape : ∀ p, n.Holds p → AnchorInv C p
  collectors : ∀ e ∈ n.memory, CollectorsHold C (fun _ => True) e
  voteGuard : ∀ p, n.Holds p → ∀ s ∈ n.votes, VoteGuard n.validator p s.vote
  timeoutGuard : ∀ p, n.Holds p → ∀ t ∈ n.timeouts, TimeoutGuard n.validator p t
  unsaved : n.disk = none → n.votes = [] ∧ n.timeouts = []
  votes : ∀ s ∈ n.votes, VoteOf C n.validator s.proposal s.vote
  timeouts : ∀ t ∈ n.timeouts, t.validator = n.validator
  ordered : n.votes.Pairwise VoteFollows
  agree : n.timeouts.Pairwise TimeoutAgrees

section Nodes

variable {C : Crypto} {n n' : ValidatorNode} {op : NodeOp C}

theorem NodeInv.fresh (v : PrincipalId) (key : PublicKey) (genesis : ValidatorGenesis) :
    NodeInv C (ValidatorNode.fresh v key genesis) := by
  have hh : ∀ p, ¬ (ValidatorNode.fresh v key genesis).Holds p := by
    rintro p (h | ⟨e, h, -⟩) <;> cases h
  exact ⟨fun p h => absurd h (hh p), fun e h => (by cases h), fun p h => absurd h (hh p),
    fun p h => absurd h (hh p), fun _ => ⟨rfl, rfl⟩, fun s h => (by cases h),
    fun t h => (by cases h), List.Pairwise.nil, List.Pairwise.nil⟩

theorem AnchorInv.fresh {manifest : ValidatorGenesis} {e : ValidatorEngine}
    (h : restoreEngine C manifest none = .ok e) : AnchorInv C e.snapshot := by
  obtain ⟨s, set, hs, -, hnew⟩ := restoreEngine_fresh h
  exact AnchorInv.start (ConsensusState.WellFormed.fresh hs) hnew

section

variable (inv : NodeInv C n)
include inv

/-- What an operation keeps, whatever it signs: the shape, the collectors, and the guards of all
that was signed before. -/
theorem NodeInv.kept (op : NodeOp C) :
    (∀ p, (n.exec C op).Holds p → AnchorInv C p) ∧
    (∀ e ∈ (n.exec C op).memory, CollectorsHold C (fun _ => True) e) ∧
    (∀ p, (n.exec C op).Holds p → ∀ s ∈ n.votes, VoteGuard n.validator p s.vote) ∧
    ∀ p, (n.exec C op).Holds p → ∀ t ∈ n.timeouts, TimeoutGuard n.validator p t := by
  refine ⟨?_, fun e' he' => ?_, ?_, ?_⟩
  · exact n.exec_carry op inv.shape (fun e e' ⟨_, a, _, hst⟩ _ hp => hp.step hst)
      fun _ e hr => AnchorInv.fresh hr
  · rcases n.exec_memory op e' he' with hold | ⟨e, hmem, a, -, hst⟩ | ⟨manifest, -, hr⟩
    · exact inv.collectors e' hold
    · exact (inv.collectors e hmem).step hst fun _ _ => trivial
    · exact CollectorsHold.of_empty (restoreEngine_members hr).2.2.2
  · refine n.exec_carry op inv.voteGuard (fun e e' ⟨_, a, _, hst⟩ hh hp s hs => ?_)
      fun hn e _ s hs => ?_
    · exact (hp s hs).step (inv.shape _ hh) hst
    · rw [(inv.unsaved hn).1] at hs
      cases hs
  · refine n.exec_carry op inv.timeoutGuard (fun e e' ⟨_, a, _, hst⟩ hh hp t ht => ?_)
      fun hn e _ t ht => ?_
    · exact (hp t ht).step (inv.shape _ hh) hst
    · rw [(inv.unsaved hn).2] at ht
      cases ht

/-- **Every operation keeps the invariant.** -/
theorem NodeInv.exec (op : NodeOp C) : NodeInv C (n.exec C op) := by
  obtain ⟨hsh, hc, hvo, hti⟩ := inv.kept op
  rcases n.exec_cases op with h | ⟨e, prepared, e', vote, hmem, hpr, hsig, h⟩ |
    ⟨e, height, round, prepared, e', vote, hmem, hpr, hsig, h⟩
  · obtain ⟨hv, -, -⟩ := h.identity
    obtain ⟨hsi, hs'⟩ := h.signed
    refine ⟨hsh, hc, ?_, ?_, fun hn => ?_, ?_, ?_, hsi ▸ inv.ordered, hs' ▸ inv.agree⟩
    · rw [hsi, hv]
      exact hvo
    · rw [hs', hv]
      exact hti
    · rw [hsi, hs']
      exact inv.unsaved (h.kept hn)
    · rw [hsi, hv]
      exact inv.votes
    · rw [hs', hv]
      exact inv.timeouts
  · have hh : n.Holds e.snapshot := .inr ⟨e, hmem, rfl⟩
    obtain ⟨hvot, hg, hf⟩ := vote_guarded (inv.collectors e hmem) hpr hsig
    rw [h] at hsh hc hvo hti ⊢
    refine ⟨hsh, hc, fun p hp => forall_mem_cons.2 ⟨?_, hvo p hp⟩, hti,
      fun hn => (by cases hn), forall_mem_cons.2 ⟨hvot, inv.votes⟩, inv.timeouts, ?_,
      inv.agree⟩
    · rw [holds_recorded rfl rfl hp]
      exact hg
    · exact pairwise_cons.2 ⟨fun s hs => hf s.vote (inv.voteGuard _ hh s hs), inv.ordered⟩
  · have hh : n.Holds e.snapshot := .inr ⟨e, hmem, rfl⟩
    obtain ⟨ho, hg, hag⟩ := timeout_guarded (inv.shape _ hh) hpr hsig
    rw [h] at hsh hc hvo hti ⊢
    refine ⟨hsh, hc, hvo, fun p hp => forall_mem_cons.2 ⟨?_, hti p hp⟩,
      fun hn => (by cases hn), inv.votes, forall_mem_cons.2 ⟨ho, inv.timeouts⟩,
      inv.ordered, ?_⟩
    · rw [holds_recorded rfl rfl hp]
      exact hg
    · exact pairwise_cons.2 ⟨fun t ht => hag t (inv.timeoutGuard _ hh t ht), inv.agree⟩

theorem NodeInv.run (ops : List (NodeOp C)) : NodeInv C (n.run C ops) := by
  induction ops generalizing n with
  | nil => exact inv
  | cons op rest ih => exact ih (inv.exec op)

theorem NodeInv.one_proposal : ∀ s ∈ n.votes, ∀ s' ∈ n.votes,
    s.vote.context = s'.vote.context → s.vote.round = s'.vote.round →
    s.vote.proposalCommitment = s'.vote.proposalCommitment := by
  let R (s s' : SignedVote) : Prop := s.vote.context = s'.vote.context →
    s.vote.round = s'.vote.round → s.vote.proposalCommitment = s'.vote.proposalCommitment
  have hsy : Std.Symm R := ⟨fun s s' h hc hr => (h hc.symm hr.symm).symm⟩
  have hR : n.votes.Pairwise R := inv.ordered.imp fun h hc hr =>
    ((h hc.symm).2 hr.symm).2.symm
  exact fun s hs s' hs' => hR.forall_of_forall (fun _ _ _ _ => rfl) hs hs'

theorem NodeInv.one_timeout : ∀ t ∈ n.timeouts, ∀ t' ∈ n.timeouts,
    t.context = t'.context → t.height = t'.height → t.timedOutRound = t'.timedOutRound →
    t.parent = t'.parent ∧ t.highestQc = t'.highestQc := by
  let R (t t' : TimeoutVote) : Prop := t.context = t'.context → t.height = t'.height →
    t.timedOutRound = t'.timedOutRound → t.parent = t'.parent ∧ t.highestQc = t'.highestQc
  have hs : Std.Symm R := ⟨fun t t' h hc hh hr =>
    (h hc.symm hh.symm hr.symm).imp Eq.symm Eq.symm⟩
  have hR : n.timeouts.Pairwise R := inv.agree.imp fun h hc hh hr =>
    (h hc.symm hh.symm hr.symm).imp Eq.symm Eq.symm
  exact fun t ht t' ht' => hR.forall_of_forall (fun _ _ _ _ _ => ⟨rfl, rfl⟩) ht ht'

end

end Nodes

/-- **No equivocation.** Whatever a validator does and suffers, in each context it signs votes for
one proposal per round, in rounds that never go back, and one timeout vote per height and round. -/
theorem no_equivocation {C : Crypto} (hash : Function.Injective C.shake256)
    (validator : PrincipalId) (key : PublicKey) (genesis : ValidatorGenesis)
    (ops : List (NodeOp C)) {n : ValidatorNode}
    (hn : n = (ValidatorNode.fresh validator key genesis).run C ops) :
    (∀ s ∈ n.votes, VoteOf C n.validator s.proposal s.vote) ∧
    (∀ s ∈ n.votes, ∀ s' ∈ n.votes, s.vote.context = s'.vote.context →
      s.vote.round = s'.vote.round → s.proposal = s'.proposal) ∧
    n.votes.Pairwise (fun later earlier => earlier.vote.context = later.vote.context →
      earlier.vote.round ≤ later.vote.round) ∧
    (∀ t ∈ n.timeouts, ∀ t' ∈ n.timeouts, t.context = t'.context → t.height = t'.height →
      t.timedOutRound = t'.timedOutRound → t.signingPayload = t'.signingPayload) := by
  have inv : NodeInv C n := hn ▸ (NodeInv.fresh validator key genesis).run ops
  refine ⟨inv.votes, ?_, inv.ordered.imp fun h hc => (h hc).1, ?_⟩
  · intro s hs s' hs' hc hr
    have hco := inv.one_proposal s hs s' hs' hc hr
    rw [(inv.votes s hs).commitment, (inv.votes s' hs').commitment] at hco
    exact BlockProposal.commitment_injective hash hco
  · intro t ht t' ht' hc hh hr
    obtain ⟨hp, hhi⟩ := inv.one_timeout t ht t' ht' hc hh hr
    unfold TimeoutVote.signingPayload
    rw [inv.timeouts t ht, inv.timeouts t' ht', hc, hh, hr, hp, hhi]

/-! ## One validator across an upgrade -/

namespace SoloChain

def firstProof : CertifiedBlock crypto := ⟨first, firstQc, [firstVote], by decide +kernel⟩

/-- Two blocks, a timeout at height `3`, the upgrade, and the same timeout again. -/
def upgradeRun : List (NodeOp crypto) :=
  [.start manifest, .deliver (.proposal first) .written .written, .signVote .written,
    .deliver (.vote firstVote) .written .written,
    .deliver (.proposal second) .written .written, .signVote .written,
    .deliver (.vote secondVote) .written .written, .timeout 3 2 .written,
    .activateProtocol upgrade firstProof .written, .timeout 3 2 .written]

def upgraded : ValidatorNode := (ValidatorNode.fresh 1 7 manifest).run crypto upgradeRun

theorem upgraded_votes : upgraded.votes.length = 2 ∧
    upgraded.votes.Pairwise (fun later earlier => earlier.vote.context = later.vote.context →
      earlier.vote.round ≤ later.vote.round) :=
  ⟨by decide +kernel, (no_equivocation Crypto.transparent_injective 1 7 manifest upgradeRun
    rfl).2.2.1⟩

/-- Without the context, one height and round can have two timeout votes: the upgrade keeps the
height and the round of the open view and starts a new context. -/
theorem timeout_repeated_after_upgrade : ∃ t ∈ upgraded.timeouts, ∃ t' ∈ upgraded.timeouts,
    t.height = t'.height ∧ t.timedOutRound = t'.timedOutRound ∧
      t.signingPayload ≠ t'.signingPayload := by
  decide +kernel

end SoloChain

end ActiveChain
