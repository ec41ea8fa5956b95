import ActiveChain.Consensus.Reachable

/-!
# What an engine builds on

A timeout vote and the next proposal both continue the preferred justification: an accepted view
change if there is one, whatever was certified since.
-/

namespace ActiveChain

open Function ValidatorEngine Except Option SortedMap

/-! ## What was verified -/

section

variable (C : Crypto) (e : ValidatorEngine)

/-- The proposer's signature and the votes of a record verify under the engine's keys. -/
structure RecordVerified (record : CertifiedBlockRecord) : Prop where
  proposer : ∃ key, e.publicKeys.get? record.proposal.proposer = some key ∧
    verifyBlockProposal C key record.proposal = .ok ()
  quorum : ∃ votes, List.Forall₂ (fun vote entry =>
      e.publicKeys.get? vote.validator = some entry.1 ∧ entry.2 = vote) record.votes votes ∧
    CryptoProvider.verifyQuorumCertificate C record.certificate e.validatorSet votes = .ok ()

/-- The certificate an accepted view change names is not finalized yet. -/
def ViewCurrent (view : ViewChangeCertificate) : Prop :=
  ∀ qc ∈ view.highestQc, e.activeAnchor.height < qc.height

/-- Every record verifies, and an accepted view change as long as it is current. -/
structure Verified : Prop where
  records : ∀ commitment record, e.certifiedBlocks.get? commitment = some record →
    RecordVerified C e record
  views : ∀ view ∈ e.acceptedViewChange, ViewCurrent e view → e.verifyViewChange C view = .ok ()

end

section Verification

variable {C : Crypto} {e e' : ValidatorEngine}

variable {parent : ConsensusBlockRef} {highest : Option QuorumCertificate}

theorem checkHighestQc_eq_ok :
    e.checkHighestQc parent highest = .ok () ↔
      (highest = none → parent = e.activeAnchor) ∧
      ∀ qc ∈ highest, e.snapshot.Certifies qc ∧ parent = qc.blockRef := by
  refine ⟨fun h => ?_, fun ⟨hn, hs⟩ => ?_⟩
  · cases highest with
    | none => exact ⟨fun _ => checkHighestQc_none h, nofun⟩
    | some qc => exact ⟨nofun, fun _ hqc => some.inj hqc ▸ checkHighestQc_some h⟩
  · cases highest with
    | none => exact rejectIf_of_not (not_not.2 (hn rfl))
    | some qc =>
      obtain ⟨⟨r, hget, hr⟩, hp⟩ := hs qc rfl
      change e.certifiedBlocks.get? _ = some r at hget
      simp [checkHighestQc, hget, hr, hp, okOr, Bind.bind, Except.bind]

theorem RecordVerified.congr {record : CertifiedBlockRecord} (h : RecordVerified C e record)
    (hset : e'.validatorSet = e.validatorSet) (hk : e'.publicKeys = e.publicKeys) :
    RecordVerified C e' record := by
  obtain ⟨hp, hq⟩ := h
  exact ⟨by rwa [hk], by rwa [hk, hset]⟩

theorem ValidatorEngine.NewBlock.verified {cb : CertifiedBlock C} {s : ConsensusState}
    {anchor : ConsensusBlockRef} (h : NewBlock C e cb s anchor) :
    RecordVerified C e (recordOf cb) := by
  obtain ⟨votes, hk, hv⟩ := h.quorum
  refine ⟨h.proposer, votes, (mapM_eq_ok.1 hk).imp fun vote entry he => ?_, hv⟩
  simp only [inversion] at he
  obtain ⟨-, key, hkey, rfl⟩ := he
  exact ⟨hkey, rfl⟩

section

variable (inv : AnchorInv C e.snapshot)
include inv

theorem AnchorInv.descends (h : e.checkHighestQc parent highest = .ok ()) :
    e.isAncestorOrEqual e.activeAnchor.proposalCommitment parent.proposalCommitment = true := by
  obtain ⟨hn, hs⟩ := checkHighestQc_eq_ok.1 h
  cases highest with
  | none =>
    rw [hn rfl]
    exact isAncestorOrEqual_refl _
  | some qc =>
    obtain ⟨⟨r, hget, rfl⟩, rfl⟩ := hs qc rfl
    have hw := isAncestorOrEqual_of_parent hget
    rwa [(inv.record _ _ hget).parent] at hw

variable {view : ViewChangeCertificate}

theorem verifyViewChange_iff :
    e.verifyViewChange C view = .ok () ↔
      e.consensusContext = .ok view.context ∧
      e.checkHighestQc view.parent view.highestQc = .ok () ∧
      (∀ vote ∈ view.votes, e.checkHighestQc vote.parent vote.highestQc = .ok ()) ∧
      verifyViewChangeCertificate C view e.validatorSet e.publicKeys.get? = .ok () := by
  have hv : view.votes.forM e.checkTimeoutParent = .ok () ↔
      ∀ vote ∈ view.votes, e.checkHighestQc vote.parent vote.highestQc = .ok () := by
    rw [forM_eq_ok]
    refine forall₂_congr fun vote _ => ?_
    simp only [checkTimeoutParent, inversion, not_and, Bool.not_eq_false]
    exact and_iff_left_of_imp fun h _ => inv.descends h
  simp only [verifyViewChange, inversion, hv, Bool.not_eq_false]
  constructor
  · rintro ⟨_, hc, ⟨rfl, -, -⟩, hr⟩
    exact ⟨hc, hr⟩
  · rintro ⟨hc, hh, hr⟩
    exact ⟨_, hc, ⟨rfl, checkedAdd_eq_some.1 view.extendsParent.1, inv.descends hh⟩, hh, hr⟩

theorem verifyViewChange_mono (inv' : AnchorInv C e'.snapshot)
    (h : e.verifyViewChange C view = .ok ()) (hf : MessageFrame e e')
    (han : e'.activeAnchor = e.activeAnchor)
    (hre : ∀ qc, e.snapshot.Certifies qc → e'.snapshot.Certifies qc) :
    e'.verifyViewChange C view = .ok () := by
  obtain ⟨hco, hh, hv, hs⟩ := (verifyViewChange_iff inv).1 h
  have hc : ∀ {parent highest}, e.checkHighestQc parent highest = .ok () →
      e'.checkHighestQc parent highest = .ok () := by
    intro parent highest hold
    obtain ⟨hn, hso⟩ := checkHighestQc_eq_ok.1 hold
    exact checkHighestQc_eq_ok.2 ⟨han ▸ hn, fun qc hqc => ⟨hre qc (hso qc hqc).1, (hso qc hqc).2⟩⟩
  refine (verifyViewChange_iff inv').2 ⟨?_, hc hh, fun vote hvo => hc (hv vote hvo), ?_⟩
  · obtain ⟨he, hro, hr⟩ := hf.context
    rw [consensusContext, hf.genesis, he, hro, hr]
    exact hco
  · rw [hf.members.1, hf.members.2]
    exact hs

/-- A view change that survives the commitment of a parent names that parent's height. -/
theorem not_current_of_commit {qc : QuorumCertificate} (hqc : e.snapshot.Certifies qc)
    (h : e.verifyViewChange C view = .ok ()) (hhe : qc.height < view.height) :
    ∃ named ∈ view.highestQc, named.height ≤ qc.height := by
  have han := inv.certified_height hqc
  obtain ⟨-, hh⟩ := verifyViewChange_ok h
  obtain ⟨hno, hs⟩ := checkHighestQc_eq_ok.1 hh
  cases hn : view.highestQc with
  | some named => exact ⟨named, rfl, by rw [han, inv.certified_height (hs named hn).1]⟩
  | none =>
    have hp := view.parent_height
    rw [hno hn] at hp
    change qc.height = e.activeAnchor.height + 1 at han
    omega

theorem Verified.process (h : Verified C e) (m : ConsensusMessage C) :
    Verified C (e.process C m).2 := by
  have hf := process_frame inv m
  have inv' := inv.process m
  have hold : ∀ {record}, RecordVerified C e record → RecordVerified C (e.process C m).2 record :=
    fun hre => hre.congr hf.members.1 hf.members.2
  rcases process_snapshot C e m with hk | ⟨proof, s, anchor, -, hnew, hs⟩
  · have han : (e.process C m).2.activeAnchor = e.activeAnchor :=
      congrArg (·.activeAnchor) hk.snapshot
    have hb : (e.process C m).2.certifiedBlocks = e.certifiedBlocks :=
      congrArg (·.certifiedBlocks) hk.snapshot
    have hve : ∀ view, e.verifyViewChange C view = .ok () →
        (e.process C m).2.verifyViewChange C view = .ok () := by
      refine fun view hv => verifyViewChange_mono inv inv' hv hf han ?_
      exact fun qc ⟨record, hget, hre⟩ => ⟨record, (congrArg (get? · _) hb).trans hget, hre⟩
    refine ⟨fun c r hget => hold (h.records c r (hb ▸ hget)), fun view hv hc => ?_⟩
    rcases hk.accepted with hsa | ⟨view', hv', hver⟩
    · exact hve view (h.views view (hsa ▸ hv) fun qc hqc => han ▸ hc qc hqc)
    · rw [hv'] at hv
      exact hve view (some.inj hv ▸ hver)
  · obtain ⟨-, hset, -, -, -, -, -, hvi, -⟩ :=
      insertCertified_frame e proof.proposal proof.certificate proof.votes s anchor
    have han : (e.process C m).2.activeAnchor = anchor :=
      (congrArg (·.activeAnchor) hs).trans hset
    have hac : (e.process C m).2.acceptedViewChange =
        survivingViewChange e.acceptedViewChange s proof.certificate :=
      (congrArg (·.acceptedViewChange) hs).trans hvi
    have hb : ∀ k, (e.process C m).2.certifiedBlocks.get? k = (e.insertCertified proof.proposal
        proof.certificate proof.votes s anchor).trimLocks.certifiedBlocks.get? k :=
      fun k => congrArg (fun p => p.certifiedBlocks.get? k) hs
    rcases newBlock_cases inv hnew with
      ⟨-, -, rfl, rfl⟩ | ⟨qc, -, hce, hp, hfi, rfl, rfl⟩
    · rw [(sibling_records e proof).1] at hb
      refine ⟨fun c r hget => hold ?_, fun view hv hc => ?_⟩
      · rw [hb, get?_insert] at hget
        split at hget
        · exact some.inj hget ▸ hnew.verified
        · exact h.records c r hget
      · rw [hac] at hv
        refine verifyViewChange_mono inv inv' (h.views view (mem_survivingViewChange hv).1 ?_)
          hf han fun q hq => ?_
        · exact fun q hq => han ▸ hc q hq
        · obtain ⟨r, hget, hr⟩ := certifies_insert hnew.fresh hq
          exact ⟨r, (hb _).trans hget, hr⟩
    · refine ⟨fun c r hget => hold ?_, fun view hv hc => ?_⟩
      · obtain ⟨-, rfl⟩ := ((commit_records inv hce hp hfi).1 c r).1 ((hb c).symm.trans hget)
        exact hnew.verified
      · -- what the surviving view change names is at most as high as the new anchor
        rw [hac] at hv
        obtain ⟨hmem, hh⟩ := mem_survivingViewChange hv
        have hab : ∀ q ∈ view.highestQc, qc.height < q.height := fun q hq => by
          have hlt := hc q hq
          rwa [han] at hlt
        have hlow : qc.height = e.activeAnchor.height + 1 := inv.certified_height hce
        have hc' : ViewCurrent e view := fun q hq => by
          have := hab q hq
          omega
        obtain ⟨q, hq, hle⟩ := not_current_of_commit inv hce (h.views view hmem hc') hh
        exact absurd (hab q hq) (not_lt.2 hle)

theorem Verified.step (h : Verified C e) {act : EngineAct C} (hs : EngineStep C e act e') :
    Verified C e' := by
  rcases hs.kinds with ⟨m, -, rfl⟩ | ⟨_, _, _, _, rfl⟩ | ⟨_, _, _, _, _, -, -, rfl⟩ | ⟨_, hr⟩
  · exact h.process inv m
  · exact ⟨fun c r hget => (h.records c r hget).congr rfl rfl, h.views⟩
  · exact ⟨nofun, nofun⟩
  · simp only [restoreEngine, validateRestoredSafetyState, inversion, forM_eq_ok,
      not_exists, not_and] at hr
    obtain ⟨fresh, -, ⟨_, -, -, -, -, hre, -, hvi⟩, rfl⟩ := hr
    refine ⟨fun c r hget => ?_, fun view hvie _ => (hvi view hvie).2⟩
    have hc := hre (c, r) (mem_entries.2 hget)
    simp only [checkRecord, inversion] at hc
    obtain ⟨-, proof, hpr, key, hkey, hpro, votes, hvo, hv⟩ := hc
    unfold CertifiedBlock.new at hpr
    split at hpr
    · cases hpr
      refine ⟨⟨key, hkey, hpro⟩, votes, (mapM_eq_ok.1 hvo).imp fun vote entry he => ?_, hv⟩
      simp only [inversion] at he
      obtain ⟨key, hkey, rfl⟩ := he
      exact ⟨hkey, rfl⟩
    · cases hpr

end

variable {Q : ValidatorEngine → EngineAct C → Prop}

/-- **Every reachable engine has verified what it records.** -/
theorem Reachable.verified (h : Reachable C Q e) : Verified C e := by
  refine (h.keeps (I := fun e => AnchorInv C e.snapshot ∧ Verified C e) ?_ ?_).2
  · intro manifest start hf
    obtain ⟨_, _, -, -, hnew⟩ := restoreEngine_fresh hf
    simp only [new, inversion] at hnew
    obtain ⟨-, -, _, -, rfl⟩ := hnew
    exact ⟨AnchorInv.fresh hf, by simp, by simp⟩
  · rintro _ _ _ ⟨inv, h⟩ _ hs
    exact ⟨inv.step hs, h.step inv hs⟩

theorem Reachable.view_iff {view : ViewChangeCertificate} (h : Reachable C Q e)
    (hvi : view ∈ e.acceptedViewChange) :
    e.verifyViewChange C view = .ok () ↔ ViewCurrent e view := by
  refine ⟨fun hv qc hqc => ?_, h.verified.views view hvi⟩
  have hh := h.shape.certified_height ((h.shape.verified_view hv).2 qc hqc)
  change qc.height = e.activeAnchor.height + 1 at hh
  omega

end Verification

/-! ## Timeout votes -/

/-- A certificate the engine holds on the finalized branch. -/
def HoldsOnBranch (e : ValidatorEngine) (qc : QuorumCertificate) : Prop :=
  e.snapshot.Certifies qc ∧
    e.isAncestorOrEqual e.activeAnchor.proposalCommitment qc.proposalCommitment = true

/-- A held certificate of the highest round held, or none if nothing is held. -/
def HighestHeld (e : ValidatorEngine) (highest : Option QuorumCertificate) : Prop :=
  (∀ qc ∈ highest, HoldsOnBranch e qc) ∧
    ∀ qc, HoldsOnBranch e qc → ∃ named ∈ highest, qc.round ≤ named.round

section Timeouts

variable {C : Crypto} {e e' : ValidatorEngine}

theorem preferred_of_no_view (inv : AnchorInv C e.snapshot) (h : e.acceptedViewChange = none) :
    HighestHeld e e.preferredJustification.certificate ∧
      e.checkJustification C e.preferredJustification = .ok () := by
  let candidates := e.certifiedBlocks.values.filter fun record =>
    decide (e.InDomain record.certificate.context) &&
      e.isAncestorOrEqual e.activeAnchor.proposalCommitment record.certificate.proposalCommitment
  have hh : ∀ qc, HoldsOnBranch e qc → ∃ record ∈ candidates, record.certificate = qc := by
    rintro _ ⟨⟨record, hget, rfl⟩, hbr⟩
    refine ⟨record, List.mem_filter.2 ⟨mem_values.2 ⟨_, hget⟩, ?_⟩, rfl⟩
    rw [Bool.and_eq_true, decide_eq_true_eq]
    exact ⟨(inv.record _ _ hget).domain, hbr⟩
  unfold preferredJustification
  rw [h]
  simp only
  split
  · rename_i record hmax
    obtain ⟨hmem, hf⟩ := List.mem_filter.1 (mem_of_maxByKey? hmax)
    obtain ⟨c, hget⟩ := mem_values.1 hmem
    rw [← (inv.record _ _ hget).key] at hget
    rw [Bool.and_eq_true] at hf
    refine ⟨⟨fun qc hqc => some.inj hqc ▸ ⟨⟨record, hget, rfl⟩, hf.2⟩, fun qc hqc => ?_⟩, ?_⟩
    · obtain ⟨record', hmem', rfl⟩ := hh qc hqc
      obtain ⟨best, hb, hle⟩ := exists_maxByKey?_le
        (fun record : CertifiedBlockRecord => record.certificate.rank) hmem'
      obtain rfl : best = record := some.inj (hb.symm.trans hmax)
      exact ⟨best.certificate, rfl, QuorumCertificate.round_le_of_rank hle⟩
    · show (okOr _ _ >>= fun r : CertifiedBlockRecord => rejectIf _ _) = _
      rw [hget, okOr_some, ok_bind]
      exact rejectIf_of_not (not_not.2 rfl)
  · rename_i hmax
    refine ⟨⟨by simp [ProposalJustification.certificate], fun qc hqc => ?_⟩,
      rejectIf_of_not (not_not.2 rfl)⟩
    obtain ⟨record, hmem, -⟩ := hh qc hqc
    obtain ⟨best, hb, -⟩ := exists_maxByKey?_le
      (fun record : CertifiedBlockRecord => record.certificate.rank) hmem
    cases hmax.symm.trans hb

theorem preferred_of_view {view : ViewChangeCertificate} (h : e.acceptedViewChange = some view) :
    e.preferredJustification = .viewChange view := by
  unfold preferredJustification
  rw [h]

/-- **A timeout vote names the highest certificate held exactly when the accepted view change
does**; and then no view change it is part of hides one. -/
theorem timeout_carries_highest (hreach : Reachable C anyAct e) {validator : PrincipalId}
    {height round : Nat} {prepared : PreparedTimeout}
    (h : e.prepareTimeoutVote validator height round = .ok (prepared, e')) :
    (HighestHeld e prepared.highestQc ↔
      ∀ view ∈ e.acceptedViewChange, HighestHeld e view.highestQc) ∧
    (HighestHeld e prepared.highestQc → ∀ certificate : ViewChangeCertificate,
      (∃ vote ∈ certificate.votes, vote.highestQc = prepared.highestQc) →
      ∀ qc, HoldsOnBranch e qc → ∃ named ∈ certificate.highestQc, qc.round ≤ named.round) := by
  obtain ⟨_, _, -, -, -, rfl, -⟩ := prepareTimeoutVote_cases h
  refine ⟨?_, ?_⟩
  · cases hv : e.acceptedViewChange with
    | none => exact iff_of_true (preferred_of_no_view hreach.shape hv).1 nofun
    | some view =>
      rw [preferred_of_view hv]
      exact ⟨fun hhe _ hmem => some.inj hmem ▸ hhe, fun hhe => hhe view rfl⟩
  · rintro ⟨-, hh⟩ certificate ⟨vote, hvo, hn⟩ qc hqc
    obtain ⟨named, hmem, hle⟩ := hh qc hqc
    obtain ⟨highest, hh, hle'⟩ := ViewChangeCertificate.exists_round_le hvo (hn.trans hmem)
    exact ⟨highest, hh, hle.trans hle'⟩

end Timeouts

namespace SoloChain

/-- The first height given up before the first block is certified. -/
def firstExpired : TimeoutVote :=
  ⟨1, context, 1, 0, genesisRef, none, ⟨.mlDsa44, 7⟩, by decide, by decide +kernel, first.suite,
    by decide +kernel⟩

def hidingView : ViewChangeCertificate :=
  ⟨context, 1, 1, genesisRef, none, 1, 1,
    [⟨1, context, 1, 1, genesisRef, none, ⟨.mlDsa44, 7⟩, by decide, by decide +kernel, first.suite,
      by decide +kernel⟩], by decide +kernel, firstQc.stake, firstQc.quorum,
      expiredView.round, by decide +kernel,
    by decide +kernel, by decide +kernel⟩

/-- **A late certificate is not named**: the timed-out block is certified after the view change, and
the next timeout vote, like the view change made of it, names nothing. -/
theorem late_certificate_hidden : ∃ e e' prepared, Reachable crypto anyAct e ∧
    HoldsOnBranch e firstQc ∧ e.prepareTimeoutVote 1 1 1 = .ok (prepared, e') ∧
    prepared.highestQc = none ∧ hidingView.highestQc = none ∧
    ∃ vote ∈ hidingView.votes, (vote.context, vote.height, vote.timedOutRound, vote.parent,
      vote.highestQc) = (prepared.context, prepared.height, prepared.round, prepared.parent,
      prepared.highestQc) := by
  obtain ⟨e, hre, ⟨hr, hb⟩, ht⟩ := exists_reachable crypto anyAct manifest
    [.message (.proposal first), .message (.timeoutVote firstExpired), .message (.vote firstVote)]
    (P := fun e => ((e.certifiedBlocks.get? firstQc.proposalCommitment).map (·.certificate) =
        some firstQc ∧
      e.isAncestorOrEqual e.activeAnchor.proposalCommitment firstQc.proposalCommitment = true) ∧
      (e.prepareTimeoutVote 1 1 1).toOption.any (fun r => decide (r.1.highestQc = none ∧
        r.1.context = context ∧ r.1.height = 1 ∧ r.1.round = 1 ∧ r.1.parent = genesisRef)) = true)
    (by decide +kernel)
  obtain ⟨⟨prepared, e'⟩, hp, hf⟩ := (any_eq_true _ _).1 ht
  obtain ⟨hn, hc, hh, hro, hpa⟩ := of_decide_eq_true hf
  obtain ⟨record, hget, hqc⟩ := map_eq_some_iff.1 hr
  refine ⟨e, e', prepared, hre, ⟨⟨record, hget, hqc⟩, hb⟩, mem_toOption.1 hp, hn,
    rfl, _, List.mem_singleton_self _, ?_⟩
  rw [hn, hc, hh, hro, hpa]

theorem held_certificate_named : ∃ e e' prepared, Reachable crypto anyAct e ∧
    e.prepareTimeoutVote 1 2 1 = .ok (prepared, e') ∧ HighestHeld e prepared.highestQc := by
  obtain ⟨e, hr, hv, ht⟩ := exists_reachable crypto anyAct manifest firstCertified
    (P := fun e => e.acceptedViewChange = none ∧
      (e.prepareTimeoutVote 1 2 1).toOption.isSome = true) (by decide +kernel)
  obtain ⟨⟨prepared, e'⟩, hp⟩ := isSome_iff_exists.1 ht
  have hp := mem_toOption.1 hp
  refine ⟨e, e', prepared, hr, hp, (timeout_carries_highest hr hp).1.2 ?_⟩
  rw [hv]
  exact nofun

end SoloChain

/-! ## Proposals -/

/-- The engine accepts the justification: the same anchor, the recorded certificate, or a view
change that verifies; and it carries the locked certificate or a newer one. -/
def CanContinue (C : Crypto) (e : ValidatorEngine) (j : ProposalJustification) : Prop :=
  (match j with
    | .finalized anchor => anchor = e.activeAnchor
    | .quorum qc => e.snapshot.Certifies qc
    | .viewChange view => e.verifyViewChange C view = .ok ()) ∧
  ∀ locked ∈ e.lockedQc, ∃ qc ∈ j.certificate, qc = locked ∨ locked.round < qc.round

/-- The proposal an engine builds at its next position. -/
def Builds (C : Crypto) (e : ValidatorEngine) (validator : PrincipalId) (key : PublicKey)
    (blockDigest : Digest384) (proposal : BlockProposal) : Prop :=
  ∃ context height round, e.consensusContext = .ok context ∧
    e.nextProposalPosition = .ok (height, round) ∧ e.proposerAt round = some validator ∧
    signProposal C validator key context height round blockDigest e.preferredJustification =
      .ok proposal

section Proposals

variable {C : Crypto} {e e' peer : ValidatorEngine} {validator : PrincipalId} {key : PublicKey}
  {blockDigest : Digest384} {proposal : BlockProposal}

theorem checkJustification_iff {j : ProposalJustification} :
    e.checkJustification C j = .ok () ↔ match j with
      | .finalized anchor => anchor = e.activeAnchor
      | .quorum qc => e.snapshot.Certifies qc
      | .viewChange view => e.verifyViewChange C view = .ok () := by
  cases j with
  | finalized anchor => simp [checkJustification]
  | quorum qc => simp only [checkJustification, inversion]; rfl
  | viewChange view => rfl

theorem Builds.fields (h : Builds C peer validator key blockDigest proposal) :
    peer.InDomain proposal.context ∧ peer.proposerAt proposal.round = some proposal.proposer ∧
      proposal.proposer = validator ∧ proposal.justification = peer.preferredJustification := by
  obtain ⟨context, height, round, hc, -, hp, hs⟩ := h
  have hd : peer.InDomain context := by
    unfold consensusContext ConsensusVoteContext.newWithRevision at hc
    split at hc
    · cases hc
      exact ⟨rfl, rfl, rfl, rfl⟩
    · cases hc
  unfold signProposal BlockProposal.new at hs
  split at hs
  · split at hs
    · split at hs
      · split at hs
        · cases hs
          exact ⟨hd, hp, rfl, rfl⟩
        · cases hs
      · cases hs
    · cases hs
  · cases hs

theorem builds_safe_iff (hash : Injective C.shake256) (hr : Reachable C anyAct e)
    (hset : e.validatorSet = peer.validatorSet)
    (h : Builds C peer validator key blockDigest proposal) :
    e.verifyProposalSafety C proposal = .ok () ↔ CanContinue C e peer.preferredJustification := by
  obtain ⟨-, hp, -, hj⟩ := h.fields
  have hp : e.proposerAt proposal.round = some proposal.proposer := by
    rwa [proposerAt, hset]
  rw [safety_iff hr.shape (hr.fixed hash), checkJustification_iff, hj]
  exact and_iff_right hp

/-- **When an engine accepts the proposal it builds itself**: the view change it builds on names no
finalized block, and what it carries is the lock or newer. -/
theorem own_proposal_accepted_iff (hash : Injective C.shake256)
    (hreach : Reachable C anyAct e) (h : Builds C e validator key blockDigest proposal) :
    e.verifyProposalSafety C proposal = .ok () ↔
      (∀ view ∈ e.acceptedViewChange, ViewCurrent e view) ∧
      ∀ locked ∈ e.lockedQc, ∃ qc ∈ e.preferredJustification.certificate,
        qc = locked ∨ locked.round < qc.round := by
  rw [builds_safe_iff hash hreach rfl h]
  refine and_congr_left fun _ => ?_
  cases hv : e.acceptedViewChange with
  | none =>
    exact iff_of_true (checkJustification_iff.1 (preferred_of_no_view hreach.shape hv).2) nofun
  | some view =>
    rw [preferred_of_view hv]
    exact (hreach.view_iff hv).trans ⟨fun hc _ hmem => some.inj hmem ▸ hc, fun hc => hc view rfl⟩

end Proposals

namespace SoloChain

/-- The second block is certified after its round was given up: its parent is finalized, and the
view change that names the parent's certificate stays accepted. -/
def overtaken : List (EngineAct crypto) :=
  firstCertified ++ [.message (.proposal second), .message (.timeoutVote expired),
    .message (.vote secondVote)]

theorem builds_iff {e : ValidatorEngine} {blockDigest : Digest384} {proposal : BlockProposal}
    {height round : Nat} (h : e.consensusContext = .ok context ∧
      e.nextProposalPosition = .ok (height, round) ∧ e.proposerAt round = some 1 ∧
      signProposal crypto 1 7 context height round blockDigest e.preferredJustification =
        .ok proposal) : Builds crypto e 1 7 blockDigest proposal :=
  ⟨context, height, round, h⟩

/-- **An engine rejects the proposal it builds itself**: its view change names a finalized block. -/
theorem own_proposal_rejected : ∃ e proposal, Reachable crypto anyAct e ∧
    Builds crypto e 1 7 21 proposal ∧
    e.verifyProposalSafety crypto proposal = .error .unknownParentCertificate := by
  obtain ⟨e, hre, hb, hr⟩ := exists_reachable crypto anyAct manifest overtaken
    (P := fun e => (e.consensusContext = .ok context ∧ e.nextProposalPosition = .ok (2, 2) ∧
      e.proposerAt 2 = some 1 ∧
      signProposal crypto 1 7 context 2 2 21 e.preferredJustification = .ok retried) ∧
      e.verifyProposalSafety crypto retried = .error .unknownParentCertificate) (by decide +kernel)
  exact ⟨e, retried, hre, builds_iff hb, hr⟩

theorem own_proposal_accepted : ∃ e proposal, Reachable crypto anyAct e ∧
    Builds crypto e 1 7 21 proposal ∧ e.verifyProposalSafety crypto proposal = .ok () := by
  obtain ⟨e, hr, hb, hv, hl⟩ := exists_reachable crypto anyAct manifest
    (firstCertified ++ [.message (.timeoutVote expired)])
    (P := fun e => (e.consensusContext = .ok context ∧ e.nextProposalPosition = .ok (2, 2) ∧
      e.proposerAt 2 = some 1 ∧
      signProposal crypto 1 7 context 2 2 21 e.preferredJustification = .ok retried) ∧
      (∀ view ∈ e.acceptedViewChange, ∀ qc ∈ view.highestQc, e.activeAnchor.height < qc.height) ∧
      e.lockedQc = none) (by decide +kernel)
  refine ⟨e, retried, hr, builds_iff hb, (own_proposal_accepted_iff
    Crypto.transparent_injective hr (builds_iff hb)).2 ⟨hv, ?_⟩⟩
  rw [hl]
  exact nofun

end SoloChain

/-! ## Peers -/

/-- Two engines of one validator set, in one context. -/
structure Peers (e peer : ValidatorEngine) : Prop where
  validatorSet : e.validatorSet = peer.validatorSet
  publicKeys : e.publicKeys = peer.publicKeys
  domain : ∀ context, peer.InDomain context → e.InDomain context

section Peers

variable {C : Crypto} {e peer : ValidatorEngine}

/-- A message is accepted: `process` returns no error. -/
def Accepts (C : Crypto) (e : ValidatorEngine) (m : ConsensusMessage C) : Prop :=
  (e.process C m).1.toOption.isSome

variable {p : BlockProposal}

theorem accepts_proposal_iff :
    Accepts C e (.proposal p) ↔ e.checkProposal C p = .ok () ∧
      (e.collectors.contains (p.commitment C) = true ∨
        e.collectors.length < maxActiveCollectors) := by
  have had : (e.adoptViewChange p).collectors = e.collectors := by
    unfold adoptViewChange
    split <;> rfl
  unfold Accepts process processProposal
  rcases hc : e.checkProposal C p with err | ⟨⟨⟩⟩
  · simp [hc, Except.map, Except.toOption]
  · simp only [hc, openCollector, had, true_and]
    by_cases hh : e.collectors.contains (p.commitment C) = true
    · simp [hh, Except.map, Except.toOption]
    · by_cases hr : maxActiveCollectors ≤ e.collectors.length <;>
        simp [hh, hr, Except.map, Except.toOption, Nat.not_le.1]

theorem finalized_lt_of_safe (inv : AnchorInv C e.snapshot)
    (h : e.verifyProposalSafety C p = .ok ()) : e.state.finalizedHeight < p.height := by
  have hle : e.state.finalizedHeight ≤ e.activeAnchor.height := inv.finalized_le
  simp only [verifyProposalSafety, inversion] at h
  rw [p.height_eq]
  rcases justified_cases h.2.1 with ⟨-, hp⟩ | ⟨qc, -, hqc, hp⟩
  · rw [BlockProposal.parent, hp]
    omega
  · have hh : qc.height = e.activeAnchor.height + 1 := inv.certified_height hqc
    rw [BlockProposal.parent, hp]
    show _ < qc.height + 1
    omega

variable {cb : CertifiedBlock C}

theorem accepts_certificate_iff :
    Accepts C e (.certificate cb) ↔ ∃ e', e.applyCertificate C cb = .ok e' := by
  unfold Accepts process certify
  cases hap : e.applyCertificate C cb <;> simp [hap, Except.map, Except.toOption]

section

variable (hash : Injective C.shake256) (hr : Reachable C anyAct e)
include hash hr

/-- **When an engine accepts the next proposal of a peer**: it can continue what the peer
prefers. -/
theorem peer_proposal_iff (hp : Peers e peer) {v : PrincipalId} {key : PublicKey}
    {blockDigest : Digest384} (h : Builds C peer v key blockDigest p)
    (hkey : e.publicKeys.get? v = some key) (hs : verifyBlockProposal C key p = .ok ()) :
    e.checkProposal C p = .ok () ↔ CanContinue C e peer.preferredJustification := by
  obtain ⟨hd, -, rfl, -⟩ := h.fields
  rw [← builds_safe_iff hash hr hp.validatorSet h]
  simp only [checkProposal, admitProposal, inversion, hkey, some.injEq, exists_eq_left',
    hs, true_and, hp.domain _ hd, not_le]
  exact and_iff_right_of_imp (finalized_lt_of_safe hr.shape)

/-- **When an engine accepts the certificate of a peer for a block it has certified itself**: when
the two have the same certificate. -/
theorem peer_certificate_iff (hpee : Reachable C anyAct peer) (hpe : Peers e peer) {c : Digest384}
    {r theirs : CertifiedBlockRecord} (hown : e.certifiedBlocks.get? c = some r)
    (ht : peer.certifiedBlocks.get? c = some theirs) (hp : peer.requestedProof C c = .ok cb) :
    (∃ e', e.applyCertificate C cb = .ok e') ↔ r.certificate = theirs.certificate := by
  simp only [requestedProof, CertifiedBlock.new, ht, inversion] at hp
  obtain ⟨_, ⟨⟩, hp⟩ := hp
  have hs := hpee.shape.record _ _ ht
  have hs' := hr.shape.record _ _ hown
  rw [dif_pos hs.binds] at hp
  cases hp
  obtain ⟨⟨key, hkey, hpr⟩, votes, hvo, hv⟩ :=
    (hpee.verified.records _ _ ht).congr hpe.validatorSet hpe.publicKeys
  have hd := hpe.domain _ hs.domain
  obtain ⟨-, -, hh, hro, hdi, hc, hb⟩ := hs.binds
  have hk : e.keyedVotes theirs.votes .voteDomainMismatch .unknownValidator = .ok votes := by
    refine mapM_eq_ok.2 (((List.forall₂_and_left _ _).2 ⟨hb, hvo⟩).imp ?_)
    rintro vote ⟨_, _⟩ ⟨⟨⟨hco, -⟩, -⟩, hkey, rfl⟩
    rw [← hco] at hd
    simp [inversion, hkey, hd]
  have hpa : r.parent = theirs.proposal.parent := by
    rw [← hs'.proposal, BlockProposal.commitment_injective hash (hs'.binds.2.2.2.2.2.1.symm.trans
      ((hs'.key.trans hs.key.symm).trans hc))]
  obtain rfl := hs.key.symm.trans hc
  simp [applyCertificate, applyVerifiedCertificateTransition, inversion, hd, hkey, hpr, hk,
    hv, hs.key, hown, hpa, hh, hro, hdi]

end

/-- **When an engine accepts what a peer sends it**: the next proposal if it can continue what the
peer prefers and has a collector free, the certificate of a block it has certified itself if it is
the same certificate. -/
theorem peer_accepts_iff (hash : Injective C.shake256) (hreach : Reachable C anyAct e)
    (hpeer : Reachable C anyAct peer) (hpeers : Peers e peer) :
    (∀ validator key blockDigest proposal, Builds C peer validator key blockDigest proposal →
      e.publicKeys.get? validator = some key → verifyBlockProposal C key proposal = .ok () →
      (Accepts C e (.proposal proposal) ↔ CanContinue C e peer.preferredJustification ∧
        (e.collectors.contains (proposal.commitment C) = true ∨
          e.collectors.length < maxActiveCollectors))) ∧
    ∀ commitment record theirs proof, e.certifiedBlocks.get? commitment = some record →
      peer.certifiedBlocks.get? commitment = some theirs →
      peer.requestedProof C commitment = .ok proof →
      (Accepts C e (.certificate proof) ↔ record.certificate = theirs.certificate) := by
  refine ⟨fun _ _ _ _ h hkey hs => ?_, fun _ _ _ _ hown ht hp => ?_⟩
  · rw [accepts_proposal_iff, peer_proposal_iff hash hreach hpeers h hkey hs]
  · rw [accepts_certificate_iff, peer_certificate_iff hash hreach hpeer hpeers hown ht hp]

end Peers

namespace Trio

abbrev crypto : Crypto := Crypto.transparent

/-- Stakes `3, 1, 1`: the first validator is a quorum with either of the others. -/
def manifest : ValidatorGenesis :=
  ⟨0, 1, 1, [⟨1, 3, 101, nofun⟩, ⟨2, 1, 102, Nat.one_ne_zero⟩, ⟨3, 1, 103, Nat.one_ne_zero⟩],
    by decide, SoloChain.manifest.revision, by decide⟩

def context : ConsensusVoteContext :=
  ⟨manifest.genesisCommitment crypto, 0, manifest.validatorSetRoot crypto, 1, by decide +kernel⟩

def first : BlockProposal :=
  ⟨1, context, 1, 0, 10, .finalized ⟨manifest.genesisCommitment crypto,
    manifest.genesisCommitment crypto, 0, 0, by decide +kernel⟩, ⟨.mlDsa44, 101⟩, rfl, by decide,
    by decide +kernel, trivial, by decide +kernel⟩

def vote (validator : PrincipalId) : ValidatorVote :=
  ⟨validator, context, 1, 0, 10, first.commitment crypto, ⟨.mlDsa44, validator + 100⟩, rfl,
    by decide +kernel⟩

/-- The first proposal and the three votes, in the given order. -/
def acts (order : List PrincipalId) : List (EngineAct crypto) :=
  .message (.proposal first) :: order.map fun validator => .message (.vote (vote validator))

/-- The certificate of the first and the third validator. -/
def qc : QuorumCertificate :=
  ⟨context, 1, 0, 10, first.commitment crypto, crypto.shake256 (.tag "ACTIVECHAIN-VOTE-SET-V1" ::
    [1, 3].flatMap fun validator => voteSetEntry (validator + 100, vote validator)), 5, 4,
    by decide +kernel, by decide, by decide⟩

def second : BlockProposal :=
  ⟨2, context, 2, 1, 20, .quorum qc, ⟨.mlDsa44, 102⟩, rfl, SoloChain.second.bound,
    by decide +kernel, by decide +kernel, by decide +kernel⟩

def proof : CertifiedBlock crypto := ⟨first, qc, [vote 1, vote 3], by decide +kernel⟩

/-- **Two quorums for one block exclude each other**: the same votes in two orders, and neither the
peer's next proposal nor its certificate is accepted. -/
theorem quorums_conflict : ∃ e peer,
    playFrom crypto anyAct manifest (acts [1, 2, 3]) = some e ∧
    playFrom crypto anyAct manifest (acts [1, 3, 2]) = some peer ∧
    Builds crypto peer 2 102 20 second ∧ verifyBlockProposal crypto 102 second = .ok () ∧
    (e.process crypto (.proposal second)).1 = .error .conflictingCertificate ∧
    peer.requestedProof crypto (first.commitment crypto) = .ok proof ∧
    (e.process crypto (.certificate proof)).1 = .error .conflictingCertificate := by
  have hp : (playFrom crypto anyAct manifest (acts [1, 2, 3])).any (fun e =>
      (playFrom crypto anyAct manifest (acts [1, 3, 2])).any fun peer => decide (
        (peer.consensusContext = .ok context ∧ peer.nextProposalPosition = .ok (2, 1) ∧
          peer.proposerAt 1 = some 2 ∧
          signProposal crypto 2 102 context 2 1 20 peer.preferredJustification = .ok second) ∧
        verifyBlockProposal crypto 102 second = .ok () ∧
        (e.process crypto (.proposal second)).1 = .error .conflictingCertificate ∧
        peer.requestedProof crypto (first.commitment crypto) = .ok proof ∧
        (e.process crypto (.certificate proof)).1 = .error .conflictingCertificate)) =
        true := by decide +kernel
  obtain ⟨e, he, hp⟩ := (any_eq_true _ _).1 hp
  obtain ⟨peer, hpe, hp⟩ := (any_eq_true _ _).1 hp
  obtain ⟨hb, hr⟩ := of_decide_eq_true hp
  exact ⟨e, peer, he, hpe, ⟨context, 2, 1, hb⟩, hr⟩

end Trio

theorem SoloChain.own_certificate_accepted : ∃ e proof, Reachable crypto anyAct e ∧
    Accepts crypto e (.proposal second) ∧
    e.requestedProof crypto (first.commitment crypto) = .ok proof ∧
    Accepts crypto e (.certificate proof) := by
  obtain ⟨e, hr, hb, hkey, hs, hv, hl, hf, hp⟩ := exists_reachable crypto anyAct
    manifest firstCertified
    (P := fun e => (e.consensusContext = .ok context ∧ e.nextProposalPosition = .ok (2, 1) ∧
      e.proposerAt 1 = some 1 ∧
      signProposal crypto 1 7 context 2 1 20 e.preferredJustification = .ok second) ∧
      e.publicKeys.get? 1 = some 7 ∧ verifyBlockProposal crypto 7 second = .ok () ∧
      e.acceptedViewChange = none ∧ e.lockedQc = none ∧ e.collectors.length < maxActiveCollectors ∧
      (e.requestedProof crypto (first.commitment crypto)).toOption.isSome = true)
      (by decide +kernel)
  obtain ⟨proof, hp⟩ := isSome_iff_exists.1 hp
  have hp := mem_toOption.1 hp
  obtain ⟨record, hget, -⟩ := bind_eq_ok.1 hp
  have hget := okOr_eq_ok.1 hget
  obtain ⟨hpr, hc⟩ := peer_accepts_iff Crypto.transparent_injective hr hr ⟨rfl, rfl, fun _ h => h⟩
  have hco : CanContinue crypto e e.preferredJustification :=
    ⟨checkJustification_iff.1 (preferred_of_no_view hr.shape hv).2, by rw [hl]; exact nofun⟩
  exact ⟨e, proof, hr, (hpr 1 7 20 second (builds_iff hb) hkey hs).2
    ⟨hco, .inr hf⟩, hp, (hc _ _ _ _ hget hget hp).2 rfl⟩

end ActiveChain
