import ActiveChain.Consensus.Locks

/-!
# Reachable engines

An engine started at genesis, after any acts.  Three rules of the source are stated over all of
them: what a proposal has to build on, what a vote locks, and which collectors stay open.
-/

namespace ActiveChain

open ValidatorEngine Except Option SortedMap

/-! ## Runs -/

section

variable (C : Crypto) (Q : ValidatorEngine → EngineAct C → Prop)

/-- Any number of acts, each meeting the condition. -/
def EngineRun : ValidatorEngine → ValidatorEngine → Prop :=
  Relation.ReflTransGen fun e e' => ∃ act, Q e act ∧ EngineStep C e act e'

/-- An engine started at the genesis of a manifest, after a run. -/
def Reachable (e : ValidatorEngine) : Prop :=
  ∃ manifest start, restoreEngine C manifest none = .ok start ∧ EngineRun C Q start e

end

def anyAct {C : Crypto} (_ : ValidatorEngine) (_ : EngineAct C) : Prop := True
deriving Decidable

section Rules

variable {C : Crypto} {Q : ValidatorEngine → EngineAct C → Prop} {e e' : ValidatorEngine}

variable {I : ValidatorEngine → Prop}

theorem EngineRun.keeps (run : EngineRun C Q e e')
    (hs : ∀ e act e', I e → Q e act → EngineStep C e act e' → I e') (h : I e) : I e' := by
  induction run with
  | refl => exact h
  | tail _ step ih =>
    obtain ⟨act, hact, he⟩ := step
    exact hs _ act _ ih hact he

/-- **The invariant rule**: what holds at genesis and is kept by every act holds throughout. -/
theorem Reachable.keeps (h : Reachable C Q e)
    (hs : ∀ manifest start, restoreEngine C manifest none = .ok start → I start)
    (hst : ∀ e act e', I e → Q e act → EngineStep C e act e' → I e') : I e := by
  obtain ⟨manifest, start, hf, run⟩ := h
  exact run.keeps hst (hs manifest start hf)

theorem Reachable.shape (h : Reachable C Q e) : AnchorInv C e.snapshot :=
  h.keeps (I := fun e => AnchorInv C e.snapshot) (fun _ _ hf => AnchorInv.fresh hf)
    fun _ _ _ inv _ hs => inv.step hs

theorem Reachable.fixed (hash : Function.Injective C.shake256) (h : Reachable C Q e) :
    AnchorFixed C e.snapshot := by
  refine (h.keeps (I := fun e => AnchorInv C e.snapshot ∧ AnchorFixed C e.snapshot) ?_ ?_).2
  · exact fun _ _ hf => ⟨AnchorInv.fresh hf, AnchorFixed.fresh hash hf⟩
  · exact fun _ _ _ ⟨inv, fixed⟩ _ hs => ⟨inv.step hs, fixed.step hash inv hs⟩

end Rules

/-! ## Executing acts -/

section Execution

variable (C : Crypto)

/-- The engine an act leaves; `none` when nothing is signed or activated. -/
def EngineAct.perform (e : ValidatorEngine) : EngineAct C → Option ValidatorEngine
  | .message m => some (e.process C m).2
  | .vote validator => (e.prepareCurrentVote C validator).toOption.map Prod.snd
  | .timeout validator height round =>
    (e.prepareTimeoutVote validator height round).toOption.map Prod.snd
  | .validatorSet authorization proof next =>
    (e.activateFinalizedValidatorSet C authorization proof next).toOption
  | .protocol authorization proof =>
    (e.activateFinalizedProtocolUpgrade C authorization proof).toOption
  | .restart manifest => (restoreEngine C manifest (some e.snapshot)).toOption

variable {e e' : ValidatorEngine}

theorem EngineAct.perform_step {act : EngineAct C} (h : act.perform C e = some e') :
    EngineStep C e act e' := by
  cases act with
  | message m =>
    cases h
    exact .message e m
  | vote v =>
    obtain ⟨⟨p, _⟩, hp, rfl⟩ := map_eq_some_iff.1 h
    exact .vote (mem_toOption.1 hp)
  | timeout v height round =>
    obtain ⟨⟨p, _⟩, hp, rfl⟩ := map_eq_some_iff.1 h
    exact .timeout (mem_toOption.1 hp)
  | validatorSet a proof next => exact .validatorSet (mem_toOption.1 h)
  | protocol a proof => exact .protocol (mem_toOption.1 h)
  | restart manifest => exact .restart (mem_toOption.1 h)

variable (Q : ValidatorEngine → EngineAct C → Prop) [∀ e act, Decidable (Q e act)]

/-- Acts in order, as long as each meets the condition and is carried out. -/
def performAll (e : ValidatorEngine) (acts : List (EngineAct C)) : Option ValidatorEngine :=
  acts.foldlM (fun e act => if Q e act then act.perform C e else none) e

variable {acts : List (EngineAct C)}

theorem performAll_run (h : performAll C Q e acts = some e') : EngineRun C Q e e' := by
  induction acts generalizing e with
  | nil =>
    cases h
    exact Relation.ReflTransGen.refl
  | cons act rest ih =>
    obtain ⟨next, hn, hr⟩ := bind_eq_some_iff.1 h
    obtain ⟨hact, hp⟩ := ite_none_right_eq_some.1 hn
    exact Relation.ReflTransGen.head ⟨act, hact, EngineAct.perform_step C hp⟩ (ih hr)

variable (manifest : ValidatorGenesis) (acts : List (EngineAct C))

def playFrom : Option ValidatorEngine :=
  (restoreEngine C manifest none).toOption.bind fun e => performAll C Q e acts

theorem exists_reachable {P : ValidatorEngine → Prop} [DecidablePred P]
    (h : (playFrom C Q manifest acts).any (fun e => decide (P e)) = true) :
    ∃ e, Reachable C Q e ∧ P e := by
  obtain ⟨e, he, hP⟩ := (any_eq_true _ _).1 h
  obtain ⟨start, hs, hp⟩ := bind_eq_some_iff.1 he
  exact ⟨e, ⟨manifest, start, mem_toOption.1 hs, performAll_run C Q hp⟩, of_decide_eq_true hP⟩

end Execution

/-! ## What a vote locks -/

def ChildOf (C : Crypto) (parent child : ConsensusBlockRef) : Prop :=
  ∃ proposal : BlockProposal, proposal.parent = parent ∧ proposal.round = child.round ∧
    proposal.height = child.height ∧ proposal.blockDigest = child.blockDigest ∧
    proposal.commitment C = child.proposalCommitment

/-- The block descends from the certified one, or is of a later round.  (An anchor stands for the
certificate that made it final.) -/
def Continues (C : Crypto) (qc : QuorumCertificate) (block : ConsensusBlockRef) : Prop :=
  Relation.ReflTransGen (ChildOf C) qc.blockRef block ∨ qc.round < block.round

/-- A state from which nothing is voted that does not continue the certified block. -/
def ParentGuard (C : Crypto) (qc : QuorumCertificate) (p : PersistedValidatorState) : Prop :=
  Continues C qc p.activeAnchor ∨ ∃ locked ∈ p.lockedQc, Continues C qc locked.blockRef

/-- An upgrade hands over at the locked block or at a later round. -/
def KeepsLock {C : Crypto} (e : ValidatorEngine) : EngineAct C → Prop
  | .validatorSet authorization proof _ | .protocol authorization proof =>
    ∀ handoff, e.upgradeHandoffAnchor C authorization proof = .ok handoff →
      ∀ locked ∈ e.lockedQc, locked.blockRef = handoff ∨ locked.round < handoff.round
  | _ => True

section Lock

variable {C : Crypto} {qc : QuorumCertificate} {e e' : ValidatorEngine}
  {block block' : ConsensusBlockRef}

theorem ChildOf.round_le (h : ChildOf C block block') : block.round ≤ block'.round := by
  obtain ⟨p, rfl, hr, -⟩ := h
  exact hr ▸ p.parent_round_le

theorem Continues.child (h : Continues C qc block) (hc : ChildOf C block block') :
    Continues C qc block' :=
  h.imp (fun path => path.tail hc) fun hlt => hlt.trans_le hc.round_le

theorem Continues.round_le (h : Continues C qc block) : qc.round ≤ block.round := by
  rcases h with path | hlt
  · induction path with
    | refl => exact le_rfl
    | tail _ hc ih => exact ih.trans hc.round_le
  · exact hlt.le

theorem ChildRecord.childOf {p : PersistedValidatorState} {c : Digest384}
    {r : CertifiedBlockRecord} (h : ChildRecord C p c r) :
    ChildOf C p.activeAnchor r.certificate.blockRef := by
  obtain ⟨-, -, hh, hr, hd, hc, -⟩ := h.binds
  exact ⟨r.proposal, h.proposal.trans h.parent, hr.symm, hh.symm, hd.symm, hc.symm⟩

section

variable (inv : AnchorInv C e.snapshot) (fixed : AnchorFixed C e.snapshot)
  (h : ParentGuard C qc e.snapshot)
include inv fixed h

theorem ParentGuard.of_safe {p : BlockProposal}
    (hs : e.verifyProposalSafety C p = .ok ()) : Continues C qc p.parent := by
  obtain ⟨-, hj, hlo⟩ := (safety_iff inv fixed).1 hs
  rcases h with han | ⟨locked, hl, hc⟩
  · rcases safety_cases hs with ⟨-, hp⟩ | ⟨_, -, ⟨r, hget, rfl⟩, hp⟩
    · rw [hp]
      exact han
    · rw [hp]
      exact han.child (inv.record _ _ hget).childOf
  · obtain ⟨carried, hca, hn⟩ := hlo locked hl
    rw [← (BlockProposal.certificate_binds hca).2.1]
    rcases hn with rfl | hlt
    · exact hc
    · exact .inr (hc.round_le.trans_lt hlt)

theorem ParentGuard.process (m : ConsensusMessage C) :
    ParentGuard C qc (e.process C m).2.snapshot := by
  rcases process_snapshot C e m with hk | ⟨proof, s, anchor, -, hnew, hs⟩
  · rw [hk.snapshot]
    exact h
  · rw [hs]
    have han := (insertCertified_frame e proof.proposal proof.certificate proof.votes s anchor).2.1
    rcases newBlock_cases inv hnew with ⟨-, -, rfl, rfl⟩ | ⟨parentQc, -, -, hp, -, rfl, rfl⟩
    · show Continues C qc (activeAnchor _) ∨ ∃ locked ∈ lockedQc _, Continues C qc locked.blockRef
      rw [han, (sibling_records e proof).2]
      exact h
    · left
      show Continues C qc (activeAnchor _)
      rw [han, ← hp]
      exact h.of_safe inv fixed hnew.safe

theorem ParentGuard.vote {v : PrincipalId} {p : PreparedVote}
    (hpr : e.prepareCurrentVote C v = .ok (p, e')) : ParentGuard C qc e'.snapshot := by
  obtain ⟨_, c, _, -, hs, -, -, rfl⟩ := prepareCurrentVote_cases hpr
  have hp := h.of_safe inv fixed hs
  refine h.imp id fun hold => ?_
  unfold nextLock
  split
  · rename_i parentQc hj
    split
    · rw [BlockProposal.parent, hj] at hp
      exact ⟨parentQc, rfl, hp⟩
    · exact hold
  · exact hold

end

theorem ParentGuard.handoff (inv : AnchorInv C e.snapshot) (h : ParentGuard C qc e.snapshot)
    {a : ConsensusUpgradeAuthorization} {cb : CertifiedBlock C}
    {handoff : ConsensusBlockRef} (hh : e.upgradeHandoffAnchor C a cb = .ok handoff)
    (hlo : ∀ locked ∈ e.lockedQc, locked.blockRef = handoff ∨ locked.round < handoff.round) :
    Continues C qc handoff := by
  rcases h with han | ⟨locked, hl, hc⟩
  · obtain ⟨r, hmem, rfl⟩ := upgradeHandoffAnchor_record hh
    obtain ⟨c, hget⟩ := mem_values.1 hmem
    exact han.child (inv.record _ _ hget).childOf
  · rcases hlo locked hl with rfl | hlt
    · exact hc
    · exact .inr (hc.round_le.trans_lt hlt)

/-- **Every act that keeps the lock keeps the guard.** -/
theorem ParentGuard.step (inv : AnchorInv C e.snapshot) (fixed : AnchorFixed C e.snapshot)
    (h : ParentGuard C qc e.snapshot) {act : EngineAct C} (hact : KeepsLock e act)
    (hs : EngineStep C e act e') : ParentGuard C qc e'.snapshot := by
  cases hs with
  | message m => exact h.process inv fixed m
  | vote hp => exact h.vote inv fixed hp
  | timeout hp =>
    obtain ⟨_, _, -, -, -, -, rfl⟩ := prepareTimeoutVote_cases hp
    exact h
  | validatorSet hac =>
    simp only [activateFinalizedValidatorSet, inversion] at hac
    obtain ⟨-, -, handoff, hh, _, -, _, -, rfl⟩ := hac
    exact .inl (h.handoff inv hh (hact handoff hh))
  | protocol hac =>
    simp only [activateFinalizedProtocolUpgrade, inversion] at hac
    obtain ⟨-, -, handoff, hh, _, -, rfl⟩ := hac
    exact .inl (h.handoff inv hh (hact handoff hh))
  | restart hr => exact restoreEngine_snapshot hr ▸ h

/-- **A vote locks the parent exactly when the proposal carries the parent's certificate itself, or
the parent is locked already**; and then every later vote continues the parent, across upgrades
that keep the lock. -/
theorem vote_locks_parent (hash : Function.Injective C.shake256) (hreach : Reachable C anyAct e)
    {validator : PrincipalId} {prepared : PreparedVote}
    (hvote : e.prepareCurrentVote C validator = .ok (prepared, e'))
    (hqc : prepared.proposal.justification.certificate = some qc) :
    ((∃ locked ∈ e'.lockedQc, qc.round ≤ locked.round) ↔
      prepared.proposal.justification = .quorum qc ∨ e.lockedQc = some qc) ∧
    (prepared.proposal.justification = .quorum qc ∨ e.lockedQc = some qc →
      ∀ later, EngineRun C KeepsLock e' later → ∀ validator' prepared' after,
        later.prepareCurrentVote C validator' = .ok (prepared', after) →
        Continues C qc prepared'.proposal.parent) := by
  have inv := hreach.shape
  have fixed := hreach.fixed hash
  have hs : EngineStep C e (.vote validator) e' := .vote hvote
  obtain ⟨_, collector, _, -, hsa, -, rfl, he'⟩ := prepareCurrentVote_cases hvote
  have hlo : e'.lockedQc = nextLock e.lockedQc collector.proposal.justification := by rw [he']
  -- a lock that is not older than the carried certificate is that certificate
  have hl : ∀ locked ∈ e.lockedQc, qc.round ≤ locked.round → locked = qc := by
    intro locked hmem hle
    obtain ⟨carried, hc, hne⟩ := ((safety_iff inv fixed).1 hsa).2.2 locked hmem
    obtain rfl : qc = carried := some.inj (hqc.symm.trans hc)
    rcases hne with heq | hlt
    · exact heq.symm
    · omega
  have hn : collector.proposal.justification = .quorum qc ∨ e.lockedQc = some qc →
      e'.lockedQc = some qc := by
    intro h
    rw [hlo]
    unfold nextLock
    split
    · rename_i parentQc hj
      obtain rfl : parentQc = qc := by
        rw [hj] at hqc
        exact some.inj hqc
      split
      · rfl
      · rename_i hk
        simp only [not_forall, not_lt] at hk
        obtain ⟨locked, hmem, hle⟩ := hk
        rw [hmem, hl locked hmem hle]
    · rename_i hj
      exact h.resolve_left (hj qc)
  refine ⟨⟨?_, fun h => ⟨qc, hn h, le_rfl⟩⟩, ?_⟩
  · rintro ⟨locked, hmem, hle⟩
    rw [hlo] at hmem
    unfold nextLock at hmem
    split at hmem
    · rename_i parentQc hj
      rw [hj] at hqc ⊢
      exact .inl (congrArg _ (some.inj hqc))
    · exact .inr (hl locked hmem hle ▸ hmem)
  · intro h later run validator' prepared' after hla
    have hg : ParentGuard C qc e'.snapshot := .inr ⟨qc, hn h, .inl Relation.ReflTransGen.refl⟩
    obtain ⟨inv', fixed', hg'⟩ := run.keeps
      (I := fun e => AnchorInv C e.snapshot ∧ AnchorFixed C e.snapshot ∧
        ParentGuard C qc e.snapshot)
      (fun _ _ _ ⟨inv, fixed, hg⟩ hact hs =>
        ⟨inv.step hs, fixed.step hash inv hs, hg.step inv fixed hact hs⟩)
      ⟨inv.step hs, fixed.step hash inv hs, hg⟩
    obtain ⟨_, _, _, -, hs', -, rfl, rfl⟩ := prepareCurrentVote_cases hla
    exact hg'.of_safe inv' fixed' hs'

end Lock

/-! ## A view change over a certified block -/

namespace SoloChain

/-- The first block certified: what the runs below start with. -/
def firstCertified : List (EngineAct crypto) :=
  [.message (.proposal first), .message (.vote firstVote)]

/-- The validator gives up round `1` of height `2` and names the first block's certificate. -/
def expired : TimeoutVote :=
  ⟨1, context, 2, 1, firstQc.blockRef, some firstQc, ⟨.mlDsa44, 7⟩, by decide, by decide +kernel,
    first.suite, by decide +kernel⟩

def expiredView : ViewChangeCertificate :=
  ⟨context, 2, 1, firstQc.blockRef, some firstQc, 1, 1, [expired], by decide +kernel, firstQc.stake,
    firstQc.quorum, by decide, by decide +kernel, by decide +kernel, by decide +kernel⟩

/-- A block of height `2` in the round the view change opens. -/
def retried : BlockProposal :=
  ⟨1, context, 2, 2, 21, .viewChange expiredView, ⟨.mlDsa44, 7⟩, first.suite, by decide,
    by decide +kernel, by decide +kernel, by decide +kernel⟩

/-- A view change of height `1` that names no certificate. -/
def emptyView : ViewChangeCertificate :=
  ⟨context, 1, 2, genesisRef, none, 1, 1,
    [⟨1, context, 1, 2, genesisRef, none, ⟨.mlDsa44, 7⟩, by decide, by decide +kernel, first.suite,
      by decide +kernel⟩], by decide +kernel, firstQc.stake, firstQc.quorum, by decide,
    by decide +kernel,
    by decide +kernel, by decide +kernel⟩

def restarted : BlockProposal :=
  ⟨1, context, 1, 3, 12, .viewChange emptyView, ⟨.mlDsa44, 7⟩, first.suite, by decide,
    by decide +kernel, by decide +kernel, by decide +kernel⟩

/-- **A vote after a view change locks nothing**: the validator votes on top of the certified first
block, and then for a rival of that block. -/
theorem unlocked_by_view_change : ∃ e e' later after prepared prepared',
    Reachable crypto anyAct e ∧ e.prepareCurrentVote crypto 1 = .ok (prepared, e') ∧
    prepared.proposal.justification.certificate = some firstQc ∧ e'.lockedQc = none ∧
    EngineRun crypto anyAct e' later ∧
    later.prepareCurrentVote crypto 1 = .ok (prepared', after) ∧
    prepared'.proposal.height = firstQc.height ∧ prepared'.proposal ≠ first ∧
    prepared'.proposal.parent.round ≤ firstQc.round := by
  obtain ⟨e, hre, hv⟩ := exists_reachable crypto anyAct manifest
    (firstCertified ++ [.message (.timeoutVote expired), .message (.proposal retried)])
    (P := fun e => (e.prepareCurrentVote crypto 1).toOption.any (fun r =>
      decide (r.1.proposal.justification.certificate = some firstQc ∧ r.2.lockedQc = none) &&
      (performAll crypto anyAct r.2 [.message (.proposal restarted)]).any fun later =>
        (later.prepareCurrentVote crypto 1).toOption.any fun r' =>
          decide (r'.1.proposal.height = firstQc.height ∧ r'.1.proposal ≠ first ∧
            r'.1.proposal.parent.round ≤ firstQc.round)) = true) (by decide +kernel)
  obtain ⟨⟨prepared, e'⟩, hp, hr⟩ := (any_eq_true _ _).1 hv
  rw [Bool.and_eq_true, decide_eq_true_eq] at hr
  obtain ⟨⟨hqc, hlo⟩, hr⟩ := hr
  obtain ⟨later, hl, hr⟩ := (any_eq_true _ _).1 hr
  obtain ⟨⟨prepared', after⟩, hp', hr⟩ := (any_eq_true _ _).1 hr
  obtain ⟨hh, hne, hro⟩ := of_decide_eq_true hr
  exact ⟨e, e', later, after, prepared, prepared', hre, mem_toOption.1 hp, hqc, hlo,
    performAll_run crypto anyAct hl, mem_toOption.1 hp', hh, hne, hro⟩

theorem second_vote_locks : ∃ e e' prepared, Reachable crypto anyAct e ∧
    e.prepareCurrentVote crypto 1 = .ok (prepared, e') ∧
    ∃ locked ∈ e'.lockedQc, firstQc.round ≤ locked.round := by
  obtain ⟨e, hr, hv⟩ := exists_reachable crypto anyAct manifest
    (firstCertified ++ [.message (.proposal second)])
    (P := fun e => (e.prepareCurrentVote crypto 1).toOption.any (fun r =>
      decide (r.1.proposal.justification = .quorum firstQc)) = true) (by decide +kernel)
  obtain ⟨⟨prepared, e'⟩, hp, hj⟩ := (any_eq_true _ _).1 hv
  have hp := mem_toOption.1 hp
  have hj := of_decide_eq_true hj
  exact ⟨e, e', prepared, hr, hp, (vote_locks_parent Crypto.transparent_injective hr
    hp (by rw [hj]; rfl)).1.2 (.inl hj)⟩

end SoloChain

/-! ## Collectors -/

/-- A message that commits a parent does so when every open collector is for a greater height. -/
def ClearOfCollectors {C : Crypto} (e : ValidatorEngine) : EngineAct C → Prop
  | .message m => ∀ proof ∈ e.presentedProof C m,
      ∀ qc ∈ proof.proposal.justification.certificate,
        ∀ collector ∈ e.collectors.values, qc.height < collector.proposal.height
  | _ => True

instance {C : Crypto} (e : ValidatorEngine) (act : EngineAct C) :
    Decidable (ClearOfCollectors e act) := by
  cases act <;> unfold ClearOfCollectors <;> infer_instance

section Collectors

variable {C : Crypto} {e e' : ValidatorEngine}

/-- A collector is open after a message only if it was open before, or the message is its proposal,
above the finalized height. -/
theorem open_after_message {m : ConsensusMessage C} {c : VoteCollector}
    (h : c ∈ (e.process C m).2.collectors.values) :
    (∃ old ∈ e.collectors.values, old.proposal = c.proposal) ∨
      (e.presentedProof C m = none ∧ e.state.finalizedHeight < c.proposal.height) := by
  obtain ⟨c, hget⟩ := mem_values.1 h
  cases process_collectors hget with
  | kept hold => exact .inl ⟨_, mem_values.2 ⟨_, hold⟩, rfl⟩
  | voted hold => exact .inl ⟨_, mem_values.2 ⟨_, hold⟩, (addVote_frame ..).1.symm⟩
  | opened hc => exact .inr ⟨rfl, (checkProposal_ok hc).2.1⟩

/-- Every open collector is for a height that is not finalized. -/
def CollectorsAbove (e : ValidatorEngine) : Prop :=
  ∀ collector ∈ e.collectors.values, e.state.finalizedHeight < collector.proposal.height

theorem CollectorsAbove.step (inv : AnchorInv C e.snapshot) (h : CollectorsAbove e)
    {act : EngineAct C} (hact : ClearOfCollectors e act) (hst : EngineStep C e act e') :
    CollectorsAbove e' := by
  have he : e'.collectors = empty → CollectorsAbove e' := by
    intro hn c hmem
    rw [hn] at hmem
    cases hmem
  rcases hst.kinds with ⟨m, rfl, rfl⟩ | ⟨_, _, _, _, rfl⟩ | ⟨_, _, _, _, _, -, -, rfl⟩ | ⟨_, hr⟩
  · intro c hmem
    rcases process_commits inv m with ⟨-, -, hs⟩ |
      ⟨proof, qc, hpr, -, -, hqc, -, -, hs⟩
    · rw [hs]
      rcases open_after_message hmem with ⟨old, hold, heq⟩ | ⟨-, hab⟩
      · exact heq ▸ h old hold
      · exact hab
    · rw [hs]
      rcases open_after_message hmem with ⟨old, hold, heq⟩ | ⟨hn, -⟩
      · exact heq ▸ hact proof hpr qc hqc old hold
      · rw [hn] at hpr
        cases hpr
  · exact h
  · exact he rfl
  · exact he (restoreEngine_members hr).2.2.2

/-! ### The errors of a vote -/

def NotLimit (err : ValidatorEngineError) : Prop := err ≠ .collectorLimit

theorem failsWith_checkHighestQc {parent : ConsensusBlockRef} {qc : Option QuorumCertificate} :
    (e.checkHighestQc parent qc).FailsWith NotLimit := by
  cases qc <;> simp [checkHighestQc, NotLimit]

variable {p : BlockProposal}

theorem failsWith_verifyProposalSafety : (e.verifyProposalSafety C p).FailsWith NotLimit := by
  have hv (vote) : (e.checkTimeoutParent vote).FailsWith NotLimit := by
    simp [checkTimeoutParent, failsWith_checkHighestQc, NotLimit]
  cases hj : p.justification <;>
    simp [verifyProposalSafety, checkJustification, hj, verifyViewChange, failsWith_checkHighestQc,
      consensusContext, hv, NotLimit]

theorem failsWith_commitParent {cert : QuorumCertificate} :
    (e.commitParent p cert).FailsWith NotLimit := by
  unfold commitParent
  repeat' split
  all_goals simp [NotLimit]

theorem failsWith_applyCertificate {cb : CertifiedBlock C} :
    (e.applyCertificate C cb).FailsWith NotLimit := by
  have ht : (e.applyVerifiedCertificateTransition C cb.proposal cb.certificate
      cb.votes).FailsWith NotLimit := by
    unfold applyVerifiedCertificateTransition
    split <;> simp [NotLimit, failsWith_verifyProposalSafety, failsWith_commitParent]
  simp [applyCertificate, keyedVotes, NotLimit, ht]

theorem vote_never_limited (e : ValidatorEngine) (vote : ValidatorVote) :
    (e.process C (.vote vote)).1 ≠ .error .collectorLimit := by
  have hc : (e.collectVote C vote).1.FailsWith NotLimit := by
    unfold collectVote
    any_goals (dsimp only; repeat' split)
    all_goals simp [NotLimit]
  show (e.processVote C vote).1 ≠ _
  unfold processVote
  split
  · rename_i proof e₀ _
    unfold certify
    cases hap : e₀.applyCertificate C proof with
    | error err => exact fun h => failsWith_applyCertificate err hap (Except.error.inj h)
    | ok e₁ => exact nofun
  · exact fun h => hc _ h rfl

/-- **Collectors stay above the finalized height as long as nothing is committed below an open
one**; and a vote never meets the collector limit. -/
theorem collectors_above_finalized (hreach : Reachable C ClearOfCollectors e) :
    CollectorsAbove e ∧ ∀ vote, (e.process C (.vote vote)).1 ≠ .error .collectorLimit := by
  refine ⟨?_, vote_never_limited e⟩
  refine (hreach.keeps (I := fun e => AnchorInv C e.snapshot ∧ CollectorsAbove e) ?_ ?_).2
  · intro manifest start hf
    refine ⟨AnchorInv.fresh hf, fun collector hmem => ?_⟩
    rw [(restoreEngine_members hf).2.2.2] at hmem
    cases hmem
  · exact fun _ _ _ ⟨inv, h⟩ hact hs => ⟨inv.step hs, h.step inv hact hs⟩

end Collectors

namespace SoloChain

def rival : BlockProposal :=
  ⟨1, context, 1, 0, 11, .finalized genesisRef, ⟨.mlDsa44, 7⟩, first.suite, by decide,
    first.nextHeight, trivial, first.nextRound⟩

/-- **A collector left behind**: the rival of a finalized block is collected for ever. -/
theorem collector_left_behind : ∃ e, Reachable crypto anyAct e ∧ ¬ CollectorsAbove e := by
  obtain ⟨e, hr, hs⟩ := exists_reachable crypto anyAct manifest
    (.message (.proposal rival) :: firstCertified ++
      [.message (.proposal second), .message (.vote secondVote)])
    (P := fun e => ∃ collector ∈ e.collectors.values,
      ¬ e.state.finalizedHeight < collector.proposal.height) (by decide +kernel)
  exact ⟨e, hr, fun h => hs.elim fun c hc => hc.2 (h c hc.1)⟩

theorem no_collector_left : ∃ e, Reachable crypto ClearOfCollectors e ∧
    e.state.finalizedHeight = 1 ∧ CollectorsAbove e := by
  obtain ⟨e, hr, hf⟩ := exists_reachable crypto ClearOfCollectors manifest
    (firstCertified ++ [.message (.proposal second), .message (.vote secondVote)])
    (P := fun e => e.state.finalizedHeight = 1) (by decide +kernel)
  exact ⟨e, hr, hf, (collectors_above_finalized hr).1⟩

end SoloChain

end ActiveChain
