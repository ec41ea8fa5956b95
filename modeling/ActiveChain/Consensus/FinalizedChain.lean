import ActiveChain.Consensus.Anchor
import ActiveChain.Consensus.Transcripts

/-!
# The finalized chain of one engine

A run is any sequence of acts; the certified records the engine held are kept beside it, since a
change of context clears them from the engine.

* `extends_of_step`, `extends_of_run` — what a step and a run do to finality.
* `SoloChain` — a run of one validator that finalizes a block.
-/

namespace ActiveChain

open ValidatorEngine ConsensusState

/-! ## Runs -/

/-- An engine together with every certified record it has held. -/
abbrev Traced := ValidatorEngine × List CertifiedBlockRecord

/-- A step, with the records held after it kept. -/
def TracedStep (C : Crypto) (a b : Traced) : Prop :=
  (∃ act, EngineStep C a.1 act b.1) ∧ b.2 = b.1.certifiedBlocks.values ++ a.2

/-- Any number of steps. -/
def Run (C : Crypto) : Traced → Traced → Prop := Relation.ReflTransGen (TracedStep C)

/-- Each block of the path is certified and recorded with the previous one as its parent. -/
def CertifiedPath (records : List CertifiedBlockRecord) :
    ConsensusBlockRef → ConsensusBlockRef → Prop :=
  Relation.ReflTransGen fun parent child =>
    ∃ record ∈ records, record.parent = parent ∧ record.certificate.blockRef = child

theorem CertifiedPath.mono {rs records' : List CertifiedBlockRecord}
    (h : ∀ r ∈ rs, r ∈ records') {a b : ConsensusBlockRef}
    (path : CertifiedPath rs a b) : CertifiedPath records' a b :=
  Relation.ReflTransGen.mono (fun _ _ ⟨r, hmem, hl⟩ => ⟨r, h r hmem, hl⟩)
    _ _ path

/-- A new engine on a decodable consensus state; a pending handoff was certified on top of the
finalized head. -/
structure Started (C : Crypto) (a : Traced) : Prop where
  created : ∃ state validatorSet keys, state.WellFormed ∧
    ValidatorEngine.new state a.1.genesisCommitment validatorSet keys = .ok a.1
  handoff : ∀ head, a.1.state.FinalizedHead a.1.genesisCommitment head →
    CertifiedPath a.2 head a.1.activeAnchor

/-- What holds along a run: the shape of the engine, and a path of kept records from the finalized
head to the anchor. -/
structure TracedInv (C : Crypto) (a : Traced) : Prop where
  shape : AnchorInv C a.1.snapshot
  kept : ∀ record ∈ a.1.certifiedBlocks.values, record ∈ a.2
  path : ∀ head, a.1.state.FinalizedHead a.1.genesisCommitment head →
    CertifiedPath a.2 head a.1.activeAnchor

/-- What one step does to finality. -/
structure Extends (a b : Traced) : Prop where
  genesis : b.1.genesisCommitment = a.1.genesisCommitment
  height : a.1.state.finalizedHeight ≤ b.1.state.finalizedHeight
  records : ∀ record ∈ a.2, record ∈ b.2
  head : ∀ head head', a.1.state.FinalizedHead a.1.genesisCommitment head →
    b.1.state.FinalizedHead b.1.genesisCommitment head' → CertifiedPath b.2 head head'

section Runs

variable {C : Crypto} {a b c : Traced}

theorem AnchorInv.children {p : PersistedValidatorState} (inv : AnchorInv C p)
    {r : CertifiedBlockRecord} (h : r ∈ p.certifiedBlocks.values) : r.parent = p.activeAnchor := by
  obtain ⟨c, hget⟩ := SortedMap.mem_values.1 h
  exact (inv.record c r hget).parent

theorem kept_of_step (h : b.2 = b.1.certifiedBlocks.values ++ a.2) :
    (∀ r ∈ b.1.certifiedBlocks.values, r ∈ b.2) ∧ ∀ r ∈ a.2, r ∈ b.2 := by
  rw [h]
  exact ⟨fun _ => List.mem_append_left _, fun _ => List.mem_append_right _⟩

section

variable (inv : TracedInv C a) (shape : AnchorInv C b.1.snapshot)
  (hg : b.1.genesisCommitment = a.1.genesisCommitment)
  (hr : b.2 = b.1.certifiedBlocks.values ++ a.2)
include inv shape hg hr

theorem extends_of_same (hs : b.1.state = a.1.state) (han : b.1.activeAnchor = a.1.activeAnchor) :
    TracedInv C b ∧ Extends a b := by
  obtain ⟨hk, hm⟩ := kept_of_step hr
  refine ⟨⟨shape, hk, ?_⟩, ⟨hg, by rw [hs], hm, ?_⟩⟩
  · intro head hh
    rw [hg, hs] at hh
    rw [han]
    exact (inv.path head hh).mono hm
  · intro head head' hh hh'
    rw [hg, hs] at hh'
    rw [hh.unique hh']
    exact .refl

theorem extends_of_commit {qc : QuorumCertificate} (hce : a.1.snapshot.Certifies qc)
    (hf : a.1.state.finalizedHeight < qc.height) (hs : b.1.state = a.1.state.committed qc)
    (han : b.1.activeAnchor = qc.blockRef) : TracedInv C b ∧ Extends a b := by
  obtain ⟨hk, hm⟩ := kept_of_step hr
  have hnew : b.1.state.FinalizedHead b.1.genesisCommitment qc.blockRef := by
    rw [hs]
    exact ⟨rfl, rfl, (if_neg qc.bound.1).symm⟩
  refine ⟨⟨shape, hk, ?_⟩, ⟨hg, ?_, hm, ?_⟩⟩
  · intro head hh
    rw [han, hh.unique hnew]
    exact .refl
  · rw [hs]
    exact hf.le
  · intro head head' hh hh'
    rw [hh'.unique hnew]
    -- from the old head to the old anchor, and from there to its recorded child
    obtain ⟨r, hget, hc⟩ := hce
    have hmem : r ∈ a.1.certifiedBlocks.values := SortedMap.mem_values.2 ⟨_, hget⟩
    refine ((inv.path head hh).mono hm).tail ?_
    exact ⟨r, hm _ (inv.kept r hmem), inv.shape.children hmem, by rw [hc]⟩

theorem extends_of_upgrade {s : ConsensusState} {auth : ConsensusUpgradeAuthorization}
    {handoff : ConsensusBlockRef}
    (hu : a.1.state.applyUpgradeAfterCertifiedBlock auth handoff = .ok s)
    (hha : ∃ r ∈ a.1.certifiedBlocks.values, r.certificate.blockRef = handoff) (hs : b.1.state = s)
    (han : b.1.activeAnchor = handoff) : TracedInv C b ∧ Extends a b := by
  obtain ⟨hk, hm⟩ := kept_of_step hr
  obtain ⟨hhe, hro, hd, hc, -⟩ := applyUpgrade_spec hu
  -- the finalized head itself does not move
  have hhea : ∀ head, b.1.state.FinalizedHead b.1.genesisCommitment head →
      a.1.state.FinalizedHead a.1.genesisCommitment head := by
    intro head hh
    rw [hg, hs] at hh
    unfold FinalizedHead finalizedIds at hh ⊢
    rwa [hhe, hro, hd, hc] at hh
  refine ⟨⟨shape, hk, ?_⟩, ⟨hg, ?_, hm, ?_⟩⟩
  · intro head hh
    rw [han]
    obtain ⟨r, hmem, href⟩ := hha
    refine ((inv.path head (hhea head hh)).mono hm).tail ?_
    exact ⟨r, hm _ (inv.kept r hmem), inv.shape.children hmem, href⟩
  · rw [hs, hhe]
  · intro head head' hh hh'
    rw [hh.unique (hhea head' hh')]
    exact .refl

end

theorem extends_of_message (inv : TracedInv C a) (m : ConsensusMessage C)
    (hb : b.1 = (a.1.process C m).2) (hr : b.2 = b.1.certifiedBlocks.values ++ a.2) :
    TracedInv C b ∧ Extends a b := by
  have shape : AnchorInv C b.1.snapshot := hb ▸ inv.shape.process m
  have hsn : ∀ {e' : ValidatorEngine}, Housekeeping C a.1 e' →
      e'.genesisCommitment = a.1.genesisCommitment ∧ e'.state = a.1.state ∧
        e'.activeAnchor = a.1.activeAnchor ∧ e'.certifiedBlocks = a.1.certifiedBlocks := by
    intro e' h
    exact ⟨congrArg (·.genesisCommitment) h.snapshot,
      congrArg (·.consensus) h.snapshot,
      congrArg (·.activeAnchor) h.snapshot,
      congrArg (·.certifiedBlocks) h.snapshot⟩
  rcases process_cases C a.1 m with h | ⟨proof, e₁, c, -, hap, heq⟩
  · rw [← hb] at h
    obtain ⟨hg, hs, han, -⟩ := hsn h
    exact extends_of_same inv shape hg hr hs han
  · have hk := afterCollect_housekeeping C a.1 m
    obtain ⟨hg₀, hs₀, ha₀, hb₀⟩ := hsn hk
    rw [← hb] at heq
    have hg : b.1.genesisCommitment = e₁.genesisCommitment := by rw [heq]; rfl
    have hs : b.1.state = e₁.state := by rw [heq]; rfl
    have han : b.1.activeAnchor = e₁.activeAnchor := by rw [heq]; rfl
    rcases applyCertificate_cases hap with he | ⟨s, anchor, hnew, he⟩
    · rw [he] at hg hs han
      exact extends_of_same inv shape (hg.trans hg₀) hr (hs.trans hs₀) (han.trans ha₀)
    · have hf := insertCertified_frame (a.1.afterCollect C m) proof.proposal proof.certificate
        proof.votes s anchor
      rw [← he] at hf
      obtain ⟨hs₁, ha₁, hg₁, -⟩ := hf
      have hg := hg.trans (hg₁.trans hg₀)
      rcases newBlock_cases (inv.shape.housekeeping hk) hnew with
        ⟨-, -, rfl, rfl⟩ | ⟨qc, -, hc, -, hfi, rfl, rfl⟩
      · exact extends_of_same inv shape hg hr (hs.trans (hs₁.trans hs₀)) (han.trans (ha₁.trans ha₀))
      · have hc : a.1.snapshot.Certifies qc := by
          obtain ⟨r, hget, hre⟩ := hc
          exact ⟨r, (congrArg (SortedMap.get? · _) hb₀).symm.trans hget, hre⟩
        rw [hs₀] at hfi hs₁
        exact extends_of_commit inv shape hg hr hc hfi (hs.trans hs₁) (han.trans ha₁)

theorem extends_of_step (inv : TracedInv C a) (h : TracedStep C a b) :
    TracedInv C b ∧ Extends a b := by
  obtain ⟨e', records'⟩ := b
  obtain ⟨⟨act, hst⟩, hr⟩ := h
  have shape : AnchorInv C e'.snapshot := inv.shape.step hst
  rcases hst.kinds with ⟨m, -, rfl⟩ | ⟨_, _, _, _, rfl⟩ | ⟨_, _, _, _, _, hh, hu, rfl⟩ | ⟨_, h⟩
  · exact extends_of_message inv m rfl hr
  · exact extends_of_same inv shape rfl hr rfl rfl
  · exact extends_of_upgrade inv shape rfl hr hu hh rfl rfl
  · have hs := restoreEngine_snapshot h
    exact extends_of_same inv shape (congrArg (·.genesisCommitment) hs) hr
      (congrArg (·.consensus) hs) (congrArg (·.activeAnchor) hs)

theorem Started.genesis {manifest : ValidatorGenesis} {e : ValidatorEngine}
    (h : restoreEngine C manifest none = .ok e) : Started C (e, []) := by
  obtain ⟨s, validatorSet, hst, -, hnew⟩ := restoreEngine_fresh h
  obtain ⟨hs, hg, hanc⟩ := new_fields hnew
  refine ⟨⟨s, validatorSet, _, WellFormed.fresh hst, hg ▸ hnew⟩, ?_⟩
  intro head hh
  have hn : s.certifiedHandoff = none := by
    simp only [newWithConsensusContext, Except.inversion] at hst
    rw [← hst.2]
  have han := activeAnchor_head hanc hn
  rw [← hs, ← hg] at han
  rw [hh.unique han]
  exact .refl

theorem Started.inv (h : Started C a) : TracedInv C a := by
  obtain ⟨s, validatorSet, keys, hs, hnew⟩ := h.created
  refine ⟨AnchorInv.start hs hnew, ?_, h.handoff⟩
  intro r hmem
  simp only [new, Except.inversion] at hnew
  obtain ⟨-, -, _, -, heq⟩ := hnew
  rw [← heq] at hmem
  cases hmem

theorem Extends.refl (a : Traced) : Extends a a := by
  refine ⟨rfl, le_rfl, fun _ h => h, fun head head' h h' => ?_⟩
  rw [h.unique h']
  exact Relation.ReflTransGen.refl

theorem Extends.trans (invb : TracedInv C b) (h : Extends a b) (h' : Extends b c) :
    Extends a c := by
  refine ⟨h'.genesis.trans h.genesis, h.height.trans h'.height,
    fun r hr => h'.records r (h.records r hr), fun head head' hh hh' => ?_⟩
  obtain ⟨mid, hmid⟩ := invb.shape.state.exists_head (genesis_ne_zero_of_anchor invb.shape.anchor)
  exact ((h.head head mid hh hmid).mono h'.records).trans (h'.head mid head' hmid hh')

theorem extends_of_run (inv : TracedInv C a) (run : Run C a b) : TracedInv C b ∧ Extends a b := by
  induction run with
  | refl => exact ⟨inv, Extends.refl _⟩
  | tail _ step ih =>
    obtain ⟨invc, hext⟩ := extends_of_step ih.1 step
    exact ⟨invc, ih.2.trans ih.1 hext⟩

/-- **Finality moves along certified parents and never back.**  Between any two moments of a run
the finalized height does not decrease, the later finalized block descends from the earlier one
through certified blocks, and every block still recorded descends from the anchor. -/
theorem finalized_chain_extends (start : Started C a) (before : Run C a b) (after : Run C b c) :
    b.1.state.finalizedHeight ≤ c.1.state.finalizedHeight ∧
    (∃ head head', b.1.state.FinalizedHead b.1.genesisCommitment head ∧
      c.1.state.FinalizedHead c.1.genesisCommitment head' ∧ CertifiedPath c.2 head head') ∧
    ∀ record ∈ c.1.certifiedBlocks.values,
      CertifiedPath c.1.certifiedBlocks.values c.1.activeAnchor record.certificate.blockRef := by
  obtain ⟨invb, -⟩ := extends_of_run start.inv before
  obtain ⟨invc, hext⟩ := extends_of_run invb after
  obtain ⟨head, hh⟩ := invb.shape.state.exists_head (genesis_ne_zero_of_anchor invb.shape.anchor)
  obtain ⟨head', hh'⟩ := invc.shape.state.exists_head (genesis_ne_zero_of_anchor invc.shape.anchor)
  refine ⟨hext.height, ⟨head, head', hh, hh', hext.head head head' hh hh'⟩, ?_⟩
  intro record hmem
  exact .single ⟨record, hmem, invc.shape.children hmem, rfl⟩

end Runs

/-- The engine after a sequence of messages, with the records it held. -/
def processAll (C : Crypto) (a : Traced) (messages : List (ConsensusMessage C)) : Traced :=
  messages.foldl (fun a m =>
    ((a.1.process C m).2, (a.1.process C m).2.certifiedBlocks.values ++ a.2)) a

theorem run_processAll {C : Crypto} (messages : List (ConsensusMessage C)) (a : Traced) :
    Run C a (processAll C a messages) := by
  induction messages generalizing a with
  | nil => exact .refl
  | cons m rest ih => exact .head ⟨⟨_, EngineStep.message a.1 m⟩, rfl⟩ (ih _)

/-! ## A chain of one validator -/

namespace SoloChain

abbrev crypto : Crypto := Crypto.transparent

def manifest : ValidatorGenesis :=
  ⟨0, 1, 1, [⟨1, 1, 7, Nat.one_ne_zero⟩], by decide, by decide, by decide⟩

def context : ConsensusVoteContext :=
  ⟨manifest.genesisCommitment crypto, 0, manifest.validatorSetRoot crypto, 1, by decide +kernel⟩

def genesisRef : ConsensusBlockRef :=
  ⟨manifest.genesisCommitment crypto, manifest.genesisCommitment crypto, 0, 0, by decide +kernel⟩

def upgrade : ConsensusUpgradeAuthorization :=
  ⟨1, 3, 0, 0, manifest.validatorSetRoot crypto, manifest.validatorSetRoot crypto, 1, 2,
    by decide, by decide +kernel, by decide, by decide +kernel⟩

def first : BlockProposal :=
  ⟨1, context, 1, 0, upgrade.commitment crypto, .finalized genesisRef, ⟨.mlDsa44, 7⟩, rfl,
    by decide +kernel, by decide +kernel, trivial, by decide +kernel⟩

def firstVote : ValidatorVote :=
  ⟨1, context, 1, 0, upgrade.commitment crypto, first.commitment crypto, ⟨.mlDsa44, 7⟩, rfl,
    by decide +kernel⟩

def firstQc : QuorumCertificate :=
  ⟨context, 1, 0, upgrade.commitment crypto, first.commitment crypto,
    crypto.shake256 (.tag "ACTIVECHAIN-VOTE-SET-V1" :: voteSetEntry (7, firstVote)), 1, 1,
    by decide +kernel, VerifierGap.certificate.stake, VerifierGap.certificate.quorum⟩

/-- The second block, justified by the first one's certificate. -/
def second : BlockProposal :=
  ⟨1, context, 2, 1, 20, .quorum firstQc, ⟨.mlDsa44, 7⟩, rfl, by decide, by decide +kernel,
    by decide +kernel, by decide +kernel⟩

def secondVote : ValidatorVote :=
  ⟨1, context, 2, 1, 20, second.commitment crypto, ⟨.mlDsa44, 7⟩, rfl, by decide +kernel⟩

def messages : List (ConsensusMessage crypto) :=
  [.proposal first, .vote firstVote, .proposal second, .vote secondVote]

theorem first_block_finalized : ∃ a : Traced, Started crypto a ∧
    (processAll crypto a messages).1.state.finalizedHeight = 1 ∧
    a.1.state.finalizedHeight ≤ (processAll crypto a messages).1.state.finalizedHeight := by
  have hrun : (restoreEngine crypto manifest none).map
      (fun e => (processAll crypto (e, []) messages).1.state.finalizedHeight) = .ok 1 := by
    decide +kernel
  cases hs : restoreEngine crypto manifest none with
  | error err =>
    rw [hs] at hrun
    cases hrun
  | ok e =>
    rw [hs] at hrun
    have hst : Started crypto (e, []) := Started.genesis hs
    exact ⟨(e, []), hst, Except.ok.inj hrun, (finalized_chain_extends hst .refl
        (run_processAll messages (e, []))).1⟩

end SoloChain

end ActiveChain
