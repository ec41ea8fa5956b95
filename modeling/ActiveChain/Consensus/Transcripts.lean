import ActiveChain.Consensus.Types

/-!
# What a transcript determines

A signed payload determines the fields it was built from, and under an injective hash a commitment
determines its preimage.

* `votePayload_inj`, `timeoutPayload_inj` — the payload of a vote determines the vote.
* `BlockProposal.commitment_injective` — a proposal commitment determines the whole proposal, the
  view-change votes inside its justification included.
* `ValidatorGenesis.entries_of_root` — a validator-set root determines members, stakes and keys.
-/

namespace ActiveChain

open List Transcript Function

theorem ConsensusVoteContext.transcript_injective : Injective ConsensusVoteContext.transcript := by
  intro a b h
  simp only [transcript, inversion] at h
  exact ConsensusVoteContext.ext h.1 h.2.1 h.2.2.1 h.2.2.2

theorem ConsensusBlockRef.transcript_injective : Injective ConsensusBlockRef.transcript := by
  intro a b h
  simp only [transcript, inversion] at h
  exact ConsensusBlockRef.ext h.1 h.2.1 h.2.2.1 h.2.2.2

open ConsensusVoteContext

theorem QuorumCertificate.transcript_injective : Injective QuorumCertificate.transcript := by
  intro a b h
  obtain ⟨hctx, hre⟩ := append_inj h rfl
  simp only [inversion] at hre
  obtain ⟨hh, hr, hb, hp, hv, ht, hs⟩ := hre
  exact QuorumCertificate.ext (ConsensusVoteContext.transcript_injective hctx) hh hr hb hp hv ht hs

section

variable {c c' : ConsensusVoteContext} {v v' : PrincipalId}

theorem votePayload_inj {h h' r r' : Nat} {b b' p p' : Digest384}
    (heq : votePayload v c h r b p = votePayload v' c' h' r' b' p') :
    v = v' ∧ c = c' ∧ h = h' ∧ r = r' ∧ b = b' ∧ p = p' := by
  obtain ⟨heq, hr⟩ := append_inj heq rfl
  obtain ⟨-, hc⟩ := append_inj heq rfl
  simp only [inversion] at hr
  exact ⟨hr.1, transcript_injective hc, hr.2⟩

theorem timeoutPayload_inj {h h' r r' : Nat} {p p' : ConsensusBlockRef}
    {q q' : Option QuorumCertificate}
    (heq : timeoutPayload v c h r p q = timeoutPayload v' c' h' r' p' q') :
    v = v' ∧ c = c' ∧ h = h' ∧ r = r' ∧ p = p' ∧ q = q' := by
  obtain ⟨heq, hq⟩ := append_inj heq rfl
  obtain ⟨heq, hp⟩ := append_inj heq rfl
  obtain ⟨heq, hpos⟩ := append_inj heq rfl
  obtain ⟨hv, hc⟩ := append_inj heq rfl
  simp only [inversion] at hv hpos
  refine ⟨hv, transcript_injective hc, hpos.1, hpos.2,
    ConsensusBlockRef.transcript_injective hp, ?_⟩
  cases q with
  | none => cases q' with
    | none => rfl
    | some qc' => simp at hq
  | some qc => cases q' with
    | none => simp at hq
    | some qc' => rw [QuorumCertificate.transcript_injective (cons.inj hq).2]

theorem TimeoutVote.transcript_selfDelimiting : SelfDelimiting TimeoutVote.transcript := by
  intro a b s t h
  simp only [transcript, append_assoc, inversion] at h
  obtain ⟨hlen, hre⟩ := h
  obtain ⟨hpa, hre⟩ := append_inj hre hlen
  obtain ⟨hsig, hre⟩ := cons.inj hre
  obtain ⟨hv, hc, hh, hr, hp, hq⟩ := timeoutPayload_inj hpa
  have hs : a.signature.suite = b.signature.suite := a.suite.trans b.suite.symm
  exact ⟨TimeoutVote.ext hv hc hh hr hp hq (ProtocolSignature.ext hs (Chunk.bytes.inj hsig)), hre⟩

theorem ViewChangeCertificate.transcript_injective :
    Injective ViewChangeCertificate.transcript := by
  intro a b h
  obtain ⟨h, hv⟩ := append_inj h rfl
  obtain ⟨h, hs⟩ := append_inj h rfl
  obtain ⟨h, hp⟩ := append_inj h rfl
  obtain ⟨hctx, hpos⟩ := append_inj h rfl
  have hp := ConsensusBlockRef.transcript_injective hp
  have hv := TimeoutVote.transcript_selfDelimiting.flatMap_injective (fun v => by
    simp [TimeoutVote.transcript]) hv
  simp only [inversion] at hpos hs
  -- the highest certificate is not hashed itself: the votes select it
  have hqc : a.highestQc = b.highestQc := by
    have ha := a.selected.1
    rw [hv, b.selected.1, hp] at ha
    exact Option.map_injective (fun _ _ h => (Prod.mk.inj h).1) ha.symm
  exact ViewChangeCertificate.ext (ConsensusVoteContext.transcript_injective hctx) hpos.1 hpos.2
    hp hqc hs.1 hs.2.1 hv

theorem ProposalJustification.transcript_injective :
    Injective ProposalJustification.transcript := by
  intro a b h
  cases a <;> cases b <;>
    simp only [transcript, Nat.reduceEqDiff, false_and, reduceCtorEq, inversion] at h
  · rw [ConsensusBlockRef.transcript_injective h]
  · rw [QuorumCertificate.transcript_injective h]
  · rw [ViewChangeCertificate.transcript_injective h]

theorem proposalPayload_inj {h h' r r' : Nat} {b b' : Digest384} {j j' : ProposalJustification}
    (heq : proposalPayload v c h r b j = proposalPayload v' c' h' r' b' j') :
    v = v' ∧ c = c' ∧ h = h' ∧ r = r' ∧ b = b' ∧ j = j' := by
  obtain ⟨heq, hj⟩ := append_inj heq rfl
  obtain ⟨heq, hpos⟩ := append_inj heq rfl
  obtain ⟨hv, hc⟩ := append_inj heq rfl
  simp only [inversion] at hv hpos
  exact ⟨hv, transcript_injective hc, hpos.1, hpos.2.1, hpos.2.2,
    ProposalJustification.transcript_injective hj⟩

end

variable {C : Crypto} (hash : Injective C.shake256)
include hash

theorem BlockProposal.commitment_injective : Injective (BlockProposal.commitment C) := by
  intro p q h
  have h := hash h
  simp only [inversion] at h
  obtain ⟨hlen, h⟩ := h
  obtain ⟨hp, hsig⟩ := append_inj h hlen
  obtain ⟨hv, hc, hh, hr, hb, hj⟩ := proposalPayload_inj hp
  simp only [inversion] at hsig
  have hs : p.signature.suite = q.signature.suite := p.suite.trans q.suite.symm
  exact BlockProposal.ext hv hc hh hr hb hj (ProtocolSignature.ext hs hsig)

theorem ValidatorGenesis.entries_of_root {g g' : ValidatorGenesis}
    (h : g.validatorSetRoot C = g'.validatorSetRoot C) : g.entries = g'.entries := by
  have h := (cons.inj (hash h)).2
  refine SelfDelimiting.flatMap_injective ?_ (fun e => by simp) h
  refine SelfDelimiting.of_length 3 (fun _ => rfl) ?_
  intro a b hab
  simp only [inversion] at hab
  exact ValidatorGenesisEntry.ext hab.1 hab.2.1 hab.2.2

theorem BlockProposal.commitment_ne_genesis (p : BlockProposal) (g : ValidatorGenesis) :
    p.commitment C ≠ g.genesisCommitment C := by
  intro h
  have h := (cons.inj (hash h)).1
  simp at h

end ActiveChain
