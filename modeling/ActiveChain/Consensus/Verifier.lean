import ActiveChain.Consensus.Types

/-!
# Signature and certificate verification (`crypto-provider`, `consensus-verifier`)

Two crates verify a quorum certificate against its votes: the production one in `crypto-provider`
and the portable one in `consensus-verifier`.

* `CryptoProvider.verify_ok_iff`, `ConsensusVerifier.verify_ok_iff` — exactly what each accepts.
  Only the production verifier requires every vote to carry the certificate's own proposal
  commitment.
-/

namespace ActiveChain

open Except List Option

variable (C : Crypto)

/-! ## Single signatures -/

section

variable (publicKey : PublicKey)

def verifyValidatorVote (vote : ValidatorVote) : VerifyM Unit :=
  C.verifyMlDsa44 publicKey vote.signingPayload vote.signature.bytes

def verifyBlockProposal (proposal : BlockProposal) : VerifyM Unit :=
  C.verifyMlDsa44 publicKey proposal.signingPayload proposal.signature.bytes

/-- `verify_ml_dsa44` on a timeout vote. -/
def verifyTimeoutVote (vote : TimeoutVote) : VerifyM Unit :=
  C.verifyMlDsa44 publicKey vote.signingPayload vote.signature.bytes

end

/-! ## View-change certificates -/

/-- One iteration of the stake recount in `verify_view_change_certificate`. -/
def recountTimeoutVote (validatorSet : ValidatorSet) (publicKey? : PrincipalId → Option PublicKey)
    (signerStake : Nat) (vote : TimeoutVote) : VerifyM Nat := do
  let stake ← okOr (validatorSet.stakeOf vote.validator) .unknownValidator
  let publicKey ← okOr (publicKey? vote.validator) .unknownValidator
  verifyTimeoutVote C publicKey vote
  okOr (checkedAdd 128 signerStake stake) .stakeOverflow

def verifyViewChangeCertificate (certificate : ViewChangeCertificate) (validatorSet : ValidatorSet)
    (publicKey? : PrincipalId → Option PublicKey) : VerifyM Unit := do
  rejectIf (certificate.totalStake ≠ validatorSet.totalStake) .stakeMismatch
  let signerStake ←
    certificate.votes.foldlM (recountTimeoutVote C validatorSet publicKey?) 0
  rejectIf (signerStake ≠ certificate.signerStake) .stakeMismatch

/-! ## The vote loop -/

/-- Running state of a certificate check.  Only `crypto-provider` keeps a `proposalCommitment`. -/
structure VoteTally where
  seen : List PrincipalId
  signerStake : Nat
  voteDomain : Option (Digest384 × Digest384 × Nat)
  proposalCommitment : Option Digest384
  previousValidator : Option PrincipalId
  voteSet : Transcript

def VoteTally.init : VoteTally := ⟨[], 0, none, none, none, [.tag "ACTIVECHAIN-VOTE-SET-V1"]⟩

/-- `(genesis_commitment, validator_set_root, protocol_revision)`. -/
def ConsensusVoteContext.domain (c : ConsensusVoteContext) : Digest384 × Digest384 × Nat :=
  (c.genesisCommitment, c.validatorSetRoot, c.protocolRevision)

def voteSetEntry (e : PublicKey × ValidatorVote) : Transcript :=
  .key e.1 :: (e.2.signingPayload ++ [.bytes e.2.signature.bytes])

def VoteTally.next (t : VoteTally) (commitment : Option Digest384) (e : PublicKey × ValidatorVote)
    (signerStake : Nat) : VoteTally where
  seen := t.seen ++ [e.2.validator]
  signerStake := signerStake
  voteDomain := some e.2.context.domain
  proposalCommitment := commitment
  previousValidator := some e.2.validator
  voteSet := t.voteSet ++ voteSetEntry e

section

variable (certificate : QuorumCertificate) (validatorSet : ValidatorSet)

/-- The closing comparison of both verifiers. -/
def checkTally (t : VoteTally) : VerifyM Unit := do
  rejectIf (C.shake256 t.voteSet ≠ certificate.voteSetRoot) .voteSetRootMismatch
  rejectIf (validatorSet.totalStake ≠ certificate.totalStake ∨
    t.signerStake ≠ certificate.signerStake) .stakeMismatch

namespace CryptoProvider

/-- Loop body of `crypto-provider`'s `verify_quorum_certificate`. -/
def tallyVote (t : VoteTally) (e : PublicKey × ValidatorVote) : VerifyM VoteTally := do
  let vote := e.2
  rejectIf (vote.context ≠ certificate.context ∨
    (∃ domain ∈ t.voteDomain, domain ≠ vote.context.domain) ∨
    vote.height ≠ certificate.height ∨ vote.round ≠ certificate.round ∨
    vote.blockDigest ≠ certificate.blockDigest ∨
    vote.proposalCommitment ≠ certificate.proposalCommitment ∨
    (∃ commitment ∈ t.proposalCommitment, commitment ≠ vote.proposalCommitment))
    .voteContextMismatch
  rejectIf (vote.validator ∈ t.seen) .duplicateValidator
  rejectIf (∃ previous ∈ t.previousValidator, vote.validator ≤ previous) .nonCanonicalVoteOrder
  let stake ← okOr (validatorSet.stakeOf vote.validator) .unknownValidator
  verifyValidatorVote C e.1 vote
  let signerStake ← okOr (checkedAdd 128 t.signerStake stake) .stakeMismatch
  .ok (t.next (some vote.proposalCommitment) e signerStake)

/-- `crypto-provider`'s `verify_quorum_certificate`. -/
def verifyQuorumCertificate (votes : List KeyedVote) : VerifyM Unit := do
  let t ← votes.foldlM (tallyVote C certificate validatorSet) VoteTally.init
  checkTally C certificate validatorSet t

end CryptoProvider

namespace ConsensusVerifier

/-- Loop body of `consensus-verifier`'s `verify_quorum_certificate`: the proposal commitment of
the vote is not compared. -/
def tallyVote (t : VoteTally) (e : PublicKey × ValidatorVote) : VerifyM VoteTally := do
  let vote := e.2
  rejectIf (vote.context ≠ certificate.context ∨
    (∃ domain ∈ t.voteDomain, domain ≠ vote.context.domain) ∨
    vote.height ≠ certificate.height ∨ vote.round ≠ certificate.round ∨
    vote.blockDigest ≠ certificate.blockDigest)
    .voteContextMismatch
  rejectIf (vote.validator ∈ t.seen) .duplicateValidator
  rejectIf (∃ previous ∈ t.previousValidator, vote.validator ≤ previous) .nonCanonicalVoteOrder
  let stake ← okOr (validatorSet.stakeOf vote.validator) .unknownValidator
  verifyValidatorVote C e.1 vote
  let signerStake ← okOr (checkedAdd 128 t.signerStake stake) .stakeMismatch
  .ok (t.next t.proposalCommitment e signerStake)

/-- `consensus-verifier`'s `verify_quorum_certificate`. -/
def verifyQuorumCertificate (votes : List KeyedVote) : VerifyM Unit := do
  let t ← votes.foldlM (tallyVote C certificate validatorSet) VoteTally.init
  checkTally C certificate validatorSet t

end ConsensusVerifier

/-! ## What the loops accept -/

/-- The stake of a list of signers added to `acc`, in checked arithmetic; `none` when one of them
is unknown or the sum overflows. -/
def stakeFrom (acc : Nat) (signers : List PrincipalId) : Option Nat :=
  signers.foldlM (fun acc v => (validatorSet.stakeOf v).bind (checkedAdd 128 acc)) acc

/-- The fields both verifiers compare. -/
def VoteBinds (vote : ValidatorVote) : Prop :=
  vote.context = certificate.context ∧ vote.height = certificate.height ∧
    vote.round = certificate.round ∧ vote.blockDigest = certificate.blockDigest
deriving Decidable

variable (votes : List KeyedVote)

def signers : List PrincipalId := votes.map fun e => e.2.validator

/-- The checks the two verifiers share. -/
structure VotesVerified : Prop where
  binds : ∀ e ∈ votes, VoteBinds certificate e.2
  signatures : ∀ e ∈ votes, verifyValidatorVote C e.1 e.2 = .ok ()
  ordered : (signers votes).Pairwise (· < ·)
  stake : stakeFrom validatorSet 0 (signers votes) = some certificate.signerStake
  total : validatorSet.totalStake = certificate.totalStake
  root : C.shake256 (.tag "ACTIVECHAIN-VOTE-SET-V1" :: votes.flatMap voteSetEntry) =
    certificate.voteSetRoot

/-- What holds of the tally while every vote so far was accepted. -/
structure VoteTally.Inv (t : VoteTally) : Prop where
  domain : ∀ d ∈ t.voteDomain, d = certificate.context.domain
  commitment : ∀ c ∈ t.proposalCommitment, c = certificate.proposalCommitment
  seen : ∀ v ∈ t.seen, ∃ p ∈ t.previousValidator, v ≤ p

end

open VoteTally
section Loop

variable {C} {certificate : QuorumCertificate} {validatorSet : ValidatorSet}
  {step : VoteTally → KeyedVote → VerifyM VoteTally}
  {binds : ValidatorVote → Prop} {commit : VoteTally → ValidatorVote → Option Digest384}

/-- One iteration of either loop, from a tally that satisfies the invariant. -/
def StepSpec (C : Crypto) (certificate : QuorumCertificate) (validatorSet : ValidatorSet)
    (step : VoteTally → KeyedVote → VerifyM VoteTally)
    (binds : ValidatorVote → Prop) (commit : VoteTally → ValidatorVote → Option Digest384) : Prop :=
  ∀ t e t', t.Inv certificate → (step t e = .ok t' ↔
    (binds e.2 ∧ verifyValidatorVote C e.1 e.2 = .ok ()) ∧
    (∀ p ∈ t.previousValidator, p < e.2.validator) ∧
    ∃ sum, (validatorSet.stakeOf e.2.validator).bind (checkedAdd 128 t.signerStake) = some sum ∧
      t' = t.next (commit t e.2) e sum)

/-- A validator above the last one has not voted yet. -/
theorem VoteTally.Inv.not_seen {t : VoteTally} (h : t.Inv certificate) {v : Nat}
    (hpr : ∀ p ∈ t.previousValidator, p < v) : v ∉ t.seen := by
  intro hse
  obtain ⟨p, hp, hle⟩ := h.seen v hse
  exact absurd (hpr p hp) (not_lt.2 hle)

theorem VoteTally.Inv.next {t : VoteTally} (h : t.Inv certificate) {e : PublicKey × ValidatorVote}
    {commitment : Option Digest384} (sum : Nat) (hctx : e.2.context = certificate.context)
    (hc : ∀ c ∈ commitment, c = certificate.proposalCommitment)
    (hpr : ∀ p ∈ t.previousValidator, p < e.2.validator) :
    (t.next commitment e sum).Inv certificate := by
  refine ⟨?_, hc, ?_⟩
  · intro d hd
    cases hd
    rw [hctx]
  · intro v hv
    refine ⟨e.2.validator, rfl, ?_⟩
    rcases mem_append.1 hv with hv | hv
    · obtain ⟨p, hp, hle⟩ := h.seen v hv
      exact hle.trans (hpr p hp).le
    · rw [mem_singleton.1 hv]

theorem pairwise_toList_cons {p : Option Nat} {v : Nat} {vs : List Nat} :
    (p.toList ++ v :: vs).Pairwise (· < ·) ↔
      (∀ q ∈ p, q < v) ∧ ((some v).toList ++ vs).Pairwise (· < ·) := by
  cases p with
  | none => simp
  | some q =>
    simp only [toList_some, singleton_append, pairwise_cons, mem_cons,
      mem_some_iff, forall_eq', forall_eq_or_imp]
    constructor
    · rintro ⟨⟨hq, -⟩, h⟩
      exact ⟨hq, h⟩
    · rintro ⟨hq, hv, h⟩
      exact ⟨⟨hq, fun a ha => hq.trans (hv a ha)⟩, hv, h⟩

variable (hste : StepSpec C certificate validatorSet step binds commit)
  (hctx : ∀ v, binds v → v.context = certificate.context)
  (hc : ∀ t v, t.Inv certificate → binds v → ∀ c ∈ commit t v, c = certificate.proposalCommitment)
include hste hctx hc

/-- **A whole loop, from its step specification.** -/
theorem loop_ok_iff (stake : Nat) (w : Transcript) (votes : List KeyedVote) :
    ∀ t : VoteTally, t.Inv certificate →
    ((∃ t', votes.foldlM step t = .ok t' ∧ t'.signerStake = stake ∧ t'.voteSet = w) ↔
      (∀ e ∈ votes, binds e.2 ∧ verifyValidatorVote C e.1 e.2 = .ok ()) ∧
      (t.previousValidator.toList ++ signers votes).Pairwise (· < ·) ∧
      stakeFrom validatorSet t.signerStake (signers votes) = some stake ∧
      t.voteSet ++ votes.flatMap voteSetEntry = w) := by
  induction votes with
  | nil =>
    intro t _
    cases hp : t.previousValidator <;> simp [signers, stakeFrom, pure, Except.pure]
  | cons e rest ih =>
    intro t ht
    -- the first iteration decides the first vote; the induction hypothesis decides the rest
    -- from the tally it leaves
    have hsi : signers (e :: rest) = e.2.validator :: signers rest := rfl
    simp only [foldlM_cons, bind_eq_ok, forall_mem_cons, hsi, pairwise_toList_cons, flatMap_cons]
    constructor
    · rintro ⟨t', ⟨t₁, h₁, hr⟩, hs, hw⟩
      obtain ⟨⟨hb, hv⟩, hpr, sum, hsum, rfl⟩ := (hste t e t₁ ht).1 h₁
      have ht₁ := ht.next sum (hctx _ hb) (hc t e.2 ht hb) hpr
      obtain ⟨hall, hord, hst, hset⟩ := (ih _ ht₁).1 ⟨t', hr, hs, hw⟩
      refine ⟨⟨⟨hb, hv⟩, hall⟩, ⟨hpr, hord⟩, ?_, ?_⟩
      · rw [stakeFrom, foldlM_cons, hsum]
        exact hst
      · rw [← hset, ← append_assoc]
        rfl
    · rintro ⟨⟨⟨hb, hv⟩, hall⟩, ⟨hpr, hord⟩, hst, hset⟩
      obtain ⟨sum, hsum, hst⟩ := bind_eq_some_iff.1 hst
      have ht₁ := ht.next sum (hctx _ hb) (hc t e.2 ht hb) hpr
      obtain ⟨t', hr, hs, hw⟩ := (ih _ ht₁).2 ⟨hall, hord, hst, by
        rw [← hset, ← append_assoc]; rfl⟩
      exact ⟨t', ⟨_, (hste t e _ ht).2 ⟨⟨hb, hv⟩, hpr, sum, hsum, rfl⟩, hr⟩, hs, hw⟩

theorem verify_ok_iff_of_step (votes : List KeyedVote) :
    (votes.foldlM step init >>= checkTally C certificate validatorSet) = .ok () ↔
      (∀ e ∈ votes, binds e.2 ∧ verifyValidatorVote C e.1 e.2 = .ok ()) ∧
      (signers votes).Pairwise (· < ·) ∧
      stakeFrom validatorSet 0 (signers votes) = some certificate.signerStake ∧
      validatorSet.totalStake = certificate.totalStake ∧
      C.shake256 (.tag "ACTIVECHAIN-VOTE-SET-V1" :: votes.flatMap voteSetEntry) =
        certificate.voteSetRoot := by
  have hl := fun stake w =>
    loop_ok_iff hste hctx hc stake w votes init ⟨by simp [init], by simp [init], by simp [init]⟩
  simp only [inversion, checkTally]
  constructor
  · rintro ⟨t, ht, hr, hto, hs⟩
    obtain ⟨hall, hord, hsum, hset⟩ := (hl _ _).1 ⟨t, ht, rfl, rfl⟩
    refine ⟨hall, hord, ?_, hto, ?_⟩
    · rw [← hs]; exact hsum
    · rw [← hr, ← hset]; rfl
  · rintro ⟨hall, hord, hsum, hto, hr⟩
    obtain ⟨t, ht, hs, hset⟩ := (hl _ _).2 ⟨hall, hord, hsum, rfl⟩
    refine ⟨t, ht, ?_, hto, hs⟩
    rw [hset, ← hr]; rfl

end Loop

section

variable {certificate : QuorumCertificate} {validatorSet : ValidatorSet}

section

variable (cert : QuorumCertificate) (validatorSet : ValidatorSet)

theorem CryptoProvider.tallyVote_spec :
    StepSpec C cert validatorSet (tallyVote C cert validatorSet)
      (fun v => VoteBinds cert v ∧ v.proposalCommitment = cert.proposalCommitment)
      (fun _ v => some v.proposalCommitment) := by
  intro t e t' ht
  simp only [tallyVote, inversion, not_exists, not_and, not_le, bind_eq_some_iff]
  constructor
  · rintro ⟨⟨hctx, -, hh, hr, hd, hc, -⟩, -, hpr, stake, hs, hv, sum, hsum, rfl⟩
    exact ⟨⟨⟨⟨hctx, hh, hr, hd⟩, hc⟩, hv⟩, hpr, sum, ⟨stake, hs, hsum⟩, rfl⟩
  · rintro ⟨⟨⟨⟨hctx, hh, hr, hd⟩, hc⟩, hv⟩, hpr, sum, ⟨stake, hs, hsum⟩, rfl⟩
    refine ⟨⟨hctx, ?_, hh, hr, hd, hc, ?_⟩, ht.not_seen hpr, hpr, stake, hs, hv, sum, hsum, rfl⟩
    · intro d hd
      rw [ht.domain d hd, hctx]
    · intro c hc'
      rw [ht.commitment c hc', hc]

theorem ConsensusVerifier.tallyVote_spec :
    StepSpec C cert validatorSet (tallyVote C cert validatorSet)
      (VoteBinds cert) (fun t _ => t.proposalCommitment) := by
  intro t e t' ht
  simp only [tallyVote, inversion, not_exists, not_and, not_le, bind_eq_some_iff]
  constructor
  · rintro ⟨⟨hctx, -, hh, hr, hd⟩, -, hpr, stake, hs, hv, sum, hsum, rfl⟩
    exact ⟨⟨⟨hctx, hh, hr, hd⟩, hv⟩, hpr, sum, ⟨stake, hs, hsum⟩, rfl⟩
  · rintro ⟨⟨⟨hctx, hh, hr, hd⟩, hv⟩, hpr, sum, ⟨stake, hs, hsum⟩, rfl⟩
    refine ⟨⟨hctx, ?_, hh, hr, hd⟩, ht.not_seen hpr, hpr, stake, hs, hv, sum, hsum, rfl⟩
    intro d hd
    rw [ht.domain d hd, hctx]

end

/-- **The portable verifier accepts exactly the shared checks.** -/
theorem ConsensusVerifier.verify_ok_iff {votes : List KeyedVote} :
    verifyQuorumCertificate C certificate validatorSet votes = .ok () ↔
      VotesVerified C certificate validatorSet votes := by
  refine (verify_ok_iff_of_step (tallyVote_spec C certificate validatorSet) (fun v h => h.1)
    (fun t _ ht _ => ht.commitment) votes).trans ?_
  constructor
  · rintro ⟨hall, hord, hs, hto, hr⟩
    exact ⟨fun e he => (hall e he).1, fun e he => (hall e he).2, hord, hs, hto, hr⟩
  · intro h
    exact ⟨fun e he => ⟨h.binds e he, h.signatures e he⟩, h.ordered, h.stake, h.total, h.root⟩

/-- **The production verifier also binds every vote to the certificate's proposal.** -/
theorem CryptoProvider.verify_ok_iff {votes : List KeyedVote} :
    verifyQuorumCertificate C certificate validatorSet votes = .ok () ↔
      VotesVerified C certificate validatorSet votes ∧
      ∀ e ∈ votes, e.2.proposalCommitment = certificate.proposalCommitment := by
  refine (verify_ok_iff_of_step (tallyVote_spec C certificate validatorSet) (fun v h => h.1.1)
    (fun _ v _ hv c hc => by cases hc; exact hv.2) votes).trans ?_
  constructor
  · rintro ⟨hall, hord, hs, ht, hr⟩
    exact ⟨⟨fun e he => (hall e he).1.1, fun e he => (hall e he).2, hord, hs, ht, hr⟩,
      fun e he => (hall e he).1.2⟩
  · rintro ⟨h, hc⟩
    exact ⟨fun e he => ⟨⟨h.binds e he, hc e he⟩, h.signatures e he⟩, h.ordered, h.stake, h.total,
      h.root⟩

end

/-! ## Comparison -/

/-- **The verifiers agree on an input exactly when passing the shared checks forces every vote to
carry the certificate's proposal commitment.** -/
theorem verifiers_agree_iff (certificate : QuorumCertificate) (validatorSet : ValidatorSet)
    (votes : List KeyedVote) :
    (ConsensusVerifier.verifyQuorumCertificate C certificate validatorSet votes = .ok () ↔
      CryptoProvider.verifyQuorumCertificate C certificate validatorSet votes = .ok ()) ↔
    (VotesVerified C certificate validatorSet votes →
      ∀ e ∈ votes, e.2.proposalCommitment = certificate.proposalCommitment) := by
  rw [ConsensusVerifier.verify_ok_iff, CryptoProvider.verify_ok_iff]
  constructor
  · intro h hv
    exact (h.1 hv).2
  · intro h
    exact ⟨fun hv => ⟨hv, h hv⟩, And.left⟩

namespace VerifierGap

/-- A context, a one-member set, and a certificate over proposal `9`. -/
def context : ConsensusVoteContext := ⟨1, 0, 2, 1, by decide⟩

def validatorSet : ValidatorSet := ⟨[⟨3, 1⟩], 1, by decide, by decide, by decide, by decide⟩

def certificate : QuorumCertificate :=
  ⟨context, 1, 0, 4, 9, 5, 1, 1, by decide, by decide, by decide⟩

/-- The only vote names the same block but proposal commitment `8`. -/
def vote : ValidatorVote := ⟨3, context, 1, 0, 4, 8, ⟨.mlDsa44, 0⟩, rfl, by decide⟩

/-- The vote set hashes to the certificate's root and the signature verifies. -/
def crypto : Crypto := ⟨fun _ => 5, fun _ _ => 0, fun _ _ _ => .ok ()⟩

/-- A vote for another proposal of the same block passes the portable verifier only. -/
theorem portable_accepts_foreign_vote :
    ConsensusVerifier.verifyQuorumCertificate crypto certificate validatorSet [(0, vote)] =
      .ok () ∧
    CryptoProvider.verifyQuorumCertificate crypto certificate validatorSet [(0, vote)] =
      .error .voteContextMismatch := by
  decide

end VerifierGap

end ActiveChain
