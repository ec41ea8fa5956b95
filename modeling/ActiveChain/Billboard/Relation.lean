import ActiveChain.Cash.Types
import ActiveChain.Commitment

/-!
# The relations of the private billboard (`private-billboard`)

A permit holds value behind a commitment.  A post replaces it by a successor that has paid the fee,
a withdrawal ends it.  What the holder proves is a relation between public inputs, the opened
permits, a configuration and a list of moderation decisions, all of which the holder supplies.

* `BillboardConfig`, `BillboardPermit`, `PostPublicInputs`, `WithdrawalPublicInputs` — the data.
* `screenMatured`, `accrueSaveUp`, `derivePostSuccessor` — the rules of a post.
* `verifyPost`, `verifyWithdrawal` — the two relations.
* `BillboardPermit.commitment_injective` — **a commitment has one opening.**
* `derivePostSuccessor_eq_ok` — what a successor looks like.
-/

namespace ActiveChain

open Function Except List

def maxMessageBytes : Nat := 280

/-- The most posts of a permit that wait for screening. -/
def maxRelationDecisions : Nat := 2

/-- Without the errors of note encryption and of the encoder. -/
inductive BillboardError
  | messageTooLarge
  | wrongChain
  | wrongAsset
  | wrongPolicy
  | wrongPermit
  | invalidProof
  | nullifierSpent
  | capacityExceeded
  | cooldown
  | screeningRequired
  | decisionMissing
  | alreadyDecided
  | withdrawalNotReady
  | arithmeticOverflow
  | insufficientValue
  | cashTransition
deriving DecidableEq, Repr

/-- Every part behind its length. -/
def hashParts (C : Crypto) (domain : String) (parts : List Transcript) : Digest384 :=
  C.shake256 (.tag domain :: parts.flatMap fun part => .u64 part.length :: part)

/-! ## Configuration -/

/-- With the checks of `new`. -/
structure BillboardConfig where
  chainId : ChainId
  assetId : AssetId
  minimumDeposit : Nat
  baseCooldown : Nat
  maximumSaveUp : Nat
  penaltySlots : Nat
  screeningWindow : Nat
  postFee : Nat
  policyRevision : Nat
  nonzero : minimumDeposit ≠ 0 ∧ baseCooldown ≠ 0 ∧ maximumSaveUp ≠ 0 ∧ screeningWindow ≠ 0 ∧
    policyRevision ≠ 0
  saveUpFits : maximumSaveUp < 2 ^ 8

/-- The blocks between two posts shrink with the deposit. -/
def BillboardConfig.cooldown (config : BillboardConfig) (amount : Nat) :
    Except BillboardError Nat := do
  rejectIf (amount < config.minimumDeposit) .insufficientValue
  let numerator ← okOr (checkedMul 128 config.baseCooldown config.minimumDeposit)
    .arithmeticOverflow
  okOr (fitsIn 64 (max (numerator / amount) 1)) .arithmeticOverflow

/-! ## Permits -/

/-- A post of the permit that waits for its moderation decision. -/
@[ext] structure PendingScreen where
  postId : Digest384
  eligibleAt : Nat
deriving DecidableEq

/-- The codec allows two pending posts. -/
@[ext] structure BillboardPermit where
  chainId : ChainId
  assetId : AssetId
  ownerKey : Digest384
  amount : Nat
  nextAllowedHeight : Nat
  savedPosts : Nat
  sequence : Nat
  pending : List PendingScreen
  policyRevision : Nat
  blinding : Digest384
  pendingBounded : pending.length ≤ maxRelationDecisions
deriving DecidableEq

def PendingScreen.body (p : PendingScreen) : Transcript := [.digest p.postId, .u64 p.eligibleAt]

instance : CanonicalType BillboardPermit where
  typeTag := 0x00b0
  schemaVersion := 1
  body p := [.digest p.chainId, .digest p.assetId, .digest p.ownerKey, .u128 p.amount,
    .u64 p.nextAllowedHeight, .u8 p.savedPosts, .u64 p.sequence, .u32 p.pending.length] ++
    p.pending.flatMap PendingScreen.body ++ [.u64 p.policyRevision, .digest p.blinding]

namespace BillboardPermit

variable (C : Crypto)

def commitment (p : BillboardPermit) : Digest384 :=
  hashParts C "ACTIVECHAIN-BILLBOARD-PERMIT-V1" [envelope p]

def nullifier (p : BillboardPermit) (nullifierKey : Digest384) : Digest384 :=
  hashParts C "ACTIVECHAIN-BILLBOARD-NULLIFIER-V1"
    [[.digest (p.commitment C)], [.digest nullifierKey]]

end BillboardPermit

structure ModerationDecision where
  postId : Digest384
  policyRevision : Nat
  flagged : Bool
deriving DecidableEq

def decisionFor (decisions : List ModerationDecision) (postId : Digest384) :
    Option ModerationDecision :=
  decisions.find? fun item => item.postId == postId

/-! ## Public inputs and witnesses -/

@[ext] structure PostPublicInputs where
  chainId : ChainId
  assetId : AssetId
  anchor : Digest384
  nullifier : Digest384
  successorCommitment : Digest384
  postId : Digest384
  content : List Nat
  height : Nat
  fee : Nat
  dummy : Bool
  policyRevision : Nat

def PostPublicInputs.digest (C : Crypto) (i : PostPublicInputs) : Digest384 :=
  hashParts C "ACTIVECHAIN-BILLBOARD-POST-PUBLIC-V1" [[.digest i.chainId], [.digest i.assetId],
    [.digest i.anchor], [.digest i.nullifier], [.digest i.successorCommitment], [.digest i.postId],
    i.content.map .u8, [.u64 i.height, .u128 i.fee, .u8 i.dummy.toNat, .u64 i.policyRevision]]

def PostPublicInputs.commitment (C : Crypto) (i : PostPublicInputs) :
    Except BillboardError Digest384 := do
  rejectIf (maxMessageBytes < i.content.length) .messageTooLarge
  return i.digest C

structure PostWitness where
  prior : BillboardPermit
  successor : BillboardPermit
  nullifierKey : Digest384

@[ext] structure WithdrawalPublicInputs where
  chainId : ChainId
  assetId : AssetId
  anchor : Digest384
  nullifier : Digest384
  recipient : PrincipalId
  amount : Nat
  fee : Nat
  height : Nat
  policyRevision : Nat

def WithdrawalPublicInputs.commitment (C : Crypto) (i : WithdrawalPublicInputs) : Digest384 :=
  hashParts C "ACTIVECHAIN-BILLBOARD-WITHDRAW-PUBLIC-V1" [[.digest i.chainId], [.digest i.assetId],
    [.digest i.anchor], [.digest i.nullifier], [.digest i.recipient],
    [.u128 i.amount, .u128 i.fee, .u64 i.height, .u64 i.policyRevision]]

structure WithdrawalWitness where
  permit : BillboardPermit
  nullifierKey : Digest384

/-- All of it is chosen by the prover. -/
structure PostRelationInput where
  config : BillboardConfig
  publicInputs : PostPublicInputs
  witness : PostWitness
  decisions : List ModerationDecision

/-- All of it is chosen by the prover. -/
structure WithdrawalRelationInput where
  config : BillboardConfig
  publicInputs : WithdrawalPublicInputs
  witness : WithdrawalWitness
  decisions : List ModerationDecision

/-- Also what the guest programs commit to their journals. -/
structure VerifiedBillboardProof where
  publicInputsCommitment : Digest384
  permitCommitment : Digest384
deriving DecidableEq

/-! ## The rules of a post -/

/-- One round of the loop of `screen_matured`: the height from which the permit may post again. -/
def screenPending (decisions : List ModerationDecision) (height penaltySlots policyRevision : Nat)
    (next : Nat) (pending : PendingScreen) : Except BillboardError Nat :=
  if height < pending.eligibleAt then .ok next
  else do
    let decision ← okOr (decisionFor decisions pending.postId) .decisionMissing
    rejectIf (decision.policyRevision ≠ policyRevision) .wrongPolicy
    if decision.flagged then okOr (checkedAdd 64 next penaltySlots) .arithmeticOverflow
    else .ok next

section

variable (permit : BillboardPermit)

/-- The pending posts that `screen_matured` retains. -/
def BillboardPermit.retained (height : Nat) : List PendingScreen :=
  permit.pending.filter fun pending => height < pending.eligibleAt

/-- The permit when its matured posts are screened. -/
def BillboardPermit.screened (height next : Nat) : BillboardPermit :=
  { permit with
    nextAllowedHeight := next
    pending := permit.retained height
    pendingBounded := (length_filter_le _ _).trans permit.pendingBounded }

def screenMatured (decisions : List ModerationDecision) (height penaltySlots : Nat) :
    Except BillboardError BillboardPermit := do
  let next ← permit.pending.foldlM
    (screenPending decisions height penaltySlots permit.policyRevision) permit.nextAllowedHeight
  return permit.screened height next

/-- The saved posts of a permit whose wait is over.  The maximum is a `u8`, so that the conversion
at the end succeeds; an overflow of `elapsed / cooldown + 1` needs the last height, at which no post
succeeds. -/
def BillboardConfig.saveUp (config : BillboardConfig) (amount savedPosts next height : Nat) :
    Except BillboardError Nat := do
  let cooldown ← config.cooldown amount
  let total ← okOr (checkedAdd 64 savedPosts ((height - next) / cooldown + 1)) .arithmeticOverflow
  return min total config.maximumSaveUp

def accrueSaveUp (config : BillboardConfig) (height : Nat) :
    Except BillboardError BillboardPermit := do
  let _ ← config.cooldown permit.amount
  if permit.nextAllowedHeight ≤ height then
    let savedPosts ← config.saveUp permit.amount permit.savedPosts permit.nextAllowedHeight height
    return { permit with savedPosts := savedPosts }
  else return permit

/-- The last part of `derive_post_successor`: a post with content joins the pending ones. -/
def BillboardPermit.addPending (content : List Nat) (postId : Digest384)
    (height screeningWindow : Nat) : Except BillboardError BillboardPermit :=
  if content = [] then .ok permit
  else if h : permit.pending.length < maxRelationDecisions then do
    let eligibleAt ← okOr (checkedAdd 64 height screeningWindow) .arithmeticOverflow
    return { permit with
      pending := permit.pending ++ [⟨postId, eligibleAt⟩]
      pendingBounded := by rw [length_append]; exact h }
  else .error .screeningRequired

end

def derivePostSuccessor (config : BillboardConfig) (prior : BillboardPermit) (content : List Nat)
    (postId : Digest384) (height : Nat) (blinding : Digest384)
    (decisions : List ModerationDecision) : Except BillboardError BillboardPermit := do
  let screened ← screenMatured prior decisions height config.penaltySlots
  let expected ← accrueSaveUp screened config height
  rejectIf (expected.savedPosts = 0 ∨ height < expected.nextAllowedHeight) .cooldown
  rejectIf (expected.amount < config.postFee) .insufficientValue
  let amount := expected.amount - config.postFee
  let sequence ← okOr (checkedAdd 64 expected.sequence 1) .arithmeticOverflow
  let cooldown ← config.cooldown (max amount config.minimumDeposit)
  let next ← okOr (checkedAdd 64 height cooldown) .arithmeticOverflow
  let expected := { expected with
    amount := amount
    savedPosts := expected.savedPosts - 1
    sequence := sequence
    nextAllowedHeight := next }
  let expected ← expected.addPending content postId height config.screeningWindow
  return { expected with blinding := blinding }

/-! ## The relations -/

def verifyContext (config : BillboardConfig) (chainId : ChainId) (assetId : AssetId)
    (policyRevision : Nat) : Except BillboardError Unit := do
  rejectIf (chainId ≠ config.chainId) .wrongChain
  rejectIf (assetId ≠ config.assetId) .wrongAsset
  rejectIf (policyRevision ≠ config.policyRevision) .wrongPolicy

def PostPublicInputs.screenedContent (i : PostPublicInputs) : List Nat :=
  if i.dummy then [] else i.content

def verifyPost (C : Crypto) (input : PostRelationInput) :
    Except BillboardError VerifiedBillboardProof := do
  let config := input.config
  let inputs := input.publicInputs
  let prior := input.witness.prior
  let successor := input.witness.successor
  verifyContext config inputs.chainId inputs.assetId inputs.policyRevision
  rejectIf (maxMessageBytes < inputs.content.length ∨ (inputs.dummy = true ∧ inputs.content ≠ []))
    .messageTooLarge
  rejectIf (inputs.nullifier ≠ prior.nullifier C input.witness.nullifierKey ∨
    successor.commitment C ≠ inputs.successorCommitment ∨ prior.chainId ≠ config.chainId ∨
    prior.assetId ≠ config.assetId ∨ prior.policyRevision ≠ config.policyRevision ∨
    successor.ownerKey ≠ prior.ownerKey ∨ successor.chainId ≠ prior.chainId ∨
    successor.assetId ≠ prior.assetId ∨ successor.policyRevision ≠ prior.policyRevision)
      .wrongPermit
  let sequence ← okOr (checkedAdd 64 prior.sequence 1) .arithmeticOverflow
  rejectIf (successor.sequence ≠ sequence) .wrongPermit
  rejectIf (inputs.fee ≠ config.postFee) .insufficientValue
  let expected ← derivePostSuccessor config prior inputs.screenedContent inputs.postId inputs.height
    successor.blinding input.decisions
  rejectIf (expected ≠ successor) .wrongPermit
  return ⟨← inputs.commitment C, prior.commitment C⟩

def verifyWithdrawal (C : Crypto) (input : WithdrawalRelationInput) :
    Except BillboardError VerifiedBillboardProof := do
  let inputs := input.publicInputs
  let permit := input.witness.permit
  verifyContext input.config inputs.chainId inputs.assetId inputs.policyRevision
  let screened ← screenMatured permit input.decisions inputs.height input.config.penaltySlots
  rejectIf (screened.pending ≠ []) .withdrawalNotReady
  rejectIf (inputs.nullifier ≠ permit.nullifier C input.witness.nullifierKey) .wrongPermit
  let total ← okOr (checkedAdd 128 inputs.amount inputs.fee) .arithmeticOverflow
  rejectIf (total ≠ permit.amount) .wrongPermit
  return ⟨inputs.commitment C, permit.commitment C⟩

/-! ## Commitments -/

theorem PostPublicInputs.commitment_eq_ok {C : Crypto} {i : PostPublicInputs} {d : Digest384} :
    i.commitment C = .ok d ↔ i.content.length ≤ maxMessageBytes ∧ d = i.digest C := by
  simp only [commitment, inversion, not_lt]
  exact and_congr_right fun _ => eq_comm

section Commitments

variable {C : Crypto} (hash : Injective C.shake256)
include hash

theorem hashParts_inj {domain domain' : String} {parts parts' : List Transcript}
    (h : hashParts C domain parts = hashParts C domain' parts') :
    domain = domain' ∧ parts = parts' := by
  obtain ⟨htag, hp⟩ := cons.inj (hash h)
  refine ⟨Chunk.tag.inj htag, ?_⟩
  have hw : SelfDelimiting fun part : Transcript => Chunk.u64 part.length :: part :=
    SelfDelimiting.cons_length Chunk.u64 (fun _ _ h => (Chunk.int.inj h).2) fun _ _ h => h
  exact hw.flatMap_injective (fun _ => cons_ne_nil _ _) hp

theorem BillboardPermit.commitment_injective :
    Injective (BillboardPermit.commitment C) := by
  intro p q h
  have he := (cons.inj (hashParts_inj hash h).2).1
  have hb := body_of_envelope he
  simp only [CanonicalType.body, Transcript.inversion] at hb
  obtain ⟨hc, has, ho, ham, hn, hsa, hs, hl, hr⟩ := hb
  have hp : SelfDelimiting PendingScreen.body := by
    refine SelfDelimiting.of_length 2 (fun _ => rfl) fun a b hab => ?_
    simpa [PendingScreen.body, PendingScreen.ext_iff] using hab
  obtain ⟨hp, ht⟩ := hp.flatMap_append_inj hl hr
  simp only [Transcript.inversion] at ht
  exact BillboardPermit.ext hc has ho ham hn hsa hs hp ht.1 ht.2

theorem PostPublicInputs.eq_of_commitment {i j : PostPublicInputs} {d : Digest384}
    (hi : i.commitment C = .ok d) (hj : j.commitment C = .ok d) : i = j := by
  have hp := (hashParts_inj hash ((commitment_eq_ok.1 hi).2.symm.trans (commitment_eq_ok.1 hj).2)).2
  simp only [cons.injEq, Transcript.inversion] at hp
  obtain ⟨hch, has, han, hn, hs, hpos, hc, hh, hfee, hd, hpo⟩ := hp
  have hc := map_injective_iff.2 (fun _ _ h => (Chunk.int.inj h).2) hc
  have hd : i.dummy = j.dummy := by
    revert hd
    cases i.dummy <;> cases j.dummy <;> simp
  exact PostPublicInputs.ext hch has han hn hs hpos hc hh hfee hd hpo

theorem WithdrawalPublicInputs.commitment_injective :
    Injective (WithdrawalPublicInputs.commitment C) := by
  intro i j h
  have hp := (hashParts_inj hash h).2
  simp only [cons.injEq, Transcript.inversion] at hp
  obtain ⟨hc, has, han, hn, hr, ham, hfee, hh, hpo⟩ := hp
  exact WithdrawalPublicInputs.ext hc has han hn hr ham hfee hh hpo

theorem PostPublicInputs.commitment_ne_withdrawal {i : PostPublicInputs}
    {j : WithdrawalPublicInputs} : i.commitment C ≠ .ok (j.commitment C) := by
  intro h
  have hd := (hashParts_inj hash (commitment_eq_ok.1 h).2).1
  simp at hd

end Commitments

/-! ## Screening -/

section Screening

variable {permit permit' : BillboardPermit} {decisions : List ModerationDecision}
  {height penaltySlots policyRevision : Nat}

section

variable (decisions : List ModerationDecision) (height : Nat)

/-- The post has matured, and a list of decisions flags it. -/
def isFlagged (p : PendingScreen) : Bool :=
  decide (p.eligibleAt ≤ height) && (decisionFor decisions p.postId).any (·.flagged)

def flaggedCount (pending : List PendingScreen) : Nat := pending.countP (isFlagged decisions height)

/-- The height from which a permit may post, penalties included. -/
def BillboardPermit.readyAt (permit : BillboardPermit) (decisions : List ModerationDecision)
    (height penaltySlots : Nat) : Nat :=
  permit.nextAllowedHeight + penaltySlots * flaggedCount decisions height permit.pending

/-- Every matured post has a decision of the right policy. -/
def AllDecided (height policyRevision : Nat) (pending : List PendingScreen) : Prop :=
  ∀ p ∈ pending, p.eligibleAt ≤ height →
    ∃ d, decisionFor decisions p.postId = some d ∧ d.policyRevision = policyRevision

end

theorem screenPending_eq_ok {p : PendingScreen} {next next' : Nat} :
    screenPending decisions height penaltySlots policyRevision next p = .ok next' ↔
      (p.eligibleAt ≤ height →
        ∃ d, decisionFor decisions p.postId = some d ∧ d.policyRevision = policyRevision) ∧
      next' = next + penaltySlots * (isFlagged decisions height p).toNat ∧
      (isFlagged decisions height p = false ∨ next' < 2 ^ 64) := by
  unfold screenPending isFlagged
  by_cases hw : height < p.eligibleAt
  · have hnot : ¬ p.eligibleAt ≤ height := Nat.not_le.2 hw
    simp [hw, hnot, eq_comm]
  · have hm : p.eligibleAt ≤ height := Nat.not_lt.1 hw
    cases hd : decisionFor decisions p.postId with
    | none => simp [hw, okOr, bind, Except.bind]
    | some d =>
      have hfl : (decide (p.eligibleAt ≤ height) && (some d).any (·.flagged)) = d.flagged := by
        simp [hm]
      simp only [if_neg hw, okOr_some, ok_bind, inversion, hfl]
      cases d.flagged with
      | false => simp [hm, eq_comm (a := next)]
      | true =>
        simp only [if_true, Bool.toNat_true, Nat.mul_one, okOr_eq_ok, checkedAdd_eq_some,
          hm, true_implies, Option.some.injEq, exists_eq_left', Bool.true_eq_false, false_or]
        exact and_congr_right fun _ => and_congr_right fun h => by rw [h]

theorem foldlM_screenPending_eq_ok {pending : List PendingScreen} {next next' : Nat} :
    pending.foldlM (screenPending decisions height penaltySlots policyRevision) next = .ok next' ↔
      AllDecided decisions height policyRevision pending ∧
        next' = next + penaltySlots * flaggedCount decisions height pending ∧
        (flaggedCount decisions height pending = 0 ∨ next' < 2 ^ 64) := by
  induction pending generalizing next with
  | nil =>
    simp only [foldlM_nil, pure, Except.pure, Except.ok.injEq, AllDecided, flaggedCount, countP_nil]
    simp [eq_comm]
  | cons p pending ih =>
    rw [foldlM_cons, bind_eq_ok]
    simp only [ih, screenPending_eq_ok, AllDecided, forall_mem_cons, flaggedCount, countP_cons]
    cases isFlagged decisions height p with
    | false =>
      simp only [Bool.toNat_false, Nat.mul_zero, Nat.add_zero, Bool.false_eq_true, if_false,
        true_or, and_true, true_and, existsAndEq, and_assoc]
    | true =>
      simp only [Bool.toNat_true, Nat.mul_one, if_true, Nat.mul_add, Bool.true_eq_false, false_or,
        Nat.add_one_ne_zero]
      constructor
      · rintro ⟨_, ⟨hp, rfl, hf⟩, hr, rfl, hn⟩
        refine ⟨⟨hp, hr⟩, by omega, ?_⟩
        rcases hn with hz | hn
        · rw [hz, Nat.mul_zero]
          exact hf
        · exact hn
      · rintro ⟨⟨hp, hr⟩, rfl, hn⟩
        exact ⟨next + penaltySlots, ⟨hp, rfl, by omega⟩, hr, by omega, .inr hn⟩

theorem screenMatured_eq_ok :
    screenMatured permit decisions height penaltySlots = .ok permit' ↔
      AllDecided decisions height permit.policyRevision permit.pending ∧
        permit' = permit.screened height (permit.readyAt decisions height penaltySlots) ∧
        (flaggedCount decisions height permit.pending = 0 ∨
          permit.readyAt decisions height penaltySlots < 2 ^ 64) := by
  simp only [screenMatured, inversion, foldlM_screenPending_eq_ok, existsAndEq]
  tauto

end Screening

/-! ## Successors -/

section Successors

variable {config : BillboardConfig} {prior successor permit permit' : BillboardPermit}
  {content : List Nat} {postId blinding : Digest384} {height : Nat}
  {decisions : List ModerationDecision}

theorem BillboardConfig.saveUp_ok {amount saved next stock : Nat}
    (h : config.saveUp amount saved next height = .ok stock) :
    stock ≠ 0 ∧ ∃ cooldown, config.cooldown amount = .ok cooldown := by
  simp only [saveUp, inversion] at h
  obtain ⟨cooldown, hc, _, ⟨rfl, -⟩, rfl⟩ := h
  have hm := config.nonzero.2.2.1
  generalize (height - next) / cooldown = elapsed
  exact ⟨by omega, cooldown, hc⟩

theorem accrueSaveUp_eq_ok (h : permit.nextAllowedHeight ≤ height) :
    accrueSaveUp permit config height = .ok permit' ↔ ∃ stock,
      config.saveUp permit.amount permit.savedPosts permit.nextAllowedHeight height = .ok stock ∧
        permit' = { permit with savedPosts := stock } := by
  simp only [accrueSaveUp, if_pos h, inversion]
  constructor
  · rintro ⟨-, -, stock, hs, rfl⟩
    exact ⟨stock, hs, rfl⟩
  · rintro ⟨stock, hs, rfl⟩
    obtain ⟨-, cooldown, hc⟩ := config.saveUp_ok hs
    exact ⟨cooldown, hc, stock, hs, rfl⟩

theorem BillboardPermit.addPending_eq_ok {screeningWindow : Nat} :
    permit.addPending content postId height screeningWindow = .ok permit' ↔
      permit'.pending =
          permit.pending ++ (if content = [] then [] else [⟨postId, height + screeningWindow⟩]) ∧
        (content = [] ∨ height + screeningWindow < 2 ^ 64) ∧
        permit' = { permit with
          pending := permit'.pending, pendingBounded := permit'.pendingBounded } := by
  unfold addPending
  by_cases hc : content = []
  · simp only [hc, if_true, ok.injEq, append_nil, true_or, true_and]
    constructor
    · rintro rfl
      exact ⟨rfl, rfl⟩
    · rintro ⟨hp, heq⟩
      rw [heq]
      exact BillboardPermit.ext rfl rfl rfl rfl rfl rfl rfl hp.symm rfl rfl
  · simp only [hc, if_false, false_or]
    constructor
    · intro h
      split at h
      · simp only [inversion] at h
        obtain ⟨_, ⟨rfl, hf⟩, rfl⟩ := h
        exact ⟨rfl, hf, rfl⟩
      · cases h
    · rintro ⟨hp, hf, heq⟩
      have hr : permit.pending.length < maxRelationDecisions := by
        have hb := permit'.pendingBounded
        rw [hp, length_append] at hb
        exact hb
      rw [dif_pos hr]
      simp only [inversion]
      refine ⟨_, ⟨rfl, hf⟩, ?_⟩
      rw [heq]
      exact BillboardPermit.ext rfl rfl rfl rfl rfl rfl rfl hp.symm rfl rfl

/-- What a configuration and a list of decisions make of a permit that posts. -/
structure IsPostSuccessor (config : BillboardConfig) (prior : BillboardPermit) (content : List Nat)
    (postId : Digest384) (height : Nat) (blinding : Digest384)
    (decisions : List ModerationDecision) (successor : BillboardPermit) : Prop where
  decided : AllDecided decisions height prior.policyRevision prior.pending
  ready : prior.readyAt decisions height config.penaltySlots ≤ height
  saved : config.saveUp prior.amount prior.savedPosts
    (prior.readyAt decisions height config.penaltySlots) height = .ok (successor.savedPosts + 1)
  feeCovered : config.postFee ≤ prior.amount
  amount : successor.amount = prior.amount - config.postFee
  sequence : successor.sequence = prior.sequence + 1
  sequenceFits : prior.sequence + 1 < 2 ^ 64
  next : ∃ cooldown, config.cooldown (max successor.amount config.minimumDeposit) = .ok cooldown ∧
    successor.nextAllowedHeight = height + cooldown
  nextFits : successor.nextAllowedHeight < 2 ^ 64
  pending : successor.pending = prior.retained height ++
    if content = [] then [] else [⟨postId, height + config.screeningWindow⟩]
  pendingFits : content = [] ∨ height + config.screeningWindow < 2 ^ 64
  holder : successor.chainId = prior.chainId ∧ successor.assetId = prior.assetId ∧
    successor.ownerKey = prior.ownerKey ∧ successor.policyRevision = prior.policyRevision
  blinding : successor.blinding = blinding

theorem derivePostSuccessor_eq_ok :
    derivePostSuccessor config prior content postId height blinding decisions = .ok successor ↔
      IsPostSuccessor config prior content postId height blinding decisions successor := by
  constructor
  · intro h
    simp only [derivePostSuccessor, inversion, screenMatured_eq_ok,
      BillboardPermit.addPending_eq_ok, not_lt] at h
    obtain ⟨_, ⟨hd, rfl, -⟩, expected, hac, ⟨hsa, hr⟩, hfee, _, ⟨rfl, hs⟩,
      cooldown, hc, _, ⟨rfl, hn⟩, pended, ⟨hpe, hp, hpen⟩, rfl⟩ := h
    have hw : prior.readyAt decisions height config.penaltySlots ≤ height := by
      by_contra hlt
      simp only [accrueSaveUp, inversion] at hac
      obtain ⟨_, -, hac⟩ := hac
      rw [if_neg (by exact hlt)] at hac
      cases hac
      exact hlt hr
    obtain ⟨stock, hst, rfl⟩ := (accrueSaveUp_eq_ok hw).1 hac
    rw [hpen]
    refine ⟨hd, hw, ?_, hfee, rfl, rfl, hs, ⟨cooldown, hc, rfl⟩, hn,
      hpe, hp, ⟨rfl, rfl, rfl, rfl⟩, rfl⟩
    exact hst.trans (congrArg ok (Nat.succ_pred hsa).symm)
  · intro h
    obtain ⟨cooldown, hc, hn⟩ := h.next
    have hne := h.nextFits
    have hr := h.ready
    simp only [derivePostSuccessor, inversion, screenMatured_eq_ok,
      BillboardPermit.addPending_eq_ok, not_lt]
    refine ⟨_, ⟨h.decided, rfl, .inr (by omega)⟩, _,
      (accrueSaveUp_eq_ok h.ready).2 ⟨_, h.saved, rfl⟩, ⟨Nat.succ_ne_zero _, h.ready⟩,
      h.feeCovered, _,
      ⟨rfl, h.sequenceFits⟩, cooldown, h.amount ▸ hc, _, ⟨rfl, by omega⟩,
      { successor with blinding := prior.blinding }, ⟨h.pending, h.pendingFits, ?_⟩, ?_⟩
    · exact BillboardPermit.ext h.holder.1 h.holder.2.1 h.holder.2.2.1 h.amount hn rfl h.sequence
        rfl h.holder.2.2.2 rfl
    · exact BillboardPermit.ext rfl rfl rfl rfl rfl rfl rfl rfl rfl h.blinding.symm

end Successors

/-! ## What a proof says -/

section Proofs

variable {C : Crypto} {proof : VerifiedBillboardProof}

/-- The post relation holds, as far as the ledger can tell from the proof. -/
structure PostProved (C : Crypto) (input : PostRelationInput) (proof : VerifiedBillboardProof) :
    Prop where
  fee : input.publicInputs.fee = input.config.postFee
  successor : input.witness.successor.commitment C = input.publicInputs.successorCommitment
  derived : IsPostSuccessor input.config input.witness.prior input.publicInputs.screenedContent
    input.publicInputs.postId input.publicInputs.height input.witness.successor.blinding
    input.decisions input.witness.successor
  inputs : input.publicInputs.commitment C = .ok proof.publicInputsCommitment
  permit : proof.permitCommitment = input.witness.prior.commitment C

theorem verifyPost_ok {input : PostRelationInput} (h : verifyPost C input = .ok proof) :
    PostProved C input proof := by
  simp only [verifyPost, inversion] at h
  obtain ⟨-, -, ⟨-, hs, -⟩, _, -, -, hfee, expected, hd, rfl, digest, hi, rfl⟩ := h
  exact ⟨hfee, hs, derivePostSuccessor_eq_ok.1 hd, hi, rfl⟩

/-- The withdrawal relation holds, as far as the ledger can tell from the proof. -/
structure WithdrawalProved (C : Crypto) (input : WithdrawalRelationInput)
    (proof : VerifiedBillboardProof) : Prop where
  decided : AllDecided input.decisions input.publicInputs.height
    input.witness.permit.policyRevision input.witness.permit.pending
  settled : ∀ p ∈ input.witness.permit.pending, p.eligibleAt ≤ input.publicInputs.height
  amount : input.publicInputs.amount + input.publicInputs.fee = input.witness.permit.amount
  inputs : proof.publicInputsCommitment = input.publicInputs.commitment C
  permit : proof.permitCommitment = input.witness.permit.commitment C

theorem verifyWithdrawal_ok {input : WithdrawalRelationInput}
    (h : verifyWithdrawal C input = .ok proof) : WithdrawalProved C input proof := by
  simp only [verifyWithdrawal, inversion, screenMatured_eq_ok] at h
  obtain ⟨-, _, ⟨hd, rfl, -⟩, hpe, -, _, ⟨rfl, -⟩, ham, rfl⟩ := h
  refine ⟨hd, fun p hp => ?_, ham, rfl, rfl⟩
  have hm := filter_eq_nil_iff.1 hpe p hp
  simpa using hm

end Proofs

end ActiveChain
