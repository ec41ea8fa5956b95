import ActiveChain.Cash.Shielded
import ActiveChain.Commitment

/-!
# Identifiers of cells and intents, and the records that authorize them

A cell is named after the intent that created it and its position there; an intent is named after
all its fields.

* the `CanonicalType` instances — the encoded fields, in order.
* `coinCellId`, `cashTransitionId` — the two identifiers.
* `coinCellId_inj` — a cell identifier determines intent and position.
* `CoinTransfer.inputs_of_id` and its fellows — **an intent's identifier determines what it
  spends.**
* `CashPaymasterPolicyV1.authorize` — the sponsor's side of a sponsored transfer.
-/

namespace ActiveChain

open List Transcript CanonicalType

/-! ## Canonical bodies -/

def digestList (ds : List Digest384) : Transcript := .u32 ds.length :: ds.map .digest

theorem digestList_selfDelimiting : SelfDelimiting digestList := by
  intro a b s t h
  simp only [digestList, inversion] at h
  obtain ⟨hmap, hr⟩ := append_inj h.2 (by simpa using h.1)
  exact ⟨map_injective_iff.2 (fun _ _ => Chunk.digest.inj) hmap, hr⟩

instance : CanonicalType NativeAssetDefinition where
  typeTag := 0x0080
  schemaVersion := 1
  body d := [.digest d.chainId, .u32 d.symbol.length] ++ d.symbol.map .u8 ++
    [.u8 d.decimals, .u128 d.genesisSupply, .u16 d.maximumOrdinaryAnnualIssuanceBps,
      .digest d.issuancePolicyHash, .digest d.burnPolicyHash, .digest d.rewardPolicyHash]

def GenesisAllocation.body (a : GenesisAllocation) : Transcript :=
  [.digest a.recipient, .u128 a.liquidAmount, .u128 a.lockedAmount]

instance : CanonicalType GenesisEconomy where
  typeTag := 0x0081
  schemaVersion := 1
  body e := CanonicalType.body e.definition ++ [.u32 e.allocations.length] ++
    e.allocations.flatMap GenesisAllocation.body ++ [.u128 e.securityReserve]

instance : CanonicalType CoinCellOrigin where
  typeTag := 0x0082
  schemaVersion := 1
  body o := [.digest o.transitionId, .u16 o.outputIndex]

instance : CanonicalType CoinTransfer where
  typeTag := 0x0086
  schemaVersion := 1
  body t := [.digest t.sender, .digest t.recipient] ++ digestList t.inputs ++
    [.digest t.feeReserve, .u128 t.amount, .u128 t.fee, .u64 t.validUntil]

instance : CanonicalType CoinMintTransition where
  typeTag := 0x0087
  schemaVersion := 1
  body m := [.digest m.issuancePolicyHash, .digest m.recipient, .u128 m.amount, .u64 m.sequence,
    .u64 m.height]

instance : CanonicalType CoinBurnTransition where
  typeTag := 0x0088
  schemaVersion := 1
  body b := [.digest b.owner] ++ digestList b.inputs ++ [.u128 b.amount, .u64 b.validUntil]

instance : CanonicalType ShieldIntent where
  typeTag := 0x00a6
  schemaVersion := 1
  body i := [.digest i.chainId, .digest i.assetId, .digest i.owner] ++ digestList i.inputs ++
    [.digest i.feeReserve, .u128 i.amount, .u128 i.fee] ++ digestList i.outputCommitments ++
    [.u64 i.validUntil]

def NullifierWitness.body (w : NullifierWitness) : Transcript :=
  .digest w.nullifier.toNat :: w.siblings.map .digest

instance : CanonicalType UnshieldIntent where
  typeTag := 0x00a7
  schemaVersion := 2
  body i := [.digest i.chainId, .digest i.assetId, .digest i.anchor, .digest i.recipient,
      .u128 i.amount, .u128 i.fee] ++ digestList (i.nullifiers.map BitVec.toNat) ++
    i.nullifierWitnesses.flatMap NullifierWitness.body ++ digestList i.changeCommitments ++
    [.u64 i.validUntil]

/-! ## Identifiers -/

section Identifiers

variable (C : Crypto)

def coinCellId (origin : CoinCellOrigin) : CoinCellId := commit C .coinCellId origin

def cashTransitionId {α : Type} [CanonicalType α] (intent : α) : TransactionId :=
  commit C .cashTransitionId intent

/-- Also `economy_root_digest`. -/
def genesisAllocationRoot (economy : GenesisEconomy) : Digest384 :=
  commit C .genesisAllocationRoot economy

def nativeAssetId (definition : NativeAssetDefinition) : AssetId :=
  commit C .nativeAssetId definition

end Identifiers

section Injective

variable {C : Crypto} (hash : Function.Injective C.shake256)
include hash

theorem coinCellId_inj {o o' : CoinCellOrigin} (h : coinCellId C o = coinCellId C o') : o = o' := by
  have h := body_of_commit hash h
  simp only [body, inversion] at h
  exact CoinCellOrigin.ext h.1 h.2

theorem cashTransitionId_ne_genesis {α : Type} [CanonicalType α] (i : α)
    (economy : GenesisEconomy) : cashTransitionId C i ≠ genesisAllocationRoot C economy := by
  intro h
  cases (commit_inj hash h).1

theorem typeTag_of_cashTransitionId {α β : Type} [CanonicalType α] [CanonicalType β] {a : α} {b : β}
    (h : cashTransitionId C a = cashTransitionId C b) :
    typeTag α = typeTag β :=
  (commit_inj hash h).2.1

theorem CoinTransfer.inputs_of_id {t t' : CoinTransfer}
    (h : cashTransitionId C t = cashTransitionId C t') : t.inputs = t'.inputs := by
  have h := body_of_commit hash h
  simp only [body, cons_append, nil_append, cons.injEq] at h
  exact (digestList_selfDelimiting _ _ _ _ h.2.2).1

theorem CoinBurnTransition.inputs_of_id {b b' : CoinBurnTransition}
    (h : cashTransitionId C b = cashTransitionId C b') : b.inputs = b'.inputs := by
  have h := body_of_commit hash h
  simp only [body, cons_append, nil_append, cons.injEq] at h
  exact (digestList_selfDelimiting _ _ _ _ h.2).1

theorem ShieldIntent.inputs_of_id {i i' : ShieldIntent}
    (h : cashTransitionId C i = cashTransitionId C i') : i.inputs = i'.inputs := by
  have h := body_of_commit hash h
  simp only [body, append_assoc, cons_append, nil_append, cons.injEq] at h
  exact (digestList_selfDelimiting _ _ _ _ h.2.2.2).1

theorem UnshieldIntent.nullifiers_of_id {i i' : UnshieldIntent}
    (h : cashTransitionId C i = cashTransitionId C i') : i.nullifiers = i'.nullifiers := by
  have h := body_of_commit hash h
  simp only [body, append_assoc, cons_append, nil_append, cons.injEq] at h
  have hmap := (digestList_selfDelimiting _ _ _ _ h.2.2.2.2.2.2).1
  exact map_injective_iff.2 (fun _ _ => BitVec.eq_of_toNat_eq) hmap

theorem CoinMintTransition.sequence_of_id {m m' : CoinMintTransition}
    (h : cashTransitionId C m = cashTransitionId C m') : m.sequence = m'.sequence := by
  have h := body_of_commit hash h
  simp only [body, inversion] at h
  exact h.2.2.2.1

end Injective

/-! ## Paymasters -/

def maxPaymasterSenders : Nat := 64

inductive EconomicsError
  | duplicateAssignment
  | unknownAssignment
  | wrongVerifier
  | expired
  | alreadySettled
  | emptyEvidence
  | invalidSlash
  | invalidChallenge
  | invalidChallengeReveal
  | invalidAuditSet
  | invalidPaymasterPolicy
  | invalidPaymasterRequest
  | paymasterUnauthorized
  | paymasterBudgetExceeded
  | invalidCapacityReservation
  | capacityExceeded
deriving DecidableEq, Repr

@[ext] structure CashPaymasterPolicyV1 where
  sponsor : PrincipalId
  allowedSenders : List PrincipalId
  maximumFee : Nat
  epochBudget : Nat
  spent : Nat
  epoch : Nat
  nextNonce : Nat
  expiresHeight : Nat
  sponsorChecked : sponsor ≠ Digest384.zero
  sendersChecked : allowedSenders ≠ [] ∧ allowedSenders.length ≤ maxPaymasterSenders ∧
    (∀ sender ∈ allowedSenders, sender ≠ Digest384.zero) ∧ allowedSenders.Pairwise (· < ·)
  limitsChecked : maximumFee ≠ 0 ∧ epochBudget ≠ 0 ∧ expiresHeight ≠ 0
  withinBudget : spent ≤ epochBudget

structure CashPaymasterRequestV1 where
  sponsor : PrincipalId
  sender : PrincipalId
  transfer : Digest384
  policyCommitment : Digest384
  approvalCommitment : Digest384
  fee : Nat
  expectedSpent : Nat
  epoch : Nat
  nonce : Nat
  expiresHeight : Nat
  digestsChecked : sponsor ≠ Digest384.zero ∧ sender ≠ Digest384.zero ∧ transfer ≠ Digest384.zero ∧
    policyCommitment ≠ Digest384.zero ∧ approvalCommitment ≠ Digest384.zero
  limitsChecked : fee ≠ 0 ∧ expiresHeight ≠ 0

namespace CashPaymasterPolicyV1

def body (p : CashPaymasterPolicyV1) : Transcript :=
  .digest p.sponsor :: digestList p.allowedSenders ++ [.u128 p.maximumFee, .u128 p.epochBudget,
    .u128 p.spent, .u64 p.epoch, .u64 p.nextNonce, .u64 p.expiresHeight]

/-- Over the envelope, not through `commit`. -/
def commitment (C : Crypto) (p : CashPaymasterPolicyV1) : Digest384 :=
  C.shake256 ([.tag "ACTIVECHAIN-CASH-PAYMASTER-POLICY-V1", .u16 0x0160, .u16 1,
    .u32 p.body.length] ++ p.body)

def authorize (C : Crypto) (p : CashPaymasterPolicyV1) (request : CashPaymasterRequestV1)
    (transfer : Digest384) (fee height : Nat) : Except EconomicsError CashPaymasterPolicyV1 := do
  rejectIf (request.sponsor ≠ p.sponsor ∨ request.sender ∉ p.allowedSenders ∨
    request.policyCommitment ≠ p.commitment C ∨ request.transfer ≠ transfer ∨ request.fee ≠ fee ∨
    request.epoch ≠ p.epoch ∨ request.expectedSpent ≠ p.spent ∨ request.nonce ≠ p.nextNonce ∨
    request.fee = 0 ∨ p.maximumFee < request.fee ∨ request.expiresHeight < height ∨
    p.expiresHeight < request.expiresHeight) .paymasterUnauthorized
  let spent ← okOr (checkedAdd 128 p.spent request.fee) .paymasterBudgetExceeded
  if hbudget : spent ≤ p.epochBudget then
    let nextNonce ← okOr (checkedAdd 64 p.nextNonce 1) .paymasterUnauthorized
    return { p with spent := spent, nextNonce := nextNonce, withinBudget := hbudget }
  else
    throw .paymasterBudgetExceeded

end CashPaymasterPolicyV1

/-! ## Rewards -/

/-- Without the bond fields. -/
structure RewardSettlement where
  assignment : AccumulatorKey
  verifier : PrincipalId
  reward : Nat

structure RewardReplayWitness where
  assignment : AccumulatorKey
  siblings : List Digest384
  checked : assignment ≠ 0 ∧ siblings.length = keyBits

structure RewardRedemption where
  settlement : AccumulatorKey
  replayWitness : RewardReplayWitness
  poolOwner : PrincipalId
  poolCell : CoinCellId
  feeReserve : CoinCellId
  height : Nat

end ActiveChain
