import ActiveChain.Cash.Intents
import ActiveChain.Lib.Update

/-!
# The cash ledger (`cash-kernel::transition`)

Cells, supply counters, the shielded pool and the commitment to redeemed rewards, with the eight
operations on them.  An operation assigns field by field and checks the whole ledger at the end, on
a copy that replaces the ledger only when everything went well.

* `CashLedger.verifyInvariants` — the check at the end of every operation.
* `applyTransfer`, `applySponsoredTransfer`, `applyBurn`, `applyShield`, `applyUnshield`,
  `applyMint`, `applyZeroIssuanceSettlement`, `redeemReward` — the operations.
* `fromGenesis` — the first ledger.
-/

namespace ActiveChain

/-- Encoding does not fail within the bounds of the types. -/
inductive CashTransitionError
  | invalid (e : NativeMoneyError)
  | invariant (e : NativeMoneyError)
  | privacy (e : PrivacyError)
  | economics (e : EconomicsError)
deriving DecidableEq, Repr

abbrev CashM : Type → Type := Except CashTransitionError

@[ext] structure CashLedger where
  definition : NativeAssetDefinition
  supply : NativeSupply
  cells : CoinCellSet
  shielded : ShieldedCashState
  redeemedRewardRoot : Digest384
  redeemedRewardCount : Nat

abbrev LedgerM (α : Type) := Update CashTransitionError CashLedger α

/-- `map_err(CashTransitionError::Invalid)`. -/
def invalid {α : Type} (x : MoneyM α) : CashM α :=
  x.mapError .invalid

namespace CashLedger

/-! ## The invariant check -/

/-- The loop over the cells in `verify_invariants`. -/
def verifyCells (C : Crypto) : List CoinCellRecord → Nat → CashM Nat
  | [], total => .ok total
  | record :: rest, total => do
    rejectIf (coinCellId C record.2.origin ≠ record.1) (.invariant .outputCollision)
    let total ← okOr (checkedAdd 128 total record.2.amount) (.invalid .amountOverflow)
    verifyCells C rest total

variable (C : Crypto) (l : CashLedger)

def verifyInvariants : CashM Unit := do
  rejectIf (l.redeemedRewardRoot = Digest384.zero) (.invariant .invalidRewardReplayWitness)
  let cellTotal ← verifyCells C l.cells.cells.entries 0
  let accounted ← okOr
    ((checkedAdd 128 cellTotal l.shielded.poolBalance).bind fun v =>
      (checkedAdd 128 v l.supply.securityReserveBalance).bind fun v =>
        (checkedAdd 128 v l.supply.lockedVestingSupply).bind fun v =>
          checkedAdd 128 v l.supply.stakedSupply) (.invalid .amountOverflow)
  rejectIf (accounted ≠ l.supply.currentTotalSupply) (.invariant .supplyPartitionMismatch)
  let annualCap ← invalid (basisPointsAmount l.supply.issuanceWindowOpeningSupply
    l.definition.maximumOrdinaryAnnualIssuanceBps)
  rejectIf (annualCap < l.supply.issuanceInWindow) (.invariant .issuanceCapExceeded)

/-- The last statement of every operation. -/
def verifySelf : LedgerM Unit := do
  let self ← get
  .check (self.verifyInvariants C)

/-! ## Finding and rebuilding cells -/

def find (id : CoinCellId) : Option CoinCellRecord :=
  (l.cells.cells.get? id).map fun cell => (id, cell)

/-- One record, which must be there and belong to the owner. -/
def ownedRecord (owner : PrincipalId) (id : CoinCellId) : CashM CoinCellRecord := do
  let record ← okOr (l.find id) (.invalid .missingCell)
  rejectIf (record.2.owner ≠ owner) (.invalid .wrongOwner)
  return record

/-- The loop over the inputs of an intent: their total and their records. -/
def gatherInputs (l : CashLedger) (owner : PrincipalId) :
    List CoinCellId → Nat → List CoinCellRecord →
      CashM (Nat × List CoinCellRecord)
  | [], total, records => .ok (total, records)
  | id :: ids, total, records => do
    let record ← l.ownedRecord owner id
    let total ← okOr (checkedAdd 128 total record.2.amount) (.invalid .amountOverflow)
    gatherInputs l owner ids total (records ++ [record])

/-- Inputs and fee reserve of one owner, as transfers and shields spend them. -/
def gatherWithReserve (owner : PrincipalId) (inputs : List CoinCellId) (feeReserve : CoinCellId) :
    CashM (Nat × List CoinCellRecord) := do
  let (total, records) ← l.gatherInputs owner inputs 0 []
  let reserve ← l.ownedRecord owner feeReserve
  let total ← okOr (checkedAdd 128 total reserve.2.amount) (.invalid .amountOverflow)
  return (total, records ++ [reserve])

def newRecord (transitionId : TransactionId) (index : Nat) (owner : PrincipalId)
    (amount height : Nat) : CashM CoinCellRecord := do
  let cell ← invalid (CoinCell.new ⟨transitionId, index⟩ owner amount height)
  return (coinCellId C cell.origin, cell)

def changeRecords (transitionId : TransactionId) (index : Nat) (owner : PrincipalId)
    (change height : Nat) : CashM (List CoinCellRecord) := do
  if 0 < change then
    let record ← newRecord C transitionId index owner change height
    return [record]
  else
    return []

/-- Drop the spent cells, push the new ones, sort, and build the set. -/
def rebuildCells (spent created : List CoinCellRecord) : CashM CoinCellSet :=
  invalid (CoinCellSet.new
    (SortedMap.sortEntries (l.cells.cells.replaced (spent.map Prod.fst) created)))

/-- The set after the insertion. -/
def insertNewCell (record : CoinCellRecord) : CashM CoinCellSet := do
  rejectIf (l.find record.1).isSome (.invalid .outputCollision)
  l.rebuildCells [] [record]

/-- `CashLedger::move_fee_to_reserve`, the supply after it. -/
def supplyAfterFee (s : NativeSupply) (fee : Nat) : CashM NativeSupply := do
  let circulating ← okOr (checkedSub s.circulatingSupply fee) (.invalid .amountOverflow)
  let reserve ← okOr (checkedAdd 128 s.securityReserveBalance fee) (.invalid .amountOverflow)
  invalid (NativeSupply.new { s.toNativeSupplyFields with
    circulatingSupply := circulating, securityReserveBalance := reserve })

def assignCells (cells : CoinCellSet) : LedgerM PUnit := modify fun l => { l with cells := cells }

def assignSupply (supply : NativeSupply) : LedgerM PUnit :=
  modify fun l => { l with supply := supply }

def assignShielded (shielded : ShieldedCashState) : LedgerM PUnit :=
  modify fun l => { l with shielded := shielded }

/-- `self.move_fee_to_reserve(fee)?`. -/
def moveFeeToReserve (fee : Nat) : LedgerM PUnit := do
  let self ← get
  let supply ← .check (supplyAfterFee self.supply fee)
  assignSupply supply

/-! ## Transfers -/

section

variable (t : CoinTransfer) (height : Nat)

def transferCells : CashM CoinCellSet := do
  rejectIf (t.validUntil < height) (.invalid .expired)
  let (total, records) ← l.gatherWithReserve t.sender t.inputs t.feeReserve
  let required ← okOr (checkedAdd 128 t.amount t.fee) (.invalid .amountOverflow)
  rejectIf (total < required) (.invalid .insufficientValue)
  let transitionId := cashTransitionId C t
  let recipient ← newRecord C transitionId 0 t.recipient t.amount height
  let change ← changeRecords C transitionId 1 t.sender (total - required) height
  l.rebuildCells records (recipient :: change)

/-- `apply_transfer_inner` up to the final check. -/
def prepareTransfer : LedgerM PUnit := do
  let self ← get
  let cells ← .check (self.transferCells C t height)
  assignCells cells
  moveFeeToReserve t.fee

def applyTransferInner : LedgerM Unit := do
  prepareTransfer C t height
  verifySelf C

def applyTransfer : LedgerM Unit := .atomically (applyTransferInner C t height)

end

section

variable (sponsor : PrincipalId) (t : CoinTransfer) (transitionId : TransactionId) (height : Nat)

/-- The cells after a sponsored transfer: sender and sponsor each get their own change. -/
def sponsoredCells : CashM CoinCellSet := do
  rejectIf (t.validUntil < height) (.invalid .expired)
  let (inputTotal, records) ← l.gatherInputs t.sender t.inputs 0 []
  rejectIf (inputTotal < t.amount) (.invalid .insufficientValue)
  let reserve ← l.ownedRecord sponsor t.feeReserve
  rejectIf (reserve.2.amount < t.fee) (.invalid .insufficientValue)
  let recipient ← newRecord C transitionId 0 t.recipient t.amount height
  let senderChange ← changeRecords C transitionId 1 t.sender (inputTotal - t.amount) height
  let sponsorChange ← changeRecords C transitionId 2 sponsor (reserve.2.amount - t.fee) height
  l.rebuildCells (records ++ [reserve]) (recipient :: senderChange ++ sponsorChange)

/-- `apply_sponsored_transfer_inner` up to the final check. -/
def prepareSponsored : LedgerM PUnit := do
  let self ← get
  let cells ← .check (self.sponsoredCells C sponsor t transitionId height)
  assignCells cells
  moveFeeToReserve t.fee

def applySponsoredTransferInner : LedgerM Unit := do
  prepareSponsored C sponsor t transitionId height
  verifySelf C

end

/-- On the ledger and the sponsor's policy. -/
def applySponsoredTransfer (request : CashPaymasterRequestV1) (t : CoinTransfer) (height : Nat) :
    Update CashTransitionError (CashLedger × CashPaymasterPolicyV1) Unit := do
  .check (rejectIf (request.sender ≠ t.sender ∨ request.fee ≠ t.fee)
    (.economics .paymasterUnauthorized))
  let transitionId := cashTransitionId C t
  .check (rejectIf (request.transfer ≠ transitionId) (.economics .paymasterUnauthorized))
  let (self, policy) ← get
  let nextPolicy ← .check
    ((policy.authorize C request transitionId t.fee height).mapError .economics)
  let (_, next) ← .check
    ((applySponsoredTransferInner C request.sponsor t transitionId height).onCopy self)
  set (next, nextPolicy)

/-! ## Burning -/

def burnCells (b : CoinBurnTransition) (height : Nat) : CashM CoinCellSet := do
  rejectIf (b.validUntil < height) (.invalid .expired)
  let (total, spent) ← l.gatherInputs b.owner b.inputs 0 []
  rejectIf (total < b.amount) (.invalid .burnExceedsInputs)
  let change ← changeRecords C (cashTransitionId C b) 0 b.owner (total - b.amount) height
  l.rebuildCells spent change

def supplyAfterBurn (s : NativeSupply) (amount : Nat) : CashM NativeSupply := do
  let burned ← okOr (checkedAdd 128 s.cumulativeBurn amount) (.invalid .amountOverflow)
  let current ← okOr (checkedSub s.currentTotalSupply amount) (.invalid .amountOverflow)
  let circulating ← okOr (checkedSub s.circulatingSupply amount) (.invalid .amountOverflow)
  invalid (NativeSupply.new { s.toNativeSupplyFields with
    cumulativeBurn := burned, currentTotalSupply := current, circulatingSupply := circulating })

/-- The candidate of `apply_burn`. -/
def prepareBurn (b : CoinBurnTransition) (height : Nat) : LedgerM PUnit := do
  let self ← get
  let cells ← .check (self.burnCells C b height)
  assignCells cells
  let supply ← .check (supplyAfterBurn self.supply b.amount)
  assignSupply supply

/-- The assignments go to a candidate, which replaces the ledger at the end. -/
def applyBurn (b : CoinBurnTransition) (height : Nat) : LedgerM Unit :=
  .atomically do
    prepareBurn C b height
    verifySelf C

/-! ## The shielded pool -/

def verifyPrivacyProof {α : Type} [CanonicalType α] (intent : α) (proof : VerifiedPrivacyProof) :
    CashM Digest384 := do
  rejectIf (proof.verified = false) (.privacy .proofNotVerified)
  let expected := commit C .privacyPublicInputs intent
  rejectIf (expected ≠ proof.publicInputsCommitment) (.privacy .publicInputMismatch)
  return expected

def verifyPrivacyContext (chainId : ChainId) (assetId : AssetId) (validUntil height : Nat) :
    CashM Unit := do
  rejectIf (chainId ≠ l.definition.chainId) (.privacy .wrongChain)
  rejectIf (assetId ≠ nativeAssetId C l.definition) (.privacy .publicInputMismatch)
  rejectIf (validUntil < height) (.privacy .expired)

section

variable (intent : ShieldIntent) (proof : VerifiedPrivacyProof) (height : Nat)

def shieldCells : CashM (CoinCellSet × Digest384) := do
  l.verifyPrivacyContext C intent.chainId intent.assetId intent.validUntil height
  let proofCommitment ← verifyPrivacyProof C intent proof
  let (total, spent) ← l.gatherWithReserve intent.owner intent.inputs intent.feeReserve
  let required ← okOr (checkedAdd 128 intent.amount intent.fee) (.invalid .amountOverflow)
  rejectIf (total < required) (.invalid .insufficientValue)
  let change ← changeRecords C (cashTransitionId C intent) 0 intent.owner (total - required) height
  let cells ← l.rebuildCells spent change
  return (cells, proofCommitment)

/-- `apply_shield_inner` up to the final check. -/
def prepareShield : LedgerM PUnit := do
  let self ← get
  let (cells, proofCommitment) ← .check (self.shieldCells C intent proof height)
  assignCells cells
  let shielded ← .check ((self.shielded.credit intent.amount proofCommitment).mapError .privacy)
  assignShielded shielded
  moveFeeToReserve intent.fee

def applyShield : LedgerM Unit :=
  .atomically do
    prepareShield C intent proof height
    verifySelf C

end

section

variable (intent : UnshieldIntent) (proof : VerifiedPrivacyProof) (height : Nat)

def unshieldPool : CashM ShieldedCashState := do
  l.verifyPrivacyContext C intent.chainId intent.assetId intent.validUntil height
  rejectIf (intent.anchor ≠ l.shielded.anchor) (.privacy .wrongAnchor)
  let proofCommitment ← verifyPrivacyProof C intent proof
  let debit ← okOr (checkedAdd 128 intent.amount intent.fee) (.invalid .amountOverflow)
  (l.shielded.debit C debit intent.nullifiers intent.nullifierWitnesses proofCommitment).mapError
    .privacy

/-- `apply_unshield_inner` up to the final check. -/
def prepareUnshield : LedgerM CoinCellId := do
  let self ← get
  let shielded ← .check (self.unshieldPool C intent proof height)
  assignShielded shielded
  let record ← .check
    (newRecord C (cashTransitionId C intent) 0 intent.recipient intent.amount height)
  let cells ← .check (self.insertNewCell record)
  assignCells cells
  moveFeeToReserve intent.fee
  return record.1

def applyUnshield : LedgerM CoinCellId :=
  .atomically do
    let id ← prepareUnshield C intent proof height
    verifySelf C
    return id

end

/-! ## Settling epochs -/

/-- Opening supply and issuance so far of the window of the next epoch: a window that is already
open goes on, and a new one opens at the current supply. -/
def windowBefore (s : NativeSupply) (nextWindow : Nat) : Nat × Nat :=
  if s.lastSettledEpoch = 0 ∨ nextWindow = s.issuanceWindow then
    (s.issuanceWindowOpeningSupply, s.issuanceInWindow)
  else (s.currentTotalSupply, 0)

/-- What is left of the annual cap, which may fall below what was issued. -/
def remainingCap (definition : NativeAssetDefinition) (window : Nat × Nat) : CashM Nat := do
  let annualCap ← invalid (basisPointsAmount window.1 definition.maximumOrdinaryAnnualIssuanceBps)
  okOr (checkedSub annualCap window.2) (.invariant .issuanceCapExceeded)

variable (mint : CoinMintTransition) (settlement : EpochEconomicsTransition)

/-- The checks of `apply_mint_inner` before the cell is inserted: the window it issues in and what
was issued there before. -/
def mintChecks : CashM (Nat × Nat × Nat) := do
  let s := l.supply
  rejectIf (mint.issuancePolicyHash ≠ l.definition.issuancePolicyHash)
    (.invalid .mintAuthorityMismatch)
  rejectIf (mint.sequence ≠ settlement.epoch) (.invalid .mintSequenceMismatch)
  let nextEpoch ← okOr (checkedAdd 64 s.lastSettledEpoch 1) (.invalid .amountOverflow)
  rejectIf (mint.sequence ≠ nextEpoch) (.invalid .mintSequenceMismatch)
  let stakeBps ← invalid (effectiveStakeBasisPoints s.stakedSupply s.currentTotalSupply)
  rejectIf (settlement.preSupply ≠ s.currentTotalSupply ∨ settlement.burnedAmount ≠ 0 ∨
    settlement.authorizedIssuance ≠ mint.amount ∨ settlement.effectiveStakeBps ≠ stakeBps)
    (.invalid .issuanceFormulaMismatch)
  let target ← invalid (epochSecurityBudget s.currentTotalSupply stakeBps)
  rejectIf (settlement.targetSecurityBudget ≠ target) (.invalid .issuanceFormulaMismatch)
  let nextWindow ← invalid (issuanceWindowIndex mint.sequence)
  let window := windowBefore s nextWindow
  let remaining ← remainingCap l.definition window
  rejectIf (settlement.issuanceCap ≠ remaining ∨ remaining < mint.amount)
    (.invalid .issuanceCapExceeded)
  rejectIf (settlement.postSupply < s.currentTotalSupply) (.invalid .issuanceCapExceeded)
  return (nextWindow, window)

def supplyAfterMint (s : NativeSupply) (mint : CoinMintTransition) (nextTotal nextWindow : Nat)
    (window : Nat × Nat) : CashM NativeSupply := do
  let issuance ← okOr (checkedAdd 128 s.cumulativeSecurityIssuance mint.amount)
    (.invalid .amountOverflow)
  let issuedInWindow ← okOr (checkedAdd 128 window.2 mint.amount) (.invalid .amountOverflow)
  let circulating ← okOr (checkedAdd 128 s.circulatingSupply mint.amount) (.invalid .amountOverflow)
  invalid (NativeSupply.new { s.toNativeSupplyFields with
    cumulativeSecurityIssuance := issuance, currentTotalSupply := nextTotal,
    circulatingSupply := circulating, lastSettledEpoch := mint.sequence,
    issuanceWindow := nextWindow, issuanceWindowOpeningSupply := window.1,
    issuanceInWindow := issuedInWindow })

/-- `apply_mint_inner` up to the final check. -/
def prepareMint : LedgerM CoinCellId := do
  let self ← get
  let (nextWindow, window) ← .check (self.mintChecks mint settlement)
  let record ← .check
    (newRecord C (cashTransitionId C mint) 0 mint.recipient mint.amount mint.height)
  let cells ← .check (self.insertNewCell record)
  assignCells cells
  let supply ← .check (supplyAfterMint self.supply mint settlement.postSupply nextWindow window)
  assignSupply supply
  return record.1

def applyMint : LedgerM CoinCellId :=
  .atomically do
    let id ← prepareMint C mint settlement
    verifySelf C
    return id

def supplyAfterSettlement : CashM NativeSupply := do
  let s := l.supply
  let nextEpoch ← okOr (checkedAdd 64 s.lastSettledEpoch 1) (.invalid .amountOverflow)
  rejectIf (settlement.epoch ≠ nextEpoch) (.invalid .mintSequenceMismatch)
  let stakeBps ← invalid (effectiveStakeBasisPoints s.stakedSupply s.currentTotalSupply)
  let target ← invalid (epochSecurityBudget s.currentTotalSupply stakeBps)
  rejectIf (settlement.preSupply ≠ s.currentTotalSupply ∨
    settlement.postSupply ≠ s.currentTotalSupply ∨ settlement.burnedAmount ≠ 0 ∨
    settlement.authorizedIssuance ≠ 0 ∨ settlement.effectiveStakeBps ≠ stakeBps ∨
    settlement.targetSecurityBudget ≠ target) (.invalid .issuanceFormulaMismatch)
  let nextWindow ← invalid (issuanceWindowIndex settlement.epoch)
  let window := windowBefore s nextWindow
  let remaining ← remainingCap l.definition window
  rejectIf (settlement.issuanceCap ≠ remaining) (.invalid .issuanceCapExceeded)
  invalid (NativeSupply.new { s.toNativeSupplyFields with
    lastSettledEpoch := settlement.epoch, issuanceWindow := nextWindow,
    issuanceWindowOpeningSupply := window.1, issuanceInWindow := window.2 })

/-- `apply_zero_issuance_settlement_inner` up to the final check. -/
def prepareSettlement : LedgerM PUnit := do
  let self ← get
  let supply ← .check (self.supplyAfterSettlement settlement)
  assignSupply supply

def applyZeroIssuanceSettlement : LedgerM Unit :=
  .atomically do
    prepareSettlement settlement
    verifySelf C

/-! ## Rewards -/

def redeemedRewards : SetCommitment := ⟨.spentInput, l.redeemedRewardRoot, l.redeemedRewardCount⟩

def assignRedeemed (c : SetCommitment) : LedgerM PUnit :=
  modify fun l => { l with redeemedRewardRoot := c.root, redeemedRewardCount := c.count }

variable (settlement : RewardSettlement) (redemption : RewardRedemption)

/-- The checks of `redeem_reward` before the payment: the commitment after it, and the payment. -/
def redeemChecks : CashM (SetCommitment × CoinTransfer) := do
  rejectIf (redemption.settlement ≠ settlement.assignment ∨
    redemption.replayWitness.assignment ≠ settlement.assignment ∨ settlement.reward = 0)
    (.invalid .zeroAmount)
  let nextCommitment ← (l.redeemedRewards.insert C settlement.assignment
    ⟨settlement.assignment, redemption.replayWitness.siblings⟩).mapError
      fun _ => .invalid .invalidRewardReplayWitness
  let transfer ← invalid (CoinTransfer.new redemption.poolOwner settlement.verifier
    [redemption.poolCell] redemption.feeReserve settlement.reward 0 redemption.height)
  return (nextCommitment, transfer)

/-- `redeem_reward` up to the final check; the payment has been checked on its own. -/
def prepareRedeem : LedgerM PUnit := do
  let self ← get
  let (nextCommitment, transfer) ← .check (self.redeemChecks C settlement redemption)
  applyTransferInner C transfer redemption.height
  assignRedeemed nextCommitment

def redeemReward : LedgerM Unit :=
  .atomically do
    prepareRedeem C settlement redemption
    verifySelf C

/-! ## Genesis -/

/-- The cells of the liquid allocations, numbered by their position. -/
def genesisRecords (economy : GenesisEconomy) : CashM (List CoinCellRecord) :=
  (economy.allocations.zipIdx.filter fun (a, _) => a.liquidAmount ≠ 0).mapM fun (a, index) =>
    newRecord C (genesisAllocationRoot C economy) index a.recipient a.liquidAmount 0

/-- The vesting total, with its checked additions. -/
def lockedTotal (allocations : List GenesisAllocation) : Option Nat :=
  allocations.foldlM (fun sum a => checkedAdd 128 sum a.lockedAmount) 0

def fromGenesis (economy : GenesisEconomy) : CashM CashLedger := do
  let records ← genesisRecords C economy
  let cells ← invalid (CoinCellSet.new (SortedMap.sortEntries records))
  let locked ← okOr (lockedTotal economy.allocations) (.invalid .amountOverflow)
  let supply ← invalid (NativeSupply.genesis economy.definition economy.securityReserve locked)
  let rewards := SetCommitment.empty C .spentInput
  let ledger : CashLedger := ⟨economy.definition, supply, cells, .default C, rewards.root, 0⟩
  ledger.verifyInvariants C
  return ledger

end CashLedger

end ActiveChain
