import ActiveChain.Lib.Replacement
import ActiveChain.Primitives

/-!
# Native money: constants, arithmetic and values (`cash-kernel::types`)

The values that the cash ledger is built from.  A structure carries the checks of its constructor as
fields; the constructors that the ledger itself calls are functions.

* `basisPointsAmount`, `effectiveStakeBasisPoints`, `epochSecurityBudget` — checked `u128` formulas.
* `NativeSupply` — the supply counters, consistent by construction; `NativeSupplyFields.check_iff`
  says what that means.
* `CoinCell`, `CoinCellSet` — unspent cells, strictly ordered by identifier and bounded in number.
* `CoinTransfer`, `CoinBurnTransition`, `CoinMintTransition`, `EpochEconomicsTransition` — intents.
-/

namespace ActiveChain

open Option

abbrev CoinCellId := Digest384

abbrev TransactionId := Digest384

abbrev AssetId := Digest384

def maxCoinCells : Nat := 4096

def maxTransferInputs : Nat := 16

def maxTransferBatch : Nat := 64

def maxSymbolLength : Nat := 12

def maxGenesisAllocations : Nat := 4096

def issuanceEpochsPerYear : Nat := 365

def basisPointsDenominator : Nat := 10000

inductive NativeMoneyError
  | invalidSymbol
  | invalidDecimals
  | zeroGenesisSupply
  | zeroAllocation
  | invalidGenesisAllocations
  | genesisAllocationsNotOrdered
  | genesisSupplyMismatch
  | amountOverflow
  | zeroAmount
  | zeroTokenId
  | zeroMetadataCommitment
  | invalidReserve
  | supplyEquationMismatch
  | supplyPartitionMismatch
  | tooManyCells
  | cellsNotOrdered
  | invalidInputs
  | inputsNotOrdered
  | feeReserveAlsoInput
  | missingCell
  | wrongOwner
  | expired
  | insufficientValue
  | mintAuthorityMismatch
  | mintSequenceMismatch
  | issuanceCapExceeded
  | burnExceedsInputs
  | outputCollision
  | invalidEconomicsTransition
  | issuanceFormulaMismatch
  | invalidRewardReplayWitness
deriving DecidableEq, Repr

abbrev MoneyM : Type → Type := Except NativeMoneyError

/-! ## Economics arithmetic -/

/-- `post_supply` of the checked arithmetic. -/
def computePostSupply (pre issuance burned : Nat) : Option Nat :=
  (checkedAdd 128 pre issuance).bind fun sum => checkedSub sum burned

def partitionTotal (a b c d : Nat) : Option Nat :=
  (checkedAdd 128 a b).bind fun ab => (checkedAdd 128 ab c).bind fun abc => checkedAdd 128 abc d

/-- `authorized_issuance`: the subtraction saturates at zero. -/
def computeAuthorizedIssuance (fees reserve target : Nat) : Option Nat :=
  (checkedAdd 128 fees reserve).map fun covered => target - covered

def issuanceWindowIndex (epoch : Nat) : MoneyM Nat :=
  okOr ((checkedSub epoch 1).map (· / issuanceEpochsPerYear)) .invalidEconomicsTransition

def basisPointsAmount (amount : Nat) (bps : Nat) : MoneyM Nat :=
  okOr ((checkedMul 128 (amount / basisPointsDenominator) bps).bind fun value =>
    (checkedMul 128 (amount % basisPointsDenominator) bps).bind fun tail =>
      checkedAdd 128 value (tail / basisPointsDenominator)) .amountOverflow

def ceilingBasisPointsAmount (amount : Nat) (bps : Nat) : MoneyM Nat := do
  let floor ← basisPointsAmount amount bps
  let tail ← okOr (checkedMul 128 (amount % basisPointsDenominator) bps) .amountOverflow
  if tail % basisPointsDenominator = 0 then return floor
  else okOr (checkedAdd 128 floor 1) .amountOverflow

/-- The binary search of `effective_stake_basis_points`. -/
def effectiveStakeSearch (stakedSupply totalSupply : Nat) (low high : Nat) : MoneyM Nat :=
  if low < high then
    let midpoint := low + (high - low + 1) / 2
    match ceilingBasisPointsAmount totalSupply midpoint with
    | .error e => .error e
    | .ok threshold =>
      if threshold ≤ stakedSupply then effectiveStakeSearch stakedSupply totalSupply midpoint high
      else effectiveStakeSearch stakedSupply totalSupply low (midpoint - 1)
  else .ok low
termination_by high - low

def effectiveStakeBasisPoints (stakedSupply totalSupply : Nat) : MoneyM Nat := do
  rejectIf (totalSupply = 0 ∨ totalSupply < stakedSupply) .supplyPartitionMismatch
  effectiveStakeSearch stakedSupply totalSupply 0 10000

/-- `interpolate` of the budget curve. -/
def interpolate (stake low high lowRate highRate : Nat) : Nat :=
  lowRate - (lowRate - highRate) * (stake - low) / (high - low)

def annualSecurityBudgetBps (effectiveStakeBps : Nat) : Nat :=
  if effectiveStakeBps ≤ 3000 then 150
  else if effectiveStakeBps ≤ 4000 then interpolate effectiveStakeBps 3000 4000 150 100
  else if effectiveStakeBps ≤ 5000 then interpolate effectiveStakeBps 4000 5000 100 75
  else if effectiveStakeBps ≤ 6000 then interpolate effectiveStakeBps 5000 6000 75 50
  else if effectiveStakeBps ≤ 7000 then interpolate effectiveStakeBps 6000 7000 50 40
  else 40

def epochSecurityBudget (preSupply : Nat) (effectiveStakeBps : Nat) : MoneyM Nat := do
  rejectIf (10000 < effectiveStakeBps) .invalidEconomicsTransition
  let annual ← basisPointsAmount preSupply (annualSecurityBudgetBps effectiveStakeBps)
  return annual / issuanceEpochsPerYear

section Arithmetic

variable {a b c d r : Nat}

theorem computePostSupply_eq_some :
    computePostSupply a b c = some r ↔ a + b = r + c ∧ a + b < 2 ^ 128 := by
  simp only [computePostSupply, bind_eq_some_iff, checkedAdd_eq_some, checkedSub_eq_some]
  constructor
  · omega
  · rintro ⟨heq, hf⟩
    exact ⟨a + b, ⟨rfl, hf⟩, by omega, by omega⟩

theorem partitionTotal_eq_some :
    partitionTotal a b c d = some r ↔ a + b + c + d = r ∧ r < 2 ^ 128 := by
  simp only [partitionTotal, bind_eq_some_iff, checkedAdd_eq_some]
  constructor
  · rintro ⟨ab, ⟨rfl, -⟩, abc, ⟨rfl, -⟩, rfl, hf⟩
    exact ⟨rfl, hf⟩
  · rintro ⟨rfl, hf⟩
    exact ⟨a + b, ⟨rfl, by omega⟩, a + b + c, ⟨rfl, by omega⟩, rfl, hf⟩

theorem issuanceWindowIndex_eq_ok {epoch window : Nat} :
    issuanceWindowIndex epoch = .ok window ↔
      epoch ≠ 0 ∧ window = (epoch - 1) / issuanceEpochsPerYear := by
  simp only [issuanceWindowIndex, okOr_eq_ok, map_eq_some_iff, checkedSub_eq_some]
  constructor
  · rintro ⟨_, ⟨rfl, hle⟩, rfl⟩
    exact ⟨by omega, rfl⟩
  · rintro ⟨hne, rfl⟩
    exact ⟨epoch - 1, ⟨rfl, by omega⟩, rfl⟩

/-- **The checked formula is the floor of the exact product.** -/
theorem eq_floor_of_basisPointsAmount {amount bps : Nat}
    (h : basisPointsAmount amount bps = .ok r) : r = amount * bps / basisPointsDenominator := by
  simp only [basisPointsAmount, okOr_eq_ok, bind_eq_some_iff, checkedMul_eq_some,
    checkedAdd_eq_some] at h
  obtain ⟨_, ⟨rfl, -⟩, _, ⟨rfl, -⟩, rfl, -⟩ := h
  conv_rhs => rw [← Nat.div_add_mod amount basisPointsDenominator]
  rw [Nat.add_mul, Nat.mul_assoc, Nat.mul_add_div (by decide)]

theorem basisPointsAmount_of_le (ha : a < 2 ^ 128) (hb : b ≤ 10000) :
    basisPointsAmount a b = .ok (a * b / 10000) := by
  have hwhole : a / 10000 * b ≤ a / 10000 * 10000 := Nat.mul_le_mul_left _ hb
  have htail : a % 10000 * b ≤ a % 10000 * 10000 := Nat.mul_le_mul_left _ hb
  obtain ⟨r, hr⟩ : ∃ r, basisPointsAmount a b = .ok r := by
    simp only [basisPointsAmount, basisPointsDenominator, okOr_eq_ok, bind_eq_some_iff,
      checkedMul_eq_some, checkedAdd_eq_some]
    exact ⟨_, _, ⟨rfl, by omega⟩, _, ⟨rfl, by omega⟩, rfl, by omega⟩
  rw [hr, eq_floor_of_basisPointsAmount hr, basisPointsDenominator]

/-- The rounded threshold of a rate is met exactly up to the rate that is searched. -/
theorem ceilingBasisPointsAmount_le (hpos : 0 < a) (ha : a < 2 ^ 128) (hb : b ≤ 10000) :
    ∃ c, ceilingBasisPointsAmount a b = .ok c ∧ ∀ s, c ≤ s ↔ b ≤ s * 10000 / a := by
  have hle : a * b ≤ a * 10000 := Nat.mul_le_mul_left _ hb
  have htail : a % 10000 * b ≤ a % 10000 * 10000 := Nat.mul_le_mul_left _ hb
  simp only [ceilingBasisPointsAmount, basisPointsAmount_of_le ha hb, basisPointsDenominator,
    checkedMul_eq_some.2 ⟨rfl, (by omega : a % 10000 * b < 2 ^ 128)⟩, okOr, Except.ok_bind,
    Nat.mod_mul_mod, Nat.le_div_iff_mul_le hpos, Nat.mul_comm b]
  split
  · exact ⟨_, rfl, fun s => by omega⟩
  · exact ⟨_, by rw [checkedAdd_eq_some.2 ⟨rfl, by omega⟩], fun s => by omega⟩

theorem effectiveStakeSearch_eq {s t low high : Nat} (hpos : 0 < t) (ht : t < 2 ^ 128)
    (hlow : low ≤ s * 10000 / t) (hhigh : s * 10000 / t ≤ high) (hh : high ≤ 10000) :
    effectiveStakeSearch s t low high = .ok (s * 10000 / t) := by
  fun_induction effectiveStakeSearch s t low high with
  | case1 low high hlt mid e he =>
    obtain ⟨c, hc, -⟩ := ceilingBasisPointsAmount_le hpos ht (b := mid) (by omega)
    cases hc.symm.trans he
  | case2 low high hlt mid c hc hle ih =>
    obtain ⟨_, hc', hs⟩ := ceilingBasisPointsAmount_le hpos ht (b := mid) (by omega)
    cases hc.symm.trans hc'
    exact ih ((hs s).1 hle) hhigh hh
  | case3 low high hlt mid c hc hle ih =>
    obtain ⟨_, hc', hs⟩ := ceilingBasisPointsAmount_le hpos ht (b := mid) (by omega)
    cases hc.symm.trans hc'
    have := mt (hs s).2 hle
    exact ih hlow (by omega) (by omega)
  | case4 low high hlt => rw [show low = s * 10000 / t by omega]

/-- **Shares of stake and of amounts are exact floors, over the whole range of `u128`.** -/
theorem basis_points_exact :
    (∀ s t, 0 < t → s ≤ t → t < 2 ^ 128 →
      effectiveStakeBasisPoints s t = .ok (s * 10000 / t)) ∧
    ∀ a bps, a < 2 ^ 128 → bps ≤ 10000 → basisPointsAmount a bps = .ok (a * bps / 10000) := by
  refine ⟨fun s t hpos hle ht => ?_, fun _ _ => basisPointsAmount_of_le⟩
  have hshare : s * 10000 / t ≤ 10000 := Nat.div_le_of_le_mul (Nat.mul_le_mul_right _ hle)
  have hguard : ¬ (t = 0 ∨ t < s) := by omega
  rw [effectiveStakeBasisPoints, rejectIf, if_neg hguard]
  exact effectiveStakeSearch_eq hpos ht (Nat.zero_le _) hshare le_rfl

theorem third_of_stake : effectiveStakeBasisPoints (2 ^ 126) (3 * 2 ^ 126) = .ok 3333 :=
  basis_points_exact.1 _ _ (by decide) (by decide) (by decide)

end Arithmetic

/-! ## Genesis -/

/-- A byte allowed in a symbol: an upper-case letter, a digit or an underscore. -/
def isSymbolByte (byte : Nat) : Bool :=
  (65 ≤ byte && byte ≤ 90) || (48 ≤ byte && byte ≤ 57) || byte = 95

/-- With the checks of its constructor. -/
@[ext] structure NativeAssetDefinition where
  chainId : ChainId
  symbol : List Nat
  decimals : Nat
  genesisSupply : Nat
  maximumOrdinaryAnnualIssuanceBps : Nat
  issuancePolicyHash : Digest384
  burnPolicyHash : Digest384
  rewardPolicyHash : Digest384
  symbolChecked : symbol ≠ [] ∧ symbol.length ≤ maxSymbolLength ∧ ∀ byte ∈ symbol, isSymbolByte byte
  decimalsChecked : decimals ≤ 38
  bpsChecked : maximumOrdinaryAnnualIssuanceBps ≤ 10000
  supplyChecked : genesisSupply ≠ 0 ∧ genesisSupply < 2 ^ 128
  hashesChecked : chainId ≠ Digest384.zero ∧ issuancePolicyHash ≠ Digest384.zero ∧
    burnPolicyHash ≠ Digest384.zero ∧ rewardPolicyHash ≠ Digest384.zero

@[ext] structure GenesisAllocation where
  recipient : PrincipalId
  liquidAmount : Nat
  lockedAmount : Nat
  fits : liquidAmount + lockedAmount < 2 ^ 128
  nonzero : ¬ (liquidAmount = 0 ∧ lockedAmount = 0)

def GenesisAllocation.total (a : GenesisAllocation) : Nat := a.liquidAmount + a.lockedAmount

/-- Recipients may repeat. -/
@[ext] structure GenesisEconomy where
  definition : NativeAssetDefinition
  allocations : List GenesisAllocation
  securityReserve : Nat
  bounds : allocations ≠ [] ∧ allocations.length ≤ maxGenesisAllocations
  ordered : allocations.Pairwise fun a b => a.recipient ≤ b.recipient
  total : securityReserve + (allocations.map GenesisAllocation.total).sum = definition.genesisSupply

/-! ## Coin cells -/

@[ext] structure CoinCellOrigin where
  transitionId : TransactionId
  outputIndex : Nat
deriving DecidableEq

@[ext] structure CoinCell where
  origin : CoinCellOrigin
  owner : PrincipalId
  amount : Nat
  creationHeight : Nat
  ownerChecked : owner ≠ Digest384.zero
  amountChecked : amount ≠ 0
deriving DecidableEq

def CoinCell.new (origin : CoinCellOrigin) (owner : PrincipalId) (amount creationHeight : Nat) :
    MoneyM CoinCell :=
  if howner : owner = Digest384.zero then .error .invalidInputs
  else if hamount : amount = 0 then .error .zeroAmount
  else .ok ⟨origin, owner, amount, creationHeight, howner, hamount⟩

theorem CoinCell.new_eq_ok {origin : CoinCellOrigin} {owner : PrincipalId} {amount height : Nat}
    {cell : CoinCell} : CoinCell.new origin owner amount height = .ok cell ↔
      cell.origin = origin ∧ cell.owner = owner ∧ cell.amount = amount ∧
        cell.creationHeight = height := by
  unfold CoinCell.new
  split_ifs with ho ham
  · simp only [false_iff]
    rintro ⟨-, rfl, -⟩
    exact cell.ownerChecked ho
  · simp only [false_iff]
    rintro ⟨-, -, rfl, -⟩
    exact cell.amountChecked ham
  · rw [Except.ok.injEq, CoinCell.ext_iff]
    tauto

/-- A cell behind its identifier. -/
abbrev CoinCellRecord := CoinCellId × CoinCell

/-- Cells strictly ordered by identifier, at most `MAX_COIN_CELLS`. -/
@[ext] structure CoinCellSet where
  cells : SortedMap CoinCellId CoinCell
  bounded : cells.length ≤ maxCoinCells
deriving DecidableEq

def CoinCellSet.new (records : List CoinCellRecord) : MoneyM CoinCellSet :=
  if hlen : maxCoinCells < records.length then .error .tooManyCells
  else if hsorted : records.Pairwise (fun a b => a.1 < b.1) then
    .ok ⟨⟨records, hsorted⟩, Nat.le_of_not_lt hlen⟩
  else .error .cellsNotOrdered

theorem CoinCellSet.new_eq_ok {records : List CoinCellRecord} {set : CoinCellSet} :
    CoinCellSet.new records = .ok set ↔ set.cells.entries = records := by
  unfold CoinCellSet.new
  split_ifs with hlen hs
  · simp only [false_iff]
    rintro rfl
    exact absurd set.bounded (Nat.not_le_of_lt hlen)
  · rw [Except.ok.injEq]
    constructor
    · rintro rfl
      rfl
    · rintro rfl
      rfl
  · simp only [false_iff]
    rintro rfl
    exact hs set.cells.sorted

def CoinCellSet.value (set : CoinCellSet) : Nat := set.cells.total CoinCell.amount

/-! ## Supply -/

@[ext] structure NativeSupplyFields where
  genesisSupply : Nat
  cumulativeSecurityIssuance : Nat
  cumulativeBurn : Nat
  currentTotalSupply : Nat
  circulatingSupply : Nat
  lockedVestingSupply : Nat
  stakedSupply : Nat
  securityReserveBalance : Nat
  lastSettledEpoch : Nat
  issuanceWindow : Nat
  issuanceWindowOpeningSupply : Nat
  issuanceInWindow : Nat
deriving DecidableEq

namespace NativeSupplyFields

/-- The checks of `NativeSupply::new`. -/
def check (s : NativeSupplyFields) : MoneyM Unit := do
  let expected ← okOr
    (computePostSupply s.genesisSupply s.cumulativeSecurityIssuance s.cumulativeBurn)
    .amountOverflow
  rejectIf (expected ≠ s.currentTotalSupply) .supplyEquationMismatch
  let locked ← okOr (checkedAdd 128 s.lockedVestingSupply s.stakedSupply) .amountOverflow
  let partition := partitionTotal s.circulatingSupply s.lockedVestingSupply s.stakedSupply
    s.securityReserveBalance
  rejectIf (s.currentTotalSupply < locked ∨ partition ≠ some s.currentTotalSupply ∨
    s.currentTotalSupply < s.securityReserveBalance ∨ s.issuanceWindowOpeningSupply = 0 ∨
    (s.lastSettledEpoch = 0 ∧ (s.issuanceWindow ≠ 0 ∨
      s.issuanceWindowOpeningSupply ≠ s.genesisSupply ∨ s.issuanceInWindow ≠ 0)) ∨
    (s.lastSettledEpoch ≠ 0 ∧
      (s.lastSettledEpoch - 1) / issuanceEpochsPerYear ≠ s.issuanceWindow)) .supplyPartitionMismatch

structure Consistent (s : NativeSupplyFields) : Prop where
  equation : s.genesisSupply + s.cumulativeSecurityIssuance = s.currentTotalSupply +
  s.cumulativeBurn
  fits : s.genesisSupply + s.cumulativeSecurityIssuance < 2 ^ 128
  partition : s.circulatingSupply + s.lockedVestingSupply + s.stakedSupply +
    s.securityReserveBalance = s.currentTotalSupply
  opening : s.issuanceWindowOpeningSupply ≠ 0
  unsettled : s.lastSettledEpoch = 0 → s.issuanceWindow = 0 ∧
    s.issuanceWindowOpeningSupply = s.genesisSupply ∧ s.issuanceInWindow = 0
  settled : s.lastSettledEpoch ≠ 0 →
    s.issuanceWindow = (s.lastSettledEpoch - 1) / issuanceEpochsPerYear

theorem check_iff {s : NativeSupplyFields} : s.check = .ok () ↔ s.Consistent := by
  simp only [check, Except.inversion, not_and, computePostSupply_eq_some, partitionTotal_eq_some]
  constructor
  · rintro ⟨_, ⟨heq, hf⟩, rfl, _, ⟨rfl, -⟩, -, ⟨hp, -⟩, -, hopen, hu, hs⟩
    exact ⟨heq, hf, hp, hopen, fun h => (hu h), fun h => (hs h).symm⟩
  · intro h
    have hf := h.fits
    have heq := h.equation
    have hp := h.partition
    exact ⟨_, ⟨heq, hf⟩, rfl, _, ⟨rfl, by omega⟩, by omega, ⟨hp, by omega⟩, by omega, h.opening,
      fun hz => h.unsettled hz, fun hz => (h.settled hz).symm⟩

end NativeSupplyFields

structure NativeSupply extends NativeSupplyFields where
  checked : toNativeSupplyFields.check = .ok ()
deriving DecidableEq

namespace NativeSupply

def new (fields : NativeSupplyFields) : MoneyM NativeSupply :=
  match h : fields.check with
  | .ok () => .ok ⟨fields, h⟩
  | .error e => .error e

theorem new_eq_ok {fields : NativeSupplyFields} {s : NativeSupply} :
    new fields = .ok s ↔ s.toNativeSupplyFields = fields := by
  unfold new
  split
  · rw [Except.ok.injEq]
    constructor
    · rintro rfl
      rfl
    · rintro rfl
      rfl
  · next h =>
    simp only [reduceCtorEq, false_iff]
    rintro rfl
    rw [s.checked] at h
    cases h

theorem consistent (s : NativeSupply) : s.toNativeSupplyFields.Consistent :=
  NativeSupplyFields.check_iff.1 s.checked

/-- The counters of `NativeSupply::genesis`. -/
def genesisFields (genesisSupply securityReserve lockedVestingSupply : Nat) :
    NativeSupplyFields where
  genesisSupply := genesisSupply
  cumulativeSecurityIssuance := 0
  cumulativeBurn := 0
  currentTotalSupply := genesisSupply
  circulatingSupply := genesisSupply - (securityReserve + lockedVestingSupply)
  lockedVestingSupply := lockedVestingSupply
  stakedSupply := 0
  securityReserveBalance := securityReserve
  lastSettledEpoch := 0
  issuanceWindow := 0
  issuanceWindowOpeningSupply := genesisSupply
  issuanceInWindow := 0

theorem genesisFields_check {genesisSupply securityReserve locked : Nat}
    (hpos : genesisSupply ≠ 0) (hf : genesisSupply < 2 ^ 128)
    (hr : securityReserve + locked ≤ genesisSupply) :
    (genesisFields genesisSupply securityReserve locked).check = .ok () := by
  refine NativeSupplyFields.check_iff.2 ⟨rfl, by simpa [genesisFields] using hf, ?_, hpos, ?_, ?_⟩
  · simp only [genesisFields]
    omega
  · intro _
    exact ⟨rfl, rfl, rfl⟩
  · intro h
    exact absurd rfl h

/-- For the genesis supply of a definition. -/
def genesis (definition : NativeAssetDefinition) (securityReserve lockedVestingSupply : Nat) :
    MoneyM NativeSupply :=
  match h : checkedAdd 128 securityReserve lockedVestingSupply with
  | none => .error .amountOverflow
  | some reserved =>
    if hle : reserved ≤ definition.genesisSupply then
      .ok ⟨genesisFields definition.genesisSupply securityReserve lockedVestingSupply,
        genesisFields_check definition.supplyChecked.1 definition.supplyChecked.2
          (eq_add_of_checkedAdd h ▸ hle)⟩
    else .error .invalidReserve

theorem fields_of_genesis {definition : NativeAssetDefinition} {reserve locked : Nat}
    {s : NativeSupply} (h : genesis definition reserve locked = .ok s) :
    s.toNativeSupplyFields = genesisFields definition.genesisSupply reserve locked := by
  unfold genesis at h
  split at h
  · cases h
  · split at h
    · cases h
      rfl
    · cases h

end NativeSupply

/-! ## Intents -/

/-- The inputs are distinct, and the fee reserve is not one of them. -/
structure CoinTransfer where
  sender : PrincipalId
  recipient : PrincipalId
  inputs : List CoinCellId
  feeReserve : CoinCellId
  amount : Nat
  fee : Nat
  validUntil : Nat
  bounds : inputs ≠ [] ∧ inputs.length ≤ maxTransferInputs
  ordered : inputs.Pairwise (· < ·)
  reserveApart : feeReserve ∉ inputs
  amountChecked : amount ≠ 0
deriving DecidableEq

def CoinTransfer.new (sender recipient : PrincipalId) (inputs : List CoinCellId)
    (feeReserve : CoinCellId) (amount fee validUntil : Nat) : MoneyM CoinTransfer :=
  if hbounds : inputs ≠ [] ∧ inputs.length ≤ maxTransferInputs then
    if hordered : inputs.Pairwise (· < ·) then
      if hreserve : feeReserve ∉ inputs then
        if hamount : amount ≠ 0 then
          .ok ⟨sender, recipient, inputs, feeReserve, amount, fee, validUntil, hbounds, hordered,
            hreserve, hamount⟩
        else .error .zeroAmount
      else .error .feeReserveAlsoInput
    else .error .inputsNotOrdered
  else .error .invalidInputs

structure CoinBurnTransition where
  owner : PrincipalId
  inputs : List CoinCellId
  amount : Nat
  validUntil : Nat
  bounds : inputs ≠ [] ∧ inputs.length ≤ maxTransferInputs
  ordered : inputs.Pairwise (· < ·)
  amountChecked : amount ≠ 0
deriving DecidableEq

structure CoinMintTransition where
  issuancePolicyHash : Digest384
  recipient : PrincipalId
  amount : Nat
  sequence : Nat
  height : Nat
  amountChecked : amount ≠ 0
deriving DecidableEq

/-- Without its reward roots. -/
@[ext] structure EpochEconomicsTransition where
  epoch : Nat
  preSupply : Nat
  effectiveStakeBps : Nat
  securityFeeRevenue : Nat
  reserveDraw : Nat
  targetSecurityBudget : Nat
  authorizedIssuance : Nat
  issuanceCap : Nat
  burnedAmount : Nat
  postSupply : Nat
  range : epoch ≠ 0 ∧ effectiveStakeBps ≤ 10000
  formula : computeAuthorizedIssuance securityFeeRevenue reserveDraw targetSecurityBudget =
    some authorizedIssuance ∧ authorizedIssuance ≤ issuanceCap
  equation : computePostSupply preSupply authorizedIssuance burnedAmount = some postSupply

end ActiveChain
