import ActiveChain.Cash.Intents
import ActiveChain.Fungible.Policy

/-!
# Cells of fungible assets (`cash-kernel::types`)

The cells of all fungible assets stand in one set; every operation consumes or creates cells of one
asset and, with an approval, moves its issued supply.

* `FungibleCoinCellSet` — cells strictly ordered by identifier and bounded in number.
* `applyTransfer`, `applyMint`, `applyBurn`, `applyRedemption` — the operations.
-/

namespace ActiveChain

open Except List SortedMap

/-- The order of origins: by transition, then by output index. -/
def CoinCellOrigin.Before (a b : CoinCellOrigin) : Prop :=
  a.transitionId < b.transitionId ∨ a.transitionId = b.transitionId ∧ a.outputIndex < b.outputIndex
deriving Decidable

@[ext] structure FungibleCoinCell where
  origin : CoinCellOrigin
  assetId : AssetId
  owner : PrincipalId
  amount : Nat
  creationHeight : Nat
  identityChecked : assetId ≠ Digest384.zero ∧ owner ≠ Digest384.zero
  amountChecked : amount ≠ 0

instance : DecidableEq FungibleCoinCell :=
  fun _ _ => decidable_of_iff _ FungibleCoinCell.ext_iff.symm

def FungibleCoinCell.new (origin : CoinCellOrigin) (assetId : AssetId) (owner : PrincipalId)
    (amount creationHeight : Nat) : MoneyM FungibleCoinCell :=
  if hidentity : assetId = Digest384.zero ∨ owner = Digest384.zero then .error .invalidInputs
  else if hamount : amount = 0 then .error .zeroAmount
  else .ok ⟨origin, assetId, owner, amount, creationHeight, not_or.1 hidentity, hamount⟩

open FungibleCoinCell

@[ext] structure FungibleCoinCellSet where
  cells : SortedMap CoinCellId FungibleCoinCell
  bounded : cells.length ≤ maxCoinCells
deriving DecidableEq

def FungibleCoinCellSet.new (records : List (CoinCellId × FungibleCoinCell)) :
    MoneyM FungibleCoinCellSet :=
  if hlen : maxCoinCells < records.length then .error .tooManyCells
  else if hsorted : records.Pairwise (fun a b => a.1 < b.1) then
    .ok ⟨⟨records, hsorted⟩, Nat.le_of_not_lt hlen⟩
  else .error .cellsNotOrdered

/-! ## Intents -/

/-- The checks that `FungibleTransferV1::new` and `FungibleBurnV1::new` make on their inputs: cells
of one asset and one owner, in order, that add up to the amount. -/
structure ExactInputs (assetId : AssetId) (owner : PrincipalId) (inputs : List FungibleCoinCell)
    (amount : Nat) : Prop where
  sized : inputs ≠ [] ∧ inputs.length ≤ maxTransferInputs
  amountChecked : amount ≠ 0
  ordered : inputs.Pairwise fun a b => a.origin.Before b.origin
  owned : ∀ cell ∈ inputs, cell.assetId = assetId ∧ cell.owner = owner
  total : (inputs.map FungibleCoinCell.amount).sum = amount
  fits : amount < 2 ^ 128

structure FungibleTransferV1 where
  assetId : AssetId
  sender : PrincipalId
  recipient : PrincipalId
  inputs : List FungibleCoinCell
  amount : Nat
  checked : ExactInputs assetId sender inputs amount

structure FungibleMintV1 where
  assetId : AssetId
  issuer : PrincipalId
  recipient : PrincipalId
  amount : Nat
  supplyBefore : Nat
  supplyCap : Nat
  amountChecked : amount ≠ 0 ∧ supplyCap ≠ 0
  capChecked : supplyBefore + amount < 2 ^ 128 ∧ supplyBefore + amount ≤ supplyCap

structure FungibleBurnV1 where
  assetId : AssetId
  authority : PrincipalId
  inputs : List FungibleCoinCell
  amount : Nat
  checked : ExactInputs assetId authority inputs amount

/-- A burn with a settlement reference. -/
structure FungibleRedemptionV1 where
  assetId : AssetId
  authority : PrincipalId
  inputs : List FungibleCoinCell
  amount : Nat
  settlementReference : Digest384
  checked : ExactInputs assetId authority inputs amount
  settlementChecked : settlementReference ≠ Digest384.zero

/-- Without its revision. -/
structure FungibleHolderControlStateV1 where
  assetId : AssetId
  holder : PrincipalId
  frozen : Bool
  identityChecked : assetId ≠ Digest384.zero ∧ holder ≠ Digest384.zero

def FungibleCoinCell.body (cell : FungibleCoinCell) : Transcript :=
  [.digest cell.origin.transitionId, .u16 cell.origin.outputIndex, .digest cell.assetId,
    .digest cell.owner, .u128 cell.amount, .u64 cell.creationHeight]

instance : CanonicalType FungibleTransferV1 where
  typeTag := 0x010f
  schemaVersion := 1
  body t := [.digest t.assetId, .digest t.sender, .digest t.recipient, .u32 t.inputs.length] ++
    t.inputs.flatMap FungibleCoinCell.body ++ [.u128 t.amount]

instance : CanonicalType FungibleMintV1 where
  typeTag := 0x0111
  schemaVersion := 1
  body m := [.digest m.assetId, .digest m.issuer, .digest m.recipient, .u128 m.amount,
    .u128 m.supplyBefore, .u128 m.supplyCap]

def FungibleMintV1.supplyAfter (mint : FungibleMintV1) : Nat := mint.supplyBefore + mint.amount

def FungibleTransferV1.validateAgainstPolicy (transfer : FungibleTransferV1)
    (policy : FungibleAssetPolicyV1) : MoneyM Unit :=
  rejectIf (transfer.assetId ≠ policy.assetId ∨ policy.supplyIssued < transfer.amount ∨
    policy.lifecycle ≠ .registered) .invalidInputs

def FungibleTransferV1.validateAgainstHolderControl (transfer : FungibleTransferV1)
    (state : FungibleHolderControlStateV1) : MoneyM Unit :=
  rejectIf (state.assetId ≠ transfer.assetId ∨ state.holder ≠ transfer.sender ∨ state.frozen = true)
    .invalidInputs

def FungibleMintV1.validateAgainstPolicyAndApproval (C : Crypto) (mint : FungibleMintV1)
    (policy : FungibleAssetPolicyV1) (approval : FungibleIssuerApprovalV1) (height : Nat) :
    MoneyM Unit := do
  rejectIf (¬ approval.bindsContext C policy .mint mint.amount mint.supplyBefore height)
    .mintAuthorityMismatch
  rejectIf (mint.assetId ≠ policy.assetId ∨ mint.supplyCap ≠ policy.supplyCap)
    .mintAuthorityMismatch
  let _ ← (policy.applyMint mint.issuer mint.amount mint.supplyBefore).mapError
    fun _ => NativeMoneyError.mintAuthorityMismatch

/-- `validate_against_policy_and_approval` of burns and redemptions. -/
def validateDestruction (C : Crypto) (operation : FungibleIssuerOperation) (assetId : AssetId)
    (amount : Nat) (policy : FungibleAssetPolicyV1) (approval : FungibleIssuerApprovalV1)
    (height : Nat) : MoneyM Unit := do
  rejectIf (¬ approval.bindsContext C policy operation amount policy.supplyIssued height)
    .invalidInputs
  rejectIf (assetId ≠ policy.assetId) .invalidInputs
  let _ ← (policy.applyBurn amount policy.supplyIssued).mapError
    fun _ => NativeMoneyError.invalidInputs

/-! ## Operations -/

abbrev CellsAndPolicy := FungibleCoinCellSet × FungibleAssetPolicyV1

namespace FungibleCoinCellSet

/-- The loop over the inputs: each must be the cell that the set holds under its identifier. -/
def spendInputs (C : Crypto) (set : FungibleCoinCellSet) :
    List FungibleCoinCell → MoneyM (List CoinCellId)
  | [] => .ok []
  | input :: rest => do
    let id := coinCellId C input.origin
    let held ← okOr (set.cells.get? id) .missingCell
    rejectIf (held ≠ input) .invalidInputs
    let spent ← spendInputs C set rest
    return id :: spent

variable (C : Crypto) (set : FungibleCoinCellSet)

def newOutput (transition : TransactionId) (assetId : AssetId) (recipient : PrincipalId)
    (amount height : Nat) : MoneyM (CoinCellId × FungibleCoinCell) := do
  let output ← FungibleCoinCell.new ⟨transition, 0⟩ assetId recipient amount height
  let outputId := coinCellId C output.origin
  rejectIf (set.cells.get? outputId).isSome .outputCollision
  return (outputId, output)

def applyTransfer (transfer : FungibleTransferV1) (policy : FungibleAssetPolicyV1)
    (holderState : FungibleHolderControlStateV1) (height : Nat) : MoneyM FungibleCoinCellSet := do
  transfer.validateAgainstPolicy policy
  transfer.validateAgainstHolderControl holderState
  let spent ← set.spendInputs C transfer.inputs
  let output ← set.newOutput C (cashTransitionId C transfer) transfer.assetId transfer.recipient
    transfer.amount height
  FungibleCoinCellSet.new (SortedMap.sortEntries (set.cells.replaced spent [output]))

def applyMint (mint : FungibleMintV1) (policy : FungibleAssetPolicyV1)
    (approval : FungibleIssuerApprovalV1) (height : Nat) : MoneyM CellsAndPolicy := do
  mint.validateAgainstPolicyAndApproval C policy approval height
  let nextPolicy ← (policy.applyApprovedMint C mint.issuer approval height).mapError
    fun _ => NativeMoneyError.mintAuthorityMismatch
  rejectIf (nextPolicy.supplyIssued ≠ mint.supplyAfter ∨ set.cells.length = maxCoinCells)
    .issuanceCapExceeded
  let output ← set.newOutput C (cashTransitionId C mint) mint.assetId mint.recipient mint.amount
    height
  let next ← FungibleCoinCellSet.new (SortedMap.sortEntries (set.cells.replaced [] [output]))
  return (next, nextPolicy)

/-- The body that burns and redemptions share. -/
def destroy (operation : FungibleIssuerOperation) (assetId : AssetId)
    (inputs : List FungibleCoinCell) (amount : Nat) (policy : FungibleAssetPolicyV1)
    (approval : FungibleIssuerApprovalV1) (height : Nat) : MoneyM CellsAndPolicy := do
  validateDestruction C operation assetId amount policy approval height
  let nextPolicy ← (policy.applyApprovedBurn C approval operation height).mapError
    fun _ => NativeMoneyError.invalidInputs
  rejectIf (checkedAdd 128 nextPolicy.supplyIssued amount ≠ some policy.supplyIssued) .invalidInputs
  let spent ← set.spendInputs C inputs
  let next ← FungibleCoinCellSet.new (set.cells.replaced spent [])
  return (next, nextPolicy)

def applyBurn (burn : FungibleBurnV1) (policy : FungibleAssetPolicyV1)
    (approval : FungibleIssuerApprovalV1) (height : Nat) : MoneyM CellsAndPolicy :=
  set.destroy C .burn burn.assetId burn.inputs burn.amount policy approval height

def applyRedemption (redemption : FungibleRedemptionV1) (policy : FungibleAssetPolicyV1)
    (approval : FungibleIssuerApprovalV1) (height : Nat) : MoneyM CellsAndPolicy :=
  set.destroy C .redemption redemption.assetId redemption.inputs redemption.amount policy approval
    height

end FungibleCoinCellSet

/-! ## The ledger -/

/-- The cells of all assets and the policies of those that have one. -/
structure FungibleLedger where
  cells : FungibleCoinCellSet
  policies : SortedMap AssetId FungibleAssetPolicyV1
deriving DecidableEq

/-- One operation; `asset` says which of the ledger's policies it is called with. -/
inductive FungibleOperation
  | transfer (asset : AssetId) (intent : FungibleTransferV1)
      (holderState : FungibleHolderControlStateV1) (height : Nat)
  | mint (asset : AssetId) (intent : FungibleMintV1) (approval : FungibleIssuerApprovalV1)
      (height : Nat)
  | burn (asset : AssetId) (intent : FungibleBurnV1) (approval : FungibleIssuerApprovalV1)
      (height : Nat)
  | redemption (asset : AssetId) (intent : FungibleRedemptionV1)
      (approval : FungibleIssuerApprovalV1) (height : Nat)

namespace FungibleOperation

def assetId : FungibleOperation → AssetId
  | .transfer _ intent _ _ => intent.assetId
  | .mint _ intent _ _ => intent.assetId
  | .burn _ intent _ _ => intent.assetId
  | .redemption _ intent _ _ => intent.assetId

def policyId : FungibleOperation → AssetId
  | .transfer asset _ _ _ => asset
  | .mint asset _ _ _ => asset
  | .burn asset _ _ _ => asset
  | .redemption asset _ _ _ => asset

def call (C : Crypto) (cells : FungibleCoinCellSet) (policy : FungibleAssetPolicyV1) :
    FungibleOperation → MoneyM CellsAndPolicy
  | .transfer _ intent holderState height =>
    (cells.applyTransfer C intent policy holderState height).map fun next => (next, policy)
  | .mint _ intent approval height => cells.applyMint C intent policy approval height
  | .burn _ intent approval height => cells.applyBurn C intent policy approval height
  | .redemption _ intent approval height => cells.applyRedemption C intent policy approval height

variable (C : Crypto) (s : FungibleLedger) (op : FungibleOperation)

/-- The call on the ledger; without a policy there is nothing to call it with. -/
def apply : MoneyM FungibleLedger := do
  let policy ← okOr (s.policies.get? op.policyId) .invalidInputs
  let (cells, policy) ← op.call C s.cells policy
  return ⟨cells, s.policies.insert op.policyId policy⟩

/-- The ledger after a call; a rejected one leaves it. -/
def step : FungibleLedger := (op.apply C s).toOption.getD s

def run (ops : List FungibleOperation) : FungibleLedger := ops.foldl (step C) s

end FungibleOperation

open FungibleCoinCellSet

/-! ## What an operation does -/

section Effects

variable {C : Crypto} {set set' : FungibleCoinCellSet} {inputs : List FungibleCoinCell}
  {ids : List CoinCellId} {policy policy' : FungibleAssetPolicyV1}

/-- The records under which the set holds the inputs. -/
def recordsOf (C : Crypto) (inputs : List FungibleCoinCell) :
    List (CoinCellId × FungibleCoinCell) :=
  inputs.map fun cell => (coinCellId C cell.origin, cell)

theorem spendInputs_ok : ∀ {ids : List CoinCellId}, set.spendInputs C inputs = .ok ids →
    ids = (recordsOf C inputs).map Prod.fst ∧
      ∀ e ∈ recordsOf C inputs, set.cells.get? e.1 = some e.2 := by
  induction inputs with
  | nil =>
    intro ids h
    cases h
    exact ⟨rfl, by simp [recordsOf]⟩
  | cons cell inputs ih =>
    intro ids h
    simp only [spendInputs, inversion] at h
    obtain ⟨held, hget, rfl, spent, hs, rfl⟩ := h
    obtain ⟨rfl, hl⟩ := ih hs
    exact ⟨rfl, forall_mem_cons.2 ⟨hget, hl⟩⟩

theorem recordsOf_nodup (ho : inputs.Pairwise fun a b => a.origin.Before b.origin)
    (hl : ∀ e ∈ recordsOf C inputs, set.cells.get? e.1 = some e.2) :
    ((recordsOf C inputs).map Prod.fst).Nodup := by
  have hd : inputs.Nodup := ho.imp fun {a b} h heq => by
    subst heq
    simp [CoinCellOrigin.Before] at h
  have hh : ∀ cell ∈ inputs, set.cells.get? (coinCellId C cell.origin) = some cell :=
    fun cell hc => hl _ (mem_map_of_mem hc)
  rw [recordsOf, map_map]
  refine List.Nodup.map_on (fun a ha b hb heq => ?_) hd
  -- a set holds one cell under an identifier
  exact Option.some.inj ((hh a ha).symm.trans ((congrArg set.cells.get? heq).trans (hh b hb)))

variable {assetId : AssetId} {amount height : Nat}

theorem newOutput_ok {transition : TransactionId} {recipient : PrincipalId}
    {r : CoinCellId × FungibleCoinCell}
    (h : set.newOutput C transition assetId recipient amount height = .ok r) :
    r.1 = coinCellId C r.2.origin ∧ r.2.assetId = assetId ∧
      r.2.amount = amount := by
  simp only [newOutput, inversion] at h
  obtain ⟨output, hnew, -, rfl⟩ := h
  unfold FungibleCoinCell.new at hnew
  split_ifs at hnew
  cases hnew
  exact ⟨rfl, rfl, rfl⟩

theorem FungibleCoinCellSet.entries_of_new {records : List (CoinCellId × FungibleCoinCell)}
    (h : new records = .ok set) : set.cells.entries = records := by
  unfold new at h
  split_ifs at h
  cases h
  rfl

/-- **What an accepted operation does to the cells and the policy of its asset.** -/
structure Effect (C : Crypto) (assetId : AssetId) (set set' : FungibleCoinCellSet)
    (policy policy' : FungibleAssetPolicyV1) : Prop where
  cells : ∃ spent created, set.cells.Replaces set'.cells (spent.map Prod.fst) created ∧
    (spent.map Prod.fst).Nodup ∧ (∀ e ∈ spent, set.cells.get? e.1 = some e.2) ∧
    (∀ e ∈ spent ++ created, e.2.assetId = assetId) ∧
    (∀ e ∈ created, e.1 = coinCellId C e.2.origin) ∧
    policy'.supplyIssued + (spent.map fun e => e.2.amount).sum =
      policy.supplyIssued + (created.map fun e => e.2.amount).sum
  asset : policy.assetId = assetId
  asset' : policy'.assetId = assetId

theorem replaces_of_sorted {spent : List CoinCellId}
    {created : List (CoinCellId × FungibleCoinCell)}
    (h : new (sortEntries (set.cells.replaced spent created)) =
      .ok set') : set.cells.Replaces set'.cells spent created := by
  rw [Replaces, entries_of_new h]
  exact sortEntries_perm _

theorem recordsOf_amounts : ((recordsOf C inputs).map fun e => e.2.amount) =
    inputs.map FungibleCoinCell.amount := by
  rw [recordsOf, map_map]
  rfl

variable {owner : PrincipalId}

theorem ExactInputs.assets (h : ExactInputs assetId owner inputs amount) :
    ∀ e ∈ recordsOf C inputs, e.2.assetId = assetId := by
  intro e he
  obtain ⟨cell, hc, rfl⟩ := mem_map.1 he
  exact (h.owned cell hc).1

theorem applyTransfer_effect {transfer : FungibleTransferV1}
    {holderState : FungibleHolderControlStateV1}
    (h : set.applyTransfer C transfer policy holderState height = .ok set') :
    Effect C transfer.assetId set set' policy policy := by
  simp only [applyTransfer, FungibleTransferV1.validateAgainstPolicy,
    FungibleTransferV1.validateAgainstHolderControl, inversion] at h
  obtain ⟨⟨has, -, -⟩, -, spent, hs, output, hout, hnew⟩ := h
  obtain ⟨rfl, hl⟩ := spendInputs_ok hs
  obtain ⟨hn, hou, ho⟩ := newOutput_ok hout
  refine ⟨⟨recordsOf C transfer.inputs, [output], replaces_of_sorted hnew,
    recordsOf_nodup transfer.checked.ordered hl, hl, ?_, by simpa using hn, ?_⟩,
    has.symm, has.symm⟩
  · intro e he
    rcases mem_append.1 he with he | he
    · exact transfer.checked.assets e he
    · rw [mem_singleton.1 he, hou]
  · rw [recordsOf_amounts, transfer.checked.total]
    simp [ho]

variable {approval : FungibleIssuerApprovalV1}

theorem applyMint_effect {mint : FungibleMintV1}
    (h : set.applyMint C mint policy approval height = .ok (set', policy')) :
    Effect C mint.assetId set set' policy policy' := by
  simp only [applyMint, FungibleMintV1.validateAgainstPolicyAndApproval,
    FungibleAssetPolicyV1.applyApprovedMint, inversion, Prod.mk.injEq] at h
  obtain ⟨⟨hb, ⟨has, -⟩, -⟩, nextPolicy, ⟨-, hm⟩, -, output, hout, next, hnew, rfl, rfl⟩ := h
  obtain ⟨-, -, -, -, -, hcap, rfl⟩ := FungibleAssetPolicyV1.applyMint_eq_ok.1 hm
  obtain ⟨hn, hou, ho⟩ := newOutput_ok hout
  have ham : approval.amount = mint.amount := hb.2.2.2.2.1
  refine ⟨⟨[], [output], replaces_of_sorted hnew, nodup_nil, by simp, ?_, by simpa using hn,
    ?_⟩, has.symm, has.symm⟩
  · simpa using hou
  · simp [FungibleAssetPolicyV1.withSupply, ho, ham]

theorem destroy_effect {operation : FungibleIssuerOperation}
    (hc : ExactInputs assetId owner inputs amount)
    (h : set.destroy C operation assetId inputs amount policy approval height = .ok (set',
      policy')) : Effect C assetId set set' policy policy' := by
  simp only [destroy, validateDestruction,
    FungibleAssetPolicyV1.applyApprovedBurn, inversion, Prod.mk.injEq] at h
  obtain ⟨⟨-, has, -⟩, nextPolicy, ⟨-, hb⟩, ⟨hs, -⟩, spent, hsp, next, hnew, rfl, rfl⟩ := h
  obtain ⟨-, -, -, -, hcap, rfl⟩ := FungibleAssetPolicyV1.applyBurn_eq_ok.1 hb
  obtain ⟨rfl, hl⟩ := spendInputs_ok hsp
  refine ⟨⟨recordsOf C inputs, [], ?_, recordsOf_nodup hc.ordered hl, hl, ?_, by simp, ?_⟩,
    has.symm, has.symm⟩
  · rw [Replaces, entries_of_new hnew]
  · simpa using hc.assets
  · rw [recordsOf_amounts, hc.total]
    simpa using hs.symm

theorem call_effect {op : FungibleOperation} (h : op.call C set policy = .ok (set', policy')) :
    Effect C op.assetId set set' policy policy' := by
  cases op with
  | transfer asset i holderState height =>
    obtain ⟨next, hn, heq⟩ := map_eq_ok.1 h
    cases heq
    exact applyTransfer_effect hn
  | mint asset i approval height => exact applyMint_effect h
  | burn asset i approval height => exact destroy_effect i.checked h
  | redemption asset i approval height => exact destroy_effect i.checked h

end Effects

/-! ## Conservation -/

section

variable (set : FungibleCoinCellSet) (asset : AssetId)

def FungibleCoinCellSet.cellsOf : SortedMap CoinCellId FungibleCoinCell :=
  set.cells.retain fun _ cell => cell.assetId = asset

def FungibleCoinCell.valueIn (cell : FungibleCoinCell) : Nat :=
  if cell.assetId = asset then cell.amount else 0

def FungibleCoinCellSet.valueOf : Nat := set.cells.total (FungibleCoinCell.valueIn asset)

end

/-- The cells have their canonical identifiers and, asset by asset, add up to the issued supply. -/
structure FungibleLedger.Consistent (C : Crypto) (s : FungibleLedger) : Prop where
  named : ∀ id cell, s.cells.cells.get? id = some cell → id = coinCellId C cell.origin
  keyed : ∀ asset policy, s.policies.get? asset = some policy → policy.assetId = asset
  backed : ∀ asset policy, s.policies.get? asset = some policy →
    s.cells.valueOf asset = policy.supplyIssued

open FungibleOperation

section Conservation

variable {C : Crypto} {s s' : FungibleLedger} {set set' : FungibleCoinCellSet}
  {policy policy' : FungibleAssetPolicyV1} {assetId asset : AssetId}

theorem sum_valueIn {rs : List (CoinCellId × FungibleCoinCell)}
    (h : ∀ e ∈ rs, e.2.assetId = assetId) : (rs.map fun e => e.2.valueIn asset).sum =
      if asset = assetId then (rs.map fun e => e.2.amount).sum else 0 := by
  split_ifs with heq
  · refine congrArg List.sum (map_congr_left fun e he => ?_)
    rw [valueIn, if_pos ((h e he).trans heq.symm)]
  · refine sum_eq_zero fun v hv => ?_
    obtain ⟨e, he, rfl⟩ := mem_map.1 hv
    exact if_neg fun has => heq (has.symm.trans (h e he))

section

variable (h : Effect C assetId set set' policy policy')
include h

theorem Effect.valueOf :
    (set'.valueOf assetId + policy.supplyIssued = set.valueOf assetId + policy'.supplyIssued) ∧
      ∀ other, other ≠ assetId → set'.valueOf other = set.valueOf other := by
  obtain ⟨spent, created, hr, hn, hl, has, -, hsu⟩ := h.cells
  have hs := fun e he => has e (mem_append_left _ he)
  have hc := fun e he => has e (mem_append_right _ he)
  have ht := fun asset => hr.total_add hn hl (valueIn asset)
  simp only [sum_valueIn hs, sum_valueIn hc] at ht
  constructor
  · have := ht assetId
    rw [if_pos rfl, if_pos rfl] at this
    unfold FungibleCoinCellSet.valueOf
    omega
  · intro other ho
    have := ht other
    rw [if_neg ho, if_neg ho] at this
    exact this

theorem Effect.cellsOf {other : AssetId}
    (ho : other ≠ assetId) : set'.cellsOf other = set.cellsOf other := by
  obtain ⟨spent, created, hr, -, hl, hass, -, -⟩ := h.cells
  refine eq_of_get?_eq fun id => Option.ext fun cell => ?_
  rw [FungibleCoinCellSet.cellsOf, FungibleCoinCellSet.cellsOf, get?_retain_eq_some,
    get?_retain_eq_some, hr.get?_eq_some, decide_eq_true_eq]
  constructor
  · rintro ⟨hc | ⟨-, hget⟩, has⟩
    · exact absurd (has.symm.trans (hass _ (mem_append_right _ hc))) ho
    · exact ⟨hget, has⟩
  · rintro ⟨hget, has⟩
    refine ⟨.inr ⟨fun hs => ?_, hget⟩, has⟩
    obtain ⟨e, he, rfl⟩ := mem_map.1 hs
    have hce : e.2 = cell := Option.some.inj ((hl e he).symm.trans hget)
    exact ho (has.symm.trans (hce ▸ hass e (mem_append_left _ he)))

theorem Effect.named
    (hn : ∀ id cell, set.cells.get? id = some cell → id = coinCellId C cell.origin) :
    ∀ id cell, set'.cells.get? id = some cell → id = coinCellId C cell.origin := by
  obtain ⟨spent, created, hr, -, -, -, hc, -⟩ := h.cells
  intro id cell hget
  rcases hr.get?_eq_some.1 hget with hnew | ⟨-, hold⟩
  · exact hc _ hnew
  · exact hn id cell hold

end

variable {op : FungibleOperation}

theorem apply_ok (hinv : s.Consistent C) (h : op.apply C s = .ok s') :
    ∃ policy policy', s.policies.get? op.assetId = some policy ∧
      s'.policies = s.policies.insert op.assetId policy' ∧
      Effect C op.assetId s.cells s'.cells policy policy' := by
  simp only [apply, inversion] at h
  obtain ⟨policy, hp, ⟨cs, policy'⟩, hc, rfl⟩ := h
  have he := call_effect hc
  have hkey : op.policyId = op.assetId := (hinv.keyed _ _ hp).symm.trans he.asset
  exact ⟨policy, policy', hkey ▸ hp, congrArg (fun k => s.policies.insert k policy') hkey, he⟩

/-- **An accepted operation keeps the ledger consistent and the other assets as they are.** -/
theorem FungibleLedger.Consistent.of_apply (hinv : s.Consistent C) (h : op.apply C s = .ok s') :
    s'.Consistent C ∧ ∀ other, other ≠ op.assetId →
      s'.cells.cellsOf other = s.cells.cellsOf other ∧
      s'.policies.get? other = s.policies.get? other := by
  obtain ⟨policy, policy', hpo, hp, he⟩ := apply_ok hinv h
  obtain ⟨hv, hot⟩ := he.valueOf
  have hget : ∀ asset, s'.policies.get? asset =
      if asset = op.assetId then some policy' else s.policies.get? asset := by
    intro asset
    rw [hp, get?_insert]
  refine ⟨⟨he.named hinv.named, ?_, ?_⟩, fun other ho => ⟨he.cellsOf ho, ?_⟩⟩
  · intro asset found hf
    rw [hget] at hf
    split_ifs at hf with heq
    · cases hf
      rw [heq, he.asset']
    · exact hinv.keyed asset found hf
  · intro asset found hf
    rw [hget] at hf
    split_ifs at hf with heq
    · cases hf
      have hb := hinv.backed _ _ hpo
      rw [heq]
      omega
    · rw [hot asset heq]
      exact hinv.backed asset found hf
  · rw [hget, if_neg ho]

/-- **A run keeps the ledger consistent.** -/
theorem FungibleLedger.Consistent.run (hinv : s.Consistent C) (ops : List FungibleOperation) :
    (run C s ops).Consistent C := by
  induction ops generalizing s with
  | nil => exact hinv
  | cons op ops ih =>
    refine ih ?_
    unfold step
    cases hap : op.apply C s with
    | error e => exact hinv
    | ok s' => exact (hinv.of_apply hap).1

/-- **Fungible supply is conserved.**  From a consistent ledger, after every run the ledger is
consistent and every asset within its cap; the next operation, if it is accepted, keeps that and
leaves the cells and the policy of every other asset as they are, and if it is rejected changes
nothing. -/
theorem fungible_supply_conserved (hinv : s.Consistent C) (ops : List FungibleOperation)
    (op : FungibleOperation) : (FungibleOperation.run C s ops).Consistent C ∧
      (∀ asset policy, (FungibleOperation.run C s ops).policies.get? asset = some policy →
        policy.supplyIssued ≤ policy.supplyCap) ∧
      (∀ next, op.apply C (FungibleOperation.run C s ops) = .ok next →
        FungibleOperation.run C s (ops ++ [op]) = next ∧ next.Consistent C ∧
        ∀ other, other ≠ op.assetId →
          next.cells.cellsOf other = (FungibleOperation.run C s ops).cells.cellsOf other ∧
          next.policies.get? other = (FungibleOperation.run C s ops).policies.get? other) ∧
      ∀ e, op.apply C (FungibleOperation.run C s ops) = .error e →
        FungibleOperation.run C s (ops ++ [op]) = FungibleOperation.run C s ops := by
  have hrun := hinv.run ops
  have hl : run C s (ops ++ [op]) = step C (run C s ops) op := foldl_concat ..
  refine ⟨hrun, fun asset policy _ => policy.capChecked.2, fun next hap => ?_, fun e hap => ?_⟩
  · refine ⟨?_, hrun.of_apply hap⟩
    rw [hl, step, hap]
    rfl
  · rw [hl, step, hap]
    rfl

end Conservation

namespace FirstMint

open ReplayedMint

def ledger : FungibleLedger := ⟨⟨SortedMap.empty, by decide⟩, SortedMap.empty.insert 1 policy⟩

def intent (supplyBefore : Nat) (h : supplyBefore ≤ 900) : FungibleMintV1 where
  assetId := 1
  issuer := 2
  recipient := 9
  amount := 100
  supplyBefore := supplyBefore
  supplyCap := 1000
  amountChecked := by decide
  capChecked := by omega

def firstMint : FungibleOperation := .mint 1 (intent 0 (by decide)) (approvalFor policy .mint) 10

def secondMint : FungibleOperation := .mint 1 (intent 100 (by decide)) (approvalFor issued .mint) 11

theorem ledger_consistent : ledger.Consistent .transparent := by
  have hp : ∀ asset found, ledger.policies.get? asset = some found →
      asset = 1 ∧ found = policy := by
    intro asset found h
    rw [ledger, get?_insert] at h
    split_ifs at h with heq
    · exact ⟨heq, (Option.some.inj h).symm⟩
    · cases h
  refine ⟨fun id cell h => ?_, fun asset found h => ?_, fun asset found h => ?_⟩
  · cases h
  · obtain ⟨rfl, rfl⟩ := hp asset found h
    rfl
  · obtain ⟨rfl, rfl⟩ := hp asset found h
    rfl

theorem mints_keep_consistent : let l := FungibleOperation.run .transparent ledger [firstMint]
    ∃ next, secondMint.apply .transparent l = .ok next ∧ next.cells.cells.length = 2 ∧
      next.Consistent .transparent := by
  intro l
  have hmint : ∃ next ∈ (secondMint.apply .transparent l).toOption, next.cells.cells.length =
    2 := by
    decide +kernel
  obtain ⟨next, hnext, hlength⟩ := hmint
  have hok := mem_toOption.1 hnext
  have hconserved := (fungible_supply_conserved ledger_consistent [firstMint] secondMint).2.2.1
  exact ⟨next, hok, hlength, (hconserved next hok).2.1⟩

end FirstMint

end ActiveChain
