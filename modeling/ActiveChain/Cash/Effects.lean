import ActiveChain.Cash.Ledger

/-!
# What an operation does to the ledger

One lemma for each operation says what a successful run changes; everything about runs is derived
from these.

* `prepareTransfer_ok` and its fellows — the effect of each operation up to the final check.
-/

namespace ActiveChain

open Except List Option SortedMap Prod

namespace CashLedger

variable {C : Crypto} {l l' : CashLedger}

@[simp] theorem invalid_eq_ok {α : Type} {x : MoneyM α} {a : α} : invalid x = .ok a ↔ x = .ok a :=
  mapError_eq_ok

/-! ## The invariant -/

/-- What `verify_invariants` establishes. -/
structure Valid (C : Crypto) (l : CashLedger) : Prop where
  root : l.redeemedRewardRoot ≠ Digest384.zero
  named : ∀ id cell, l.cells.cells.get? id = some cell → coinCellId C cell.origin = id
  partition : l.cells.value + l.shielded.poolBalance + l.supply.securityReserveBalance +
    l.supply.lockedVestingSupply + l.supply.stakedSupply = l.supply.currentTotalSupply
  cap : ∃ cap, basisPointsAmount l.supply.issuanceWindowOpeningSupply
    l.definition.maximumOrdinaryAnnualIssuanceBps = .ok cap ∧ l.supply.issuanceInWindow ≤ cap

theorem verifyCells_eq_ok {r : Nat} : ∀ {rs : List CoinCellRecord} {total : Nat},
    verifyCells C rs total = .ok r →
      (∀ e ∈ rs, coinCellId C e.2.origin = e.1) ∧
        r = total + (rs.map fun e => e.2.amount).sum
  | [], total, h => by
    cases h
    exact ⟨by simp, by simp⟩
  | record :: rest, total, h => by
    simp only [verifyCells, inversion] at h
    obtain ⟨hn, sum, hsum, hr⟩ := h
    obtain ⟨hall, rfl⟩ := verifyCells_eq_ok hr
    refine ⟨forall_mem_cons.2 ⟨hn, hall⟩, ?_⟩
    rw [map_cons, sum_cons]
    omega

theorem verifyCells_of_named : ∀ {rs : List CoinCellRecord} {total : Nat},
    (∀ e ∈ rs, coinCellId C e.2.origin = e.1) →
      total + (rs.map fun e => e.2.amount).sum < 2 ^ 128 →
      verifyCells C rs total = .ok (total + (rs.map fun e => e.2.amount).sum)
  | [], total, _, _ => rfl
  | record :: rest, total, hall, hf => by
    obtain ⟨hn, hr⟩ := forall_mem_cons.1 hall
    rw [map_cons, sum_cons] at hf
    have hsum : checkedAdd 128 total record.2.amount = some (total + record.2.amount) :=
      checkedAdd_eq_some.2 ⟨rfl, by omega⟩
    rw [verifyCells, rejectIf_of_not (not_not.2 hn), ok_bind, hsum]
    rw [map_cons, sum_cons, ← Nat.add_assoc]
    exact verifyCells_of_named hr (by omega)

theorem Valid.of_verifyInvariants (h : l.verifyInvariants C = .ok ()) : l.Valid C := by
  simp only [verifyInvariants, inversion, bind_eq_some_iff, invalid_eq_ok] at h
  obtain ⟨hr, cellTotal, hc, accounted, hsum, ht, cap, hcap, hle⟩ := h
  obtain ⟨_, ⟨rfl, -⟩, _, ⟨rfl, -⟩, _, ⟨rfl, -⟩, rfl, -⟩ := hsum
  obtain ⟨hn, rfl⟩ := verifyCells_eq_ok hc
  refine ⟨hr, fun id cell hget => hn (id, cell) (mem_entries.2 hget), ?_, cap, hcap,
    Nat.le_of_not_lt hle⟩
  rw [← ht, Nat.zero_add]
  rfl

theorem Valid.verifyInvariants (h : l.Valid C) : l.verifyInvariants C = .ok () := by
  have hs := l.supply.consistent
  have heq := hs.equation
  have hf := hs.fits
  have hp := h.partition
  obtain ⟨cap, hcap, hle⟩ := h.cap
  have hv : l.cells.value < 2 ^ 128 := by omega
  have hc : verifyCells C l.cells.cells.entries 0 = .ok (0 + l.cells.value) :=
    verifyCells_of_named (fun e he => h.named e.1 e.2 (mem_entries.1 he))
      (by rw [Nat.zero_add]; exact hv)
  rw [Nat.zero_add] at hc
  simp only [CashLedger.verifyInvariants, inversion, bind_eq_some_iff, invalid_eq_ok]
  exact ⟨h.root, _, hc, _, ⟨_, ⟨rfl, by omega⟩, _, ⟨rfl, by omega⟩, _, ⟨rfl, by omega⟩, rfl,
    by omega⟩, hp, cap, hcap, Nat.not_lt_of_le hle⟩

/-! ## Cells spent and created -/

def valueOf (records : List CoinCellRecord) : Nat := (records.map fun e => e.2.amount).sum

@[simp] theorem valueOf_nil : valueOf [] = 0 := rfl

@[simp] theorem valueOf_cons (e : CoinCellRecord) (es : List CoinCellRecord) :
    valueOf (e :: es) = e.2.amount + valueOf es :=
  sum_cons

@[simp] theorem valueOf_append (es fs : List CoinCellRecord) :
    valueOf (es ++ fs) = valueOf es + valueOf fs := by
  simp [valueOf]

/-- The records are live cells of `l`, in the order of `ids`. -/
structure Gathered (l : CashLedger) (ids : List CoinCellId) (records : List CoinCellRecord) :
    Prop where
  ids_eq : records.map Prod.fst = ids
  live : ∀ e ∈ records, l.cells.cells.get? e.1 = some e.2

variable {records' rs : List CoinCellRecord}

theorem Gathered.append {ids ids' : List CoinCellId} (h : l.Gathered ids rs)
    (h' : l.Gathered ids' records') : l.Gathered (ids ++ ids') (rs ++ records') :=
  ⟨by rw [map_append, h.ids_eq, h'.ids_eq],
    fun e he => (mem_append.1 he).elim (h.live e) (h'.live e)⟩

variable {height : Nat} {settlement : EpochEconomicsTransition} {transitionId : TransactionId}
  {owner : PrincipalId} {cells : CoinCellSet} {t : CoinTransfer} {proof : VerifiedPrivacyProof}
  {spent created : List CoinCellRecord} {u : PUnit} {r : CoinCellRecord} {mint : CoinMintTransition}
  {id : CoinCellId}

theorem ownedRecord_eq_ok :
    l.ownedRecord owner id = .ok r ↔
      r.1 = id ∧ l.cells.cells.get? id = some r.2 ∧ r.2.owner = owner := by
  simp only [ownedRecord, find, inversion, map_eq_some_iff]
  constructor
  · rintro ⟨_, ⟨cell, hc, rfl⟩, ho, rfl⟩
    exact ⟨rfl, hc, ho⟩
  · rintro ⟨rfl, hc, ho⟩
    exact ⟨r, ⟨r.2, hc, rfl⟩, ho, rfl⟩

theorem gathered_of_ownedRecord (h : l.ownedRecord owner id = .ok r) : l.Gathered [id] [r] := by
  obtain ⟨rfl, hl, -⟩ := ownedRecord_eq_ok.1 h
  exact ⟨rfl, by simpa using hl⟩

theorem gatherInputs_ok {total' : Nat} :
    ∀ {ids done : List CoinCellId} {total : Nat} {rs : List CoinCellRecord},
      l.Gathered done rs → total = valueOf rs →
      l.gatherInputs owner ids total rs = .ok (total', records') →
      l.Gathered (done ++ ids) records' ∧ total' = valueOf records'
  | [], done, total, rs, hd, ht, h => by
    cases h
    rw [append_nil]
    exact ⟨hd, ht⟩
  | id :: ids, done, total, rs, hd, ht, h => by
    simp only [gatherInputs, inversion] at h
    obtain ⟨r, hr, sum, hsum, hre⟩ := h
    have hn := hd.append (gathered_of_ownedRecord hr)
    have := gatherInputs_ok hn (by simp; omega) hre
    simpa using this

variable {reserve : CoinCellId} {inputs : List CoinCellId}

theorem gatherWithReserve_ok {total : Nat} {records : List CoinCellRecord}
    (h : l.gatherWithReserve owner inputs reserve = .ok (total, records)) :
    l.Gathered (inputs ++ [reserve]) records ∧ total = valueOf records := by
  simp only [gatherWithReserve, inversion] at h
  obtain ⟨⟨inputTotal, inputRecords⟩, hi, r, hr, sum, hsum, rfl, rfl⟩ := h
  have hnil : l.Gathered [] [] := ⟨rfl, by simp⟩
  obtain ⟨hg, ht⟩ := gatherInputs_ok hnil rfl hi
  refine ⟨hg.append (gathered_of_ownedRecord hr), ?_⟩
  simp only [valueOf_append, valueOf_cons, valueOf_nil]
  omega

def NamedAfter (C : Crypto) (transitionId : TransactionId) (records : List CoinCellRecord) : Prop :=
  ∀ e ∈ records, e.2.origin.transitionId = transitionId ∧ e.1 = coinCellId C e.2.origin

variable {amount height i : Nat}

theorem newRecord_ok (h : newRecord C transitionId i owner amount height = .ok r) :
    r.2.origin = ⟨transitionId, i⟩ ∧ r.2.amount = amount ∧ r.1 = coinCellId C r.2.origin := by
  simp only [newRecord, inversion, invalid_eq_ok, CoinCell.new_eq_ok] at h
  obtain ⟨cell, ⟨ho, -, ham, -⟩, rfl⟩ := h
  exact ⟨ho, ham, rfl⟩

theorem changeRecords_ok {change : Nat}
    (h : changeRecords C transitionId i owner change height = .ok rs) :
    NamedAfter C transitionId rs ∧ valueOf rs = change ∧ rs.length ≤ 1 := by
  unfold changeRecords at h
  split at h
  · simp only [inversion] at h
    obtain ⟨r, hr, rfl⟩ := h
    obtain ⟨ho, ham, hid⟩ := newRecord_ok hr
    refine ⟨?_, by simpa using ham, Nat.le_refl 1⟩
    simp only [NamedAfter, mem_singleton, forall_eq]
    exact ⟨by rw [ho], hid⟩
  · cases h
    exact ⟨by simp [NamedAfter], by simp; omega, Nat.zero_le 1⟩

/-- The change of the cells from `l` to `cells`. -/
structure CellChange (C : Crypto) (l : CashLedger) (cells : CoinCellSet)
    (transitionId : TransactionId) (spent created : List CoinCellRecord) : Prop where
  live : ∀ e ∈ spent, l.cells.cells.get? e.1 = some e.2
  distinct : (spent.map Prod.fst).Nodup
  replaces : l.cells.cells.Replaces cells.cells (spent.map Prod.fst) created
  named : NamedAfter C transitionId created

theorem replaces_of_rebuildCells (h : l.rebuildCells spent created = .ok cells) :
    l.cells.cells.Replaces cells.cells (spent.map fst) created := by
  simp only [rebuildCells, invalid_eq_ok, CoinCellSet.new_eq_ok] at h
  unfold Replaces
  rw [h]
  exact sortEntries_perm _

/-- **What was spent and what was created account for the change of the cells' value.** -/
theorem CellChange.value_add (h : CellChange C l cells transitionId spent created) :
    cells.value + valueOf spent = l.cells.value + valueOf created :=
  h.replaces.total_add h.distinct h.live CoinCell.amount

theorem nodup_inputs_reserve (ho : inputs.Pairwise (· < ·)) (hap : reserve ∉ inputs) :
    (inputs ++ [reserve]).Nodup := by
  refine nodup_append.2 ⟨ho.imp fun h => Nat.ne_of_lt h, by simp, ?_⟩
  rintro a ha b hb rfl
  exact hap (mem_singleton.1 hb ▸ ha)

/-! ## Supply -/

def FeeMoved (s s' : NativeSupply) (fee : Nat) : Prop :=
  fee ≤ s.circulatingSupply ∧ s'.toNativeSupplyFields = { s.toNativeSupplyFields with
    circulatingSupply := s.circulatingSupply - fee
    securityReserveBalance := s.securityReserveBalance + fee }

variable {fee : Nat} {s s' : NativeSupply}

theorem supplyAfterFee_ok (h : supplyAfterFee s fee = .ok s') : FeeMoved s s' fee := by
  simp only [supplyAfterFee, inversion, invalid_eq_ok, NativeSupply.new_eq_ok] at h
  obtain ⟨_, ⟨rfl, hle⟩, _, ⟨rfl, -⟩, hf⟩ := h
  exact ⟨hle, hf⟩

theorem moveFeeToReserve_ok (h : (moveFeeToReserve fee).exec l = (.ok u, l')) :
    ∃ supply, FeeMoved l.supply supply fee ∧ l' = { l with supply := supply } := by
  simp only [moveFeeToReserve, assignSupply, Update.inversion, existsAndEq] at h
  obtain ⟨supply, hs, rfl⟩ := h
  exact ⟨supply, supplyAfterFee_ok hs, rfl⟩

/-! ## Transfers -/

/-- The records that a transfer takes out and puts in, before the cells are rebuilt. -/
def transferParts (C : Crypto) (l : CashLedger) (t : CoinTransfer) (height : Nat) :
    CashM (List CoinCellRecord × List CoinCellRecord) := do
  rejectIf (t.validUntil < height) (.invalid .expired)
  let (total, records) ← l.gatherWithReserve t.sender t.inputs t.feeReserve
  let required ← okOr (checkedAdd 128 t.amount t.fee) (.invalid .amountOverflow)
  rejectIf (total < required) (.invalid .insufficientValue)
  let recipient ← newRecord C (cashTransitionId C t) 0 t.recipient t.amount height
  let change ← changeRecords C (cashTransitionId C t) 1 t.sender (total - required) height
  return (records, recipient :: change)

theorem transferCells_eq (t : CoinTransfer) (height : Nat) :
    l.transferCells C t height =
      l.transferParts C t height >>= fun parts => l.rebuildCells parts.1 parts.2 := by
  simp [transferCells, transferParts]

theorem transferParts_ok (h : l.transferParts C t height = .ok (spent, created)) :
    l.Gathered (t.inputs ++ [t.feeReserve]) spent ∧ NamedAfter C (cashTransitionId C t) created ∧
      created.length ≤ 2 ∧ valueOf created + t.fee = valueOf spent := by
  simp only [transferParts, inversion] at h
  obtain ⟨-, ⟨total, rs⟩, hga, _, ⟨rfl, -⟩, he, recipient, hr, change, hc, rfl, rfl⟩ := h
  obtain ⟨hg, rfl⟩ := gatherWithReserve_ok hga
  obtain ⟨ho, ham, hid⟩ := newRecord_ok hr
  obtain ⟨hn, hv, hl⟩ := changeRecords_ok hc
  refine ⟨hg, forall_mem_cons.2 ⟨⟨by rw [ho], hid⟩, hn⟩, ?_, ?_⟩
  · rw [length_cons]
    omega
  · dsimp only at he hv ⊢
    rw [valueOf_cons]
    omega

theorem transferCells_ok (h : l.transferCells C t height = .ok cells) :
    ∃ spent created, CellChange C l cells (cashTransitionId C t) spent created ∧
      spent.map fst = t.inputs ++ [t.feeReserve] ∧
      valueOf created + t.fee = valueOf spent := by
  rw [transferCells_eq, bind_eq_ok] at h
  obtain ⟨⟨spent, created⟩, hp, hc⟩ := h
  obtain ⟨hg, hn, -, hv⟩ := transferParts_ok hp
  refine ⟨spent, created, ⟨hg.live, ?_, replaces_of_rebuildCells hc, hn⟩, hg.ids_eq, hv⟩
  rw [hg.ids_eq]
  exact nodup_inputs_reserve t.ordered t.reserveApart

variable {sponsor : PrincipalId}

theorem sponsoredCells_ok (h : l.sponsoredCells C sponsor t transitionId height = .ok cells) :
    ∃ spent created, CellChange C l cells transitionId spent created ∧
      spent.map fst = t.inputs ++ [t.feeReserve] ∧
      valueOf created + t.fee = valueOf spent := by
  simp only [sponsoredCells, inversion] at h
  obtain ⟨-, ⟨total, rs⟩, hga, hi, reserve, hre, hfee, recipient, hr,
    senderChange, hse, sponsorChange, hs, hc⟩ := h
  have hnil : l.Gathered [] [] := ⟨rfl, by simp⟩
  obtain ⟨hg, rfl⟩ := gatherInputs_ok hnil rfl hga
  have hall := hg.append (gathered_of_ownedRecord hre)
  obtain ⟨ho, ham, hid⟩ := newRecord_ok hr
  obtain ⟨hn, hv, -⟩ := changeRecords_ok hse
  obtain ⟨hn', hv', -⟩ := changeRecords_ok hs
  refine ⟨rs ++ [reserve], recipient :: senderChange ++ sponsorChange,
    ⟨hall.live, ?_, replaces_of_rebuildCells hc, ?_⟩, hall.ids_eq, ?_⟩
  · rw [hall.ids_eq]
    exact nodup_inputs_reserve t.ordered t.reserveApart
  · intro e he
    rcases mem_append.1 he with he | he
    · rcases mem_cons.1 he with rfl | he
      · exact ⟨by rw [ho], hid⟩
      · exact hn e he
    · exact hn' e he
  · simp only [valueOf_append, valueOf_cons, valueOf_nil]
    omega

/-- A transfer, sponsored or not: the sender's inputs and the fee reserve become new cells named
after it, less the fee. -/
def TransferEffect (C : Crypto) (l l' : CashLedger) (t : CoinTransfer) : Prop :=
  ∃ spent created, CellChange C l l'.cells (cashTransitionId C t) spent created ∧
    spent.map Prod.fst = t.inputs ++ [t.feeReserve] ∧
    valueOf created + t.fee = valueOf spent ∧
    ∃ supply, FeeMoved l.supply supply t.fee ∧ l' = { l with cells := l'.cells, supply := supply }

theorem prepareTransfer_ok (h : (prepareTransfer C t height).exec l = (.ok u, l')) :
    TransferEffect C l l' t := by
  simp only [prepareTransfer, assignCells, Update.inversion, existsAndEq] at h
  obtain ⟨cs, hce, hfee⟩ := h
  obtain ⟨supply, hm, rfl⟩ := moveFeeToReserve_ok hfee
  obtain ⟨spent, created, hc, hids, hv⟩ := transferCells_ok hce
  exact ⟨spent, created, hc, hids, hv, supply, hm, rfl⟩

theorem prepareSponsored_ok
    (h : (prepareSponsored C sponsor t (cashTransitionId C t) height).exec l = (.ok u, l')) :
    TransferEffect C l l' t := by
  simp only [prepareSponsored, assignCells, Update.inversion, existsAndEq] at h
  obtain ⟨cs, hce, hfee⟩ := h
  obtain ⟨supply, hm, rfl⟩ := moveFeeToReserve_ok hfee
  obtain ⟨spent, created, hc, hids, hv⟩ := sponsoredCells_ok hce
  exact ⟨spent, created, hc, hids, hv, supply, hm, rfl⟩

/-! ## Burning -/

variable {b : CoinBurnTransition}

theorem burnCells_ok (h : l.burnCells C b height = .ok cells) :
    ∃ spent created, CellChange C l cells (cashTransitionId C b) spent created ∧
      spent.map fst = b.inputs ∧ valueOf created + b.amount = valueOf spent := by
  simp only [burnCells, inversion] at h
  obtain ⟨-, ⟨total, spent⟩, hga, he, change, hc, hce⟩ := h
  have hnil : l.Gathered [] [] := ⟨rfl, by simp⟩
  obtain ⟨hg, rfl⟩ := gatherInputs_ok hnil rfl hga
  obtain ⟨hn, hv, -⟩ := changeRecords_ok hc
  refine ⟨spent, change, ⟨hg.live, ?_, replaces_of_rebuildCells hce, hn⟩, hg.ids_eq, by omega⟩
  rw [hg.ids_eq]
  exact b.ordered.imp fun h => Nat.ne_of_lt h

/-- An amount has left the circulating and the total supply for good. -/
def Burned (s s' : NativeSupply) (amount : Nat) : Prop :=
  amount ≤ s.circulatingSupply ∧ s'.toNativeSupplyFields = { s.toNativeSupplyFields with
    cumulativeBurn := s.cumulativeBurn + amount
    currentTotalSupply := s.currentTotalSupply - amount
    circulatingSupply := s.circulatingSupply - amount }

theorem supplyAfterBurn_ok (h : supplyAfterBurn s amount = .ok s') : Burned s s' amount := by
  simp only [supplyAfterBurn, inversion, invalid_eq_ok, NativeSupply.new_eq_ok] at h
  obtain ⟨_, ⟨rfl, -⟩, _, ⟨rfl, -⟩, _, ⟨rfl, hle⟩, hf⟩ := h
  exact ⟨hle, hf⟩

/-- A burn: the inputs become at most one new cell, less the burned amount. -/
def BurnEffect (C : Crypto) (l l' : CashLedger) (b : CoinBurnTransition) : Prop :=
  ∃ spent created, CellChange C l l'.cells (cashTransitionId C b) spent created ∧
    spent.map Prod.fst = b.inputs ∧ valueOf created + b.amount = valueOf spent ∧
    ∃ supply, Burned l.supply supply b.amount ∧ l' = { l with cells := l'.cells, supply := supply }

theorem prepareBurn_ok (h : (prepareBurn C b height).exec l = (.ok u, l')) :
    BurnEffect C l l' b := by
  simp only [prepareBurn, assignCells, assignSupply, Update.inversion, existsAndEq] at h
  obtain ⟨cs, hce, supply, hs, rfl⟩ := h
  obtain ⟨spent, created, hc, hids, hv⟩ := burnCells_ok hce
  exact ⟨spent, created, hc, hids, hv, supply, supplyAfterBurn_ok hs, rfl⟩

/-! ## The shielded pool -/

theorem shieldCells_ok {i : ShieldIntent} {proofCommitment : Digest384}
    (h : l.shieldCells C i proof height = .ok (cells, proofCommitment)) :
    ∃ spent created, CellChange C l cells (cashTransitionId C i) spent created ∧
      spent.map fst = i.inputs ++ [i.feeReserve] ∧
      valueOf created + i.amount + i.fee = valueOf spent := by
  simp only [shieldCells, inversion] at h
  obtain ⟨-, _, -, ⟨total, spent⟩, hga, _, ⟨rfl, -⟩, he, change, hc, _, hce, rfl, -⟩ := h
  obtain ⟨hg, rfl⟩ := gatherWithReserve_ok hga
  obtain ⟨hn, hv, -⟩ := changeRecords_ok hc
  refine ⟨spent, change, ⟨hg.live, ?_, replaces_of_rebuildCells hce, hn⟩, hg.ids_eq, by omega⟩
  rw [hg.ids_eq]
  exact nodup_inputs_reserve i.ordered.1 i.reserveApart

/-- A shield: inputs and fee reserve become at most one new cell, less the fee and the shielded
amount, which is in the pool afterwards. -/
def ShieldEffect (C : Crypto) (l l' : CashLedger) (intent : ShieldIntent) : Prop :=
  ∃ spent created, CellChange C l l'.cells (cashTransitionId C intent) spent created ∧
    spent.map Prod.fst = intent.inputs ++ [intent.feeReserve] ∧
    valueOf created + intent.amount + intent.fee = valueOf spent ∧
    l'.shielded.poolBalance = l.shielded.poolBalance + intent.amount ∧
    l'.shielded.nullifiers = l.shielded.nullifiers ∧
    ∃ supply, FeeMoved l.supply supply intent.fee ∧
      l' = { l with cells := l'.cells, supply := supply, shielded := l'.shielded }

theorem prepareShield_ok {intent : ShieldIntent}
    (h : (prepareShield C intent proof height).exec l = (.ok u, l')) :
    ShieldEffect C l l' intent := by
  simp only [prepareShield, assignCells, assignShielded, Update.inversion, existsAndEq,
    mapError_eq_ok] at h
  obtain ⟨⟨cs, anchor⟩, hce, shielded, hc, hfee⟩ := h
  obtain ⟨supply, hm, rfl⟩ := moveFeeToReserve_ok hfee
  obtain ⟨spent, created, hch, hids, hv⟩ := shieldCells_ok hce
  simp only [ShieldedCashState.credit, inversion] at hc
  obtain ⟨-, _, ⟨hp, -⟩, rfl⟩ := hc
  exact ⟨spent, created, hch, hids, hv, hp, rfl, supply, hm, rfl⟩

theorem insertNewCell_ok (hn : NamedAfter C transitionId [r]) (h : l.insertNewCell r = .ok cells) :
    CellChange C l cells transitionId [] [r] := by
  simp only [insertNewCell, inversion] at h
  exact ⟨by simp, by simp, replaces_of_rebuildCells h.2, hn⟩

theorem namedAfter_newRecord (h : newRecord C transitionId i owner amount height = .ok r) :
    NamedAfter C transitionId [r] ∧ valueOf [r] = amount := by
  obtain ⟨ho, ham, hid⟩ := newRecord_ok h
  refine ⟨?_, by simpa using ham⟩
  simp only [NamedAfter, mem_singleton, forall_eq]
  exact ⟨by rw [ho], hid⟩

theorem unshieldPool_ok {i : UnshieldIntent} {shielded : ShieldedCashState}
    (h : l.unshieldPool C i proof height = .ok shielded) :
    shielded.poolBalance + i.amount + i.fee = l.shielded.poolBalance ∧
      l.shielded.nullifiers.consumeVerified C i.nullifiers i.nullifierWitnesses =
        .ok shielded.nullifiers := by
  simp only [unshieldPool, inversion] at h
  obtain ⟨-, -, _, -, _, ⟨rfl, -⟩, hd⟩ := h
  simp only [ShieldedCashState.debit, inversion] at hd
  obtain ⟨⟨-, hle, -⟩, _, hn, rfl⟩ := hd
  exact ⟨by dsimp only; omega, hn⟩

/-- An unshield: one new cell, paid from the pool together with the fee, against fresh
nullifiers. -/
def UnshieldEffect (C : Crypto) (l l' : CashLedger) (intent : UnshieldIntent) : Prop :=
  ∃ record, CellChange C l l'.cells (cashTransitionId C intent) [] [record] ∧
    valueOf [record] = intent.amount ∧
    l'.shielded.poolBalance + intent.amount + intent.fee = l.shielded.poolBalance ∧
    l.shielded.nullifiers.consumeVerified C intent.nullifiers intent.nullifierWitnesses =
      .ok l'.shielded.nullifiers ∧
    ∃ supply, FeeMoved l.supply supply intent.fee ∧
      l' = { l with cells := l'.cells, supply := supply, shielded := l'.shielded }

theorem prepareUnshield_ok {intent : UnshieldIntent}
    (h : (prepareUnshield C intent proof height).exec l = (.ok id, l')) :
    UnshieldEffect C l l' intent := by
  simp only [prepareUnshield, assignCells, assignShielded, Update.inversion, existsAndEq] at h
  obtain ⟨shielded, hp, r, hr, cs, hc, _, hfee, -⟩ := h
  obtain ⟨supply, hm, rfl⟩ := moveFeeToReserve_ok hfee
  obtain ⟨hna, hv⟩ := namedAfter_newRecord hr
  obtain ⟨hb, hn⟩ := unshieldPool_ok hp
  exact ⟨r, insertNewCell_ok hna hc, hv, hb, hn, supply, hm, rfl⟩

/-! ## Settling epochs -/

def nextWindow (s : NativeSupply) : Nat := s.lastSettledEpoch / issuanceEpochsPerYear

/-- The next epoch is settled with `amount` newly issued, within the cap of its window. -/
def Settled (definition : NativeAssetDefinition) (s s' : NativeSupply) (amount : Nat) : Prop :=
  s'.toNativeSupplyFields = { s.toNativeSupplyFields with
    cumulativeSecurityIssuance := s.cumulativeSecurityIssuance + amount
    currentTotalSupply := s.currentTotalSupply + amount
    circulatingSupply := s.circulatingSupply + amount
    lastSettledEpoch := s.lastSettledEpoch + 1
    issuanceWindow := nextWindow s
    issuanceWindowOpeningSupply := (windowBefore s (nextWindow s)).1
    issuanceInWindow := (windowBefore s (nextWindow s)).2 + amount } ∧
  ∃ cap, basisPointsAmount (windowBefore s (nextWindow s)).1
      definition.maximumOrdinaryAnnualIssuanceBps = .ok cap ∧
    (windowBefore s (nextWindow s)).2 + amount ≤ cap

theorem remainingCap_ok {definition : NativeAssetDefinition} {window : Nat × Nat} {remaining : Nat}
    (h : remainingCap definition window = .ok remaining) :
    ∃ cap, basisPointsAmount window.1 definition.maximumOrdinaryAnnualIssuanceBps = .ok cap ∧
      window.2 + remaining = cap := by
  simp only [remainingCap, inversion, invalid_eq_ok] at h
  obtain ⟨cap, hcap, rfl, hle⟩ := h
  exact ⟨cap, hcap, by omega⟩

variable {window : Nat} {before : Nat × Nat}

theorem mintChecks_ok (h : l.mintChecks mint settlement = .ok (window, before)) :
    mint.sequence = l.supply.lastSettledEpoch + 1 ∧
      settlement.postSupply = l.supply.currentTotalSupply + mint.amount ∧
      window = nextWindow l.supply ∧ before = windowBefore l.supply window ∧
      ∃ cap, basisPointsAmount before.1 l.definition.maximumOrdinaryAnnualIssuanceBps = .ok cap ∧
        before.2 + mint.amount ≤ cap := by
  simp only [mintChecks, inversion, invalid_eq_ok, issuanceWindowIndex_eq_ok] at h
  obtain ⟨-, -, _, ⟨rfl, -⟩, hs, _, -, ⟨hpre, hb, hi, -⟩, _, -, -, _, ⟨-, rfl⟩,
    remaining, hr, ⟨-, hle⟩, -, rfl, rfl⟩ := h
  obtain ⟨cap, hcap, hsum⟩ := remainingCap_ok hr
  obtain ⟨hp, -⟩ := computePostSupply_eq_some.1 settlement.equation
  refine ⟨hs, by omega, ?_, rfl, cap, hcap, by omega⟩
  rw [nextWindow, hs, Nat.add_sub_cancel]

variable {supply : NativeSupply}

theorem supplyAfterMint_ok (hc : l.mintChecks mint settlement = .ok (window, before))
    (h : supplyAfterMint l.supply mint settlement.postSupply window before = .ok supply) :
    Settled l.definition l.supply supply mint.amount := by
  simp only [supplyAfterMint, inversion, invalid_eq_ok, NativeSupply.new_eq_ok] at h
  obtain ⟨_, ⟨rfl, -⟩, _, ⟨rfl, -⟩, _, ⟨rfl, -⟩, hf⟩ := h
  obtain ⟨hs, hp, rfl, rfl, hcap⟩ := mintChecks_ok hc
  rw [hs, hp] at hf
  exact ⟨hf, hcap⟩

/-- A mint: one new cell, and the next epoch settled. -/
def MintEffect (C : Crypto) (l l' : CashLedger) (mint : CoinMintTransition) : Prop :=
  mint.sequence = l.supply.lastSettledEpoch + 1 ∧
    ∃ record, CellChange C l l'.cells (cashTransitionId C mint) [] [record] ∧
      valueOf [record] = mint.amount ∧
      ∃ supply, Settled l.definition l.supply supply mint.amount ∧
        l' = { l with cells := l'.cells, supply := supply }

theorem prepareMint_ok (h : (prepareMint C mint settlement).exec l = (.ok id, l')) :
    MintEffect C l l' mint := by
  simp only [prepareMint, assignCells, assignSupply, Update.inversion, existsAndEq] at h
  obtain ⟨⟨window, before⟩, hc, r, hr, cs, hce, supply, hs, -, rfl⟩ := h
  obtain ⟨hn, hv⟩ := namedAfter_newRecord hr
  exact ⟨(mintChecks_ok hc).1, r, insertNewCell_ok hn hce, hv, supply,
    supplyAfterMint_ok hc hs, rfl⟩

theorem supplyAfterSettlement_ok (h : l.supplyAfterSettlement settlement = .ok supply) :
    settlement.epoch = l.supply.lastSettledEpoch + 1 ∧ Settled l.definition l.supply supply 0 := by
  simp only [supplyAfterSettlement, inversion, invalid_eq_ok,
    issuanceWindowIndex_eq_ok, NativeSupply.new_eq_ok] at h
  obtain ⟨_, ⟨rfl, -⟩, he, _, -, _, -, -, _, ⟨-, rfl⟩, remaining, hr, -, hf⟩ := h
  obtain ⟨cap, hcap, hsum⟩ := remainingCap_ok hr
  have hw : (settlement.epoch - 1) / issuanceEpochsPerYear = nextWindow l.supply := by
    rw [nextWindow, he, Nat.add_sub_cancel]
  rw [hw] at hf hcap hsum
  rw [he] at hf
  exact ⟨he, hf, cap, hcap, by omega⟩

theorem prepareSettlement_ok (h : (prepareSettlement settlement).exec l = (.ok u, l')) :
    settlement.epoch = l.supply.lastSettledEpoch + 1 ∧
      ∃ supply, Settled l.definition l.supply supply 0 ∧ l' = { l with supply := supply } := by
  simp only [prepareSettlement, assignSupply, Update.inversion, existsAndEq] at h
  obtain ⟨supply, hsu, rfl⟩ := h
  obtain ⟨he, hs⟩ := supplyAfterSettlement_ok hsu
  exact ⟨he, supply, hs, rfl⟩

/-! ## Rewards -/

theorem verifySelf_ok {u : Unit} (h : (verifySelf C).exec l = (.ok u, l')) :
    l' = l ∧ l.Valid C := by
  simp only [verifySelf, Update.inversion, existsAndEq] at h
  obtain ⟨hv, rfl⟩ := h
  exact ⟨rfl, .of_verifyInvariants hv⟩

theorem applyTransferInner_ok {u : Unit}
    (h : (applyTransferInner C t height).exec l = (.ok u, l')) :
    TransferEffect C l l' t ∧ l'.Valid C := by
  obtain ⟨_, _, hp, hv⟩ := Update.exec_bind_eq_ok.1 h
  obtain ⟨rfl, hva⟩ := verifySelf_ok hv
  exact ⟨prepareTransfer_ok hp, hva⟩

/-- A redemption: a payment from the reward pool, after which the assignment counts as redeemed. -/
def RedeemEffect (C : Crypto) (l l' : CashLedger) (assignment : AccumulatorKey) : Prop :=
  ∃ (t : CoinTransfer) (paid : CashLedger) (witness : NonMembershipWitness) (next : SetCommitment),
    TransferEffect C l paid t ∧ paid.Valid C ∧
    l.redeemedRewards.insert C assignment witness = .ok next ∧
    l' = { paid with redeemedRewardRoot := next.root, redeemedRewardCount := next.count }

theorem prepareRedeem_ok {settlement : RewardSettlement} {r : RewardRedemption}
    (h : (prepareRedeem C settlement r).exec l = (.ok u, l')) :
    RedeemEffect C l l' settlement.assignment ∧
    ∃ t paid, CoinTransfer.new r.poolOwner settlement.verifier [r.poolCell] r.feeReserve
        settlement.reward 0 r.height = .ok t ∧ TransferEffect C l paid t ∧
      l' = { paid with redeemedRewardRoot := l'.redeemedRewardRoot
                       redeemedRewardCount := l'.redeemedRewardCount } := by
  simp only [prepareRedeem, assignRedeemed, Update.inversion, existsAndEq] at h
  obtain ⟨⟨next, t⟩, hc, _, paid, hpa, rfl⟩ := h
  simp only [redeemChecks, inversion, invalid_eq_ok] at hc
  obtain ⟨-, _, hi, _, hp, rfl, rfl⟩ := hc
  obtain ⟨he, hv⟩ := applyTransferInner_ok hpa
  exact ⟨⟨_, paid, _, _, he, hv, hi, rfl⟩, _, paid, hp, he, rfl⟩

end CashLedger

end ActiveChain
