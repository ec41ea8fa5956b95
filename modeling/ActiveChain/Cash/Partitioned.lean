import ActiveChain.Cash.Conservation
import ActiveChain.Lib.Lanes

/-!
# Partitioned batches (`cash-kernel::partitioned`)

A batch of transfers is planned by its locks, the cells that a transfer names as inputs or fee
reserve.  Transfers whose locks nobody before them asks for run first, the others wait.  Outputs are
not locked.

* `PartitionedCashPlan.build`, `applyPartitionedBatch` — the plan and its execution.
* `transferStep_independent` — transfers that touch no common cell can be executed in either order.
* `partitioned_agrees` — **a partitioned batch agrees with batch order when no transfer that is
  executed before an earlier one names an output cell of it, or the other way round.**
-/

namespace ActiveChain

open Function Update List SortedMap Lanes Prod

def maxCashPartitions : Nat := 256

/-- The first two of the 48 identifier bytes.  The callers have checked that there are partitions.
-/
def cashPartitionFor (id : CoinCellId) (partitions : Nat) : Nat := id / 256 ^ 46 % partitions

def CoinTransfer.firstInput (t : CoinTransfer) : CoinCellId := t.inputs.head t.bounds.1

/-- A batch, strictly ordered by first inputs. -/
structure CashTransferV1 where
  transfers : List CoinTransfer
  bounds : transfers ≠ [] ∧ transfers.length ≤ maxTransferBatch
  ordered : transfers.Pairwise fun a b => a.firstInput < b.firstInput

/-- The inputs with the fee reserve sorted in. -/
def transferLocks (t : CoinTransfer) : List CoinCellId :=
  t.inputs.orderedInsert (· ≤ ·) t.feeReserve

structure PartitionedCashPlan where
  partitions : Nat
  parallel : List Nat
  fallback : List Nat
  locks : List CoinCellId

namespace PartitionedCashPlan

/-- Sort a lock in unless it is there. -/
def insertLock (locks : List CoinCellId) (id : CoinCellId) : List CoinCellId :=
  if id ∈ locks then locks else locks.orderedInsert (· ≤ ·) id

/-- The loop of `build` over the transfers and their positions. -/
def buildLoop : List (CoinTransfer × Nat) → PartitionedCashPlan → PartitionedCashPlan
  | [], plan => plan
  | (transfer, index) :: rest, plan =>
    let requested := transferLocks transfer
    let plan :=
      if requested.any fun id => id ∈ plan.locks then
        { plan with fallback := plan.fallback ++ [index] }
      else { plan with parallel := plan.parallel ++ [index] }
    buildLoop rest { plan with locks := requested.foldl insertLock plan.locks }

def build (batch : CashTransferV1) (partitions : Nat) : MoneyM PartitionedCashPlan := do
  rejectIf (partitions = 0 ∨ maxCashPartitions < partitions) .invalidInputs
  return buildLoop batch.transfers.zipIdx ⟨partitions, [], [], []⟩

/-- The transfers in the order of the plan, whose entries are positions in the batch. -/
def order (plan : PartitionedCashPlan) (batch : CashTransferV1) : List CoinTransfer :=
  (plan.parallel ++ plan.fallback).filterMap fun index => batch.transfers[index]?

end PartitionedCashPlan

structure PartitionedCashReceipt where
  plan : PartitionedCashPlan
  applied : Nat
  rejected : Nat

namespace CashLedger

variable (C : Crypto)

/-- One round of `apply_partitioned_batch`: the ledger and the two counters. -/
def applyCounted (height : Nat) (next : CashLedger × Nat × Nat) (t : CoinTransfer) :
    CashLedger × Nat × Nat :=
  match (applyTransfer C t height).exec next.1 with
  | (.ok _, l) => (l, next.2.1 + 1, next.2.2)
  | (.error _, l) => (l, next.2.1, next.2.2 + 1)

def applyPartitionedBatch (batch : CashTransferV1) (height partitions : Nat) :
    LedgerM PartitionedCashReceipt := do
  let plan ← .check (invalid (PartitionedCashPlan.build batch partitions))
  let self ← get
  let (next, applied, rejected) :=
    (plan.order batch).foldl (applyCounted C height) (self, 0, 0)
  set next
  return ⟨plan, applied, rejected⟩

/-- `apply_transfer` as a step: the ledger after it, or nothing. -/
def transferStep (height : Nat) (t : CoinTransfer) (l : CashLedger) : Option CashLedger :=
  match (applyTransfer C t height).exec l with
  | (.ok _, l') => some l'
  | (.error _, _) => none

end CashLedger

/-! ## The plan -/

theorem mem_transferLocks {t : CoinTransfer} {id : CoinCellId} :
    id ∈ transferLocks t ↔ id ∈ t.inputs ++ [t.feeReserve] := by
  rw [transferLocks, mem_orderedInsert, mem_append, mem_singleton]
  tauto

namespace PartitionedCashPlan

theorem mem_foldl_insertLock {ids locks : List CoinCellId} {id : CoinCellId} :
    id ∈ ids.foldl insertLock locks ↔ id ∈ locks ++ ids := by
  induction ids generalizing locks with
  | nil => simp
  | cons x ids ih =>
    have hi : id ∈ insertLock locks x ↔ id = x ∨ id ∈ locks := by
      unfold insertLock
      split
      · constructor
        · exact .inr
        · rintro (rfl | h)
          · assumption
          · exact h
      · exact mem_orderedInsert _
    rw [foldl_cons, ih, mem_append, hi, mem_append, mem_cons]
    tauto

theorem buildLoop_lanes (es : List (CoinTransfer × Nat)) (plan : PartitionedCashPlan) :
    (buildLoop es plan).parallel = plan.parallel ++
        (Lanes.parallel (Lanes.plan (transferLocks ∘ fst) plan.locks es)).map snd ∧
      (buildLoop es plan).fallback = plan.fallback ++
        (Lanes.fallback (Lanes.plan (transferLocks ∘ fst) plan.locks es)).map snd := by
  induction es generalizing plan with
  | nil => simp [buildLoop, Lanes.plan, Lanes.parallel, Lanes.fallback]
  | cons e es ih =>
    obtain ⟨t, i⟩ := e
    have hh : ∀ id, id ∈ (transferLocks t).foldl insertLock plan.locks ↔
        id ∈ plan.locks ++ transferLocks t := fun id => mem_foldl_insertLock
    rw [buildLoop, Lanes.plan]
    by_cases hc : ∀ id ∈ transferLocks t, id ∉ plan.locks
    · have hany : ((transferLocks t).any fun id => decide (id ∈ plan.locks)) = false := by
        simpa using hc
      simp [hany, decide_eq_true hc, ih, plan_congr _ hh]
    · have hany : ((transferLocks t).any fun id => decide (id ∈ plan.locks)) = true := by
        simpa using hc
      simp [hany, decide_eq_false hc, ih, plan_congr _ hh]

/-- **The transfers run in the order of the two lanes.** -/
theorem order_of_build {batch : CashTransferV1} {partitions : Nat} {plan : PartitionedCashPlan}
    (h : build batch partitions = .ok plan) :
    plan.order batch = Lanes.parallel (Lanes.plan transferLocks [] batch.transfers) ++
      Lanes.fallback (Lanes.plan transferLocks [] batch.transfers) := by
  simp only [build, Except.inversion] at h
  obtain ⟨-, rfl⟩ := h
  obtain ⟨hp, hf⟩ := buildLoop_lanes batch.transfers.zipIdx ⟨partitions, [], [], []⟩
  -- an entry of a lane is a transfer of the batch with its position
  have hfo : ∀ es : List (CoinTransfer × Nat), es ⊆ batch.transfers.zipIdx →
      (es.map snd).filterMap (fun i => batch.transfers[i]?) =
        es.map fst := by
    intro es hen
    rw [filterMap_map, ← filterMap_eq_map]
    refine filterMap_congr fun e he => ?_
    exact mem_zipIdx_iff_getElem?.1 (hen he)
  have hpl := plan_map transferLocks fst [] batch.transfers.zipIdx
  rw [zipIdx_map_fst] at hpl
  rw [order, hp, hf, nil_append, nil_append, filterMap_append, hfo,
    hfo, hpl, parallel_map, fallback_map]
  all_goals
    intro e he
    rw [← plan_map_snd (transferLocks ∘ fst) [] batch.transfers.zipIdx]
    exact (filter_sublist.map snd).subset he

end PartitionedCashPlan

open PartitionedCashPlan

/-! ## One transfer -/

namespace CashLedger

variable {C : Crypto} {l l' : CashLedger} {t : CoinTransfer} {height : Nat}

theorem gatherInputs_congr {owner : PrincipalId} {ids : List CoinCellId}
    (h : ∀ id ∈ ids, l.cells.cells.get? id = l'.cells.cells.get? id) (total : Nat)
    (records : List CoinCellRecord) :
    l.gatherInputs owner ids total records = l'.gatherInputs owner ids total records := by
  induction ids generalizing total records with
  | nil => rfl
  | cons id ids ih =>
    obtain ⟨hid, hids⟩ := forall_mem_cons.1 h
    simp only [gatherInputs, ownedRecord, find, hid, ih hids]

theorem transferParts_congr
    (h : ∀ id ∈ transferLocks t, l.cells.cells.get? id = l'.cells.cells.get? id) :
    l.transferParts C t height = l'.transferParts C t height := by
  have hi : ∀ id ∈ t.inputs, l.cells.cells.get? id = l'.cells.cells.get? id := fun id hid =>
    h id (mem_transferLocks.2 (mem_append_left _ hid))
  have hr := h t.feeReserve (mem_transferLocks.2 (by simp))
  simp only [transferParts, gatherWithReserve, gatherInputs_congr hi, ownedRecord, find, hr]

variable {created spent : List CoinCellRecord}

theorem rebuildCells_of_fresh (hl : ∀ e ∈ spent, l.cells.cells.get? e.1 = some e.2)
    (hd : (spent.map fst).Nodup) (hc : (created.map fst).Nodup)
    (hf : ∀ e ∈ created, e.1 ∈ spent.map fst ∨ l.cells.cells.get? e.1 = none)
    (hle : created.length ≤ spent.length) : ∃ cells, l.rebuildCells spent created = .ok cells := by
  have hs := sortEntries_strict_iff.2 (replaced_nodup_iff.2 ⟨hc, hf⟩)
  have hr : l.cells.cells.Replaces ⟨_, hs⟩ (spent.map fst) created := sortEntries_perm _
  have hco := hr.length_add hd hl
  have hb := l.cells.bounded
  exact ⟨⟨⟨_, hs⟩, by omega⟩, invalid_eq_ok.2 (CoinCellSet.new_eq_ok.2 rfl)⟩

theorem supplyAfterFee_of_le {s : NativeSupply} {fee : Nat} (h : fee ≤ s.circulatingSupply) :
    ∃ s', supplyAfterFee s fee = .ok s' := by
  have hs := s.consistent
  have he := hs.equation
  have hf := hs.fits
  have hp := hs.partition
  have hc : ({ s.toNativeSupplyFields with
      circulatingSupply := s.circulatingSupply - fee
      securityReserveBalance := s.securityReserveBalance + fee } : NativeSupplyFields).check =
        .ok () := by
    refine NativeSupplyFields.check_iff.2 ⟨he, hf, ?_, hs.opening, hs.unsettled, hs.settled⟩
    dsimp only
    omega
  refine ⟨⟨_, hc⟩, ?_⟩
  simp only [supplyAfterFee, Except.inversion, invalid_eq_ok, NativeSupply.new_eq_ok]
  exact ⟨_, ⟨rfl, h⟩, _, ⟨rfl, by omega⟩, rfl⟩

theorem transferStep_eq_some :
    transferStep C height t l = some l' ↔ (applyTransfer C t height).exec l = (.ok (), l') := by
  unfold transferStep
  rcases (applyTransfer C t height).exec l with ⟨_ | ⟨⟩, l₁⟩ <;> simp

theorem transferStep_ok (h : transferStep C height t l = some l') :
    TransferEffect C l l' t ∧ l'.Valid C ∧ ∃ spent created,
      l.transferParts C t height = .ok (spent, created) ∧
        l.rebuildCells spent created = .ok l'.cells := by
  have hexec := exec_atomically_eq_ok.1 (transferStep_eq_some.1 h)
  obtain ⟨he, hva⟩ := applyTransferInner_ok hexec
  refine ⟨he, hva, ?_⟩
  obtain ⟨_, _, hp, hv⟩ := exec_bind_eq_ok.1 hexec
  obtain ⟨rfl, -⟩ := verifySelf_ok hv
  simp only [prepareTransfer, assignCells, inversion, existsAndEq, transferCells_eq,
    Except.bind_eq_ok] at hp
  obtain ⟨cs, ⟨⟨spent, created⟩, hpa, hc⟩, hfee⟩ := hp
  obtain ⟨supply, -, rfl⟩ := moveFeeToReserve_ok hfee
  exact ⟨spent, created, hpa, hc⟩

theorem Valid.transferStep_of_rebuild (h : l.Valid C) {cells : CoinCellSet}
    (hpa : l.transferParts C t height = .ok (spent, created))
    (hc : l.rebuildCells spent created = .ok cells) :
    ∃ l', transferStep C height t l = some l' ∧ l'.cells = cells := by
  obtain ⟨hg, -, -, hv⟩ := transferParts_ok hpa
  have hle : valueOf spent ≤ l.cells.value := by
    refine sum_le_total ?_ hg.live CoinCell.amount
    rw [hg.ids_eq]
    exact nodup_inputs_reserve t.ordered t.reserveApart
  have hpar := h.partition
  have hs := l.supply.consistent.partition
  obtain ⟨supply, hfee⟩ := supplyAfterFee_of_le (show t.fee ≤ l.supply.circulatingSupply by omega)
  have hp : (prepareTransfer C t height).exec l =
      (.ok ⟨⟩, { l with cells := cells, supply := supply }) := by
    simp only [prepareTransfer, moveFeeToReserve, assignCells, assignSupply, inversion, existsAndEq,
      transferCells_eq, Except.bind_eq_ok]
    exact ⟨cells, ⟨_, hpa, hc⟩, supply, hfee, rfl⟩
  have haf := h.of_transfer (prepareTransfer_ok hp)
  exact ⟨_, transferStep_eq_some.2 (checked_of_prepare hp haf), rfl⟩

/-! ## Exchanging two transfers -/

/-- An output cell of a transfer: the payment has index 0, the change index 1. -/
def outputCell (C : Crypto) (t : CoinTransfer) (index : Nat) : CoinCellId :=
  coinCellId C ⟨cashTransitionId C t, index⟩

/-- The transfer `u` names an output cell of `t` as an input or as its fee reserve. -/
def Names (C : Crypto) (u t : CoinTransfer) : Prop := ∃ i, outputCell C t i ∈ transferLocks u

/-- The cells that a transfer reads or changes. -/
def Touches (C : Crypto) (t : CoinTransfer) (id : CoinCellId) : Prop :=
  id ∈ transferLocks t ∨ ∃ i, id = outputCell C t i

/-- The ledgers differ in cells, circulating supply and reserve only. -/
structure SameBackground (l l' : CashLedger) : Prop where
  definition : l'.definition = l.definition
  shielded : l'.shielded = l.shielded
  root : l'.redeemedRewardRoot = l.redeemedRewardRoot
  count : l'.redeemedRewardCount = l.redeemedRewardCount
  supply : ∃ circulating reserve, l'.supply.toNativeSupplyFields =
    { l.supply.toNativeSupplyFields with
      circulatingSupply := circulating, securityReserveBalance := reserve }

theorem TransferEffect.sameBackground (h : TransferEffect C l l' t) : SameBackground l l' := by
  obtain ⟨-, -, -, -, -, supply, ⟨-, hf⟩, heq⟩ := h
  rw [heq]
  exact ⟨rfl, rfl, rfl, rfl, _, _, hf⟩

theorem SameBackground.trans {l'' : CashLedger} (h : SameBackground l l')
    (h' : SameBackground l' l'') : SameBackground l l'' := by
  refine ⟨h'.definition.trans h.definition, h'.shielded.trans h.shielded, h'.root.trans h.root,
    h'.count.trans h.count, ?_⟩
  obtain ⟨c, r, hf⟩ := h.supply
  obtain ⟨c', r', hf'⟩ := h'.supply
  exact ⟨c', r', by rw [hf', hf]⟩

/-- Valid ledgers of one background are equal when their cells are: circulating supply and reserve
follow from them. -/
theorem SameBackground.eq {l₁ l₂ : CashLedger} (h₁ : SameBackground l l₁) (h₂ : SameBackground l l₂)
    (hv₁ : l₁.Valid C) (hv₂ : l₂.Valid C)
    (hce : ∀ id, l₁.cells.cells.get? id = l₂.cells.cells.get? id) : l₁ = l₂ := by
  have hce : l₁.cells = l₂.cells := CoinCellSet.ext (eq_of_get?_eq hce)
  have hs : l₁.shielded = l₂.shielded := h₁.shielded.trans h₂.shielded.symm
  have hsu : l₁.supply = l₂.supply := by
    obtain ⟨c₁, r₁, hf₁⟩ := h₁.supply
    obtain ⟨c₂, r₂, hf₂⟩ := h₂.supply
    have hp₁ := hv₁.partition
    have hp₂ := hv₂.partition
    have hs₁ := l₁.supply.consistent.partition
    have hs₂ := l₂.supply.consistent.partition
    rw [hf₁, hce, hs] at hp₁
    rw [hf₁] at hs₁
    rw [hf₂] at hp₂ hs₂
    dsimp only at hp₁ hp₂ hs₁ hs₂
    have hc : c₁ = c₂ := by omega
    have hr : r₁ = r₂ := by omega
    have hf : l₂.supply.toNativeSupplyFields = l₁.supply.toNativeSupplyFields := by
      rw [hf₁, hf₂, hc, hr]
    exact Except.ok.inj ((NativeSupply.new_eq_ok.2 rfl).symm.trans (NativeSupply.new_eq_ok.2 hf))
  exact CashLedger.ext (h₁.definition.trans h₂.definition.symm) hsu hce hs
    (h₁.root.trans h₂.root.symm) (h₁.count.trans h₂.count.symm)

/-- What the cells look like around a transfer that goes through. -/
structure Goes (C : Crypto) (height : Nat) (t : CoinTransfer) (l : CashLedger)
    (spent created : List CoinCellRecord) : Prop where
  parts : l.transferParts C t height = .ok (spent, created)
  gathered : l.Gathered (t.inputs ++ [t.feeReserve]) spent
  named : NamedAfter C (cashTransitionId C t) created
  short : created.length ≤ 2
  distinct : (created.map Prod.fst).Nodup
  fresh : ∀ e ∈ created, e.1 ∈ spent.map Prod.fst ∨ l.cells.cells.get? e.1 = none

variable {spent created : List CoinCellRecord}

theorem goes_of_transferStep (h : transferStep C height t l = some l') :
    ∃ spent created, Goes C height t l spent created ∧
      l.cells.cells.Replaces l'.cells.cells (spent.map fst) created := by
  obtain ⟨-, -, spent, created, hp, hc⟩ := transferStep_ok h
  have hr := replaces_of_rebuildCells hc
  obtain ⟨hg, hn, hs, -⟩ := transferParts_ok hp
  exact ⟨spent, created, ⟨hp, hg, hn, hs, hr.fresh.1, hr.fresh.2⟩, hr⟩

variable {id : CoinCellId}

section

variable (h : Goes C height t l spent created)
include h

theorem Goes.mem_spent : id ∈ spent.map fst ↔ id ∈ transferLocks t := by
  rw [h.gathered.ids_eq, mem_transferLocks]

theorem Goes.live (hid : id ∈ transferLocks t) : l.cells.cells.get? id ≠ none := by
  obtain ⟨e, he, rfl⟩ := mem_map.1 (h.mem_spent.2 hid)
  rw [h.gathered.live e he]
  simp

theorem Goes.step (hv : l.Valid C) :
    ∃ l', transferStep C height t l = some l' ∧
      l.cells.cells.Replaces l'.cells.cells (spent.map fst) created := by
  have hl : created.length ≤ spent.length := by
    have hco := congrArg length h.gathered.ids_eq
    have hi := length_pos_of_ne_nil t.bounds.1
    have hsh := h.short
    simp at hco
    omega
  have hd : (spent.map fst).Nodup := by
    rw [h.gathered.ids_eq]
    exact nodup_inputs_reserve t.ordered t.reserveApart
  obtain ⟨cs, hc⟩ := rebuildCells_of_fresh h.gathered.live hd h.distinct h.fresh hl
  obtain ⟨l', hs, rfl⟩ := hv.transferStep_of_rebuild h.parts hc
  exact ⟨l', hs, replaces_of_rebuildCells hc⟩

theorem Goes.created_eq (hid : id ∈ created.map fst) : ∃ i, id = outputCell C t i := by
  obtain ⟨e, he, rfl⟩ := mem_map.1 hid
  obtain ⟨ho, hn⟩ := h.named e he
  exact ⟨e.2.origin.outputIndex, by rw [hn, outputCell, ← ho]⟩

/-- A transfer reads the cells that it touches and no others. -/
theorem Goes.congr (hk : ∀ id, Touches C t id → l.cells.cells.get? id = l'.cells.cells.get? id) :
    Goes C height t l' spent created := by
  have hp : l.transferParts C t height = l'.transferParts C t height :=
    transferParts_congr fun id hid => hk id (.inl hid)
  refine ⟨hp ▸ h.parts, ⟨h.gathered.ids_eq, ?_⟩, h.named, h.short, h.distinct, ?_⟩
  · intro e he
    rw [← hk e.1 (.inl (h.mem_spent.1 (mem_map_of_mem he)))]
    exact h.gathered.live e he
  · intro e he
    rw [← hk e.1 (.inr (h.created_eq (mem_map_of_mem he)))]
    exact h.fresh e he

/-- A transfer changes the cells that it touches and no others. -/
theorem Goes.untouched (hr : l.cells.cells.Replaces l'.cells.cells (spent.map fst) created)
    (hid : ¬ Touches C t id) : l.cells.cells.get? id = l'.cells.cells.get? id := by
  refine Option.ext fun cell => ?_
  have hs : id ∉ spent.map fst := fun hs => hid (.inl (h.mem_spent.1 hs))
  have hc : (id, cell) ∉ created := fun hc => hid (.inr (h.created_eq (mem_map_of_mem hc)))
  rw [hr.get?_eq_some]
  tauto

end

section Exchange

variable {u : CoinTransfer} (hapart : ∀ id, Touches C t id → ¬ Touches C u id)
include hapart

theorem transferStep_undisturbed : Undisturbed (transferStep C height) (Valid C) t u := by
  intro l l' hv hs
  obtain ⟨-, hv', -⟩ := transferStep_ok hs
  obtain ⟨spent, created, ht, hr⟩ := goes_of_transferStep hs
  have hk : ∀ id, Touches C u id → l.cells.cells.get? id = l'.cells.cells.get? id := fun id hid =>
    ht.untouched hr fun htouch => hapart id htouch hid
  refine Bool.eq_iff_iff.2 ?_
  rw [Option.isSome_iff_exists, Option.isSome_iff_exists]
  constructor <;> rintro ⟨r, hs'⟩ <;> obtain ⟨_, _, hu, -⟩ := goes_of_transferStep hs'
  · exact ((hu.congr fun id hid => (hk id hid).symm).step hv).imp fun _ h => h.1
  · exact ((hu.congr hk).step hv').imp fun _ h => h.1

theorem transferStep_independent : Independent (transferStep C height) (Valid C) t u := by
  have hapart' : ∀ id, Touches C u id → ¬ Touches C t id := fun id hu ht => hapart id ht hu
  refine ⟨transferStep_undisturbed hapart, transferStep_undisturbed hapart', ?_⟩
  intro l l₁ l₂ hv hs₁ hs₂
  obtain ⟨spent, created, ht, hre₁⟩ := goes_of_transferStep hs₁
  obtain ⟨spent', created', hu, hre₂⟩ := goes_of_transferStep hs₂
  obtain ⟨he₁, hv₁, -⟩ := transferStep_ok hs₁
  obtain ⟨he₂, hv₂, -⟩ := transferStep_ok hs₂
  obtain ⟨r₁, hr₁, ha₁⟩ :=
    (hu.congr fun id hid => ht.untouched hre₁ (hapart' id hid)).step hv₁
  obtain ⟨r₂, hr₂, ha₂⟩ :=
    (ht.congr fun id hid => hu.untouched hre₂ (hapart id hid)).step hv₂
  obtain ⟨he₁', hv₁', -⟩ := transferStep_ok hr₁
  obtain ⟨he₂', hv₂', -⟩ := transferStep_ok hr₂
  have hc : ∀ id, r₁.cells.cells.get? id = r₂.cells.cells.get? id := by
    intro id
    refine Option.ext fun cell => ?_
    rw [ha₁.get?_eq_some, hre₁.get?_eq_some, ha₂.get?_eq_some, hre₂.get?_eq_some]
    have h : (id, cell) ∈ created → id ∉ spent'.map fst := fun hc hs =>
      hapart id (.inr (ht.created_eq (mem_map_of_mem hc))) (.inl (hu.mem_spent.1 hs))
    have h' : (id, cell) ∈ created' → id ∉ spent.map fst := fun hc hs =>
      hapart id (.inl (ht.mem_spent.1 hs)) (.inr (hu.created_eq (mem_map_of_mem hc)))
    tauto
  have heq := SameBackground.eq (he₁.sameBackground.trans he₁'.sameBackground)
    (he₂.sameBackground.trans he₂'.sameBackground) hv₁' hv₂' hc
  exact ⟨r₁, hr₁, heq ▸ hr₂⟩

end Exchange

section

variable (hash : Injective C.shake256)
include hash

theorem inputs_of_outputCell {u : CoinTransfer} {i j : Nat}
    (h : outputCell C t i = outputCell C u j) : t.inputs = u.inputs :=
  CoinTransfer.inputs_of_id hash (CoinCellOrigin.ext_iff.1 (coinCellId_inj hash h)).1

/-- Transfers without a common lock touch different cells, unless one names an output of the other:
the names of their outputs determine the inputs. -/
theorem touches_apart {u : CoinTransfer} (hlocks : ∀ id ∈ transferLocks u, id ∉ transferLocks t)
    (hu : ¬ Names C u t) (ht : ¬ Names C t u) (id : CoinCellId) (h : Touches C t id) :
    ¬ Touches C u id := by
  rintro (hid' | ⟨j, hj⟩) <;> rcases h with hid | ⟨i, rfl⟩
  · exact hlocks id hid' hid
  · exact hu ⟨i, hid'⟩
  · exact ht ⟨j, hj ▸ hid⟩
  · have hi := inputs_of_outputCell hash hj
    obtain ⟨x, rest, hx⟩ := exists_cons_of_ne_nil u.bounds.1
    have hxu : x ∈ u.inputs := hx ▸ mem_cons_self
    exact hlocks x (mem_transferLocks.2 (mem_append_left _ hxu))
      (mem_transferLocks.2 (mem_append_left _ (hi ▸ hxu)))

end

/-- A cell that is there after some transfers was there before or is an output of one of them. -/
theorem exists_maker {ts : List CoinTransfer}
    (h : (run (transferStep C height) l ts).cells.cells.get? id ≠ none) :
    l.cells.cells.get? id ≠ none ∨ ∃ t ∈ ts, ∃ i, id = outputCell C t i := by
  induction ts generalizing l with
  | nil => exact .inl h
  | cons t ts ih =>
    rw [run_cons] at h
    rcases ih h with h | ⟨u, hu, hi⟩
    · cases hs : transferStep C height t l with
      | none => exact .inl (attempt_of_none hs ▸ h)
      | some l' =>
        obtain ⟨spent, created, ht, hr⟩ := goes_of_transferStep hs
        rw [attempt_of_some hs, ne_eq, hr.get?_eq_none, not_and_or, not_not, not_or] at h
        rcases h with hc | ⟨-, hl⟩
        · exact .inr ⟨t, mem_cons_self, ht.created_eq hc⟩
        · exact .inl hl
    · exact .inr ⟨u, mem_cons_of_mem t hu, hi⟩

/-! ## Batches -/

theorem foldl_applyCounted (C : Crypto) (height : Nat) (ts : List CoinTransfer) (l : CashLedger)
    (applied rejected : Nat) :
    ∃ rejected', ts.foldl (applyCounted C height) (l, applied, rejected) =
      (run (transferStep C height) l ts,
        applied + (taken (transferStep C height) l ts).length, rejected') := by
  induction ts generalizing l applied rejected with
  | nil => exact ⟨rejected, rfl⟩
  | cons t ts ih =>
    rw [foldl_cons, run_cons, applyCounted]
    rcases hexec : (applyTransfer C t height).exec l with ⟨_ | ⟨⟩, l₁⟩
    · obtain ⟨rfl, -⟩ := exec_atomically_eq_error.1 hexec
      have hn : transferStep C height t l₁ = none := by rw [transferStep, hexec]
      rw [attempt_of_none hn, taken_cons_of_none hn]
      exact ih _ _ _
    · have hs := transferStep_eq_some.2 hexec
      rw [attempt_of_some hs, taken_cons_of_some hs, length_cons,
        ← Nat.add_assoc, Nat.add_right_comm]
      exact ih _ _ _

/-- The parallel lane of the plan of a batch, followed by the fallback lane. -/
def laneOrder (batch : CashTransferV1) : List CoinTransfer :=
  Lanes.parallel (plan transferLocks [] batch.transfers) ++
    Lanes.fallback (plan transferLocks [] batch.transfers)

variable {batch : CashTransferV1} {partitions : Nat}

theorem applyPartitionedBatch_ok (C : Crypto) (height : Nat) (l : CashLedger)
    {plan : PartitionedCashPlan} (h : build batch partitions = .ok plan) :
    ∃ rejected, (applyPartitionedBatch C batch height partitions).exec l =
      (.ok ⟨plan, (taken (transferStep C height) l (plan.order batch)).length, rejected⟩,
        run (transferStep C height) l (plan.order batch)) := by
  obtain ⟨rejected, hl⟩ := foldl_applyCounted C height (plan.order batch) l 0 0
  refine ⟨rejected, ?_⟩
  simp only [applyPartitionedBatch, h, exec_bind, exec_check, exec_get,
    exec_set, exec_pure, invalid, Except.mapError, hl, Nat.zero_add]

/-- `apply_partitioned_batch` succeeds with the ledger of batch order, and the same transfers are
accepted. -/
def SameAsSerial (C : Crypto) (l : CashLedger) (batch : CashTransferV1) (height partitions : Nat) :
    Prop :=
  ∃ receipt l', (applyPartitionedBatch C batch height partitions).exec l = (.ok receipt, l') ∧
    l' = Lanes.run (transferStep C height) l batch.transfers ∧
    (Lanes.taken (transferStep C height) l (receipt.plan.order batch)).Perm
      (Lanes.taken (transferStep C height) l batch.transfers)

theorem sameAsSerial_iff :
    SameAsSerial C l batch height partitions ↔
      (partitions ≠ 0 ∧ partitions ≤ maxCashPartitions) ∧
        Same (transferStep C height) l (laneOrder batch) batch.transfers := by
  by_cases hc : partitions = 0 ∨ maxCashPartitions < partitions
  · constructor
    · rintro ⟨receipt, l', hexec, -⟩
      have hb : build batch partitions = .error .invalidInputs := by
        rw [build, rejectIf, if_pos hc]
        rfl
      simp [applyPartitionedBatch, hb, invalid, Except.mapError, exec_bind] at hexec
    · omega
  · obtain ⟨plan, hb⟩ : ∃ plan, build batch partitions = .ok plan := by
      rw [build, rejectIf_of_not hc]
      exact ⟨_, rfl⟩
    obtain ⟨rejected, hexec⟩ := applyPartitionedBatch_ok C height l hb
    unfold SameAsSerial Same laneOrder
    rw [← order_of_build hb, hexec]
    constructor
    · rintro ⟨_, _, heq, hl, hp⟩
      cases heq
      exact ⟨by omega, hl, hp⟩
    · rintro ⟨-, hl, hp⟩
      exact ⟨_, _, rfl, hl, hp⟩

/-- The transfer `u` is executed before `t`, which precedes it in the batch: `t` waits and `u` does
not. -/
structure Overtakes (batch : CashTransferV1) (u t : CoinTransfer) : Prop where
  early : u ∈ Lanes.parallel (plan transferLocks [] batch.transfers)
  waits : t ∈ Lanes.fallback (plan transferLocks [] batch.transfers)
  earlier : t.firstInput < u.firstInput

/-- No transfer that overtakes another names an output cell of it, or the other way round. -/
def NoneNamed (C : Crypto) (batch : CashTransferV1) : Prop :=
  ∀ t u, Overtakes batch u t → ¬ Names C u t ∧ ¬ Names C t u

section

variable (hash : Injective C.shake256)
include hash

theorem same_of_noneNamed (hv : l.Valid C) (h : NoneNamed C batch) :
    Same (transferStep C height) l (laneOrder batch) batch.transfers := by
  have ho := batch.ordered
  rw [← plan_map_snd transferLocks [] batch.transfers, pairwise_map] at ho
  have hb := lanes_agree (fun t l l' _ hs => (transferStep_ok hs).2.1) hv
    ((ho.and (plan_pairwise transferLocks [] batch.transfers)).imp_of_mem (S := fun x y =>
      x.1 = false → y.1 = true → Independent (transferStep C height) (Valid C) x.2 y.2) ?_)
  · rwa [plan_map_snd] at hb
  · rintro ⟨_, t⟩ ⟨_, u⟩ hx hy ⟨hlt, hlocks⟩ rfl rfl
    obtain ⟨hu, ht⟩ := h t u ⟨mem_parallel.2 hy, mem_fallback.2 hx, hlt⟩
    exact transferStep_independent (touches_apart hash (hlocks rfl) hu ht)

theorem eq_of_outputCell {t u : CoinTransfer} (ht : t ∈ batch.transfers) (hu : u ∈ batch.transfers)
    {i j : Nat} (h : outputCell C t i = outputCell C u j) : t = u := by
  have hi := inputs_of_outputCell hash h
  have hf : t.firstInput = u.firstInput := by simp only [CoinTransfer.firstInput, hi]
  exact inj_on_of_nodup_map (pairwise_map.2 (batch.ordered.imp fun h => h.ne)) ht hu hf

/-- A transfer that names a cell which is not there yet is accepted after the transfer whose output
it is. -/
theorem maker_before {ts : List CoinTransfer} (hts : ts.Perm batch.transfers) {t u : CoinTransfer}
    {i : Nat} (ht : t ∈ batch.transfers) (hlock : outputCell C t i ∈ transferLocks u)
    (hnew : l.cells.cells.get? (outputCell C t i) = none)
    (hu : u ∈ taken (transferStep C height) l ts) :
      ∃ pre post, ts = pre ++ u :: post ∧ t ∈ pre := by
  obtain ⟨pre, post, l', heq, hs⟩ := mem_taken hu
  obtain ⟨_, _, hg, -⟩ := goes_of_transferStep hs
  rcases exists_maker (hg.live hlock) with h | ⟨x, hx, j, hj⟩
  · exact absurd hnew h
  · have hxb : x ∈ batch.transfers := hts.subset (heq ▸ mem_append_left _ hx)
    exact ⟨pre, post, heq, eq_of_outputCell hash ht hxb hj ▸ hx⟩

end

theorem laneOrder_perm (batch : CashTransferV1) : (laneOrder batch).Perm batch.transfers := by
  have h := parallel_append_fallback_perm (plan transferLocks [] batch.transfers)
  rwa [plan_map_snd] at h

/-- **A partitioned batch agrees with batch order if no transfer that is executed before an earlier
one names an output cell of it, or the other way round; and it does not agree if a transfer is
accepted that names such a cell and the cell is new.** -/
theorem partitioned_agrees (hash : Injective C.shake256)
    (hvalid : l.verifyInvariants C = .ok ()) (batch : CashTransferV1) (height partitions : Nat) :
    (NoneNamed C batch →
      (SameAsSerial C l batch height partitions ↔ partitions ≠ 0 ∧
        partitions ≤ maxCashPartitions)) ∧
    ∀ t u i, Overtakes batch u t →
      (outputCell C t i ∈ transferLocks u → l.cells.cells.get? (outputCell C t i) = none →
        u ∈ Lanes.taken (transferStep C height) l batch.transfers →
        ¬ SameAsSerial C l batch height partitions) ∧
      (outputCell C u i ∈ transferLocks t → l.cells.cells.get? (outputCell C u i) = none →
        t ∈ Lanes.taken (transferStep C height) l (laneOrder batch) →
        ¬ SameAsSerial C l batch height partitions) := by
  rw [sameAsSerial_iff]
  refine ⟨fun h => and_iff_left (same_of_noneNamed hash (.of_verifyInvariants hvalid) h), ?_⟩
  intro t u i hov
  have hperm := laneOrder_perm batch
  have hub := hperm.subset (mem_append_left _ hov.early)
  have htb := hperm.subset (mem_append_right _ hov.waits)
  constructor
  · rintro hlock hnew hu ⟨-, -, hp⟩
    -- the early transfer is accepted in the lanes too, where its maker is still waiting
    obtain ⟨pre, post, heq, ht⟩ :=
      maker_before hash hperm htb hlock hnew (hp.mem_iff.2 hu)
    have hn : (laneOrder batch).Nodup :=
      hperm.nodup_iff.2 (batch.ordered.imp fun h heq => h.ne (congrArg _ heq))
    have hd := (nodup_append.1 hn).2.2
    rcases append_eq_append_iff.1 heq with ⟨c, -, hf⟩ | ⟨c, hpar, -⟩
    · exact hd u hov.early u (hf ▸ mem_append_right _ mem_cons_self) rfl
    · exact hd t (hpar ▸ mem_append_left _ ht) t hov.waits rfl
  · rintro hlock hnew ht ⟨-, -, hp⟩
    obtain ⟨pre, post, heq, hu⟩ :=
      maker_before hash (.refl _) hub hlock hnew (hp.mem_iff.1 ht)
    have ho := batch.ordered
    rw [heq] at ho
    have hlt := (pairwise_append.1 ho).2.2 u hu t mem_cons_self
    exact absurd hov.earlier hlt.not_gt

end CashLedger

namespace OutputSpentEarly

open CashLedger

def cell (n owner : Nat) (howner : owner ≠ Digest384.zero) : CoinCell :=
  ⟨⟨n, 0⟩, owner, 200000, 0, howner, by decide⟩

def cellId (n : Nat) : CoinCellId := coinCellId .transparent ⟨n, 0⟩

def ledger : CashLedger where
  definition := SmallLedger.definition
  supply := (SmallLedger.ledger .transparent).supply
  cells := ⟨⟨[(cellId 1, cell 1 7 (by decide)), (cellId 2, cell 2 7 (by decide)),
    (cellId 3, cell 3 7 (by decide)), (cellId 4, cell 4 8 (by decide)),
    (cellId 5, cell 5 8 (by decide))], by decide +kernel⟩, by decide⟩
  shielded := .default .transparent
  redeemedRewardRoot := 1
  redeemedRewardCount := 0

def first : CoinTransfer :=
  ⟨7, 8, [cellId 1], cellId 3, 1000000, 1, 10, by decide, pairwise_singleton _ _,
    by decide +kernel, SmallLedger.cell.amountChecked⟩

/-- Waits, because it names the fee reserve of the first. -/
def second : CoinTransfer :=
  ⟨7, 8, [cellId 2], cellId 3, 5, 1, 10, by decide, pairwise_singleton _ _,
    by decide +kernel, by decide⟩

def third : CoinTransfer :=
  ⟨8, 9, [coinCellId .transparent ⟨cashTransitionId .transparent second, 0⟩], cellId 4, 1, 1, 10,
    by decide, pairwise_singleton _ _, by decide +kernel, Nat.one_ne_zero⟩

def batch : CashTransferV1 := ⟨[first, second, third], by decide, by decide +kernel⟩

theorem ledger_checked : ledger.verifyInvariants .transparent = .ok () := by decide +kernel

/-- In batch order the second and the third transfer are accepted.  Partitioned, the third runs
before the second and is rejected. -/
theorem third_transfer_lost :
    ledger.verifyInvariants .transparent = .ok () ∧
    Lanes.taken (transferStep .transparent 3) ledger batch.transfers = [second, third] ∧
    ((applyPartitionedBatch .transparent batch 3 1).exec ledger).1.toOption.map
      PartitionedCashReceipt.applied = some 1 ∧
    ¬ SameAsSerial .transparent ledger batch 3 1 := by
  have hs : taken (transferStep .transparent 3) ledger batch.transfers =
      [second, third] := by decide +kernel
  have hla : (taken (transferStep .transparent 3) ledger (laneOrder batch)).length = 1 := by
    decide +kernel
  refine ⟨ledger_checked, hs, by decide +kernel, fun hsa => ?_⟩
  have hl := (sameAsSerial_iff.1 hsa).2.2.length_eq
  rw [hla, hs] at hl
  cases hl

/-- Overtakes the second as well, but takes a cell of the ledger. -/
def unrelated : CoinTransfer :=
  ⟨8, 9, [cellId 5], cellId 4, 1, 1, 10, by decide, pairwise_singleton _ _, by decide +kernel,
    Nat.one_ne_zero⟩

def fineBatch : CashTransferV1 := ⟨[first, second, unrelated], by decide, by decide +kernel⟩

theorem not_names {t u : CoinTransfer}
    (h : ∀ id ∈ transferLocks u, ∃ n, id = cellId n ∧ n ≠ cashTransitionId .transparent t) :
    ¬ Names .transparent u t := by
  rintro ⟨i, hi⟩
  obtain ⟨n, heq, hne⟩ := h _ hi
  have ho := coinCellId_inj Crypto.transparent_injective heq
  exact hne (CoinCellOrigin.ext_iff.1 ho).1.symm

theorem fine_batch_agrees :
    Injective Crypto.transparent.shake256 ∧
    ledger.verifyInvariants .transparent = .ok () ∧
    Overtakes fineBatch unrelated second ∧ NoneNamed .transparent fineBatch ∧
    Lanes.taken (transferStep .transparent 3) ledger (laneOrder fineBatch) = [unrelated, second] ∧
    SameAsSerial .transparent ledger fineBatch 3 1 := by
  have hp : plan transferLocks [] fineBatch.transfers =
      [(true, first), (false, second), (true, unrelated)] := by decide +kernel
  have hov : Overtakes fineBatch unrelated second :=
    ⟨by simp [hp], by simp [hp], by decide +kernel⟩
  have hnamed : NoneNamed .transparent fineBatch := by
    rintro t u ⟨he, hw, hlt⟩
    have hu : u = first ∨ u = unrelated := by simpa [hp] using mem_parallel.1 he
    obtain rfl : t = second := by simpa [hp] using mem_fallback.1 hw
    rcases hu with rfl | rfl
    · exact absurd hlt (by decide +kernel)
    · refine ⟨not_names fun id hid => ?_, not_names fun id hid => ?_⟩ <;>
        rcases mem_append.1 (mem_transferLocks.1 hid) with hid | hid <;>
        exact ⟨_, mem_singleton.1 hid, by decide +kernel⟩
  refine ⟨Crypto.transparent_injective, ledger_checked, hov, hnamed, ?_, ?_⟩
  · rw [laneOrder, hp]
    decide +kernel
  · exact ((partitioned_agrees Crypto.transparent_injective ledger_checked _ _ _).1 hnamed).2
      (by decide)

end OutputSpentEarly

end ActiveChain
