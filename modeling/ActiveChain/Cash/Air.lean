import ActiveChain.Cash.AuthenticatedTree
import ActiveChain.Cash.Partitioned

/-!
# Execution evidence for partitioned batches (`cash-kernel::air`)

The evidence for a batch is a row per transfer with the roots before and after it and the values it
moves, which have to fit in 64 bits.  The verifier runs the batch again and compares.

* `proveCashAir`, `verifyCashAir`, `boundedValues` — the prover, the verifier, and the values.
* `airRound_ok` — a round of the prover is a round of `apply_partitioned_batch` with a row.
* `boundedValues_isOk_iff` — below `2 ^ 64` units in all, only the stated fee can be out of range.
-/

namespace ActiveChain

open Except List Lanes

/-! ## Commitments to the ledger and the batch -/

instance : CanonicalType CoinCellSet where
  typeTag := 0x0085
  schemaVersion := 1
  body set := .u32 set.cells.length :: set.cells.entries.flatMap recordBody

instance : CanonicalType NativeSupply where
  typeTag := 0x0084
  schemaVersion := 2
  body s := [.u128 s.genesisSupply, .u128 s.cumulativeSecurityIssuance, .u128 s.cumulativeBurn,
    .u128 s.currentTotalSupply, .u128 s.circulatingSupply, .u128 s.lockedVestingSupply,
    .u128 s.stakedSupply, .u128 s.securityReserveBalance, .u64 s.lastSettledEpoch,
    .u64 s.issuanceWindow, .u128 s.issuanceWindowOpeningSupply, .u128 s.issuanceInWindow]

instance : CanonicalType CashTransferV1 where
  typeTag := 0x0091
  schemaVersion := 1
  body batch := .u32 batch.transfers.length :: batch.transfers.flatMap CanonicalType.body

abbrev CoinCellSetRoot := Digest384

abbrev SupplyRoot := Digest384

namespace CashLedger

variable (C : Crypto)

def cellSetRoot (l : CashLedger) : CoinCellSetRoot := commit C .coinCellSetRoot l.cells

def supplyRoot (l : CashLedger) : SupplyRoot := commit C .supplyRoot l.supply

end CashLedger

/-! ## Evidence -/

/-- Encoding never fails. -/
inductive CashAirError
  | transition
  | invalidProof
  | unsupportedRange
deriving DecidableEq, Repr

structure CashAirPublicInputs where
  chainId : ChainId
  batchCommitment : Digest384
  preCells : CoinCellSetRoot
  postCells : CoinCellSetRoot
  preSupply : SupplyRoot
  postSupply : SupplyRoot
  height : Nat
  partitions : Nat
  applied : Nat
  rejected : Nat
deriving DecidableEq

structure CashAirRow where
  transferIndex : Nat
  preCells : CoinCellSetRoot
  postCells : CoinCellSetRoot
  preSupply : SupplyRoot
  postSupply : SupplyRoot
  accepted : Bool
  inputValue : Nat
  outputValue : Nat
  fee : Nat
deriving DecidableEq

deriving instance DecidableEq for PartitionedCashPlan

structure CashAirProof where
  publicInputs : CashAirPublicInputs
  plan : PartitionedCashPlan
  rows : List CashAirRow
deriving DecidableEq

def transfersWith (batch : CashTransferV1) (accepted : Bool) (rows : List CashAirRow) :
    List CoinTransfer :=
  (rows.filter fun row => row.accepted == accepted).filterMap fun row =>
    batch.transfers[row.transferIndex]?

section

variable (proof : CashAirProof) (batch : CashTransferV1)

def CashAirProof.accepted : List CoinTransfer := transfersWith batch true proof.rows

def CashAirProof.rejected : List CoinTransfer := transfersWith batch false proof.rows

end

/-- The transfers in the order of the plan, with their positions. -/
def PartitionedCashPlan.entries (plan : PartitionedCashPlan) (batch : CashTransferV1) :
    List (Nat × CoinTransfer) :=
  (plan.parallel ++ plan.fallback).filterMap fun index =>
    batch.transfers[index]?.map fun t => (index, t)

def toU64 (value : Nat) : Except CashAirError Nat := okOr (fitsIn 64 value) .unsupportedRange

open PartitionedCashPlan

namespace CashLedger

variable (C : Crypto)

/-- The amount of a cell, nothing for a missing one. -/
def amountAt (l : CashLedger) (id : CoinCellId) : Nat :=
  ((l.cells.cells.get? id).map CoinCell.amount).getD 0

/-- One round of the loop of `bounded_values`. -/
def addAmount (l : CashLedger) (input : Nat) (id : CoinCellId) : Except CashAirError Nat :=
  okOr (checkedAdd 128 input (l.amountAt id)) .unsupportedRange

/-- What goes in, what comes out and the fee. -/
def boundedValues (l : CashLedger) (t : CoinTransfer) : Except CashAirError (Nat × Nat × Nat) := do
  let input ← (t.inputs ++ [t.feeReserve]).foldlM l.addAmount 0
  let output := input - t.fee
  return (← toU64 input, ← toU64 output, ← toU64 t.fee)

/-- The variables of the loop of `prove_cash_air`. -/
structure AirTrace where
  state : CashLedger
  rows : List CashAirRow
  applied : Nat
  rejected : Nat

def airRow (index : Nat) (before after : CashLedger) (values : Nat × Nat × Nat) (accepted : Bool) :
    CashAirRow where
  transferIndex := index
  preCells := before.cellSetRoot C
  postCells := after.cellSetRoot C
  preSupply := before.supplyRoot C
  postSupply := after.supplyRoot C
  accepted := accepted
  inputValue := if accepted then values.1 else 0
  outputValue := if accepted then values.2.1 else 0
  fee := if accepted then values.2.2 else 0

/-- The trace after a transfer that was tried. -/
def AirTrace.push (trace : AirTrace) (index : Nat) (values : Nat × Nat × Nat) :
    CashM PUnit × CashLedger → AirTrace
  | (.ok _, state) => ⟨state, trace.rows ++ [airRow C index trace.state state values true],
      trace.applied + 1, trace.rejected⟩
  | (.error _, state) => ⟨state, trace.rows ++ [airRow C index trace.state state values false],
      trace.applied, trace.rejected + 1⟩

/-- One round of the loop of `prove_cash_air`: the values are computed before the transfer is
tried. -/
def airRound (height : Nat) (trace : AirTrace) (entry : Nat × CoinTransfer) :
    Except CashAirError AirTrace := do
  let values ← trace.state.boundedValues entry.2
  return trace.push C entry.1 values ((applyTransfer C entry.2 height).exec trace.state)

section

variable (trace : AirTrace) (pre : CashLedger) (batch : CashTransferV1) (height partitions : Nat)

def AirTrace.evidence (plan : PartitionedCashPlan) : CashAirProof where
  publicInputs := {
    chainId := pre.definition.chainId
    batchCommitment := commit C .canonicalValue batch
    preCells := pre.cellSetRoot C
    postCells := trace.state.cellSetRoot C
    preSupply := pre.supplyRoot C
    postSupply := trace.state.supplyRoot C
    height := height
    partitions := partitions
    applied := trace.applied
    rejected := trace.rejected }
  plan := plan
  rows := trace.rows

def proveCashAir : Except CashAirError (CashAirProof × CashLedger) := do
  let plan ← (PartitionedCashPlan.build batch partitions).mapError fun _ => .transition
  let trace ← (plan.entries batch).foldlM (airRound C height) ⟨pre, [], 0, 0⟩
  return (trace.evidence C pre batch height partitions plan, trace.state)

def verifyCashAir (proof : CashAirProof) (expectedHeight expectedPartitions : Nat) :
    Except CashAirError CashLedger := do
  rejectIf (proof.publicInputs.height ≠ expectedHeight ∨
    proof.publicInputs.partitions ≠ expectedPartitions) .invalidProof
  let (expected, post) ← proveCashAir C pre batch expectedHeight expectedPartitions
  rejectIf (expected ≠ proof) .invalidProof
  return post

end

/-! ## The values of a transfer -/

section Values

variable {C} {l : CashLedger} {t : CoinTransfer}

theorem foldlM_addAmount (l : CashLedger) (ids : List CoinCellId) (input : Nat)
    (h : input + (ids.map l.amountAt).sum < 2 ^ 128) :
    ids.foldlM l.addAmount input = .ok (input + (ids.map l.amountAt).sum) := by
  induction ids generalizing input with
  | nil => rfl
  | cons id ids ih =>
    rw [map_cons, sum_cons] at h ⊢
    have hadd : l.addAmount input id = .ok (input + l.amountAt id) :=
      okOr_eq_ok.2 (checkedAdd_eq_some.2 ⟨rfl, by omega⟩)
    rw [foldlM_cons, hadd, ok_bind, ih _ (by omega), Nat.add_assoc]

theorem Valid.boundedValues_isOk_iff (h : l.Valid C) (ht : l.supply.currentTotalSupply < 2 ^ 64) :
    (∃ vs, l.boundedValues t = .ok vs) ↔ t.fee < 2 ^ 64 := by
  have hsum : ((t.inputs ++ [t.feeReserve]).map l.amountAt).sum ≤ l.cells.value :=
    l.cells.cells.sum_get?_le_total (nodup_inputs_reserve t.ordered t.reserveApart) CoinCell.amount
  have hp := h.partition
  have hl := foldlM_addAmount l (t.inputs ++ [t.feeReserve]) 0 (by omega)
  rw [boundedValues, hl, ok_bind]
  simp only [inversion, toU64, fitsIn_eq_some]
  constructor
  · rintro ⟨_, _, -, _, -, _, ⟨-, hfee⟩, -⟩
    exact hfee
  · intro hfee
    exact ⟨_, _, ⟨rfl, by omega⟩, _, ⟨rfl, by omega⟩, _, ⟨rfl, hfee⟩, rfl⟩

end Values

/-! ## The trace -/

section Trace

variable {C} {height : Nat} {batch : CashTransferV1} {trace trace' : AirTrace}

/-- The variables that the executor has as well. -/
def AirTrace.counted (trace : AirTrace) : CashLedger × Nat × Nat :=
  (trace.state, trace.applied, trace.rejected)

/-- What a round of the prover does to the trace: the executor's round, and the transfer goes to
the list of its verdict. -/
structure RoundEffect (C : Crypto) (height : Nat) (batch : CashTransferV1) (t : CoinTransfer)
    (trace trace' : AirTrace) : Prop where
  counted : trace'.counted = applyCounted C height trace.counted t
  state : trace'.state = Lanes.attempt (transferStep C height) trace.state t
  accepted : transfersWith batch true trace'.rows =
    transfersWith batch true trace.rows ++ Lanes.taken (transferStep C height) trace.state [t]
  rejected : transfersWith batch false trace'.rows =
    transfersWith batch false trace.rows ++ Lanes.refused (transferStep C height) trace.state [t]

open AirTrace

theorem airRound_ok {entry : Nat × CoinTransfer} (he : batch.transfers[entry.1]? = some entry.2)
    (h : airRound C height trace entry = .ok trace') :
    RoundEffect C height batch entry.2 trace trace' := by
  obtain ⟨i, t⟩ := entry
  simp only [airRound, inversion] at h
  obtain ⟨vs, -, rfl⟩ := h
  rcases hexec : (applyTransfer C t height).exec trace.state with ⟨e | ⟨⟩, s⟩
  · obtain ⟨rfl, -⟩ := Update.exec_atomically_eq_error.1 hexec
    have hn : transferStep C height t trace.state = none := by rw [transferStep, hexec]
    refine ⟨?_, ?_, ?_, ?_⟩
    · simp only [push, counted, applyCounted, hexec]
    · rw [attempt_of_none hn]
      rfl
    · simp [push, transfersWith, airRow, taken, hn]
    · simp [push, transfersWith, airRow, refused, hn, he]
  · have hs := transferStep_eq_some.2 hexec
    refine ⟨?_, ?_, ?_, ?_⟩
    · simp only [push, counted, applyCounted, hexec]
    · rw [attempt_of_some hs]
      rfl
    · simp [push, transfersWith, airRow, taken, hs, he]
    · simp [push, transfersWith, airRow, refused, hs]

/-- **The trace follows the executor**, transfer by transfer. -/
theorem foldlM_airRound_ok {es : List (Nat × CoinTransfer)}
    (hen : ∀ e ∈ es, batch.transfers[e.1]? = some e.2)
    (h : es.foldlM (airRound C height) trace = .ok trace') :
    trace'.counted = (es.map Prod.snd).foldl (applyCounted C height) trace.counted ∧
      transfersWith batch true trace'.rows = transfersWith batch true trace.rows ++
        taken (transferStep C height) trace.state (es.map Prod.snd) ∧
      transfersWith batch false trace'.rows = transfersWith batch false trace.rows ++
        refused (transferStep C height) trace.state (es.map Prod.snd) := by
  induction es generalizing trace with
  | nil =>
    cases h
    simp [taken, refused]
  | cons entry es ih =>
    obtain ⟨hent, hen⟩ := forall_mem_cons.1 hen
    rw [foldlM_cons, bind_eq_ok] at h
    obtain ⟨next, hro, hre⟩ := h
    have he := airRound_ok hent hro
    obtain ⟨hc, hac, hr⟩ := ih hen hre
    rw [hc, hac, hr, he.counted, he.accepted, he.rejected, he.state, append_assoc, append_assoc]
    exact ⟨rfl, congrArg _ (@Lanes.taken_append _ _ _ _ [entry.2] _).symm,
      congrArg _ (@Lanes.refused_append _ _ _ _ [entry.2] _).symm⟩

/-- Valid, and of less than `2 ^ 64` units. -/
def Countable (C : Crypto) (l : CashLedger) : Prop :=
  l.Valid C ∧ l.supply.currentTotalSupply < 2 ^ 64

theorem Countable.transferStep {l l' : CashLedger} {t : CoinTransfer} (h : l.Countable C)
    (hst : transferStep C height t l = some l') : l'.Countable C := by
  obtain ⟨he, hv, -⟩ := transferStep_ok hst
  obtain ⟨_, _, -, -, -, supply, ⟨-, hf⟩, heq⟩ := he
  have hs : l'.supply.toNativeSupplyFields = supply.toNativeSupplyFields := by rw [heq]
  refine ⟨hv, ?_⟩
  rw [hs, hf]
  exact h.2

theorem foldlM_airRound_isOk_iff {es : List (Nat × CoinTransfer)}
    (he : ∀ e ∈ es, batch.transfers[e.1]? = some e.2) (h : trace.state.Countable C) :
    (∃ trace', es.foldlM (airRound C height) trace = .ok trace') ↔
      ∀ e ∈ es, e.2.fee < 2 ^ 64 := by
  induction es generalizing trace with
  | nil => simp [pure, Except.pure]
  | cons entry es ih =>
    obtain ⟨hen, he⟩ := forall_mem_cons.1 he
    have haf : ∀ next, airRound C height trace entry = .ok next → next.state.Countable C := by
      intro next hr
      rw [(airRound_ok hen hr).state]
      exact inv_attempt (fun _ _ _ h hs => h.transferStep hs) h
    rw [forall_mem_cons, ← h.1.boundedValues_isOk_iff h.2]
    simp only [foldlM_cons, bind_eq_ok]
    constructor
    · rintro ⟨trace', next, hr, hre⟩
      refine ⟨?_, (ih he (haf next hr)).1 ⟨trace', hre⟩⟩
      obtain ⟨vs, hv, -⟩ := bind_eq_ok.1 hr
      exact ⟨vs, hv⟩
    · rintro ⟨⟨vs, hv⟩, hf⟩
      obtain ⟨next, hr⟩ : ∃ next, airRound C height trace entry = .ok next := by
        rw [airRound, hv]
        exact ⟨_, rfl⟩
      obtain ⟨trace', hre⟩ := (ih he (haf next hr)).2 hf
      exact ⟨trace', next, hr, hre⟩

end Trace

/-! ## Evidence and execution -/

section Evidence

variable {C} {l : CashLedger} {batch : CashTransferV1} {height partitions : Nat}
  {plan : PartitionedCashPlan}

theorem getElem?_of_mem_entries {e : Nat × CoinTransfer} (h : e ∈ plan.entries batch) :
    batch.transfers[e.1]? = some e.2 := by
  obtain ⟨i, -, h⟩ := mem_filterMap.1 h
  obtain ⟨t, ht, rfl⟩ := Option.map_eq_some_iff.1 h
  exact ht

theorem entries_map_snd (plan : PartitionedCashPlan) (batch : CashTransferV1) :
    (plan.entries batch).map Prod.snd = plan.order batch := by
  rw [entries, order, map_filterMap]
  refine filterMap_congr fun i _ => ?_
  rw [Option.map_map]
  exact Option.map_id'

theorem mem_order_iff (h : build batch partitions = .ok plan) {t : CoinTransfer} :
    t ∈ plan.order batch ↔ t ∈ batch.transfers := by
  rw [order_of_build h, (parallel_append_fallback_perm _).mem_iff, plan_map_snd]

theorem entries_fees_iff (h : build batch partitions = .ok plan) :
    (∀ e ∈ plan.entries batch, e.2.fee < 2 ^ 64) ↔ ∀ t ∈ batch.transfers, t.fee < 2 ^ 64 := by
  simp only [← mem_order_iff h, ← entries_map_snd, forall_mem_map]

/-- `prove_cash_air` gives evidence that `verify_cash_air` accepts, and `apply_partitioned_batch`
agrees with it. -/
structure EvidenceFollows (C : Crypto) (l : CashLedger) (batch : CashTransferV1)
    (height partitions : Nat) (proof : CashAirProof) (post : CashLedger) : Prop where
  proved : l.proveCashAir C batch height partitions = .ok (proof, post)
  executed : (applyPartitionedBatch C batch height partitions).exec l =
    (.ok ⟨proof.plan, proof.publicInputs.applied, proof.publicInputs.rejected⟩, post)
  cells : proof.publicInputs.postCells = post.cellSetRoot C
  supply : proof.publicInputs.postSupply = post.supplyRoot C
  accepted : proof.accepted batch =
    Lanes.taken (transferStep C height) l (proof.plan.order batch)
  rejected : proof.rejected batch =
    Lanes.refused (transferStep C height) l (proof.plan.order batch)
  verified : l.verifyCashAir C batch proof height partitions = .ok post

variable {proof : CashAirProof} {post : CashLedger}

theorem proveCashAir_eq_ok :
    l.proveCashAir C batch height partitions = .ok (proof, post) ↔
      ∃ plan trace, build batch partitions = .ok plan ∧
        (plan.entries batch).foldlM (airRound C height) ⟨l, [], 0, 0⟩ = .ok trace ∧
        proof = trace.evidence C l batch height partitions plan ∧ post = trace.state := by
  simp only [proveCashAir, inversion, Prod.mk.injEq, exists_and_left, @eq_comm _ proof,
    @eq_comm _ post]

section

variable (h : l.proveCashAir C batch height partitions = .ok (proof, post))
include h

theorem verifyCashAir_of_proved : l.verifyCashAir C batch proof height partitions = .ok post := by
  have hp : proof.publicInputs.height = height ∧ proof.publicInputs.partitions = partitions := by
    obtain ⟨plan, trace, -, -, rfl, -⟩ := proveCashAir_eq_ok.1 h
    exact ⟨rfl, rfl⟩
  rw [verifyCashAir, rejectIf_of_not (by simp [hp]), ok_bind, h, ok_bind]
  dsimp only
  rw [rejectIf_of_not (not_not.2 rfl)]
  rfl

/-- **Evidence that exists follows the execution.** -/
theorem evidenceFollows_of_proved : EvidenceFollows C l batch height partitions proof post := by
  have hv := verifyCashAir_of_proved h
  obtain ⟨plan, trace, hb, ht, hp, hpo⟩ := proveCashAir_eq_ok.1 h
  subst hp hpo
  obtain ⟨hc, hac, hr⟩ := foldlM_airRound_ok (fun _ => getElem?_of_mem_entries) ht
  rw [entries_map_snd] at hc hac hr
  refine ⟨h, ?_, rfl, rfl, hac, hr, hv⟩
  have hl : (plan.order batch).foldl (applyCounted C height) (l, 0, 0) =
      (trace.state, trace.applied, trace.rejected) := hc.symm
  simp only [applyPartitionedBatch, hb, Update.exec_bind, Update.exec_check, Update.exec_get,
    Update.exec_set, Update.exec_pure, invalid, Except.mapError, hl]
  rfl

end

/-- On a ledger of less than `2 ^ 64` units the prover stops at fees alone. -/
theorem Countable.proveCashAir_isOk_iff (h : l.Countable C) :
    (∃ r, l.proveCashAir C batch height partitions = .ok r) ↔
      (partitions ≠ 0 ∧ partitions ≤ maxCashPartitions) ∧
        ∀ t ∈ batch.transfers, t.fee < 2 ^ 64 := by
  constructor
  · rintro ⟨⟨proof, post⟩, hp⟩
    obtain ⟨plan, trace, hb, ht, -⟩ := proveCashAir_eq_ok.1 hp
    refine ⟨?_, (entries_fees_iff hb).1 ?_⟩
    · simp only [build, inversion] at hb
      omega
    · exact (foldlM_airRound_isOk_iff (fun _ => getElem?_of_mem_entries) h).1 ⟨trace, ht⟩
  · rintro ⟨hc, hf⟩
    obtain ⟨plan, hb⟩ : ∃ plan, build batch partitions = .ok plan := by
      rw [build, rejectIf_of_not (by omega)]
      exact ⟨_, rfl⟩
    obtain ⟨trace, ht⟩ : ∃ trace, (plan.entries batch).foldlM (airRound C height)
        ⟨l, [], 0, 0⟩ = .ok trace :=
      (foldlM_airRound_isOk_iff (fun _ => getElem?_of_mem_entries) h).2
        ((entries_fees_iff hb).2 hf)
    exact ⟨_, proveCashAir_eq_ok.2 ⟨plan, trace, hb, ht, rfl, rfl⟩⟩

/-- **A batch has evidence that follows its execution exactly when the fee of each of its transfers
fits in 64 bits**, accepted or not, on a ledger whose total supply does. -/
theorem cash_air_follows_iff (hvalid : l.verifyInvariants C = .ok ())
    (htotal : l.supply.currentTotalSupply < 2 ^ 64) (batch : CashTransferV1)
    (height partitions : Nat) :
    (∃ proof post, EvidenceFollows C l batch height partitions proof post) ↔
      (partitions ≠ 0 ∧ partitions ≤ maxCashPartitions) ∧
        ∀ t ∈ batch.transfers, t.fee < 2 ^ 64 := by
  have hs : l.Countable C := ⟨.of_verifyInvariants hvalid, htotal⟩
  rw [← hs.proveCashAir_isOk_iff]
  constructor
  · rintro ⟨proof, post, hf⟩
    exact ⟨_, hf.proved⟩
  · rintro ⟨⟨proof, post⟩, hp⟩
    exact ⟨proof, post, evidenceFollows_of_proved hp⟩

end Evidence

end CashLedger

namespace UnpayableFee

open CashLedger OutputSpentEarly

def payment : CoinTransfer :=
  ⟨7, 8, [cellId 1], cellId 3, 5, 1, 10, first.bounds, first.ordered, first.reserveApart,
    second.amountChecked⟩

def boast : CoinTransfer :=
  ⟨7, 8, [cellId 2], cellId 4, 5, 2 ^ 64, 10, second.bounds, second.ordered,
    by decide +kernel, second.amountChecked⟩

def batch : CashTransferV1 := ⟨[payment, boast], by decide, by decide +kernel⟩

def paymentBatch : CashTransferV1 := ⟨[payment], by decide, by decide +kernel⟩

/-- The executor applies the payment and rejects the boast.  The prover has no evidence for it. -/
theorem rejected_fee_stops_prover :
    ledger.verifyInvariants .transparent = .ok () ∧
    ledger.supply.currentTotalSupply < 2 ^ 64 ∧
    ((applyPartitionedBatch .transparent batch 3 1).exec ledger).1.toOption.map
      (fun receipt => (receipt.applied, receipt.rejected)) = some (1, 1) ∧
    ¬ ∃ r, ledger.proveCashAir .transparent batch 3 1 = .ok r := by
  have hl : ledger.Countable .transparent := ⟨.of_verifyInvariants ledger_checked, by decide⟩
  refine ⟨ledger_checked, by decide, by decide +kernel, ?_⟩
  rw [hl.proveCashAir_isOk_iff]
  decide

theorem payment_has_evidence :
    ledger.verifyInvariants .transparent = .ok () ∧
    ledger.supply.currentTotalSupply < 2 ^ 64 ∧
    ∃ proof post, EvidenceFollows .transparent ledger paymentBatch 3 1 proof post := by
  have ht : ledger.supply.currentTotalSupply < 2 ^ 64 := by decide
  refine ⟨ledger_checked, ht, (cash_air_follows_iff ledger_checked ht _ _ _).2 ?_⟩
  decide

end UnpayableFee

end ActiveChain
