import ActiveChain.Cash.History
import ActiveChain.Cash.LedgerCodec

/-!
# Reachable ledgers survive their encoding

A ledger that arises from a genesis by the eight operations holds machine numbers only, and every
part of it passes the constructor that its reader uses.

* `CashCall.keeps_prepare` — every operation keeps it, statement by statement.
-/

namespace ActiveChain

open Except List Nat SortedMap NullifierSet NativeSupply

/-- The hash gives 48 bytes. -/
def Crypto.DigestsFit (C : Crypto) : Prop := ∀ t, C.shake256 t < 256 ^ 48

/-- The hash does not map a commitment to nullifiers to the zero digest, which stands for a missing
one. -/
def NullifierRootsNonzero (C : Crypto) : Prop :=
  ∀ count tree, setCommitmentRoot C .nullifier count tree ≠ Digest384.zero

/-! ## Calls on machine numbers -/

/-- The numbers that a call hands over to new cells and to the epoch counter: owners, heights and
epochs. -/
structure CashCall.Labels where
  owners : List PrincipalId
  height : Nat
  epoch : Nat

def CashCall.labels : CashCall → Labels
  | .transfer t height => ⟨[t.sender, t.recipient], height, 0⟩
  | .sponsoredTransfer _ request t height => ⟨[t.sender, t.recipient, request.sponsor], height, 0⟩
  | .burn b height => ⟨[b.owner], height, 0⟩
  | .mint m _ => ⟨[m.recipient], m.height, m.sequence⟩
  | .settle settlement => ⟨[], 0, settlement.epoch⟩
  | .shield intent _ height => ⟨[intent.owner], height, 0⟩
  | .unshield intent _ height => ⟨[intent.recipient], height, 0⟩
  | .redeem settlement redemption =>
    ⟨[redemption.poolOwner, settlement.verifier], redemption.height, 0⟩

/-- Owners of 48 bytes, heights and epochs of eight. -/
structure CashCall.InRange (call : CashCall) : Prop where
  owners : ∀ owner ∈ call.labels.owners, owner < 256 ^ 48
  height : call.labels.height < 256 ^ 8
  epoch : call.labels.epoch < 256 ^ 8

/-- Digests of 48 bytes in the definition and in the recipients. -/
structure GenesisEconomy.InRange (economy : GenesisEconomy) : Prop where
  definition : economy.definition.InRange
  recipients : ∀ a ∈ economy.allocations, a.recipient < 256 ^ 48

namespace CashLedger

/-- Machine numbers where the final check does not look. -/
structure Bounded (l : CashLedger) : Prop where
  definition : l.definition.InRange
  lastSettledEpoch : l.supply.lastSettledEpoch < 256 ^ 8
  opening : l.supply.issuanceWindowOpeningSupply < 256 ^ 16
  labels : ∀ id cell, l.cells.cells.get? id = some cell → cell.LabelsInRange
  anchor : l.shielded.anchor < 256 ^ 48
  anchored : l.shielded.poolBalance = 0 → l.shielded.anchor = Digest384.zero
  nullifiers : l.shielded.nullifiers.InRange
  redeemedRewardRoot : l.redeemedRewardRoot < 256 ^ 48
  redeemedRewardCount : l.redeemedRewardCount < 256 ^ 8

variable {C : Crypto} {l l' : CashLedger}

/-- The final check bounds the amounts, and the hash the identifiers. -/
theorem Bounded.inRange (hfi : C.DigestsFit) (h : l.Bounded) (hv : l.Valid C) : l.InRange := by
  obtain ⟨-, -, -, ht, -⟩ := l.supply.amounts_lt
  have hp := hv.partition
  have hbps := l.definition.bpsChecked
  refine ⟨h.definition, ⟨h.lastSettledEpoch, h.opening, ?_⟩, ?_, ⟨by omega, h.anchor, h.nullifiers,
    h.anchored⟩, h.redeemedRewardRoot, h.redeemedRewardCount⟩
  · obtain ⟨cap, hcap, hle⟩ := hv.cap
    have hf : cap ≤ l.supply.issuanceWindowOpeningSupply := by
      rw [eq_floor_of_basisPointsAmount hcap, div_le_iff_le_mul_add_pred (by decide)]
      refine le_trans (Nat.mul_le_mul_left _ hbps) ?_
      simp only [basisPointsDenominator]
      omega
    exact lt_of_le_of_lt (hle.trans hf) h.opening
  · rintro ⟨id, cell⟩ hmem
    have hget := mem_entries.1 hmem
    have ham : valueOf [(id, cell)] ≤ l.cells.value :=
      sum_le_total (by simp) (by simpa using hget) CoinCell.amount
    simp only [valueOf_cons, valueOf_nil] at ham
    have hid : coinCellId C cell.origin = id := hv.named id cell hget
    exact ⟨hid ▸ hfi _, h.labels id cell hget, by dsimp only; omega⟩

/-! ## New cells -/

section Cells

variable {transitionId : TransactionId} {index amount height : Nat} {owner : PrincipalId}
  {spent created : List CoinCellRecord} {cells : CoinCellSet}

abbrev Labelled (cells : CoinCellSet) : Prop :=
  ∀ id cell, cells.cells.get? id = some cell → cell.LabelsInRange

theorem labels_of_rebuildCells (h : l.Bounded) (hc : ∀ r ∈ created, r.2.LabelsInRange)
    (hce : l.rebuildCells spent created = .ok cells) : Labelled cells := by
  intro id cell hget
  rcases (replaces_of_rebuildCells hce).get?_eq_some.1 hget with hnew | ⟨-, hold⟩
  · exact hc _ hnew
  · exact h.labels id cell hold

variable (hh : height < 256 ^ 8)
include hh

section

variable (hid : transitionId < 256 ^ 48) (hi : index < 256 ^ 2) (ho : owner < 256 ^ 48)
include hid hi ho

theorem labels_of_newRecord {r : CoinCellRecord}
    (h : newRecord C transitionId index owner amount height = .ok r) : r.2.LabelsInRange := by
  simp only [newRecord, inversion, invalid_eq_ok, CoinCell.new_eq_ok] at h
  obtain ⟨cell, ⟨hor, rfl, -, rfl⟩, rfl⟩ := h
  exact ⟨by rw [hor]; exact hid, by rw [hor]; exact hi, ho, hh⟩

theorem labels_of_changeRecords {rs : List CoinCellRecord}
    (h : changeRecords C transitionId index owner amount height = .ok rs) :
    ∀ r ∈ rs, r.2.LabelsInRange := by
  unfold changeRecords at h
  split at h
  · simp only [inversion] at h
    obtain ⟨r, hr, rfl⟩ := h
    simpa using labels_of_newRecord hh hid hi ho hr
  · cases h
    simp

end

variable {t : CoinTransfer} (hf : C.DigestsFit) (h : l.Bounded)
include hf h

theorem labels_of_transferCells (hs : t.sender < 256 ^ 48) (hr : t.recipient < 256 ^ 48)
    (hc : l.transferCells C t height = .ok cells) : Labelled cells := by
  simp only [transferCells, inversion] at hc
  obtain ⟨-, _, -, _, -, -, recipient, hnew, change, hch, hc⟩ := hc
  refine labels_of_rebuildCells h (forall_mem_cons.2 ⟨?_, ?_⟩) hc
  · exact labels_of_newRecord hh (hf _) (by decide) hr hnew
  · exact labels_of_changeRecords hh (hf _) (by decide) hs hch

theorem labels_of_sponsoredCells {sponsor : PrincipalId} (hse : t.sender < 256 ^ 48)
    (hr : t.recipient < 256 ^ 48) (hs : sponsor < 256 ^ 48)
    (hc : l.sponsoredCells C sponsor t (cashTransitionId C t) height = .ok cells) :
    Labelled cells := by
  simp only [sponsoredCells, inversion] at hc
  obtain ⟨-, _, -, -, _, -, -, recipient, hnew, change, hch, rest, hre, hc⟩ := hc
  refine labels_of_rebuildCells h (forall_mem_cons.2 ⟨?_, forall_mem_append.2 ⟨?_, ?_⟩⟩) hc
  · exact labels_of_newRecord hh (hf _) (by decide) hr hnew
  · exact labels_of_changeRecords hh (hf _) (by decide) hse hch
  · exact labels_of_changeRecords hh (hf _) (by decide) hs hre

theorem labels_of_burnCells {b : CoinBurnTransition} (ho : b.owner < 256 ^ 48)
    (hc : l.burnCells C b height = .ok cells) : Labelled cells := by
  simp only [burnCells, inversion] at hc
  obtain ⟨-, _, -, -, change, hch, hc⟩ := hc
  exact labels_of_rebuildCells h (labels_of_changeRecords hh (hf _) (by decide) ho hch) hc

theorem labels_of_shieldCells {i : ShieldIntent} {proof : VerifiedPrivacyProof} {c : Digest384}
    (ho : i.owner < 256 ^ 48) (hc : l.shieldCells C i proof height = .ok (cells, c)) :
    Labelled cells ∧ c < 256 ^ 48 := by
  simp only [shieldCells, verifyPrivacyProof, inversion, Prod.mk.injEq] at hc
  obtain ⟨-, _, ⟨-, -, rfl⟩, _, -, _, -, -, change, hch, _, hc, rfl, rfl⟩ := hc
  exact ⟨labels_of_rebuildCells h (labels_of_changeRecords hh (hf _) (by decide) ho hch) hc, hf _⟩

theorem labels_of_insertNewCell {r : CoinCellRecord} {α : Type} [CanonicalType α] {i : α}
    (ho : owner < 256 ^ 48) (hr : newRecord C (cashTransitionId C i) 0 owner amount height = .ok r)
    (hc : l.insertNewCell r = .ok cells) : Labelled cells := by
  simp only [insertNewCell, inversion] at hc
  refine labels_of_rebuildCells h ?_ hc.2
  simpa using labels_of_newRecord hh (hf _) (by decide) ho hr

end Cells

/-! ## Operations -/

section Operations

variable {t : CoinTransfer} {height : Nat}

theorem keeps_moveFeeToReserve {fee : Nat} : (moveFeeToReserve fee).Keeps Bounded l := by
  refine .get_bind (.check_bind fun supply hs => .modified fun h => ?_)
  obtain ⟨-, hf⟩ := supplyAfterFee_ok hs
  exact { h with
    lastSettledEpoch := by simpa only [hf] using h.lastSettledEpoch
    opening := by simpa only [hf] using h.opening }

theorem Bounded.settled (h : l.Bounded) {supply : NativeSupply} {amount : Nat}
    (hs : Settled l.definition l.supply supply amount)
    (he : l.supply.lastSettledEpoch + 1 < 256 ^ 8) :
    supply.lastSettledEpoch < 256 ^ 8 ∧ supply.issuanceWindowOpeningSupply < 256 ^ 16 := by
  obtain ⟨hf, -⟩ := hs
  refine ⟨by simpa only [hf] using he, ?_⟩
  simp only [hf, windowBefore]
  split
  · exact h.opening
  · exact l.supply.amounts_lt.2.2.2.1

variable {settlement : EpochEconomicsTransition}

theorem keeps_prepareSettlement (he : settlement.epoch < 256 ^ 8) :
    (prepareSettlement settlement).Keeps Bounded l := by
  refine .get_bind (.check_bind fun supply hsu => .modified fun h => ?_)
  obtain ⟨heq, hs⟩ := supplyAfterSettlement_ok hsu
  obtain ⟨hl, hopening⟩ := h.settled hs (heq ▸ he)
  exact { h with lastSettledEpoch := hl, opening := hopening }

theorem insert_root {c next : SetCommitment} {key : AccumulatorKey} {w : NonMembershipWitness}
    (h : c.insert C key w = .ok next) :
    next.domain = c.domain ∧ next.count < 2 ^ 64 ∧
      ∃ tree, next.root = setCommitmentRoot C c.domain next.count tree := by
  simp only [SetCommitment.insert, inversion] at h
  obtain ⟨-, -, _, ⟨rfl, hc⟩, rfl⟩ := h
  exact ⟨rfl, hc, _, rfl⟩

variable (hf : C.DigestsFit)
include hf

theorem keeps_prepareMint {mint : CoinMintTransition} (hr : mint.recipient < 256 ^ 48)
    (hh : mint.height < 256 ^ 8) (he : mint.sequence < 256 ^ 8) :
    (prepareMint C mint settlement).Keeps Bounded l := by
  refine .assume fun hb => .get_bind (.check_bind fun ⟨window, before⟩ hc =>
    .check_bind fun r hre => .check_bind fun cs hce => .modify_bind (fun h => ?_)
      (.check_bind fun supply hsu => .modify_bind (fun h => ?_) (.of_readOnly fun _ => rfl)))
  · exact { h with labels := labels_of_insertNewCell hh hf h hr hre hce }
  · have hs := hb.settled (supplyAfterMint_ok hc hsu) ((mintChecks_ok hc).1 ▸ he)
    exact { h with lastSettledEpoch := hs.1, opening := hs.2 }

theorem nullifiers_of_consumeLoop (hn : NullifierRootsNonzero C)
    {next : SetCommitment} (items : List (AccumulatorKey × NullifierWitness)) :
    ∀ {c : SetCommitment}, c.domain = .nullifier → (fromCommitment c).InRange →
      consumeLoop C c items = .ok next → (fromCommitment next).InRange := by
  induction items with
  | nil =>
    intro c _ hc h
    cases h
    exact hc
  | cons item items ih =>
    intro c hd hc h
    simp only [consumeLoop, inversion] at h
    obtain ⟨-, between, hi, hre⟩ := h
    obtain ⟨hs, hco, tree, hr⟩ := insert_root hi
    rw [hd] at hr
    exact ih (hs.trans hd) ⟨lt_of_eq_of_lt hr (hf _), fun hz => hn _ _ (hr.symm.trans hz), hco⟩ hre

section

variable (hh : height < 256 ^ 8)
include hh

theorem keeps_prepareTransfer (hs : t.sender < 256 ^ 48) (hr : t.recipient < 256 ^ 48) :
    (prepareTransfer C t height).Keeps Bounded l := by
  refine .get_bind (.check_bind fun cs hc => .modify_bind (fun h => ?_) keeps_moveFeeToReserve)
  exact { h with labels := labels_of_transferCells hh hf h hs hr hc }

theorem keeps_prepareSponsored {sponsor : PrincipalId} (hse : t.sender < 256 ^ 48)
    (hr : t.recipient < 256 ^ 48) (hs : sponsor < 256 ^ 48) :
    (prepareSponsored C sponsor t (cashTransitionId C t) height).Keeps Bounded l := by
  refine .get_bind (.check_bind fun cs hc => .modify_bind (fun h => ?_) keeps_moveFeeToReserve)
  exact { h with labels := labels_of_sponsoredCells hh hf h hse hr hs hc }

theorem keeps_prepareBurn {b : CoinBurnTransition} (ho : b.owner < 256 ^ 48) :
    (prepareBurn C b height).Keeps Bounded l := by
  refine .get_bind (.check_bind fun cs hc => .modify_bind (fun h => ?_)
    (.check_bind fun supply hs => .modified fun h => ?_))
  · exact { h with labels := labels_of_burnCells hh hf h ho hc }
  · obtain ⟨-, hs⟩ := supplyAfterBurn_ok hs
    exact { h with
      lastSettledEpoch := by simpa only [hs] using h.lastSettledEpoch
      opening := by simpa only [hs] using h.opening }

variable {proof : VerifiedPrivacyProof}

theorem keeps_prepareShield {i : ShieldIntent} (ho : i.owner < 256 ^ 48) :
    (prepareShield C i proof height).Keeps Bounded l := by
  refine .assume fun hb => .get_bind (.check_bind fun ⟨cells, commitment⟩ hc =>
    .modify_bind (fun h => ?_) (.check_bind fun shielded hs => .modify_bind (fun h => ?_)
      keeps_moveFeeToReserve))
  · exact { h with labels := (labels_of_shieldCells hh hf h ho hc).1 }
  · simp only [inversion, ShieldedCashState.credit] at hs
    obtain ⟨⟨ham, -⟩, _, ⟨rfl, -⟩, rfl⟩ := hs
    exact { h with
      anchor := (labels_of_shieldCells hh hf hb ho hc).2
      anchored := fun hz => absurd (Nat.add_eq_zero_iff.1 hz).2 ham }

theorem keeps_prepareUnshield (hn : NullifierRootsNonzero C) {i : UnshieldIntent}
    (hr : i.recipient < 256 ^ 48) :
    (prepareUnshield C i proof height).Keeps Bounded l := by
  refine .get_bind (.check_bind fun shielded hs => .assume fun hb =>
    .modify_bind (fun h => ?_) (.check_bind fun r hre => .check_bind fun cs hc =>
      .modify_bind (fun h => ?_)
        (.bind keeps_moveFeeToReserve fun _ _ _ => .of_readOnly fun _ => rfl)))
  · simp only [unshieldPool, verifyPrivacyProof, ShieldedCashState.debit,
      consumeVerified, inversion] at hs
    obtain ⟨-, -, _, ⟨-, -, rfl⟩, _, -, -, _, ⟨-, -, -, next, hl, rfl⟩, rfl⟩ := hs
    refine { h with anchor := ?_, anchored := ?_, nullifiers := ?_ }
    · split_ifs
      · exact Nat.pow_pos (by decide)
      · exact hf _
    · intro hz
      exact if_pos hz
    · have hset : (fromCommitment l.shielded.nullifiers.commitment).InRange := h.nullifiers
      exact nullifiers_of_consumeLoop hf hn _ rfl hset hl
  · exact { h with labels := labels_of_insertNewCell hh hf hb hr hre hc }

end

theorem keeps_prepareRedeem {settlement : RewardSettlement} {r : RewardRedemption}
    (ho : r.poolOwner < 256 ^ 48) (hv : settlement.verifier < 256 ^ 48) (hh : r.height < 256 ^ 8) :
    (prepareRedeem C settlement r).Keeps Bounded l := by
  refine .get_bind (.check_bind fun ⟨next, transfer⟩ hc => ?_)
  simp only [redeemChecks, inversion, invalid_eq_ok, Prod.mk.injEq] at hc
  obtain ⟨-, _, hi, _, ht, rfl, rfl⟩ := hc
  unfold CoinTransfer.new at ht
  split_ifs at ht
  cases ht
  obtain ⟨-, hco, tree, hro⟩ := insert_root hi
  refine .bind ?_ fun _ _ _ => .modified fun h => ?_
  · exact .bind (keeps_prepareTransfer hf hh ho hv) fun _ _ _ =>
      .get_bind (.of_readOnly (.check _))
  · exact { h with redeemedRewardRoot := hro ▸ hf _, redeemedRewardCount := hco }

end Operations

end CashLedger

open CashLedger

theorem CashCall.keeps_prepare {C : Crypto} (hf : C.DigestsFit) (hn : NullifierRootsNonzero C)
    {call : CashCall} (h : call.InRange) {l : CashLedger} : (call.prepare C).Keeps Bounded l := by
  obtain ⟨ho, hh, he⟩ := h
  have hd : ∀ {m : LedgerM CoinCellId}, m.Keeps Bounded l →
      (do let _ ← m : LedgerM PUnit).Keeps Bounded l :=
    fun hm => .bind hm fun _ _ _ => .of_readOnly fun _ => rfl
  cases call with
  | transfer t height =>
    exact keeps_prepareTransfer hf hh (ho _ (.head _)) (ho _ (.tail _ (.head _)))
  | sponsoredTransfer policy request t height =>
    exact keeps_prepareSponsored hf hh (ho _ (.head _)) (ho _ (.tail _ (.head _)))
      (ho _ (.tail _ (.tail _ (.head _))))
  | burn b height => exact keeps_prepareBurn hf hh (ho _ (.head _))
  | mint m settlement =>
    exact hd (keeps_prepareMint hf (ho _ (.head _)) hh he)
  | settle settlement => exact keeps_prepareSettlement he
  | shield i proof height => exact keeps_prepareShield hf hh (ho _ (.head _))
  | unshield i proof height =>
    exact hd (keeps_prepareUnshield hf hh hn (ho _ (.head _)))
  | redeem settlement r =>
    exact keeps_prepareRedeem hf (ho _ (.head _)) (ho _ (.tail _ (.head _))) hh

/-! ## Runs -/

section Runs

variable {C : Crypto} {economy : GenesisEconomy} {ledger : CashLedger}

section

variable (hf : C.DigestsFit) (hn : NullifierRootsNonzero C)
include hf hn

theorem CashLedger.Bounded.genesis (he : economy.InRange)
    (h : fromGenesis C economy = .ok ledger) : ledger.Bounded := by
  simp only [fromGenesis, inversion, invalid_eq_ok, CoinCellSet.new_eq_ok] at h
  obtain ⟨rs, hr, cs, hc, locked, -, supply, hs, -, rfl⟩ := h
  have hfi := fields_of_genesis hs
  refine ⟨he.definition, ?_, ?_, ?_, Nat.pow_pos (by decide), fun _ => rfl,
    ⟨hf _, hn _ _, Nat.pow_pos (by decide)⟩, hf _, Nat.pow_pos (by decide)⟩
  · simp only [hfi, genesisFields]
    exact Nat.pow_pos (by decide)
  · simp only [hfi, genesisFields]
    exact economy.definition.supplyChecked.2
  · intro id cell hget
    have hmem := mem_entries.2 hget
    rw [hc, (sortEntries_perm rs).mem_iff] at hmem
    obtain ⟨⟨a, i⟩, ha, hre⟩ := mem_of_mapM hr hmem
    obtain ⟨ha, -⟩ := mem_filter.1 ha
    obtain ⟨hi, heq⟩ := mem_zipIdx' ha
    refine labels_of_newRecord (Nat.pow_pos (by decide)) (hf _) ?_ (he.recipients a ?_) hre
    · exact lt_of_lt_of_le hi (economy.bounds.2.trans (by decide))
    · exact heq ▸ getElem_mem hi

theorem CashCall.bounded_of_exec {s : CashState} {call : CashCall} (hc : call.InRange)
    (h : s.ledger.Bounded) : (call.exec C s).2.ledger.Bounded := by
  rcases hexec : call.exec C s with ⟨e | u, s'⟩
  · rw [exec_error hexec]
    exact h
  · have hk := call.keeps_prepare hf hn hc h
    rwa [(exec_ok hexec).1] at hk

theorem CashState.bounded_run (calls : List CashCall) :
    ∀ {s : CashState}, s.ledger.Bounded → (∀ call ∈ calls, call.InRange) →
      (s.run C calls).ledger.Bounded := by
  induction calls with
  | nil =>
    intro s h _
    exact h
  | cons call calls ih =>
    intro s h hc
    obtain ⟨hca, hc⟩ := forall_mem_cons.1 hc
    exact ih (call.bounded_of_exec hf hn hca h) hc

end

open CashState

/-- **Reachable ledgers survive their encoding, and no other ledger comes out of the decoder than
one that passes the check.** -/
theorem cash_ledger_round_trips (hfits : C.DigestsFit) (hnonzero : NullifierRootsNonzero C)
    (heconomy : economy.InRange) (hgenesis : fromGenesis C economy = .ok ledger)
    (policies : Nat → CashPaymasterPolicyV1) {calls : List CashCall}
    (hcalls : ∀ call ∈ calls, call.InRange) :
    (∃ input, (codec C).encodeEnvelope (CashState.run C ⟨ledger, policies⟩ calls).ledger =
      .ok input ∧
      (codec C).decodeEnvelope input = .ok (CashState.run C ⟨ledger, policies⟩ calls).ledger) ∧
    (∀ input l, (codec C).decodeEnvelope input = .ok l → l.verifyInvariants C = .ok ()) ∧
    ∀ input l rest, (decode C).run input = .ok (l, rest) → l.verifyInvariants C = .ok () := by
  have hc : Codes (codec C).encode (codec C).decode
      (fun l => l.InRange ∧ l.verifyInvariants C = .ok ()) bytes := codes C
  have hmax : (codec C).maxEncodedLen ≤ maxBodyLength := by
    simp only [codec, maxSymbolLength, maxCoinCells, maxBodyLength]
    omega
  refine ⟨?_, fun input l h => ((hc.decodeEnvelope_eq_ok hmax).1 h).1.2, fun input l rest h =>
    ((codes C).read_eq_ok.1 h).1.2⟩
  have hb : (run C ⟨ledger, policies⟩ calls).ledger.Bounded :=
    bounded_run hfits hnonzero calls (.genesis hfits hnonzero heconomy hgenesis) hcalls
  have hv : (run C ⟨ledger, policies⟩ calls).ledger.Valid C :=
    valid_run (fromGenesis_ok hgenesis).1 calls
  have hr := And.intro (hb.inRange hfits hv) hv.verifyInvariants
  have hl := length_bytes_le C (run C ⟨ledger, policies⟩ calls).ledger
  exact ⟨_, (hc.encodeEnvelope_eq_ok hmax hr).2 ⟨hl, rfl⟩,
    (hc.decodeEnvelope_eq_ok hmax).2 ⟨hr, hl, rfl⟩⟩

end Runs

namespace SmallLedger

/-- A hash of 48 bytes that never gives the zero digest. -/
def reduced : Crypto :=
  { Crypto.transparent with shake256 := fun t => Crypto.transparent.shake256 t %
    (256 ^ 48 - 1) + 1 }

theorem reduced_fits : reduced.DigestsFit := fun _ =>
  Nat.lt_sub_iff_add_lt.1 (mod_lt _ (by decide))

theorem burned_round_trips :
    (∃ s', (CashCall.burn (genesisBurn reduced) 3).exec reduced (start reduced) = (.ok (), s')) ∧
    ∃ input, (codec reduced).encodeEnvelope ((start reduced).run reduced
        [.burn (genesisBurn reduced) 3]).ledger = .ok input ∧
      (codec reduced).decodeEnvelope input =
        .ok ((start reduced).run reduced [.burn (genesisBurn reduced) 3]).ledger := by
  have hg := fromGenesis_economy (C := reduced) fun _ _ => succ_ne_zero _
  have hv := (fromGenesis_ok hg).1
  obtain ⟨l', hp⟩ := exists_snd
    (by decide +kernel : ((prepareBurn reduced (genesisBurn reduced) 3).exec
      (genesisLedger reduced)).1 = .ok ⟨⟩)
  have haf := hv.of_burn (prepareBurn_ok hp)
  refine ⟨⟨_, CashState.onLedger_of_ok (checked_of_prepare hp haf)⟩, ?_⟩
  have hd : definition.InRange := by constructor <;> decide
  refine (cash_ledger_round_trips reduced_fits (fun _ _ => succ_ne_zero _)
    ⟨hd, ?_⟩ hg (fun _ => policy) ?_).1
  · simp [economy]
  · simp only [forall_mem_singleton]
    exact ⟨by simp [CashCall.labels, genesisBurn], by decide, by decide⟩

end SmallLedger

end ActiveChain
