import ActiveChain.Cash.Effects

/-!
# Value is conserved

Every operation keeps the ledger valid: live cells, shielded pool, reserve, vesting and stake
together are what genesis, issuance and burning left.  The final check of an operation never fails,
and a failed operation changes nothing.

* `Valid.of_transfer` and its fellows — each effect keeps the ledger valid.
* `CashCall.exec_error`, `CashCall.exec_ok` — a call fails without trace, or installs a valid
  ledger.
-/

namespace ActiveChain

open Function Update List Update.FailsWith

/-! ## Calls -/

/-- The ledger, and the policies that sponsors hold beside it. -/
structure CashState where
  ledger : CashLedger
  policies : Nat → CashPaymasterPolicyV1

/-- A call of one of the eight operations. -/
inductive CashCall
  | transfer (t : CoinTransfer) (height : Nat)
  | sponsoredTransfer (policy : Nat) (request : CashPaymasterRequestV1) (t : CoinTransfer)
      (height : Nat)
  | burn (b : CoinBurnTransition) (height : Nat)
  | mint (m : CoinMintTransition) (settlement : EpochEconomicsTransition)
  | settle (settlement : EpochEconomicsTransition)
  | shield (intent : ShieldIntent) (proof : VerifiedPrivacyProof) (height : Nat)
  | unshield (intent : UnshieldIntent) (proof : VerifiedPrivacyProof) (height : Nat)
  | redeem (settlement : RewardSettlement) (redemption : RewardRedemption)

namespace CashState

/-- A call that only touches the ledger. -/
def onLedger {α : Type} (s : CashState) (m : LedgerM α) : CashM Unit × CashState :=
  (((m.exec s.ledger).1).map fun _ => (), { s with ledger := (m.exec s.ledger).2 })

/-- A call that touches the ledger and one policy. -/
def onPolicy (s : CashState) (policy : Nat)
    (m : Update CashTransitionError (CashLedger × CashPaymasterPolicyV1) Unit) :
    CashM Unit × CashState :=
  let r := m.exec (s.ledger, s.policies policy)
  (r.1, ⟨r.2.1, update s.policies policy r.2.2⟩)

end CashState

namespace CashCall

open CashLedger

def exec (C : Crypto) (s : CashState) : CashCall → CashM Unit × CashState
  | .transfer t height => s.onLedger (applyTransfer C t height)
  | .sponsoredTransfer policy request t height =>
    s.onPolicy policy (applySponsoredTransfer C request t height)
  | .burn b height => s.onLedger (applyBurn C b height)
  | .mint m settlement => s.onLedger (applyMint C m settlement)
  | .settle settlement => s.onLedger (applyZeroIssuanceSettlement C settlement)
  | .shield intent proof height => s.onLedger (applyShield C intent proof height)
  | .unshield intent proof height => s.onLedger (applyUnshield C intent proof height)
  | .redeem settlement redemption => s.onLedger (redeemReward C settlement redemption)

/-- The part of a call before its final check, on the copy. -/
def prepare (C : Crypto) : CashCall → LedgerM PUnit
  | .transfer t height => prepareTransfer C t height
  | .sponsoredTransfer _ request t height =>
    prepareSponsored C request.sponsor t (cashTransitionId C t) height
  | .burn b height => prepareBurn C b height
  | .mint m settlement => do let _ ← prepareMint C m settlement
  | .settle settlement => prepareSettlement settlement
  | .shield intent proof height => prepareShield C intent proof height
  | .unshield intent proof height => do let _ ← prepareUnshield C intent proof height
  | .redeem settlement redemption => prepareRedeem C settlement redemption

end CashCall

def CashState.run (C : Crypto) (s : CashState) (calls : List CashCall) : CashState :=
  calls.foldl (fun s call => (call.exec C s).2) s

@[simp] theorem CashState.run_nil (C : Crypto) (s : CashState) : s.run C [] = s := rfl

@[simp] theorem CashState.run_cons (C : Crypto) (s : CashState) (call : CashCall)
    (calls : List CashCall) : s.run C (call :: calls) = (call.exec C s).2.run C calls := rfl

open CashCall

namespace CashLedger

variable {C : Crypto} {l l' : CashLedger}

/-! ## Every effect keeps the ledger valid -/

variable {transitionId : TransactionId} {proof : VerifiedPrivacyProof} {height : Nat}
  {owner : PrincipalId} {t : CoinTransfer} {intent : UnshieldIntent} {cells : CoinCellSet}

section

variable (h : l.Valid C)
include h

theorem Valid.named_of_change {spent created : List CoinCellRecord}
    (hc : CellChange C l cells transitionId spent created) (id : CoinCellId)
    (cell : CoinCell) (hget : cells.cells.get? id = some cell) : coinCellId C cell.origin = id := by
  rcases hc.replaces.get?_eq_some.1 hget with hcr | ⟨-, hold⟩
  · exact (hc.named _ hcr).2.symm
  · exact h.named id cell hold

variable {supply : NativeSupply}

theorem Valid.of_feeMoved {shielded : ShieldedCashState} {fee : Nat}
    (hn : ∀ id cell, cells.cells.get? id = some cell → coinCellId C cell.origin = id)
    (hm : FeeMoved l.supply supply fee)
    (hv : cells.value + shielded.poolBalance + fee = l.cells.value + l.shielded.poolBalance) :
    Valid C { l with cells := cells, supply := supply, shielded := shielded } := by
  obtain ⟨-, hf⟩ := hm
  have hp := h.partition
  have hcap := h.cap
  refine ⟨h.root, hn, ?_, ?_⟩
  · rw [hf]
    dsimp only
    omega
  · rw [hf]
    exact hcap

theorem Valid.of_transfer (he : TransferEffect C l l' t) : l'.Valid C := by
  obtain ⟨spent, created, hc, -, hsum, supply, hm, heq⟩ := he
  have hv := hc.value_add
  rw [heq]
  exact h.of_feeMoved (h.named_of_change hc) hm (by omega)

theorem Valid.of_burn {b : CoinBurnTransition} (he : BurnEffect C l l' b) : l'.Valid C := by
  obtain ⟨spent, created, hc, -, hsum, supply, ⟨-, hf⟩, heq⟩ := he
  have hv := hc.value_add
  have hp := h.partition
  have hcap := h.cap
  rw [heq]
  refine ⟨h.root, h.named_of_change hc, ?_, ?_⟩
  · rw [hf]
    dsimp only
    omega
  · rw [hf]
    exact hcap

theorem Valid.of_shield {i : ShieldIntent} (he : ShieldEffect C l l' i) : l'.Valid C := by
  obtain ⟨spent, created, hc, -, hsum, hp, -, supply, hm, heq⟩ := he
  have hv := hc.value_add
  rw [heq]
  exact h.of_feeMoved (h.named_of_change hc) hm (by omega)

theorem Valid.of_unshield (he : UnshieldEffect C l l' intent) : l'.Valid C := by
  obtain ⟨r, hc, ham, hp, -, supply, hm, heq⟩ := he
  have hv := hc.value_add
  rw [valueOf_nil] at hv
  rw [heq]
  exact h.of_feeMoved (h.named_of_change hc) hm (by omega)

theorem Valid.of_settled {amount : Nat}
    (hn : ∀ id cell, cells.cells.get? id = some cell → coinCellId C cell.origin = id)
    (hs : Settled l.definition l.supply supply amount) (hv : cells.value = l.cells.value + amount) :
    Valid C { l with cells := cells, supply := supply } := by
  obtain ⟨hf, cap, hcap, hle⟩ := hs
  have hp := h.partition
  refine ⟨h.root, hn, ?_, cap, ?_, ?_⟩
  · rw [hf]
    dsimp only
    omega
  · rw [hf]
    exact hcap
  · rw [hf]
    exact hle

theorem Valid.of_mint {mint : CoinMintTransition} (he : MintEffect C l l' mint) : l'.Valid C := by
  obtain ⟨-, r, hc, ham, supply, hs, heq⟩ := he
  have hv := hc.value_add
  rw [valueOf_nil] at hv
  rw [heq]
  exact h.of_settled (h.named_of_change hc) hs (by omega)

end

/-- The hash does not map a commitment to redeemed rewards to the zero digest, which stands for a
missing one. -/
def RewardRootsNonzero (C : Crypto) : Prop :=
  ∀ count tree, setCommitmentRoot C .spentInput count tree ≠ Digest384.zero

theorem Valid.of_redeem (nonzero : RewardRootsNonzero C) {assignment : AccumulatorKey}
    (he : RedeemEffect C l l' assignment) : l'.Valid C := by
  obtain ⟨t, paid, w, next, -, hv, hi, rfl⟩ := he
  refine ⟨?_, hv.named, hv.partition, hv.cap⟩
  simp only [SetCommitment.insert, Except.inversion] at hi
  obtain ⟨-, -, -, -, count, -, rfl⟩ := hi
  exact nonzero _ _

theorem Valid.of_prepare (nonzero : RewardRootsNonzero C) (h : l.Valid C)
    {call : CashCall} {u : PUnit} (hp : (call.prepare C).exec l = (.ok u, l')) : l'.Valid C := by
  cases call with
  | transfer t height => exact h.of_transfer (prepareTransfer_ok hp)
  | sponsoredTransfer policy request t height => exact h.of_transfer (prepareSponsored_ok hp)
  | burn b height => exact h.of_burn (prepareBurn_ok hp)
  | mint m settlement =>
    obtain ⟨_, _, hm, hr⟩ := exec_bind_eq_ok.1 hp
    cases hr
    exact h.of_mint (prepareMint_ok hm)
  | settle settlement =>
    obtain ⟨-, supply, hs, rfl⟩ := prepareSettlement_ok hp
    exact h.of_settled h.named hs rfl
  | shield i proof height => exact h.of_shield (prepareShield_ok hp)
  | unshield i proof height =>
    obtain ⟨_, _, hu, hr⟩ := exec_bind_eq_ok.1 hp
    cases hr
    exact h.of_unshield (prepareUnshield_ok hu)
  | redeem settlement r => exact .of_redeem nonzero (prepareRedeem_ok hp).1

/-! ## Errors -/

def NotInvariant (e : CashTransitionError) : Prop := ∀ m, e ≠ .invariant m

@[simp] theorem notInvariant_invalid (e : NativeMoneyError) : NotInvariant (.invalid e) := nofun

@[simp] theorem notInvariant_privacy (e : PrivacyError) : NotInvariant (.privacy e) := nofun

@[simp] theorem notInvariant_economics (e : EconomicsError) : NotInvariant (.economics e) := nofun

@[simp] theorem failsWith_invalid {α : Type} (x : MoneyM α) :
    (invalid x).FailsWith NotInvariant := by
  simp [invalid]

@[simp] theorem failsWith_gatherInputs :
    ∀ {ids : List CoinCellId} {total : Nat} {rs : List CoinCellRecord},
      (l.gatherInputs owner ids total rs).FailsWith NotInvariant
  | [], _, _ => .ok _
  | _ :: _, _, _ => by simp [gatherInputs, ownedRecord, failsWith_gatherInputs]

variable {height i : Nat}

@[simp] theorem failsWith_newRecord {amount : Nat} :
    (newRecord C transitionId i owner amount height).FailsWith NotInvariant := by
  simp [newRecord]

@[simp] theorem failsWith_changeRecords {change : Nat} :
    (changeRecords C transitionId i owner change height).FailsWith NotInvariant := by
  unfold changeRecords
  split <;> simp

theorem Valid.failsWith_remainingCap (h : l.Valid C) (window : Nat) :
    (remainingCap l.definition (windowBefore l.supply window)).FailsWith NotInvariant := by
  refine Except.FailsWith.bind.2 ⟨failsWith_invalid _, fun cap hcap => ?_⟩
  rw [invalid_eq_ok] at hcap
  have hle : (windowBefore l.supply window).2 ≤ cap := by
    unfold windowBefore at hcap ⊢
    split at hcap
    · obtain ⟨cap', hcap', hle⟩ := h.cap
      rw [hcap] at hcap'
      rw [if_pos ‹_›]
      exact Except.ok.inj hcap' ▸ hle
    · rw [if_neg ‹_›]
      exact Nat.zero_le _
  rw [show checkedSub cap _ = some _ from checkedSub_eq_some.2 ⟨rfl, hle⟩]
  exact .ok _

@[simp] theorem failsWith_moveFee {fee : Nat} :
    (moveFeeToReserve fee).FailsWith NotInvariant l := by
  simp [moveFeeToReserve, supplyAfterFee, assignSupply]

@[simp] theorem failsWith_prepareTransfer :
    (prepareTransfer C t height).FailsWith NotInvariant l := by
  simp [prepareTransfer, transferCells, gatherWithReserve, ownedRecord, rebuildCells, assignCells]

theorem Valid.failsWith_verifySelf (h : l.Valid C) {P : CashTransitionError → Prop} :
    (verifySelf C).FailsWith P l := by
  simp [verifySelf, h.verifyInvariants]

theorem Valid.failsWith_prepareRedeem (h : l.Valid C) {settlement : RewardSettlement}
    {r : RewardRedemption} : (prepareRedeem C settlement r).FailsWith NotInvariant l := by
  have hf (t : CoinTransfer) : (applyTransferInner C t r.height).FailsWith NotInvariant l :=
    bind.2 ⟨failsWith_prepareTransfer, fun _ _ hp =>
      (h.of_transfer (prepareTransfer_ok hp)).failsWith_verifySelf⟩
  simp [prepareRedeem, redeemChecks, assignRedeemed, hf]

theorem Valid.failsWith_prepareMint (h : l.Valid C) {mint : CoinMintTransition}
    {settlement : EpochEconomicsTransition} :
    (prepareMint C mint settlement).FailsWith NotInvariant l := by
  simp [prepareMint, mintChecks, insertNewCell, rebuildCells, supplyAfterMint, assignCells,
    assignSupply, h.failsWith_remainingCap]

@[simp] theorem failsWith_prepareUnshield :
    (prepareUnshield C intent proof height).FailsWith NotInvariant l := by
  simp [prepareUnshield, unshieldPool, verifyPrivacyContext, verifyPrivacyProof, insertNewCell,
    rebuildCells, assignShielded, assignCells]

/-- **No call on a valid ledger reports a violated invariant before its final check.** -/
theorem Valid.failsWith_prepare (h : l.Valid C) (call : CashCall) :
    (call.prepare C).FailsWith NotInvariant l := by
  cases call with
  | transfer t height => exact failsWith_prepareTransfer
  | sponsoredTransfer policy request t height =>
    simp [prepare, prepareSponsored, sponsoredCells, ownedRecord, rebuildCells, assignCells]
  | burn b height =>
    simp [prepare, prepareBurn, burnCells, rebuildCells, supplyAfterBurn, assignCells, assignSupply]
  | mint m settlement => simp [prepare, h.failsWith_prepareMint]
  | settle settlement =>
    simp [prepare, prepareSettlement, supplyAfterSettlement, assignSupply, h.failsWith_remainingCap]
  | shield i proof height =>
    simp [prepare, prepareShield, shieldCells, verifyPrivacyContext, verifyPrivacyProof,
      gatherWithReserve, ownedRecord, rebuildCells, assignCells, assignShielded]
  | unshield i proof height => simp [prepare]
  | redeem settlement r => exact h.failsWith_prepareRedeem

end CashLedger

/-! ## One call -/

namespace CashState

variable {s s' : CashState}

variable {e : CashTransitionError} {α : Type} {m : LedgerM α}

theorem onLedger_eq_error (h : s.onLedger m = (.error e, s')) :
    ∃ l, m.exec s.ledger = (.error e, l) ∧ s' = { s with ledger := l } := by
  unfold onLedger at h
  rcases hexec : m.exec s.ledger with ⟨_ | a, l⟩ <;> rw [hexec] at h <;> cases h
  exact ⟨l, rfl, rfl⟩

theorem onLedger_eq_ok {u : Unit} (h : s.onLedger m = (.ok u, s')) :
    ∃ a, m.exec s.ledger = (.ok a, s'.ledger) := by
  unfold onLedger at h
  rcases hexec : m.exec s.ledger with ⟨_ | a, l⟩ <;> rw [hexec] at h <;> cases h
  exact ⟨a, rfl⟩

theorem onLedger_of_ok {a : α} {l : CashLedger} (h : m.exec s.ledger = (.ok a, l)) :
    s.onLedger m = (.ok (), { s with ledger := l }) := by
  rw [onLedger, h]
  rfl

theorem onPolicy_eq {policy : Nat} {r : CashM Unit}
    {m : Update CashTransitionError (CashLedger × CashPaymasterPolicyV1) Unit}
    (h : s.onPolicy policy m = (r, s')) : ∃ l p, m.exec (s.ledger, s.policies policy) = (r, l, p) ∧
      s' = ⟨l, update s.policies policy p⟩ := by
  cases h
  exact ⟨_, _, rfl, rfl⟩

theorem onLedger_atomically_error (h : s.onLedger (.atomically m) = (.error e, s')) : s' = s := by
  obtain ⟨l, hexec, rfl⟩ := onLedger_eq_error h
  rw [(exec_atomically_eq_error.1 hexec).1]

end CashState

namespace CashLedger

variable {C : Crypto} {l l' : CashLedger}

variable {request : CashPaymasterRequestV1}

variable {policy : CashPaymasterPolicyV1} {t : CoinTransfer} {height : Nat}

theorem applySponsoredTransfer_ok {u : Unit} {s' : CashLedger × CashPaymasterPolicyV1}
    (h : (applySponsoredTransfer C request t height).exec (l, policy) = (.ok u, s')) :
    (applySponsoredTransferInner C request.sponsor t (cashTransitionId C t) height).exec l =
      (.ok (), s'.1) := by
  simp only [applySponsoredTransfer, inversion, existsAndEq] at h
  obtain ⟨_, -, _, -, _, -, ⟨_, next⟩, hc, rfl, -⟩ := h
  exact onCopy_eq_ok.1 hc

theorem applySponsoredTransfer_error {e : CashTransitionError}
    {s s' : CashLedger × CashPaymasterPolicyV1}
    (h : (applySponsoredTransfer C request t height).exec s = (.error e, s')) : s' = s := by
  rcases exec_check_bind_eq_error.1 h with ⟨-, rfl⟩ | ⟨_, -, h⟩
  · rfl
  rcases exec_check_bind_eq_error.1 h with ⟨-, rfl⟩ | ⟨_, -, h⟩
  · rfl
  rw [exec_bind, exec_get] at h
  rcases exec_check_bind_eq_error.1 h with ⟨-, rfl⟩ | ⟨_, -, h⟩
  · rfl
  rcases exec_check_bind_eq_error.1 h with ⟨-, rfl⟩ | ⟨_, -, h⟩
  · rfl
  cases h

theorem Valid.failsWith_sponsoredTransfer (h : l.Valid C) :
    (applySponsoredTransfer C request t height).FailsWith NotInvariant (l, policy) := by
  have hi : ((applySponsoredTransferInner C request.sponsor t (cashTransitionId C t)
      height).onCopy l).FailsWith NotInvariant := by
    refine onCopy (bind.2
      ⟨h.failsWith_prepare (.sponsoredTransfer 0 request t height), fun _ _ hp => ?_⟩)
    exact (h.of_transfer (prepareSponsored_ok hp)).failsWith_verifySelf
  simp [applySponsoredTransfer, hi]

variable {prepare : LedgerM PUnit}

theorem checked_ok {u : Unit} (h : (atomically (do prepare; verifySelf C)).exec l = (.ok u, l')) :
    prepare.exec l = (.ok ⟨⟩, l') ∧ l'.Valid C := by
  obtain ⟨_, _, hp, hv⟩ := exec_bind_eq_ok.1 (exec_atomically_eq_ok.1 h)
  obtain ⟨rfl, hva⟩ := verifySelf_ok hv
  exact ⟨hp, hva⟩

theorem checked_id_ok {prepare : LedgerM CoinCellId} {id : CoinCellId} (h : (atomically (do
      let id ← prepare
      verifySelf C
      return id)).exec l = (.ok id, l')) :
    (do let _ ← prepare : LedgerM PUnit).exec l = (.ok ⟨⟩, l') ∧ l'.Valid C := by
  obtain ⟨_, _, hp, hre⟩ := exec_bind_eq_ok.1 (exec_atomically_eq_ok.1 h)
  obtain ⟨_, _, hv, hr⟩ := exec_bind_eq_ok.1 hre
  cases hr
  obtain ⟨rfl, hva⟩ := verifySelf_ok hv
  exact ⟨exec_bind_eq_ok.2 ⟨_, _, hp, rfl⟩, hva⟩

theorem Valid.exec_verifySelf (h : l.Valid C) : (verifySelf C).exec l = (.ok (), l) := by
  refine exec_bind_eq_ok.2 ⟨l, l, rfl, ?_⟩
  rw [exec_check, h.verifyInvariants]

theorem checked_of_prepare {u : PUnit} (h : prepare.exec l = (.ok u, l')) (hv : l'.Valid C) :
    (atomically (do prepare; verifySelf C)).exec l = (.ok (), l') :=
  exec_atomically_eq_ok.2 (exec_bind_eq_ok.2 ⟨u, l', h, hv.exec_verifySelf⟩)

end CashLedger

namespace CashCall

open CashLedger CashState

variable {C : Crypto} {s s' : CashState} {call : CashCall}

variable {e : CashTransitionError}

theorem exec_error (h : call.exec C s = (.error e, s')) : s' = s := by
  cases call with
  | sponsoredTransfer policy request t height =>
    obtain ⟨l, p, hexec, rfl⟩ := onPolicy_eq h
    cases applySponsoredTransfer_error hexec
    rw [Function.update_eq_self]
  | transfer t height => exact onLedger_atomically_error h
  | burn b height => exact onLedger_atomically_error h
  | mint m settlement => exact onLedger_atomically_error h
  | settle settlement => exact onLedger_atomically_error h
  | shield i proof height => exact onLedger_atomically_error h
  | unshield i proof height => exact onLedger_atomically_error h
  | redeem settlement r => exact onLedger_atomically_error h

theorem exec_ok {u : Unit} (h : call.exec C s = (.ok u, s')) :
    (call.prepare C).exec s.ledger = (.ok ⟨⟩, s'.ledger) ∧ s'.ledger.Valid C := by
  cases call with
  | sponsoredTransfer policy request t height =>
    obtain ⟨l, p, hexec, rfl⟩ := onPolicy_eq h
    obtain ⟨_, _, hp, hv⟩ := exec_bind_eq_ok.1 (applySponsoredTransfer_ok hexec)
    obtain ⟨rfl, hva⟩ := verifySelf_ok hv
    exact ⟨hp, hva⟩
  | transfer t height =>
    obtain ⟨_, hexec⟩ := onLedger_eq_ok h
    exact checked_ok hexec
  | burn b height =>
    obtain ⟨_, hexec⟩ := onLedger_eq_ok h
    exact checked_ok hexec
  | mint m settlement =>
    obtain ⟨_, hexec⟩ := onLedger_eq_ok h
    exact checked_id_ok hexec
  | settle settlement =>
    obtain ⟨_, hexec⟩ := onLedger_eq_ok h
    exact checked_ok hexec
  | shield i proof height =>
    obtain ⟨_, hexec⟩ := onLedger_eq_ok h
    exact checked_ok hexec
  | unshield i proof height =>
    obtain ⟨_, hexec⟩ := onLedger_eq_ok h
    exact checked_id_ok hexec
  | redeem settlement r =>
    obtain ⟨_, hexec⟩ := onLedger_eq_ok h
    exact checked_ok hexec

/-- **No call on a valid ledger fails with a violated invariant.** -/
theorem notInvariant_of_exec (nonzero : RewardRootsNonzero C) (hv : s.ledger.Valid C)
    (h : call.exec C s = (.error e, s')) : NotInvariant e := by
  -- every call but two is its preparation and the final check, on a copy
  have hc : ∀ {m : LedgerM Unit}, m = .atomically (do call.prepare C; verifySelf C) →
      s.onLedger m = (.error e, s') → NotInvariant e := by
    rintro _ rfl h
    obtain ⟨l, hexec, -⟩ := onLedger_eq_error h
    refine atomically (bind.2 ⟨hv.failsWith_prepare call, fun _ _ hp => ?_⟩) e l hexec
    exact (hv.of_prepare nonzero hp).failsWith_verifySelf
  have hr : ∀ {m : LedgerM CoinCellId},
      call.prepare C = (do let _ ← m) → m.FailsWith NotInvariant s.ledger →
      s.onLedger (.atomically (do
        let id ← m
        verifySelf C
        return id)) = (.error e, s') → NotInvariant e := by
    intro m hm hf h
    obtain ⟨l, hexec, -⟩ := onLedger_eq_error h
    refine atomically (bind.2 ⟨hf, fun id l' hid => ?_⟩) e l hexec
    have hp : (call.prepare C).exec s.ledger = (.ok ⟨⟩, l') := by
      rw [hm]
      exact exec_bind_eq_ok.2 ⟨id, l', hid, rfl⟩
    simp [(hv.of_prepare nonzero hp).failsWith_verifySelf]
  cases call with
  | sponsoredTransfer policy request t height =>
    obtain ⟨l, p, hexec, -⟩ := onPolicy_eq h
    exact hv.failsWith_sponsoredTransfer e _ hexec
  | transfer t height => exact hc rfl h
  | burn b height => exact hc rfl h
  | mint m settlement => exact hr rfl hv.failsWith_prepareMint h
  | settle settlement => exact hc rfl h
  | shield i proof height => exact hc rfl h
  | unshield i proof height => exact hr rfl failsWith_prepareUnshield h
  | redeem settlement r => exact hc rfl h

end CashCall

/-! ## Runs -/

open CashLedger CashState

variable {C : Crypto} {s : CashState}

theorem CashCall.valid_of_exec (hv : s.ledger.Valid C) (call : CashCall) :
    (call.exec C s).2.ledger.Valid C := by
  rcases hexec : call.exec C s with ⟨e | u, s'⟩
  · rw [exec_error hexec]
    exact hv
  · exact (exec_ok hexec).2

theorem CashState.valid_run (hv : s.ledger.Valid C) (calls : List CashCall) :
    (s.run C calls).ledger.Valid C := by
  induction calls generalizing s with
  | nil => exact hv
  | cons call calls ih => exact ih (call.valid_of_exec hv)

def CashLedger.accounted (l : CashLedger) : Nat :=
  l.cells.value + l.shielded.poolBalance + l.supply.securityReserveBalance +
    l.supply.lockedVestingSupply + l.supply.stakedSupply

theorem CashLedger.Valid.accounted_eq {l : CashLedger} (h : l.Valid C) :
    l.accounted + l.supply.cumulativeBurn =
      l.supply.genesisSupply + l.supply.cumulativeSecurityIssuance := by
  have hp := h.partition
  have he := l.supply.consistent.equation
  unfold accounted
  omega

/-- **Value is conserved.**  In every run from a ledger that passes the check, each call fails and
leaves ledger and policies as they were, never with a violated invariant, or it leads to a ledger
that passes the check and accounts for what genesis, issuance and burning left; and what a call
prepares passes its final check. -/
theorem cash_ledger_conserves_value (nonzero : RewardRootsNonzero C)
    (hvalid : s.ledger.verifyInvariants C = .ok ()) (calls : List CashCall) (call : CashCall) :
    (match call.exec C (s.run C calls) with
      | (.error e, s') => s' = s.run C calls ∧ ∀ m, e ≠ .invariant m
      | (.ok _, s') => s'.ledger.verifyInvariants C = .ok () ∧
          s'.ledger.accounted + s'.ledger.supply.cumulativeBurn =
            s'.ledger.supply.genesisSupply + s'.ledger.supply.cumulativeSecurityIssuance) ∧
    ∀ u l', (call.prepare C).exec (s.run C calls).ledger = (.ok u, l') →
      l'.verifyInvariants C = .ok () := by
  have hb := valid_run (.of_verifyInvariants hvalid) calls
  constructor
  · rcases hexec : call.exec C (s.run C calls) with ⟨e | u, s'⟩
    · exact ⟨exec_error hexec, notInvariant_of_exec nonzero hb hexec⟩
    · have haf := (exec_ok hexec).2
      exact ⟨haf.verifyInvariants, haf.accounted_eq⟩
  · intro u l' hp
    exact (hb.of_prepare nonzero hp).verifyInvariants

namespace SmallLedger

/-- A million units, all of them in one cell of principal 7. -/
def origin : CoinCellOrigin := ⟨5, 0⟩

def cell : CoinCell := ⟨origin, 7, 1000000, 0, by decide, by decide⟩

def definition : NativeAssetDefinition where
  chainId := 1
  symbol := [65]
  decimals := 0
  genesisSupply := 1000000
  maximumOrdinaryAnnualIssuanceBps := 200
  issuancePolicyHash := 1
  burnPolicyHash := 1
  rewardPolicyHash := 1
  symbolChecked := by decide
  decimalsChecked := by decide
  bpsChecked := by decide
  supplyChecked := by decide
  hashesChecked := by decide

def ledger (C : Crypto) : CashLedger where
  definition := definition
  supply := ⟨NativeSupply.genesisFields 1000000 0 0, by decide⟩
  cells := ⟨⟨[(coinCellId C origin, cell)], pairwise_singleton _ _⟩,
    by simp [SortedMap.length, maxCoinCells]⟩
  shielded := .default C
  redeemedRewardRoot := 1
  redeemedRewardCount := 0

def policy : CashPaymasterPolicyV1 where
  sponsor := 1
  allowedSenders := [7]
  maximumFee := 1
  epochBudget := 1
  spent := 0
  epoch := 0
  nextNonce := 0
  expiresHeight := 1
  sponsorChecked := Nat.one_ne_zero
  sendersChecked := by decide
  limitsChecked := by decide
  withinBudget := by decide

def state (C : Crypto) : CashState := ⟨ledger C, fun _ => policy⟩

def burn (C : Crypto) : CoinBurnTransition where
  owner := 7
  inputs := [coinCellId C origin]
  amount := 40
  validUntil := 10
  bounds := by simp [maxTransferInputs]
  ordered := pairwise_singleton _ _
  amountChecked := by decide

theorem transparent_nonzero : RewardRootsNonzero .transparent := fun _ _ =>
  Crypto.transparent_ne_zero (cons_ne_nil _ _)

theorem state_checked : (state .transparent).ledger.verifyInvariants .transparent = .ok () := by
  decide +kernel

theorem burn_accepted : ∃ s', (CashCall.burn (burn .transparent) 3).exec .transparent
    (state .transparent) = (.ok (), s') :=
  Except.exists_snd (by decide +kernel)

/-- The burn goes through on an injective hash, and the other units remain accounted for. -/
theorem burn_conserves_value :
    RewardRootsNonzero .transparent ∧
    (state .transparent).ledger.verifyInvariants .transparent = .ok () ∧
    ∃ s', (CashCall.burn (burn .transparent) 3).exec .transparent (state .transparent) =
        (.ok (), s') ∧
      s'.ledger.verifyInvariants .transparent = .ok () ∧
      s'.ledger.accounted + s'.ledger.supply.cumulativeBurn =
        s'.ledger.supply.genesisSupply + s'.ledger.supply.cumulativeSecurityIssuance := by
  have hn := transparent_nonzero
  have hv := state_checked
  have hb := burn_accepted
  generalize CashCall.burn (burn .transparent) 3 = call at hb ⊢
  obtain ⟨s', hexec⟩ := hb
  obtain ⟨hc, -⟩ := cash_ledger_conserves_value hn hv [] call
  rw [run_nil, hexec] at hc
  exact ⟨hn, hv, s', hexec, hc⟩

end SmallLedger

end ActiveChain
