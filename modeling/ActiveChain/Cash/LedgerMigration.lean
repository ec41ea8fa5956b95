import ActiveChain.Cash.Issuance
import ActiveChain.Cash.LegacyLedger

/-!
# Migrated ledgers

What can happen to a ledger after it was read from an earlier schema.

* `CashState.issuedIn_le` — from any ledger, what is still issued in the current window and what was
  issued there before are within its cap.
* `CashState.redeemed_once` — a redeemed reward stays redeemed.
-/

namespace ActiveChain

open Function List Option CashCall

/-! ## Issuance after a migration -/

section Issuance

variable {C : Crypto} {s : CashState}

theorem issuedIn_cons (x : Settlement) (log : List Settlement) (window : Nat) :
    issuedIn (x :: log) window =
      (if x.window = window then x.issued else 0) + issuedIn log window := by
  by_cases h : x.window = window <;> simp [issuedIn, h]

/-- The floor of the annual cap, in whole units. -/
def annualCap (definition : NativeAssetDefinition) (openingSupply : Nat) : Nat :=
  openingSupply * definition.maximumOrdinaryAnnualIssuanceBps / basisPointsDenominator

theorem CashLedger.Valid.issued_le {l : CashLedger} (h : l.Valid C) :
    l.supply.issuanceInWindow ≤ annualCap l.definition l.supply.issuanceWindowOpeningSupply := by
  obtain ⟨cap, hcap, hle⟩ := h.cap
  rwa [eq_floor_of_basisPointsAmount hcap] at hle

theorem CashLedger.issuanceWindow_le_next (s : NativeSupply) : s.issuanceWindow ≤ nextWindow s := by
  by_cases hz : s.lastSettledEpoch = 0
  · rw [(s.consistent.unsettled hz).1]
    exact Nat.zero_le _
  · rw [s.consistent.settled hz]
    exact Nat.div_le_div_right (Nat.sub_le _ _)

variable {amount : Nat} {definition : NativeAssetDefinition}

theorem CashLedger.Settled.window_eq {s s' : NativeSupply} (h : Settled definition s s' amount) :
    s'.issuanceWindow = nextWindow s := by
  rw [h.1]

theorem CashLedger.Settled.same_window {s s' : NativeSupply} (h : Settled definition s s' amount)
    (hs : nextWindow s = s.issuanceWindow) :
    s'.issuanceWindowOpeningSupply = s.issuanceWindowOpeningSupply ∧
      s'.issuanceInWindow = s.issuanceInWindow + amount := by
  obtain ⟨hf, -⟩ := h
  have hb : windowBefore s (nextWindow s) =
      (s.issuanceWindowOpeningSupply, s.issuanceInWindow) := if_pos (.inr hs)
  rw [hb] at hf
  exact ⟨by rw [hf], by rw [hf]⟩

open CashLedger

theorem CashState.issuanceWindow_le_of_settled (calls : List CashCall) :
    ∀ {s : CashState}, ∀ x ∈ s.settlements C calls, s.ledger.supply.issuanceWindow ≤ x.window := by
  induction calls with
  | nil =>
    intro s x hx
    cases hx
  | cons call calls ih =>
    intro s x hx
    rw [CashState.settlements] at hx
    rcases hexec : call.exec C s with ⟨_ | _, s'⟩
    · rw [hexec, exec_error hexec] at hx
      exact ih x hx
    · rw [hexec] at hx
      obtain ⟨-, hc⟩ := settled_of_prepare (exec_ok hexec).1
      rcases hc with ⟨amount, hs, hse⟩ | ⟨hs, hsa⟩
      · have hn := issuanceWindow_le_next s.ledger.supply
        simp only [settlement, hs, map_some, toList_some, singleton_append, mem_cons] at hx
        rcases hx with rfl | hx
        · exact hn
        · exact (hse.window_eq ▸ hn).trans (ih x hx)
      · simp only [settlement, hs, map_none, toList_none, nil_append] at hx
        exact hsa.window ▸ ih x hx

open CashState

theorem CashState.issuedIn_le (calls : List CashCall) : ∀ {s : CashState}, s.ledger.Valid C →
    issuedIn (s.settlements C calls) s.ledger.supply.issuanceWindow +
    s.ledger.supply.issuanceInWindow ≤
      annualCap s.ledger.definition s.ledger.supply.issuanceWindowOpeningSupply := by
  induction calls with
  | nil =>
    intro s hv
    simpa [settlements, issuedIn] using hv.issued_le
  | cons call calls ih =>
    intro s hv
    rw [settlements]
    rcases hexec : call.exec C s with ⟨_ | _, s'⟩
    · rw [exec_error hexec]
      exact ih hv
    · obtain ⟨hp, hv'⟩ := exec_ok hexec
      obtain ⟨hd, hc⟩ := settled_of_prepare hp
      have hn := ih hv'
      rw [hd] at hn
      rcases hc with ⟨amount, hse, hset⟩ | ⟨hse, hs⟩
      · have hw := hset.window_eq
        simp only [settlement, hse, map_some, toList_some, singleton_append]
        by_cases hs : nextWindow s.ledger.supply = s.ledger.supply.issuanceWindow
        · -- the window goes on with its opening supply
          obtain ⟨hopening, hi⟩ := hset.same_window hs
          have hh : Settlement.window ⟨s.ledger.supply.lastSettledEpoch + 1, amount,
              s.ledger.supply.currentTotalSupply⟩ = s.ledger.supply.issuanceWindow := hs
          rw [hw, hs, hopening, hi] at hn
          rw [issuedIn_cons, if_pos hh]
          dsimp only
          omega
        · -- the window is over
          have hl := issuanceWindow_le_next s.ledger.supply
          rw [issuedIn_eq_zero, Nat.zero_add]
          · exact hv.issued_le
          · intro y hy
            rcases mem_cons.1 hy with rfl | hy
            · exact hs
            · have := issuanceWindow_le_of_settled calls y hy
              omega
      · simp only [settlement, hse, map_none, toList_none, nil_append]
        rwa [hs.window, hs.issued, hs.opening] at hn

end Issuance

/-! ## Rewards after a migration -/

section Rewards

variable {C : Crypto} (hash : Injective C.shake256)
include hash

theorem CashLedger.redeemed_of_prepare {l l' : CashLedger} {keys : List AccumulatorKey}
    {call : CashCall} {u : PUnit} (hk : l.redeemedRewards = commitmentOf C .spentInput keys)
    (h : (call.prepare C).exec l = (.ok u, l')) :
    (∃ new, l'.redeemedRewards = commitmentOf C .spentInput (new ++ keys)) ∧
      ∀ settlement r, call = .redeem settlement r →
        settlement.assignment ∉ keys := by
  cases call with
  | redeem settlement r =>
    obtain ⟨t, paid, w, next, -, -, hi, rfl⟩ := (prepareRedeem_ok h).1
    rw [hk] at hi
    obtain ⟨-, hf, rfl, -⟩ := SetCommitment.insert_ok hash hi
    refine ⟨⟨[settlement.assignment], rfl⟩, ?_⟩
    rintro _ _ ⟨⟩
    exact hf
  | transfer t height =>
    obtain ⟨-, -, -, -, -, supply, -, heq⟩ := prepareTransfer_ok h
    rw [heq]
    exact ⟨⟨[], hk⟩, nofun⟩
  | sponsoredTransfer policy request t height =>
    obtain ⟨-, -, -, -, -, supply, -, heq⟩ := prepareSponsored_ok h
    rw [heq]
    exact ⟨⟨[], hk⟩, nofun⟩
  | burn b height =>
    obtain ⟨-, -, -, -, -, supply, -, heq⟩ := prepareBurn_ok h
    rw [heq]
    exact ⟨⟨[], hk⟩, nofun⟩
  | mint m settlement =>
    obtain ⟨_, _, hm, hr⟩ := Update.exec_bind_eq_ok.1 h
    cases hr
    obtain ⟨-, -, -, -, supply, -, heq⟩ := prepareMint_ok hm
    rw [heq]
    exact ⟨⟨[], hk⟩, nofun⟩
  | settle settlement =>
    obtain ⟨-, supply, -, rfl⟩ := prepareSettlement_ok h
    exact ⟨⟨[], hk⟩, nofun⟩
  | shield i proof height =>
    obtain ⟨-, -, -, -, -, -, -, supply, -, heq⟩ := prepareShield_ok h
    rw [heq]
    exact ⟨⟨[], hk⟩, nofun⟩
  | unshield i proof height =>
    obtain ⟨_, _, hu, hr⟩ := Update.exec_bind_eq_ok.1 h
    cases hr
    obtain ⟨-, -, -, -, -, supply, -, heq⟩ := prepareUnshield_ok hu
    rw [heq]
    exact ⟨⟨[], hk⟩, nofun⟩

theorem CashState.redeemed_once (calls : List CashCall) {settlement : RewardSettlement}
    {r : RewardRedemption} : ∀ {s : CashState} {keys : List AccumulatorKey},
    s.ledger.redeemedRewards = commitmentOf C .spentInput keys →
    .redeem settlement r ∈ s.accepted C calls → settlement.assignment ∉ keys := by
  induction calls with
  | nil =>
    intro s keys _ hmem
    cases hmem
  | cons call calls ih =>
    intro s keys hk hmem
    rw [accepted] at hmem
    rcases hexec : call.exec C s with ⟨_ | _, s'⟩
    · rw [hexec, exec_error hexec] at hmem
      exact ih hk hmem
    · rw [hexec] at hmem
      obtain ⟨⟨new, hnew⟩, hf⟩ := CashLedger.redeemed_of_prepare hash hk (exec_ok hexec).1
      rcases mem_cons.1 hmem with hc | hmem
      · exact hf _ _ hc.symm
      · exact fun hold => ih hnew hmem (mem_append_right _ hold)

end Rewards

/-! ## Migration -/

/-- The window of the last settled epoch; the first window is open from the start. -/
def LegacySupplyV1.window (s : LegacySupplyV1) : Nat :=
  (s.lastSettledEpoch - 1) / issuanceEpochsPerYear

/-- What a ledger of the first schema could certainly still mint in its window.  Before the first
epoch it is the whole annual cap; later the schema does not say how much of the cap is left, so that
nothing is certain. -/
def LegacySupplyV1.allowance (definition : NativeAssetDefinition) (s : LegacySupplyV1) : Nat :=
  if s.lastSettledEpoch = 0 then annualCap definition s.genesisSupply else 0

/-- What a ledger with counters can still mint in its window. -/
def NativeSupply.allowance (definition : NativeAssetDefinition) (s : NativeSupply) : Nat :=
  annualCap definition s.issuanceWindowOpeningSupply - s.issuanceInWindow

/-- `l` passes the check, holds the cells and the total supply of `legacy`, mints at most
`allowance` in `window` whatever happens, and pays no reward that `legacy` has paid. -/
structure SafeMigration (C : Crypto) {σ : Type} (legacy : LegacyCashLedger σ)
    (total window allowance : Nat) (l : CashLedger) : Prop where
  verified : l.verifyInvariants C = .ok ()
  cells : l.cells = legacy.cells
  total : l.supply.currentTotalSupply = total
  minted : ∀ policies calls,
    issuedIn (CashState.settlements C ⟨l, policies⟩ calls) window ≤ allowance
  redeemed : ∀ policies calls settlement redemption,
    .redeem settlement redemption ∈ CashState.accepted C ⟨l, policies⟩ calls →
      settlement.assignment ∉ legacy.redeemedRewards

open LegacySupplyV1

section Migration

variable {C : Crypto} {σ : Type} {legacy : LegacyCashLedger σ} {supply : NativeSupply}

theorem SafeMigration.of_migrated (hash : Injective C.shake256)
    (hv : (legacy.migrated C supply).verifyInvariants C = .ok ()) :
    SafeMigration C legacy supply.currentTotalSupply supply.issuanceWindow
      (supply.allowance legacy.definition) (legacy.migrated C supply) := by
  refine ⟨hv, rfl, rfl, ?_, ?_⟩
  · intro policies calls
    have hle := CashState.issuedIn_le (s := ⟨legacy.migrated C supply, policies⟩) calls
      (.of_verifyInvariants hv)
    exact Nat.le_sub_of_add_le hle
  · intro policies calls settlement r hmem
    have hf : settlement.assignment ∉ legacy.redeemedRewards.reverse :=
      CashState.redeemed_once hash calls rfl hmem
    rwa [mem_reverse] at hf

theorem LegacySupplyV1.CompletedBy.allowance_eq {definition : NativeAssetDefinition}
    {s : LegacySupplyV1} (h : s.CompletedBy definition.maximumOrdinaryAnnualIssuanceBps supply) :
    supply.currentTotalSupply = s.currentTotalSupply ∧ supply.issuanceWindow = s.window ∧
      supply.allowance definition = s.allowance definition := by
  obtain ⟨⟨window, opening, charged⟩, hw, hf⟩ := h
  rw [fields] at hf
  unfold legacyWindow at hw
  split at hw
  · next hz =>
      cases hw
      refine ⟨by rw [hf], ?_, ?_⟩
      · rw [hf, window, hz]
        rfl
      · rw [NativeSupply.allowance, hf, allowance, if_pos hz]
        exact Nat.sub_zero _
  · next hz =>
      simp only [Except.inversion, issuanceWindowIndex_eq_ok, Prod.mk.injEq] at hw
      obtain ⟨_, ⟨-, rfl⟩, _, hc, rfl, rfl, rfl⟩ := hw
      have hcap := eq_floor_of_basisPointsAmount hc
      refine ⟨by rw [hf], by rw [hf, window], ?_⟩
      rw [NativeSupply.allowance, hf, allowance, if_neg hz, annualCap]
      exact Nat.sub_eq_zero_of_le hcap.ge

/-- **Both migrations are safe.** -/
theorem legacy_migration_safe (hash : Injective C.shake256) (input rest : List UInt8)
    (l : CashLedger) : ((CashLedger.decodeLegacyV1 C).run input = .ok (l, rest) →
      ∃ legacy : LegacyCashLedger LegacySupplyV1,
        legacy.definition.InRange ∧ legacy.supply.InRange ∧ legacy.Readable ∧
        input = legacy.bytes LegacySupplyV1.bytes ++ rest ∧
        SafeMigration C legacy legacy.supply.currentTotalSupply legacy.supply.window
          (legacy.supply.allowance legacy.definition) l) ∧
    ((CashLedger.decodeLegacyV2 C).run input = .ok (l, rest) →
      ∃ legacy : LegacyCashLedger NativeSupply,
        legacy.definition.InRange ∧ legacy.supply.InRange ∧ legacy.Readable ∧
        input = legacy.bytes NativeSupply.bytes ++ rest ∧
        SafeMigration C legacy legacy.supply.currentTotalSupply legacy.supply.issuanceWindow
          (legacy.supply.allowance legacy.definition) l) := by
  constructor
  · intro hrun
    obtain ⟨legacy, supply, hd, hs, hr, hc, rfl, hv, hi⟩ := CashLedger.decodeLegacyV1_eq_ok.1 hrun
    obtain ⟨ht, hw, hal⟩ := hc.allowance_eq
    refine ⟨legacy, hd, hs, hr, hi, ?_⟩
    rw [← ht, ← hw, ← hal]
    exact .of_migrated hash hv
  · intro hrun
    obtain ⟨legacy, hd, hs, hr, rfl, hv, hi⟩ := CashLedger.decodeLegacyV2_eq_ok.1 hrun
    exact ⟨legacy, hd, hs, hr, hi, .of_migrated hash hv⟩

end Migration

namespace LegacySample

/-- The first epoch is settled, and all the money is in the reserve. -/
def supply : LegacySupplyV1 := ⟨1000000, 0, 0, 1000000, 0, 0, 0, 1000000, 1⟩

/-- A ledger of the first schema that has paid two rewards. -/
def ledger : LegacyCashLedger LegacySupplyV1 where
  definition := SmallLedger.definition
  supply := supply
  cells := ⟨⟨[], List.Pairwise.nil⟩, Nat.zero_le _⟩
  poolBalance := 0
  anchor := Digest384.zero
  nullifiers := []
  redeemedRewards := [1, 2]

/-- Its counters, with the whole cap of two percent charged to the first window. -/
def completed : NativeSupply := ⟨supply.fields (0, 1000000, 20000), by decide⟩

theorem readable : ledger.Readable where
  cells := nofun
  poolBalance := Nat.pow_pos (by decide)
  anchor := Nat.pow_pos (by decide)
  anchored _ := rfl
  nullifiers := ⟨Nat.zero_le _, List.Pairwise.nil, nofun⟩
  redeemedRewards := by
    refine ⟨by decide, pairwise_pair.2 (by decide), ?_⟩
    exact forall_mem_cons.2 ⟨by decide, forall_mem_singleton.2 (by decide)⟩

theorem verified : (ledger.migrated .transparent completed).verifyInvariants .transparent =
    .ok () := by
  have hcap : basisPointsAmount 1000000 200 = .ok 20000 := by with_unfolding_all rfl
  exact CashLedger.Valid.verifyInvariants
    ⟨Crypto.transparent_ne_zero (cons_ne_nil _ _), nofun, rfl, _, hcap, Nat.le_refl _⟩

theorem decoded : (CashLedger.decodeLegacyV1 .transparent).run (ledger.bytes bytes) =
    .ok (ledger.migrated .transparent completed, []) := by
  have hd : SmallLedger.definition.InRange := by constructor <;> decide
  have hs : supply.InRange := by constructor <;> decide
  have hw : legacyWindow 1000000 1000000 1 200 = .ok (0, 1000000, 20000) := by
    with_unfolding_all rfl
  exact CashLedger.decodeLegacyV1_eq_ok.2 ⟨ledger, completed, hd, hs, readable,
    ⟨_, hw, rfl⟩, rfl, verified, (append_nil _).symm⟩

theorem migration_safe : (CashLedger.decodeLegacyV1 .transparent).run
      (ledger.bytes LegacySupplyV1.bytes) = .ok (ledger.migrated .transparent completed, []) ∧
    ∃ legacy : LegacyCashLedger LegacySupplyV1,
      legacy.definition.InRange ∧ legacy.supply.InRange ∧ legacy.Readable ∧
      ledger.bytes LegacySupplyV1.bytes = legacy.bytes LegacySupplyV1.bytes ++ [] ∧
      SafeMigration .transparent legacy legacy.supply.currentTotalSupply legacy.supply.window
        (legacy.supply.allowance legacy.definition) (ledger.migrated .transparent completed) :=
  ⟨decoded, (legacy_migration_safe Crypto.transparent_injective _ _ _).1 decoded⟩

end LegacySample

end ActiveChain
