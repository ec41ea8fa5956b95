import ActiveChain.Cash.Conservation

/-!
# Names are used once

A cell is named after the intent that created it, and an intent after what it spends.  There is no
global nonce: that a name never recurs is a property of whole runs.  Every intent uses up something
that cannot come back — a live cell, a nullifier, the number of an epoch — and a second acceptance
would need it again.

* `CashIntent`, `OneTime` — the signed intents, and what they use up.
* `CashIntent.uses_of_id` — the name of an intent determines what it uses up.
* `History.accept` — an accepted intent is new, and so are its cells.
-/

namespace ActiveChain

open Except List SortedMap Function CashCall

/-! ## Intents -/

inductive CashIntent
  | transfer (t : CoinTransfer)
  | burn (b : CoinBurnTransition)
  | mint (m : CoinMintTransition)
  | shield (i : ShieldIntent)
  | unshield (i : UnshieldIntent)

/-- Something that can be used once. -/
inductive OneTime
  | cell (id : CoinCellId)
  | nullifier (n : AccumulatorKey)
  | epoch (n : Nat)

namespace CashIntent

/-- The transition identifier under which the outputs are created. -/
def id (C : Crypto) : CashIntent → TransactionId
  | .transfer t => cashTransitionId C t
  | .burn b => cashTransitionId C b
  | .mint m => cashTransitionId C m
  | .shield i => cashTransitionId C i
  | .unshield i => cashTransitionId C i

/-- The cells that an accepted intent takes out. -/
def spends : CashIntent → List CoinCellId
  | .transfer t => t.inputs ++ [t.feeReserve]
  | .burn b => b.inputs
  | .mint _ => []
  | .shield i => i.inputs ++ [i.feeReserve]
  | .unshield _ => []

def uses : CashIntent → List OneTime
  | .transfer t => t.inputs.map .cell
  | .burn b => b.inputs.map .cell
  | .mint m => [.epoch m.sequence]
  | .shield i => i.inputs.map .cell
  | .unshield i => i.nullifiers.map .nullifier

theorem uses_ne_nil (i : CashIntent) : i.uses ≠ [] := by
  cases i with
  | transfer t => simpa [uses] using t.bounds.1
  | burn b => simpa [uses] using b.bounds.1
  | mint m => simp [uses]
  | shield i => simpa [uses] using i.inputBounds.1
  | unshield i => simpa [uses] using i.bounds.1

theorem spends_of_uses {i : CashIntent} {id : CoinCellId} (h : .cell id ∈ i.uses) :
    id ∈ i.spends := by
  cases i with
  | transfer t =>
    obtain ⟨_, hid, heq⟩ := mem_map.1 h
    cases heq
    exact mem_append_left _ hid
  | burn b =>
    obtain ⟨_, hid, heq⟩ := mem_map.1 h
    cases heq
    exact hid
  | mint m => simp [uses] at h
  | shield i =>
    obtain ⟨_, hid, heq⟩ := mem_map.1 h
    cases heq
    exact mem_append_left _ hid
  | unshield i => simp [uses] at h

theorem uses_of_id {C : Crypto} (hash : Injective C.shake256) {i i' : CashIntent}
    (h : i.id C = i'.id C) : i.uses = i'.uses := by
  cases i with
  | transfer t =>
    cases i' with
    | transfer t' => rw [uses, uses, CoinTransfer.inputs_of_id hash h]
    | _ => exact absurd (typeTag_of_cashTransitionId hash h) (by decide)
  | burn b =>
    cases i' with
    | burn b' => rw [uses, uses, CoinBurnTransition.inputs_of_id hash h]
    | _ => exact absurd (typeTag_of_cashTransitionId hash h) (by decide)
  | mint m =>
    cases i' with
    | mint m' => rw [uses, uses, CoinMintTransition.sequence_of_id hash h]
    | _ => exact absurd (typeTag_of_cashTransitionId hash h) (by decide)
  | shield i =>
    cases i' with
    | shield i' => rw [uses, uses, ShieldIntent.inputs_of_id hash h]
    | _ => exact absurd (typeTag_of_cashTransitionId hash h) (by decide)
  | unshield i =>
    cases i' with
    | unshield i' => rw [uses, uses, UnshieldIntent.nullifiers_of_id hash h]
    | _ => exact absurd (typeTag_of_cashTransitionId hash h) (by decide)

end CashIntent

def rewardPayment (settlement : RewardSettlement) (redemption : RewardRedemption) :
    MoneyM CoinTransfer :=
  CoinTransfer.new redemption.poolOwner settlement.verifier [redemption.poolCell]
    redemption.feeReserve settlement.reward 0 redemption.height

/-- The intent of a call.  A sponsored transfer is the sender's transfer, and a redemption pays by a
transfer; settling an epoch without issuance has none. -/
def CashCall.intent : CashCall → Option CashIntent
  | .transfer t _ => some (.transfer t)
  | .sponsoredTransfer _ _ t _ => some (.transfer t)
  | .burn b _ => some (.burn b)
  | .mint m _ => some (.mint m)
  | .settle _ => none
  | .shield i _ _ => some (.shield i)
  | .unshield i _ _ => some (.unshield i)
  | .redeem settlement redemption =>
    (rewardPayment settlement redemption).toOption.map CashIntent.transfer

/-! ## What a run creates and accepts -/

/-- The cells of `l'` that are not cells of `l` which stayed: a name that was taken out and is there
again counts as created. -/
def CashLedger.createdCells (l l' : CashLedger) (spent : List CoinCellId) : List CoinCellId :=
  l'.cells.cells.keys.filter fun id => id ∈ spent ∨ l.cells.cells.get? id = none

/-- The cells created by a call from `l` to `l'`. -/
def CashCall.created (call : CashCall) (l l' : CashLedger) : List CoinCellId :=
  l.createdCells l' ((call.intent.map CashIntent.spends).getD [])

namespace CashState

variable (C : Crypto)

def accepted (s : CashState) : List CashCall → List CashCall
  | [] => []
  | call :: calls =>
    match call.exec C s with
    | (.ok _, s') => call :: s'.accepted calls
    | (.error _, s') => s'.accepted calls

def created (s : CashState) : List CashCall → List CoinCellId
  | [] => []
  | call :: calls =>
    match call.exec C s with
    | (.ok _, s') => call.created s.ledger s'.ledger ++ s'.created calls
    | (.error _, s') => s'.created calls

def Live (s : CashState) (id : CoinCellId) : Prop := (s.ledger.cells.cells.get? id).isSome

end CashState

/-! ## One accepted intent -/

namespace OneTime

def Unused (l : CashLedger) (spent : List AccumulatorKey) : OneTime → Prop
  | .cell id => ∃ cell, l.cells.cells.get? id = some cell
  | .nullifier n => n ∉ spent
  | .epoch n => l.supply.lastSettledEpoch < n

/-- Used up, where `created` holds every cell there ever was. -/
def Used (l : CashLedger) (created : List CoinCellId) (spent : List AccumulatorKey) : OneTime → Prop
  | .cell id => id ∈ created ∧ l.cells.cells.get? id = none
  | .nullifier n => n ∈ spent
  | .epoch n => n ≤ l.supply.lastSettledEpoch

theorem not_unused {l : CashLedger} {created : List CoinCellId} {spent : List AccumulatorKey}
    {token : OneTime} (h : token.Used l created spent) : ¬ token.Unused l spent := by
  cases token with
  | cell id =>
    rintro ⟨cell, hc⟩
    rw [h.2] at hc
    cases hc
  | nullifier n => exact not_not.2 h
  | epoch n => exact Nat.not_lt_of_le h

end OneTime

/-- What an accepted intent does from `l` to `l'`, where `spent` and `spent'` are the spent
nullifiers. -/
structure Consumes (C : Crypto) (l l' : CashLedger) (spent spent' : List AccumulatorKey)
    (i : CashIntent) : Prop where
  change : ∃ old new, CashLedger.CellChange C l l'.cells (i.id C) old new ∧
    old.map Prod.fst = i.spends
  nullifiers : l'.shielded.nullifiers = .ofSpent C spent'
  spent_subset : spent ⊆ spent'
  settled : l.supply.lastSettledEpoch ≤ l'.supply.lastSettledEpoch
  unused : ∀ token ∈ i.uses, token.Unused l spent
  nullifier : ∀ n, .nullifier n ∈ i.uses → n ∈ spent'
  epoch : ∀ n, .epoch n ∈ i.uses → n ≤ l'.supply.lastSettledEpoch

open CashIntent

namespace CashLedger

variable {C : Crypto} {l l' : CashLedger} {spent : List AccumulatorKey}

theorem CellChange.unused {cs : CoinCellSet} {transitionId : TransactionId}
    {old new : List CoinCellRecord} (h : CellChange C l cs transitionId old new)
    {ids : List CoinCellId} (hids : ids ⊆ old.map Prod.fst) :
    ∀ token ∈ ids.map OneTime.cell, token.Unused l spent := by
  intro token ht
  obtain ⟨id, hid, rfl⟩ := mem_map.1 ht
  obtain ⟨e, he, rfl⟩ := mem_map.1 (hids hid)
  exact ⟨e.2, h.live e he⟩

section

variable (hs : l.shielded.nullifiers = .ofSpent C spent)
include hs

theorem consumes_of_transfer {t : CoinTransfer}
    (h : TransferEffect C l l' t) : Consumes C l l' spent spent (.transfer t) := by
  obtain ⟨old, new, hc, hids, -, supply, ⟨-, hf⟩, heq⟩ := h
  refine ⟨⟨old, new, hc, hids⟩, ?_, List.Subset.refl _, ?_, ?_, by simp [uses],
    by simp [uses]⟩
  · rw [heq]
    exact hs
  · rw [heq, hf]
  · exact hc.unused (hids ▸ subset_append_left _ _)

theorem consumes_of_burn
    {b : CoinBurnTransition} (h : BurnEffect C l l' b) : Consumes C l l' spent spent (.burn b) := by
  obtain ⟨old, new, hc, hids, -, supply, ⟨-, hf⟩, heq⟩ := h
  refine ⟨⟨old, new, hc, hids⟩, ?_, List.Subset.refl _, ?_, ?_, by simp [uses],
    by simp [uses]⟩
  · rw [heq]
    exact hs
  · rw [heq, hf]
  · exact hc.unused (hids ▸ List.Subset.refl _)

theorem consumes_of_shield {i : ShieldIntent}
    (h : ShieldEffect C l l' i) : Consumes C l l' spent spent (.shield i) := by
  obtain ⟨old, new, hc, hids, -, -, hn, supply, ⟨-, hf⟩, heq⟩ := h
  refine ⟨⟨old, new, hc, hids⟩, hn.trans hs, List.Subset.refl _, ?_, ?_,
    by simp [uses], by simp [uses]⟩
  · rw [heq, hf]
  · exact hc.unused (hids ▸ subset_append_left _ _)

end

theorem consumes_of_mint (hsp : l.shielded.nullifiers = .ofSpent C spent) {m : CoinMintTransition}
    (h : MintEffect C l l' m) : Consumes C l l' spent spent (.mint m) := by
  obtain ⟨hs, r, hc, -, supply, ⟨hf, -⟩, heq⟩ := h
  have hse : l'.supply.lastSettledEpoch = l.supply.lastSettledEpoch + 1 := by
    rw [heq, hf]
  refine ⟨⟨_, _, hc, rfl⟩, ?_, List.Subset.refl _, by omega, ?_, by simp [uses], ?_⟩
  · rw [heq]
    exact hsp
  · intro token ht
    cases mem_singleton.1 ht
    exact Nat.lt_of_lt_of_eq (Nat.lt_succ_self _) hs.symm
  · intro n hn
    cases mem_singleton.1 hn
    omega

theorem consumes_of_unshield (hash : Injective C.shake256)
    (hs : l.shielded.nullifiers = .ofSpent C spent) {i : UnshieldIntent}
    (h : UnshieldEffect C l l' i) :
    Consumes C l l' spent (i.nullifiers.reverse ++ spent) (.unshield i) := by
  obtain ⟨r, hch, -, -, hc, supply, ⟨-, hf⟩, heq⟩ := h
  rw [hs] at hc
  obtain ⟨hfr, haf⟩ := NullifierSet.consumeVerified_ok hash hc
  refine ⟨⟨_, _, hch, rfl⟩, haf, subset_append_right _ _, ?_, ?_, ?_,
    by simp [uses]⟩
  · rw [heq, hf]
  · intro token ht
    obtain ⟨n, hn, rfl⟩ := mem_map.1 ht
    exact hfr n hn
  · intro n hn
    obtain ⟨_, hmem, hn⟩ := mem_map.1 hn
    cases hn
    exact mem_append_left _ (mem_reverse.2 hmem)

variable {u : PUnit}

/-- **What an accepted call uses up**: the tokens of its intent, if it has one. -/
theorem consumes_of_prepare (hash : Injective C.shake256)
    (hs : l.shielded.nullifiers = .ofSpent C spent) {call : CashCall}
    (h : (call.prepare C).exec l = (.ok u, l')) :
    (∃ i spent', call.intent = some i ∧ Consumes C l l' spent spent' i) ∨
      call.intent = none ∧ l'.cells = l.cells ∧ l'.shielded = l.shielded ∧
        l.supply.lastSettledEpoch ≤ l'.supply.lastSettledEpoch := by
  cases call with
  | transfer t height =>
    exact .inl ⟨_, _, rfl, consumes_of_transfer hs (prepareTransfer_ok h)⟩
  | sponsoredTransfer policy request t height =>
    exact .inl ⟨_, _, rfl, consumes_of_transfer hs (prepareSponsored_ok h)⟩
  | burn b height => exact .inl ⟨_, _, rfl, consumes_of_burn hs (prepareBurn_ok h)⟩
  | mint m settlement =>
    obtain ⟨_, _, hm, hr⟩ := Update.exec_bind_eq_ok.1 h
    cases hr
    exact .inl ⟨_, _, rfl, consumes_of_mint hs (prepareMint_ok hm)⟩
  | settle settlement =>
    obtain ⟨-, supply, ⟨hf, -⟩, rfl⟩ := prepareSettlement_ok h
    refine .inr ⟨rfl, rfl, rfl, ?_⟩
    rw [hf]
    exact Nat.le_succ _
  | shield intent proof height =>
    exact .inl ⟨_, _, rfl, consumes_of_shield hs (prepareShield_ok h)⟩
  | unshield intent proof height =>
    obtain ⟨_, _, hu, hr⟩ := Update.exec_bind_eq_ok.1 h
    cases hr
    exact .inl ⟨_, _, rfl, consumes_of_unshield hash hs (prepareUnshield_ok hu)⟩
  | redeem settlement r =>
    obtain ⟨t, paid, hp, he, heq⟩ := (prepareRedeem_ok h).2
    have hc := consumes_of_transfer hs he
    rw [heq]
    refine .inl ⟨.transfer t, spent, ?_, hc.change, hc.nullifiers, hc.spent_subset, hc.settled,
      hc.unused, hc.nullifier, hc.epoch⟩
    rw [intent, rewardPayment, hp]
    rfl

end CashLedger

/-! ## The history of a ledger -/

/-- What led to the ledger `l`: the cells created, genesis included, the intents accepted and the
nullifiers spent. -/
structure History (C : Crypto) (economy : GenesisEconomy) (l : CashLedger)
    (created : List CoinCellId) (intents : List CashIntent) (spent : List AccumulatorKey) :
    Prop where
  live : ∀ id cell, l.cells.cells.get? id = some cell → id ∈ created
  named : ∀ id ∈ created, ∃ origin : CoinCellOrigin, coinCellId C origin = id ∧
    (origin.transitionId = genesisAllocationRoot C economy ∨
      ∃ i ∈ intents, origin.transitionId = i.id C)
  nullifiers : l.shielded.nullifiers = .ofSpent C spent
  used : ∀ i ∈ intents, ∀ token ∈ i.uses, token.Used l created spent
  created_nodup : created.Nodup
  intents_nodup : (intents.map (CashIntent.id C)).Nodup

namespace CashLedger

variable {C : Crypto} {l l' : CashLedger}

variable {id : CoinCellId}

theorem mem_createdCells {spent : List CoinCellId} :
    id ∈ l.createdCells l' spent ↔
      (∃ cell, l'.cells.cells.get? id = some cell) ∧
        (id ∈ spent ∨ l.cells.cells.get? id = none) := by
  simp [createdCells, SortedMap.keys, mem_entries]

theorem live_cases {cell : CoinCell} (spent : List CoinCellId)
    (h : l'.cells.cells.get? id = some cell) :
    id ∈ l.createdCells l' spent ∨ id ∉ spent ∧ ∃ old, l.cells.cells.get? id = some old := by
  by_cases hnew : id ∈ spent ∨ l.cells.cells.get? id = none
  · exact .inl (mem_createdCells.2 ⟨⟨cell, h⟩, hnew⟩)
  · rw [not_or] at hnew
    exact .inr ⟨hnew.1, Option.ne_none_iff_exists'.1 hnew.2⟩

theorem CellChange.origin_of_created {transitionId : TransactionId} {old new : List CoinCellRecord}
    (h : CellChange C l l'.cells transitionId old new)
    (hid : id ∈ l.createdCells l' (old.map Prod.fst)) :
    ∃ origin : CoinCellOrigin, coinCellId C origin = id ∧ origin.transitionId = transitionId := by
  obtain ⟨⟨cell, hce⟩, hnew⟩ := mem_createdCells.1 hid
  rcases h.replaces.get?_eq_some.1 hce with hc | ⟨hk, hold⟩
  · obtain ⟨ho, hn⟩ := h.named _ hc
    exact ⟨cell.origin, hn.symm, ho⟩
  · rcases hnew with hs | hno
    · exact absurd hs hk
    · rw [hno] at hold
      cases hold

end CashLedger

namespace History

open CashLedger

variable {C : Crypto} {economy : GenesisEconomy} {l l' : CashLedger} {created : List CoinCellId}
  {intents : List CashIntent} {spent spent' : List AccumulatorKey} {i : CashIntent}

section Accepted

variable (hash : Injective C.shake256)
include hash

section

variable (h : History C economy l created intents spent) (hi : Consumes C l l' spent spent' i)
include h hi

/-- An intent that is accepted has a new name: an older one of that name has used up what it
needs. -/
theorem fresh_id : i.id C ∉ intents.map (id C) := by
  intro hmem
  obtain ⟨i', hi', hid⟩ := mem_map.1 hmem
  obtain ⟨token, rest, hu⟩ := exists_cons_of_ne_nil i.uses_ne_nil
  have ht : token ∈ i.uses := hu ▸ mem_cons_self
  have ht' : token ∈ i'.uses := uses_of_id hash hid ▸ ht
  exact OneTime.not_unused (h.used i' hi' token ht') (hi.unused token ht)

variable {id : CoinCellId}

theorem fresh_cell (hid : id ∈ l.createdCells l' i.spends) : id ∉ created := by
  intro hc
  obtain ⟨old, new, hch, hs⟩ := hi.change
  obtain ⟨origin, rfl, ht⟩ := hch.origin_of_created (hs ▸ hid)
  obtain ⟨origin', hn, ho⟩ := h.named _ hc
  cases coinCellId_inj hash hn
  rw [ht] at ho
  rcases ho with hg | ⟨i', hi', hid'⟩
  · cases i <;> exact cashTransitionId_ne_genesis hash _ _ hg
  · exact h.fresh_id hash hi (hid' ▸ mem_map_of_mem hi')

theorem gone (hid : id ∈ created) (hg : id ∈ i.spends ∨ l.cells.cells.get? id = none) :
    l'.cells.cells.get? id = none := by
  by_contra hl
  obtain ⟨cell, hc⟩ := Option.ne_none_iff_exists'.1 hl
  exact h.fresh_cell hash hi (mem_createdCells.2 ⟨⟨cell, hc⟩, hg⟩) hid

variable {token : OneTime}

theorem used_after (ht : token.Used l created spent) :
    token.Used l' (created ++ l.createdCells l' i.spends) spent' := by
  cases token with
  | cell id => exact ⟨mem_append_left _ ht.1, h.gone hash hi ht.1 (.inr ht.2)⟩
  | nullifier n => exact hi.spent_subset ht
  | epoch n => exact Nat.le_trans ht hi.settled

theorem used_now (ht : token ∈ i.uses) :
    token.Used l' (created ++ l.createdCells l' i.spends) spent' := by
  cases token with
  | cell id =>
    obtain ⟨cell, hc⟩ := hi.unused _ ht
    have hid := h.live id cell hc
    exact ⟨mem_append_left _ hid, h.gone hash hi hid (.inl (spends_of_uses ht))⟩
  | nullifier n => exact hi.nullifier n ht
  | epoch n => exact hi.epoch n ht

theorem accept :
    History C economy l' (created ++ l.createdCells l' i.spends) (intents ++ [i]) spent' where
  live := by
    intro id cell hce
    rcases live_cases i.spends hce with hnew | ⟨-, old, hold⟩
    · exact mem_append_right _ hnew
    · exact mem_append_left _ (h.live id old hold)
  named := by
    intro id hid
    rcases mem_append.1 hid with hid | hid
    · obtain ⟨origin, hn, ho⟩ := h.named id hid
      refine ⟨origin, hn, ho.imp_right ?_⟩
      rintro ⟨i', hi', heq⟩
      exact ⟨i', mem_append_left _ hi', heq⟩
    · obtain ⟨old, new, hc, hs⟩ := hi.change
      obtain ⟨origin, hn, ho⟩ := hc.origin_of_created (hs ▸ hid)
      exact ⟨origin, hn, .inr ⟨i, by simp, ho⟩⟩
  nullifiers := hi.nullifiers
  used := by
    intro i' hi' token ht
    rcases mem_append.1 hi' with hi' | hi'
    · exact h.used_after hash hi (h.used i' hi' token ht)
    · cases mem_singleton.1 hi'
      exact h.used_now hash hi ht
  created_nodup := by
    refine nodup_append.2 ⟨h.created_nodup, (keys_nodup _).filter _, ?_⟩
    rintro id hid _ hnew rfl
    exact h.fresh_cell hash hi hnew hid
  intents_nodup := by
    rw [map_append, map_singleton, nodup_append]
    refine ⟨h.intents_nodup, nodup_singleton _, ?_⟩
    rintro _ hold _ hnew rfl
    rw [mem_singleton.1 hnew] at hold
    exact h.fresh_id hash hi hold

end

end Accepted

theorem settle (h : History C economy l created intents spent) (hc : l'.cells = l.cells)
    (hs : l'.shielded = l.shielded) (hse : l.supply.lastSettledEpoch ≤ l'.supply.lastSettledEpoch) :
    History C economy l' created intents spent where
  live := by
    rw [hc]
    exact h.live
  named := h.named
  nullifiers := by
    rw [hs]
    exact h.nullifiers
  used := by
    intro i hi token ht
    have hu := h.used i hi token ht
    cases token with
    | cell id => exact ⟨hu.1, hc ▸ hu.2⟩
    | nullifier n => exact hu
    | epoch n => exact Nat.le_trans hu hse
  created_nodup := h.created_nodup
  intents_nodup := h.intents_nodup

end History

/-! ## Genesis -/

namespace CashLedger

variable {C : Crypto} {economy : GenesisEconomy} {l : CashLedger}

theorem fromGenesis_ok (h : fromGenesis C economy = .ok l) :
    l.Valid C ∧ l.shielded = .default C ∧ l.definition = economy.definition ∧
      (∃ reserve locked, l.supply.toNativeSupplyFields =
        NativeSupply.genesisFields economy.definition.genesisSupply reserve locked) ∧
      ∀ id cell, l.cells.cells.get? id = some cell →
        cell.origin.transitionId = genesisAllocationRoot C economy := by
  simp only [fromGenesis, inversion, invalid_eq_ok, CoinCellSet.new_eq_ok] at h
  obtain ⟨rs, hr, cs, hc, locked, -, supply, hs, hv, rfl⟩ := h
  refine ⟨.of_verifyInvariants hv, rfl, rfl, ⟨_, _, NativeSupply.fields_of_genesis hs⟩, ?_⟩
  intro id cell hget
  have hmem := mem_entries.2 hget
  rw [hc, (sortEntries_perm rs).mem_iff] at hmem
  obtain ⟨⟨a, i⟩, -, hre⟩ := mem_of_mapM hr hmem
  rw [(newRecord_ok hre).1]

end CashLedger

open CashLedger

theorem History.genesis {C : Crypto} {economy : GenesisEconomy} {l : CashLedger}
    (h : fromGenesis C economy = .ok l) :
    History C economy l l.cells.cells.keys [] [] := by
  obtain ⟨hv, hs, -, -, ho⟩ := fromGenesis_ok h
  refine ⟨?_, ?_, ?_, by simp, l.cells.cells.keys_nodup, nodup_nil⟩
  · intro id cell hc
    exact mem_map_of_mem (mem_entries.2 hc)
  · intro id hid
    obtain ⟨⟨id, cell⟩, hmem, rfl⟩ := mem_map.1 hid
    have hget := mem_entries.1 hmem
    exact ⟨cell.origin, hv.named id cell hget, .inl (ho id cell hget)⟩
  · rw [hs, NullifierSet.ofSpent, ← empty_eq]
    rfl

open CashState

/-! ## Runs -/

section Runs

variable {C : Crypto} {economy : GenesisEconomy} {s : CashState} {created : List CoinCellId}
  {intents : List CashIntent} {spent : List AccumulatorKey}

theorem CashState.run_append (s : CashState) (calls calls' : List CashCall) :
    s.run C (calls ++ calls') = (s.run C calls).run C calls' :=
  foldl_append

theorem CashState.created_append (s : CashState) (calls calls' : List CashCall) :
    s.created C (calls ++ calls') = s.created C calls ++ (s.run C calls).created C calls' := by
  induction calls generalizing s with
  | nil => rfl
  | cons call calls ih =>
    rw [cons_append, created, created, run_cons]
    rcases hexec : call.exec C s with ⟨_ | _, s'⟩
    · exact ih s'
    · rw [append_assoc]
      exact congrArg _ (ih s')

theorem CashState.live_run {id : CoinCellId} (calls : List CashCall) (h : (s.run C calls).Live id) :
    s.Live id ∨ id ∈ s.created C calls := by
  induction calls generalizing s with
  | nil => exact .inl h
  | cons call calls ih =>
    rw [run_cons] at h
    rw [created]
    rcases hexec : call.exec C s with ⟨_ | _, s'⟩
    · rw [hexec, exec_error hexec] at h
      rw [exec_error hexec]
      exact ih h
    · rw [hexec] at h
      rcases ih h with hl | hc
      · obtain ⟨cell, hce⟩ := Option.isSome_iff_exists.1 hl
        rcases live_cases _ hce with hnew | ⟨-, old, hold⟩
        · exact .inr (mem_append_left _ hnew)
        · exact .inl (Option.isSome_iff_exists.2 ⟨old, hold⟩)
      · exact .inr (mem_append_right _ hc)

/-- **The history of a run**: the cells it creates and the intents it accepts. -/
theorem History.run (hash : Injective C.shake256)
    (h : History C economy s.ledger created intents spent) (calls : List CashCall) :
    ∃ spent', History C economy (s.run C calls).ledger (created ++ s.created C calls)
      (intents ++ (s.accepted C calls).filterMap intent) spent' := by
  induction calls generalizing s created intents spent with
  | nil => exact ⟨spent, by simpa [CashState.created, CashState.accepted] using h⟩
  | cons call calls ih =>
    rw [CashState.created, CashState.accepted, CashState.run_cons]
    rcases hexec : call.exec C s with ⟨_ | _, s'⟩
    · rw [exec_error hexec]
      exact ih h
    · obtain ⟨hp, -⟩ := exec_ok hexec
      rcases consumes_of_prepare hash h.nullifiers hp with
        ⟨i, spent', hi, hc⟩ | ⟨hi, hce, hs, hse⟩
      · have hn := h.accept hash hc
        have hrun := ih hn
        simpa [CashCall.created, hi] using hrun
      · have hno : call.created s.ledger s'.ledger = [] := by
          refine eq_nil_iff_forall_not_mem.2 fun id hid => ?_
          obtain ⟨⟨cell, hcel⟩, hnew⟩ := mem_createdCells.1 hid
          simp [hi, ← hce, hcel] at hnew
        have hrun := ih (h.settle hce hs hse)
        simpa [hno, hi] using hrun

/-- **Names are used once.**  In every run from a genesis no cell name is created twice, a cell that
is gone never becomes live again, and no intent is accepted twice, be it a transfer by itself or
under a sponsor. -/
theorem cash_names_used_once (hash : Injective C.shake256) {ledger : CashLedger}
    (hgenesis : CashLedger.fromGenesis C economy = .ok ledger)
    (policies : Nat → CashPaymasterPolicyV1) (calls : List CashCall) :
    (ledger.cells.cells.keys ++ CashState.created C ⟨ledger, policies⟩ calls).Nodup ∧
    (∀ before between after, calls = before ++ between ++ after → ∀ id,
      (CashState.run C ⟨ledger, policies⟩ before).Live id →
      ¬ (CashState.run C ⟨ledger, policies⟩ (before ++ between)).Live id →
      ¬ (CashState.run C ⟨ledger, policies⟩ calls).Live id) ∧
    ((CashState.accepted C ⟨ledger, policies⟩ calls).filterMap CashCall.intent).Nodup := by
  have hs : History C economy (mk ledger policies).ledger ledger.cells.cells.keys [] [] :=
    .genesis hgenesis
  obtain ⟨spent, hend⟩ := hs.run hash calls
  refine ⟨hend.created_nodup, ?_, List.Nodup.of_map _ hend.intents_nodup⟩
  rintro before between after rfl id hl hg hb
  -- it was created by the time it was live, and once more to be live again
  rw [run_append] at hb
  have hag := (live_run after hb).resolve_left hg
  obtain ⟨spent', he⟩ := hs.run hash before
  obtain ⟨cell, hc⟩ := Option.isSome_iff_exists.1 hl
  have hf := he.live id cell hc
  have hn := hend.created_nodup
  rw [created_append, created_append, ← append_assoc, ← append_assoc] at hn
  exact (nodup_append.1 hn).2.2 id (mem_append_left _ hf) id hag rfl

end Runs

namespace SmallLedger

def economy : GenesisEconomy where
  definition := definition
  allocations := [⟨7, 1000000, 0, by decide, by decide⟩]
  securityReserve := 0
  bounds := by decide
  ordered := pairwise_singleton _ _
  total := rfl

def genesisCell (C : Crypto) : CoinCell :=
  ⟨⟨genesisAllocationRoot C economy, 0⟩, 7, 1000000, 0, cell.ownerChecked, cell.amountChecked⟩

def genesisLedger (C : Crypto) : CashLedger where
  definition := definition
  supply := (ledger C).supply
  cells := ⟨⟨[(coinCellId C (genesisCell C).origin, genesisCell C)], pairwise_singleton _ _⟩,
    by simp [SortedMap.length, maxCoinCells]⟩
  shielded := .default C
  redeemedRewardRoot := (SetCommitment.empty C .spentInput).root
  redeemedRewardCount := 0

theorem fromGenesis_economy {C : Crypto} (nonzero : RewardRootsNonzero C) :
    fromGenesis C economy = .ok (genesisLedger C) := by
  have hv : (genesisLedger C).verifyInvariants C = .ok () := by
    have hcap : basisPointsAmount 1000000 200 = .ok 20000 := by with_unfolding_all rfl
    refine Valid.verifyInvariants ⟨nonzero _ _, ?_, rfl, _, hcap, Nat.zero_le _⟩
    intro id cell hget
    cases mem_singleton.1 (mem_entries.2 hget)
    rfl
  simp only [fromGenesis, inversion, invalid_eq_ok, CoinCellSet.new_eq_ok]
  exact ⟨_, rfl, (genesisLedger C).cells, rfl, 0, rfl, (genesisLedger C).supply, rfl, hv, rfl⟩

def genesisBurn (C : Crypto) : CoinBurnTransition where
  owner := 7
  inputs := [coinCellId C (genesisCell C).origin]
  amount := 40
  validUntil := 10
  bounds := by simp [maxTransferInputs]
  ordered := pairwise_singleton _ _
  amountChecked := (burn C).amountChecked

def start (C : Crypto) : CashState := ⟨genesisLedger C, fun _ => policy⟩

theorem burn_accepted_once :
    Injective Crypto.transparent.shake256 ∧
    CashLedger.fromGenesis .transparent economy = .ok (genesisLedger .transparent) ∧
    (∃ s', (CashCall.burn (genesisBurn .transparent) 3).exec .transparent (start .transparent) =
      (.ok (), s')) ∧
    ((CashState.accepted .transparent (start .transparent)
      (.replicate 2 (.burn (genesisBurn .transparent) 3))).filterMap CashCall.intent).Nodup := by
  have hg := fromGenesis_economy transparent_nonzero
  have hv := (fromGenesis_ok hg).1
  obtain ⟨l', hp⟩ := exists_snd
    (by decide +kernel : ((prepareBurn .transparent (genesisBurn .transparent) 3).exec
      (genesisLedger .transparent)).1 = .ok ⟨⟩)
  have haf := hv.of_burn (prepareBurn_ok hp)
  exact ⟨Crypto.transparent_injective, hg, ⟨_, onLedger_of_ok (checked_of_prepare hp haf)⟩,
    (cash_names_used_once Crypto.transparent_injective hg _ _).2.2⟩

end SmallLedger

end ActiveChain
