import ActiveChain.Devnet.Fees
import Mathlib.Algebra.Order.BigOperators.Group.List

/-!
# Room for used fee tickets

The chain keeps a used ticket while it is valid.  The set has room for a full block of tickets at
each of the eight heights of a validity window, without slack.

* `Window.expire`, `Window.insert`, `Window.length_le` — the next height, one ticket, the room.
-/

namespace ActiveChain.Devnet

open Except List Option SortedMap FailsWith

/-- The tickets that are still valid at a height. -/
def validAt (tickets : SortedMap Digest384 Nat) (height : Nat) : Nat :=
  tickets.total fun expiresAt => if height ≤ expiresAt then 1 else 0

/-- The tickets that outlive `e` were admitted at a height from `e - 7` on, the last `n` of them
at `height`. -/
structure Window (tickets : SortedMap Digest384 Nat) (height n : Nat) : Prop where
  live : ∀ id e, tickets.get? id = some e →
    height ≤ e ∧ e ≤ height + maxFeeTicketLifetime ∧ e ≤ u64Max
  count : ∀ e, validAt tickets e ≤ maxBlockActions * (height + maxFeeTicketLifetime - e) +
    if e ≤ height + maxFeeTicketLifetime then n else 0

namespace Window

variable {tickets : SortedMap Digest384 Nat} {height n : Nat}

theorem empty (height n : Nat) : Window .empty height n :=
  ⟨fun _ _ h => (some_ne_none _ h.symm).elim, fun _ => Nat.zero_le _⟩

theorem mono {m : Nat} (h : Window tickets height n) (hm : n ≤ m) : Window tickets height m := by
  refine ⟨h.live, fun e => (h.count e).trans ?_⟩
  split_ifs <;> omega

theorem expire (h : Window tickets height maxBlockActions) :
    Window (tickets.retain fun _ e => decide (height + 1 ≤ e)) (height + 1) 0 := by
  constructor
  · intro id e he
    obtain ⟨hg, hd⟩ := get?_retain_eq_some.1 he
    have hl := h.live id e hg
    have hd : height + 1 ≤ e := by simpa using hd
    omega
  · intro e
    have hsub : validAt (tickets.retain fun _ e => decide (height + 1 ≤ e)) e ≤
        validAt tickets e := by
      exact List.Sublist.sum_le_sum (filter_sublist.map _) fun _ _ => Nat.zero_le _
    have hc := h.count e
    unfold maxBlockActions maxFeeTicketLifetime at *
    split_ifs at * <;> omega

theorem insert (h : Window tickets height n) {id : Digest384} {e : Nat}
    (hid : tickets.get? id = none) (hl : height ≤ e) (hu : e ≤ height + maxFeeTicketLifetime)
    (hr : e ≤ u64Max) : Window (tickets.insert id e) height (n + 1) := by
  constructor
  · intro id' e' he
    rw [get?_insert] at he
    split_ifs at he with heq
    · cases he
      exact ⟨hl, hu, hr⟩
    · exact h.live id' e' he
  · intro e'
    have ht := tickets.total_put id (some e) fun x => if e' ≤ x then 1 else 0
    simp only [put, hid, map_none, map_some, getD_none, getD_some] at ht
    have hc := h.count e'
    unfold validAt at hc ⊢
    split_ifs at hc ht ⊢ <;> omega

theorem length_le (h : Window tickets height n) :
    tickets.length ≤ maxBlockActions * maxFeeTicketLifetime + n := by
  have hall : tickets.length = validAt tickets height := by
    rw [length_eq_total]
    refine congrArg List.sum (map_congr_left fun e he => ?_)
    exact (if_pos (h.live e.1 e.2 (mem_entries.1 he)).1).symm
  have hc := h.count height
  rw [hall]
  simpa using hc

end Window

/-! ## Blocks -/

section Blocks

variable {O L P ε : Type} {M : Machine O L P ε} {C : Crypto}

/-- The last valid heights of the tickets are `u64` values. -/
def InRange (actions : List (ActionEnvelope P)) : Prop :=
  ∀ a ∈ actions, a.feeTicket.validUntil ≤ u64Max

/-- The bounded collections, after `n` actions of a block. -/
structure HasRoom (channels : SortedMap ChannelKey Nat)
    (accounts : FeeAccounts) (tickets : SortedMap Digest384 Nat)
    (height n : Nat) : Prop where
  channels : channels.length ≤ maxNonceChannels
  accounts : accounts.length ≤ maxFeeAccounts
  tickets : Window tickets height n

/-- The ticket set is full, or the next state is invalid. -/
def BlockApplyError.OutOfRoom : BlockApplyError ε → Prop
  | .usedFeeTicketCapacityExhausted _ => True
  | .invalidChainState _ => True
  | _ => False

variable {state : ChainState O L} {height index n : Nat} {blockId : Digest384}
  {a : ActionEnvelope P} {s s' : Progress O L}

/-- **One round keeps the room and uses one more ticket.** -/
theorem applyAction_room (hs : HasRoom s.nonceChannels s.feeAccounts s.usedFeeTickets height n)
    (hr : a.feeTicket.validUntil ≤ u64Max)
    (h : applyAction M state height blockId index a s = .ok s') :
    HasRoom s'.nonceChannels s'.feeAccounts s'.usedFeeTickets height (n + 1) := by
  simp only [applyAction, insertUsedTicket, inversion, Prod.exists] at h
  obtain ⟨admission, had, _, ⟨hid, -, rfl⟩, next, hn, _, -, _, -, _, -, _, -, _, -, _, _, -, _, -,
    rfl⟩ := h
  have hac := (admitAction_ok had).2.2.2.2.1
  simp only [admitAction, inversion, not_lt] at had
  obtain ⟨-, ⟨hf, -⟩, -, hl, -, ⟨hu, hw⟩, -⟩ := had
  have hid : s.usedFeeTickets.get? a.feeTicket.ticketId = none := by
    simpa [SortedMap.contains] using hid
  exact ⟨by simpa [SortedMap.length_insert, SortedMap.contains, hn] using hs.channels,
    by simpa [SortedMap.length_insert, SortedMap.contains, hac] using hs.accounts,
    hs.tickets.insert hid (by omega) (by omega) hr⟩

theorem applyAction_not_full (hs : Window s.usedFeeTickets height n) (hn : n < maxBlockActions) :
    (applyAction M state height blockId index a s).FailsWith fun e => ¬ e.OutOfRoom := by
  have hf : ¬ maxUsedFeeTickets ≤ s.usedFeeTickets.length := by
    have := hs.length_le
    simp only [maxUsedFeeTickets, maxBlockActions, maxFeeTicketLifetime] at *
    omega
  simp [applyAction, admitAction, insertUsedTicket, resourceCharge, chargeFee,
    BlockApplyError.OutOfRoom, hf, apply_ite (Except.FailsWith _)]
  intros
  intro e _
  cases e <;> simp

/-- **The loop does not run out of room, and what it ends with has room.** -/
theorem applyActions_room {actions : List (ActionEnvelope P)} (hr : InRange actions) :
    ∀ {i n : Nat} {s : Progress O L}, n + actions.length ≤ maxBlockActions →
      HasRoom s.nonceChannels s.feeAccounts s.usedFeeTickets height n →
      (applyActions M state height blockId i actions s).FailsWith (fun e => ¬ e.OutOfRoom) ∧
      ∀ s', applyActions M state height blockId i actions s = .ok s' →
        HasRoom s'.nonceChannels s'.feeAccounts s'.usedFeeTickets height maxBlockActions := by
  induction actions with
  | nil =>
    intro i n s hn hs
    refine ⟨by simp [applyActions], fun s' h => ?_⟩
    cases h
    exact ⟨hs.channels, hs.accounts, hs.tickets.mono (by simpa using hn)⟩
  | cons a rest ih =>
    intro i n s hn hs
    rw [length_cons] at hn
    have hst : ∀ s', applyAction M state height blockId i a s = .ok s' → _ := fun s' h =>
      @ih (fun b hb => hr b (mem_cons_of_mem _ hb)) (i + 1) (n + 1) s' (by omega)
        (applyAction_room hs (hr a mem_cons_self) h)
    constructor
    · rw [applyActions, bind]
      exact ⟨applyAction_not_full hs.tickets (by omega), fun s' h => (hst s' h).1⟩
    · intro s' h
      simp only [applyActions, inversion] at h
      obtain ⟨mid, hm, h⟩ := h
      exact (hst mid hm).2 s' h

def ChainState.HasRoom (s : ChainState O L) : Prop :=
  Devnet.HasRoom s.nonceChannels s.feeAccounts s.usedFeeTickets s.height maxBlockActions

open ChainState

theorem newWithAssetLedger_eq_ok {s : ChainState O L} (h : s.HasRoom) :
    s.newWithAssetLedger = .ok s := by
  have hl := h.tickets.length_le
  simp only [newWithAssetLedger, inversion, not_lt]
  refine ⟨h.channels, h.accounts, hl, ?_, trivial⟩
  rintro ⟨e, he, hw⟩
  obtain ⟨id, hid⟩ := mem_values.1 he
  have := h.tickets.live id e hid
  omega

/-- **A block on a state with room does not run out of room and leads to a state with room.** -/
theorem applyBlock_room {block : DevnetBlock P} (hs : state.HasRoom) (hr : InRange block.actions) :
    (applyBlock C M state block).FailsWith (fun e => ¬ e.OutOfRoom) ∧
      ∀ output, applyBlock C M state block = .ok output → output.state.HasRoom := by
  have hord : ∀ (actions : List (ActionEnvelope P)) i previous,
      (checkActionOrder M i previous actions).FailsWith fun e => ¬ e.OutOfRoom := by
    intro actions
    induction actions with
    | nil => simp [checkActionOrder]
    | cons a rest ih =>
      intro i previous
      rw [checkActionOrder, bind, reject]
      exact ⟨fun _ => id, fun _ _ => ih _ _⟩
  have hl := fun hh : block.height = state.height + 1 => @applyActions_room O L P ε M state
    block.height (M.blockId block) block.actions hr 0 0
    ⟨state.objects, state.assetLedger, state.nonceChannels, state.feeAccounts,
      state.usedFeeTickets.retain fun _ e => decide (block.height ≤ e), []⟩
    (by simpa using block.bounded)
    ⟨hs.channels, hs.accounts, by rw [hh]; exact hs.tickets.expire⟩
  constructor
  · simp only [applyBlock, bind, reject, orElse, mapError, pure]
    refine ⟨fun _ => id, fun _ _ => ⟨fun _ => id, fun expected he => ⟨fun _ => id, fun _ hh =>
      ⟨fun _ => id, fun _ _ => ⟨fun _ _ => id, fun _ _ => ⟨fun _ => id, fun _ _ => ⟨fun _ => id,
        fun _ _ => ⟨hord _ _ _, fun _ _ => ?_⟩⟩⟩⟩⟩⟩⟩⟩
    simp only [inversion] at he hh
    have hro := hl (hh.trans he.1)
    refine ⟨hro.1, fun s hs => ⟨fun _ _ => id, fun _ _ => ⟨?_, fun _ _ => ⟨fun _ => id, ?_⟩⟩⟩⟩
    · rw [newWithAssetLedger_eq_ok]
      · simp
      · exact hro.2 s hs
    · simp
  · intro output h
    simp only [applyBlock, newWithAssetLedger, inversion] at h
    obtain ⟨-, _, ⟨rfl, -⟩, hh, -, _, -, -, -, -, s, hac, _, -, _, ⟨-, -, -, -, rfl⟩, -, rfl⟩ := h
    exact (hl hh).2 s hac

/-- **No block on a chain from a valid genesis fails because the set of used fee tickets is full or
because the next state is invalid.** -/
theorem applyBlock_has_room {chainId : ChainId} {objects : O} {ledger : L}
    {nonceChannels : SortedMap ChannelKey Nat} {feeAccounts : FeeAccounts}
    {resourcePrices : ResourcePrices} {genesis final : ChainState O L}
    {trace : List (AppliedBlock O L P)}
    (hg : ChainState.genesisWithFeeAccounts chainId objects ledger nonceChannels feeAccounts
      resourcePrices = .ok genesis) (h : Chain C M genesis trace final)
    (hr : ∀ step ∈ trace, InRange step.2.1.actions) (block : DevnetBlock P)
    (hb : InRange block.actions) (e : BlockApplyError ε)
    (he : applyBlock C M final block = .error e) : ¬ e.OutOfRoom := by
  have hro : final.HasRoom := by
    clear he
    induction h with
    | start =>
      simp only [genesisWithFeeAccounts, newWithAssetLedger, inversion, not_lt] at hg
      obtain ⟨hc, ha, -, -, rfl⟩ := hg
      exact ⟨hc, ha, .empty _ _⟩
    | block before applied ih =>
      simp only [forall_mem_append, forall_mem_singleton] at hr
      exact (applyBlock_room (ih hr.1) hr.2).2 _ applied
  exact (applyBlock_room hro hb).1 e he

end Blocks

/-- The account is at the last nonce after the first block: the second one takes its ticket and
fails when it charges. -/
theorem OneAccount.second_block_has_room : let start := genesis (u64Max - 1)
    let first := block 0 [action 1 (u64Max - 1) 0] (by decide)
    let second := block 1 [action 2 u64Max 1] (by decide)
    let e : BlockApplyError Unit := .feeTicketNonceExhausted 0
    ∃ output, applyBlock .transparent anchors start first = .ok output ∧
      applyBlock .transparent anchors output.state second = .error e ∧ ¬ e.OutOfRoom := by
  intro start first second e
  have hr (height nonce sequence : Nat) : InRange [action height nonce sequence] := by
    simp [InRange, action, u64Max]
  have hg : ChainState.genesisWithFeeAccounts 5 () () start.nonceChannels start.feeAccounts
      start.resourcePrices = .ok start := rfl
  have hf : applyBlock .transparent anchors start first = .ok _ := rfl
  refine ⟨_, hf, rfl, applyBlock_has_room hg (.block .start hf) ?_ second (hr _ _ _) e rfl⟩
  exact forall_mem_singleton.2 (hr _ _ _)

end ActiveChain.Devnet
