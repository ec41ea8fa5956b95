import ActiveChain.Devnet.Apply
import ActiveChain.Lib.Counters

/-!
# Fees and replay protection of the development chain

What the loop of `apply_block` does to fee accounts and nonce channels, whatever the transition
kernels do to the objects.

* `charging` — after the balance check, the charge of an action exists, stays within the reservation
  and is taken, unless the nonce of the payer is used up.
-/

namespace ActiveChain.Devnet

open Except List Option SortedMap ResourceVector

variable {O L P ε : Type} {M : Machine O L P ε} {state : ChainState O L} {height index : Nat}
  {a : ActionEnvelope P}

/-! ## Charging -/

variable {admission : Admission} {accounts : FeeAccounts}

section

variable (h : admitAction M state height index accounts a = .ok admission)
include h

theorem admitAction_ok :
    a.feeTicket.payer = a.sender ∧
    a.maximumResources.checkedCharge state.resourcePrices = some admission.maximumCharge ∧
    admission.maximumCharge + 1 ≤ a.feeTicket.reservedAmount ∧
    admission.maximumCharge + 1 < 2 ^ 128 ∧
    accounts.get? a.feeTicket.payer = some admission.account ∧
    admission.account.nextNonce = a.feeTicket.nonce ∧
    a.feeTicket.reservedAmount ≤ admission.account.balance := by
  simp only [admitAction, inversion, feeTicketAdmissionCharge, not_lt] at h
  obtain ⟨-, -, -, -, hp, -, charge, hc, _, ⟨rfl, hf⟩, hr, account, hac, hre, hgap, hb, rfl⟩ := h
  exact ⟨hp, hc, hr, hf, hac, Nat.le_antisymm hre hgap, hb⟩

theorem charging (used : ResourceVector) :
    ∃ charge, resourceCharge (ε := ε) state.resourcePrices used a.maximumResources
        admission.maximumCharge index = .ok charge ∧
      charge + 1 ≤ a.feeTicket.reservedAmount ∧
      chargeFee (ε := ε) admission.account charge index =
        if a.feeTicket.nonce + 1 < 2 ^ 64 then
          .ok (charge + 1, ⟨admission.account.balance - (charge + 1), a.feeTicket.nonce + 1⟩)
        else .error (.feeTicketNonceExhausted index) := by
  obtain ⟨-, hm, hr, hf, -, hn, hb⟩ := admitAction_ok h
  obtain ⟨hc, hlt⟩ := checkedCharge_eq_some.1 hm
  obtain ⟨charge, hok, hle⟩ : ∃ charge, resourceCharge (ε := ε) state.resourcePrices used
      a.maximumResources admission.maximumCharge index = .ok charge ∧
      charge ≤ admission.maximumCharge := by
    unfold resourceCharge
    split
    · rename_i hw
      have hu := chargeOf_le hw state.resourcePrices
      refine ⟨_, okOr_eq_ok.2 (checkedCharge_eq_some.2 ⟨rfl, ?_⟩), ?_⟩
      · exact hu.trans_lt hlt
      · rw [hc]
        exact hu
    · exact ⟨_, rfl, Nat.le_refl _⟩
  refine ⟨charge, hok, by omega, ?_⟩
  have hadd : checkedAdd 128 charge feeTicketAdmissionCharge = some (charge + 1) :=
    checkedAdd_eq_some.2 ⟨rfl, by unfold feeTicketAdmissionCharge; omega⟩
  have hsub : checkedSub admission.account.balance (charge + 1) =
      some (admission.account.balance - (charge + 1)) := checkedSub_eq_some.2 ⟨rfl, by omega⟩
  rw [chargeFee, hadd, okOr_some, ok_bind, FeeAccount.consume, hsub, okOr_some,
    ok_bind, hn, checkedAdd]
  split <;> rfl

end

/-! ## One action -/

def ActionEnvelope.channel (a : ActionEnvelope P) : ChannelKey := toLex (a.sender, a.nonceChannel)

def ticketNonces (accounts : FeeAccounts) (payer : PrincipalId) : Option Nat :=
  (accounts.get? payer).map FeeAccount.nextNonce

/-- What all payers have. -/
def balances (accounts : FeeAccounts) : Nat :=
  accounts.total FeeAccount.balance

def fees (receipts : List ActionReceipt) : Nat := (receipts.map ActionReceipt.feeCharged).sum

/-- The parts of a state that protect against replay. -/
structure Books where
  channels : SortedMap ChannelKey Nat
  accounts : FeeAccounts
  tickets : SortedMap Digest384 Nat

def ChainState.books (s : ChainState O L) : Books :=
  ⟨s.nonceChannels, s.feeAccounts, s.usedFeeTickets⟩

def Progress.books (s : Progress O L) : Books := ⟨s.nonceChannels, s.feeAccounts, s.usedFeeTickets⟩

def FeeTicket.entry (t : FeeTicket) : Digest384 × Nat := (t.ticketId, t.validUntil)

/-- The effect of accepted actions, with their receipts, up to a height. -/
structure Settled (height : Nat) (b b' : Books) (actions : List (ActionEnvelope P))
    (receipts : List ActionReceipt) : Prop where
  tickets : Issues (ticketNonces b.accounts) (ticketNonces b'.accounts)
    (actions.map fun a => (a.feeTicket.payer, a.feeTicket.nonce))
  sequences : Issues b.channels.get? b'.channels.get? (actions.map fun a => (a.channel, a.sequence))
  reserved : List.Forall₂ (fun a r => r.feeCharged ≤ a.feeTicket.reservedAmount) actions receipts
  paid : balances b.accounts = balances b'.accounts + fees receipts
  others : ∀ payer, payer ∉ actions.map (fun a => a.feeTicket.payer) →
    b'.accounts.get? payer = b.accounts.get? payer
  retained : ∀ later, height ≤ later → (b'.tickets.entries.filter (later ≤ ·.2)).Perm
    ((actions.map (·.feeTicket.entry) ++ b.tickets.entries).filter (later ≤ ·.2))

theorem Settled.refl (height : Nat) (b : Books) : Settled (P := P) height b b [] [] :=
  ⟨Issues.refl _, Issues.refl _, .nil, rfl, fun _ _ => rfl, fun _ _ => .refl _⟩

theorem Settled.trans {b b' b'' : Books} {height' : Nat}
    {actions actions' : List (ActionEnvelope P)}
    {receipts receipts' : List ActionReceipt} (h : Settled height b b' actions receipts)
    (h' : Settled height' b' b'' actions' receipts') (hle : height ≤ height') :
    Settled height' b b'' (actions ++ actions') (receipts ++ receipts') where
  tickets := by
    rw [map_append]
    exact h.tickets.trans h'.tickets
  sequences := by
    rw [map_append]
    exact h.sequences.trans h'.sequences
  reserved := rel_append h.reserved h'.reserved
  paid := by
    have hf := h.paid
    have hs := h'.paid
    simp only [fees, map_append, sum_append] at hf hs ⊢
    omega
  others payer hp := by
    rw [map_append, mem_append, not_or] at hp
    rw [h'.others payer hp.2, h.others payer hp.1]
  retained later hlater := by
    have hf := h.retained later (hle.trans hlater)
    have hs := h'.retained later hlater
    simp only [map_append, filter_append, append_assoc] at hf hs ⊢
    exact hs.trans ((hf.append_left _).trans (perm_append_comm_assoc ..))

variable {blockId : Digest384} {s s' : Progress O L}

/-- **One round of the loop settles its action.** -/
theorem applyAction_settled (h : applyAction M state height blockId index a s = .ok s') :
    ∃ receipt, s'.receipts = s.receipts ++ [receipt] ∧
      Settled height s.books s'.books [a] [receipt] := by
  simp only [applyAction, insertUsedTicket, inversion, Prod.exists] at h
  obtain ⟨admission, had, _, ⟨hid, -, rfl⟩, next, hne, _, hadv, _, -, _, -, candidate, -, charge,
    hch, fee, account, hfee, _, -, rfl⟩ := h
  obtain ⟨-, -, -, -, hac, hn, hb⟩ := admitAction_ok had
  simp only [advanceNonce, inversion] at hadv
  obtain ⟨hle, hge, rfl, -⟩ := hadv
  have hs : a.sequence = next := by omega
  obtain ⟨charge', hc', hr, hpay⟩ := charging had _
  cases Except.ok.inj (hch.symm.trans hc')
  rw [hpay] at hfee
  split at hfee
  case isFalse => cases hfee
  cases hfee
  refine ⟨_, rfl, ?_, ?_, .cons hr .nil, ?_, ?_, ?_⟩
  · refine Issues.taken ?_ ?_ ?_
    · rw [ticketNonces, Progress.books, hac, map_some, hn]
    · rw [ticketNonces, Progress.books, get?_insert_self, map_some]
    · intro payer hp
      rw [ticketNonces, ticketNonces, Progress.books, get?_insert_ne _ _ hp, Progress.books]
  · refine Issues.taken ?_ ?_ ?_
    · rw [hs]
      exact hne
    · rw [hs]
      exact get?_insert_self _ _ _
    · intro channel hc
      exact get?_insert_ne _ _ hc
  · have ht := s.feeAccounts.total_put a.feeTicket.payer
      (some ⟨admission.account.balance - (charge + 1), a.feeTicket.nonce + 1⟩) FeeAccount.balance
    simp only [put, hac, map_some, getD_some] at ht
    simp only [Progress.books, balances, fees, map_cons, map_nil, sum_cons, sum_nil]
    omega
  · intro payer hp
    exact get?_insert_ne _ _ (ne_of_not_mem_cons hp)
  · intro later _
    exact (insert_perm _ (by simpa [SortedMap.contains] using hid)).filter _

/-- **The loop settles its actions.** -/
theorem applyActions_settled {actions : List (ActionEnvelope P)} {i : Nat}
    (h : applyActions M state height blockId i actions s = .ok s') :
    ∃ receipts, s'.receipts = s.receipts ++ receipts ∧
      Settled height s.books s'.books actions receipts := by
  induction actions generalizing i s with
  | nil =>
    cases h
    exact ⟨[], (append_nil _).symm, Settled.refl _ _⟩
  | cons a rest ih =>
    simp only [applyActions, inversion] at h
    obtain ⟨mid, hac, hres⟩ := h
    obtain ⟨receipt, hre, hone⟩ := applyAction_settled hac
    obtain ⟨receipts, hr, hm⟩ := ih hres
    refine ⟨receipt :: receipts, ?_, hone.trans hm le_rfl⟩
    rw [hr, hre, append_assoc, singleton_append]

/-! ## Blocks and chains -/

def BlockSettled (pre : ChainState O L) (block : DevnetBlock P) (output : BlockOutput O L) : Prop :=
  Settled block.height pre.books output.state.books block.actions output.receipt.actionReceipts

variable {C : Crypto}

/-- **A block settles its actions, with the receipts it reports.** -/
theorem applyBlock_settled {pre : ChainState O L} {block : DevnetBlock P} {output : BlockOutput O L}
    (h : applyBlock C M pre block = .ok output) :
    pre.height < block.height ∧ output.state.height = block.height ∧
      BlockSettled pre block output := by
  simp only [applyBlock, ChainState.newWithAssetLedger, inversion] at h
  obtain ⟨-, _, ⟨rfl, -⟩, hh, -, _, -, -, -, -, s, hac, _, -, _, ⟨-, -, -, -, rfl⟩, -, rfl⟩ := h
  obtain ⟨receipts, hr, hs⟩ := applyActions_settled hac
  cases hr
  refine ⟨by omega, rfl, { hs with retained := fun later hlater => ?_ }⟩
  -- what is dropped before the actions has expired
  refine (hs.retained later hlater).trans (.of_eq ?_)
  rw [filter_append, filter_append]
  simp only [Progress.books, ChainState.books, retain, List.filter_filter]
  refine congrArg _ (filter_congr fun e _ => ?_)
  simp only [Bool.and_eq_left_iff_imp, decide_eq_true_eq]
  exact hlater.trans

/-- Blocks applied one after the other, each with the state before it and its output. -/
inductive Chain (C : Crypto) (M : Machine O L P ε) (genesis : ChainState O L) :
    List (AppliedBlock O L P) → ChainState O L → Prop
  | start : Chain C M genesis [] genesis
  | block {trace : List (AppliedBlock O L P)} {pre : ChainState O L}
      {block : DevnetBlock P} {output : BlockOutput O L} (before : Chain C M genesis trace pre)
      (applied : applyBlock C M pre block = .ok output) :
      Chain C M genesis (trace ++ [(pre, block, output)]) output.state

def accepted (trace : List (AppliedBlock O L P)) :
    List (ActionEnvelope P) :=
  trace.flatMap fun step => step.2.1.actions

/-- **A chain settles everything it accepted, block by block and as a whole.** -/
theorem Chain.settled {genesis final : ChainState O L} {trace : List (AppliedBlock O L P)}
    (h : Chain C M genesis trace final) : (∀ step ∈ trace, BlockSettled step.1 step.2.1 step.2.2) ∧
      Settled final.height genesis.books final.books (accepted trace)
        (trace.flatMap fun step => step.2.2.receipt.actionReceipts) := by
  induction h with
  | start => exact ⟨nofun, Settled.refl _ _⟩
  | block before applied ih =>
    obtain ⟨hlt, hheight, hb⟩ := applyBlock_settled applied
    constructor
    · intro step hs
      rcases mem_append.1 hs with hs | hs
      · exact ih.1 step hs
      · cases mem_singleton.1 hs
        exact hb
    · rw [accepted, flatMap_append, flatMap_append, hheight]
      exact ih.2.trans (by simpa [BlockSettled] using hb) hlt.le

/-- **Fees and replay protection of a chain.** Over the whole chain no ticket, no sequence of a
channel and no action is accepted twice, and tickets that are still valid have different
identifiers; in every block the fees stay within their reservations and are what the balances lose;
an admitted action is charged unless its ticket has the last nonce. -/
theorem fees_and_replay {C : Crypto} {genesis final : ChainState O L}
    {trace : List (AppliedBlock O L P)} (h : Chain C M genesis trace final) :
    ((accepted trace).map fun a => (a.feeTicket.payer, a.feeTicket.nonce)).Nodup ∧
    ((accepted trace).map ActionEnvelope.feeTicket).Nodup ∧
    ((accepted trace).map fun a => (a.sender, a.nonceChannel, a.sequence)).Nodup ∧
    (accepted trace).Nodup ∧
    (((accepted trace).filter (final.height ≤ ·.feeTicket.validUntil)).map
      (·.feeTicket.ticketId)).Nodup ∧
    (∀ pre block output, (pre, block, output) ∈ trace →
      List.Forall₂ (fun a r => r.feeCharged ≤ a.feeTicket.reservedAmount) block.actions
        output.receipt.actionReceipts ∧
      balances pre.feeAccounts =
        balances output.state.feeAccounts + fees output.receipt.actionReceipts ∧
      ∀ payer, payer ∉ block.actions.map (fun a => a.feeTicket.payer) →
        output.state.feeAccounts.get? payer = pre.feeAccounts.get? payer) ∧
    ∀ (state : ChainState O L) height index accounts (a : ActionEnvelope P) admission used,
      admitAction M state height index accounts a = .ok admission →
      ∃ charge, resourceCharge (ε := ε) state.resourcePrices used a.maximumResources
          admission.maximumCharge index = .ok charge ∧
        chargeFee (ε := ε) admission.account charge index =
          if a.feeTicket.nonce + 1 < 2 ^ 64 then
            .ok (charge + 1, ⟨admission.account.balance - (charge + 1), a.feeTicket.nonce + 1⟩)
          else .error (.feeTicketNonceExhausted index) := by
  obtain ⟨hbl, hto⟩ := h.settled
  have ht := hto.tickets.nodup
  have hf : ((accepted trace).map ActionEnvelope.feeTicket).Nodup := by
    refine List.Nodup.of_map (fun t : FeeTicket => (t.payer, t.nonce)) ?_
    rw [List.map_map]
    exact ht
  have hid := ((hto.retained _ le_rfl).map Prod.fst).nodup_iff.1
    (final.usedFeeTickets.keys_nodup.sublist (filter_sublist.map _))
  rw [filter_append, map_append, List.filter_map, List.map_map] at hid
  refine ⟨ht, hf, ?_, hf.of_map _, (nodup_append.1 hid).1, ?_, ?_⟩
  · refine List.Nodup.of_map (fun t : PrincipalId × Nat × Nat => (toLex (t.1, t.2.1), t.2.2)) ?_
    rw [List.map_map]
    exact hto.sequences.nodup
  · intro pre block output hmem
    have hb := hbl _ hmem
    exact ⟨hb.reserved, hb.paid, hb.others⟩
  · intro state height index accounts a admission used had
    obtain ⟨charge, hc, -, hfee⟩ := charging had used
    exact ⟨charge, hc, hfee⟩

/-! ## A chain of one account -/

namespace OneAccount

/-- Kernels that submit an anchor and leave the objects as they are. -/
def anchors : Machine Unit Unit Nat Unit where
  actionId a := a.feeTicket.nonce
  blockId b := b.height
  commitObjects _ := .ok ⟨0, 0⟩
  commitState s := s.height
  encodedLength _ := 8
  payloadHeight height := height
  objectAccesses _ := 1
  execute _ _ _ _ _ _ _ := .ok ⟨none, none, .anchorSubmitted 7, 1⟩

/-- One channel, and one account with the given next nonce. -/
def genesis (nonce : Nat) : ChainState Unit Unit :=
  ⟨5, 0, Digest384.zero, (), ⟨[(toLex (9, 0), 0)], pairwise_singleton ..⟩,
    ⟨[(9, ⟨100, nonce⟩)], pairwise_singleton ..⟩, .empty, ⟨1, 1, 1, 1, 1, 1⟩, ()⟩

/-- An action that may cost up to `40`, with `50` reserved. -/
def action (height nonce sequence : Nat) : ActionEnvelope Nat :=
  ⟨1, 5, 9, ⟨nonce, 9, 50, 3, nonce, ⟨10, 10, 10, 0, 0, 10⟩, by decide⟩, 0, sequence,
    ⟨1, 3, by decide⟩, ⟨10, 10, 10, 0, 0, 10⟩, 1, height, 0⟩

/-- The next block after `parent`. -/
def block (parent : Nat) (actions : List (ActionEnvelope Nat)) (h : actions.length ≤ 32) :
    DevnetBlock Nat :=
  ⟨5, parent + 1, parent, ⟨0, 0⟩, parent, actions, h⟩

def firstBlock : DevnetBlock Nat := block 0 [action 1 0 0, action 1 1 1] (by decide)

theorem first_block_charged : ∃ output,
    applyBlock .transparent anchors (genesis 0) firstBlock = .ok output ∧
    fees output.receipt.actionReceipts = 24 ∧ balances output.state.feeAccounts = 76 ∧
    balances (genesis 0).feeAccounts =
      balances output.state.feeAccounts + fees output.receipt.actionReceipts ∧
    ((firstBlock.actions.filter (output.state.height ≤ ·.feeTicket.validUntil)).map
      (·.feeTicket.ticketId)).Nodup := by
  have h : applyBlock .transparent anchors (genesis 0) firstBlock = .ok _ := rfl
  obtain ⟨-, -, -, -, hid, hblock, -⟩ := fees_and_replay (.block .start h)
  exact ⟨_, h, rfl, rfl, (hblock _ _ _ (mem_singleton_self _)).2.1, hid⟩

/-- A genesis account may already be at the last nonce: its action passes the balance check, and the
block fails when it is charged. -/
theorem last_nonce_not_charged :
    ChainState.genesisWithFeeAccounts 5 () () (genesis u64Max).nonceChannels
      (genesis u64Max).feeAccounts (genesis u64Max).resourcePrices = .ok (genesis u64Max) ∧
    (∃ admission, admitAction anchors (genesis u64Max) 1 0 (genesis u64Max).feeAccounts
      (action 1 u64Max 0) = .ok admission) ∧
    applyBlock .transparent anchors (genesis u64Max) (block 0 [action 1 u64Max 0] (by decide)) =
      .error (.feeTicketNonceExhausted 0) :=
  ⟨rfl, ⟨_, rfl⟩, rfl⟩

end OneAccount

end ActiveChain.Devnet
