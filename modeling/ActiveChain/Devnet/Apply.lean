import Mathlib.Data.Prod.Lex
import ActiveChain.Devnet.Types

/-!
# Applying a block of the development chain

`apply_block` checks the header, orders the actions, and admits, executes and charges them one after
the other.

* `ActionEnvelope`, `DevnetBlock`, `ChainState` — the data; ordered vectors are sorted maps, so that
  the order checks of the constructors hold by their type.
* `applyAction`, `applyActions`, `applyBlock` — one action, the loop, the block.
-/

namespace ActiveChain.Devnet

def maxNonceChannels : Nat := 64

def maxFeeAccounts : Nat := 64

def maxFeeTicketLifetime : Nat := 7

def maxUsedFeeTickets : Nat := 256

def feeTicketAdmissionCharge : Nat := 1

structure ActionEnvelope (P : Type) where
  protocolVersion : Nat
  chainId : ChainId
  sender : PrincipalId
  feeTicket : FeeTicket
  nonceChannel : Nat
  sequence : Nat
  validity : ValidityInterval
  maximumResources : ResourceVector
  payloadCommitment : Digest384
  payload : P
  authorizationCommitment : Digest384
deriving DecidableEq

structure DevnetBlock (P : Type) where
  chainId : ChainId
  height : Nat
  parentBlockId : Digest384
  preState : StateCommitment
  preChainState : Digest384
  actions : List (ActionEnvelope P)
  bounded : actions.length ≤ maxBlockActions

/-- The key of a nonce channel; `nonce_key_order` compares the sender first. -/
abbrev ChannelKey := PrincipalId ×ₗ Nat

/-- Next sequences by channel, accounts by payer, and the last valid heights of used tickets by
identifier. -/
structure ChainState (O L : Type) where
  chainId : ChainId
  height : Nat
  headBlockId : Digest384
  objects : O
  nonceChannels : SortedMap ChannelKey Nat
  feeAccounts : FeeAccounts
  usedFeeTickets : SortedMap Digest384 Nat
  resourcePrices : ResourcePrices
  assetLedger : L

/-- Without the order of the collections and the asset ledger's own checks. -/
inductive ChainStateError
  | tooManyNonceChannels (actual maximum : Nat)
  | tooManyFeeAccounts (actual maximum : Nat)
  | tooManyUsedFeeTickets (actual maximum : Nat)
  | usedFeeTicketOutsideReplayWindow
deriving DecidableEq, Repr

/-- `BlockApplyError`; `machine` holds the errors of the state machines and of the encoder. -/
inductive BlockApplyError (ε : Type)
  | wrongChain
  | heightExhausted
  | unexpectedHeight (expected actual : Nat)
  | wrongParent
  | preStateMismatch
  | preChainStateMismatch
  | actionsNotStrictlyIncreasing (index : Nat)
  | actionWrongChain (index : Nat)
  | actionOutsideValidity (index : Nat)
  | payloadHeightMismatch (index : Nat)
  | feeTicketExpired (index : Nat)
  | feePayerDoesNotMatchSender (index : Nat)
  | feeTicketValidityTooLong (index : Nat)
  | missingFeeAccount (index : Nat)
  | feeTicketNonceReplay (index supplied expected : Nat)
  | feeTicketNonceGap (index supplied expected : Nat)
  | insufficientFeeBalance (index : Nat)
  | feeTicketNonceExhausted (index : Nat)
  | feeTicketAlreadyUsed (index : Nat)
  | usedFeeTicketCapacityExhausted (index : Nat)
  | missingNonceChannel (index : Nat)
  | nonce (index : Nat) (error : NonceAdvanceError)
  | insufficientFeeReservation (index : Nat)
  | resourceCountOverflow (index : Nat)
  | resourceChargeOverflow (index : Nat)
  | machine (error : ε)
  | invalidBlockReceipt (actual maximum : Nat)
  | invalidChainState (error : ChainStateError)
deriving DecidableEq, Repr

/-- The state that the payload of an action would lead to, with its outcome and its policy steps. -/
structure Candidate (O L : Type) where
  objects : Option O
  ledger : Option L
  outcome : ActionOutcome
  policySteps : Nat

/-- What the block kernel calls: identifiers and commitments, the measures of a payload, and the
transition kernels behind the payload variants. -/
structure Machine (O L P ε : Type) where
  actionId : ActionEnvelope P → TransactionId
  blockId : DevnetBlock P → Digest384
  commitObjects : O → Except ε StateCommitment
  commitState : ChainState O L → Digest384
  encodedLength : ActionEnvelope P → Nat
  payloadHeight : P → Nat
  objectAccesses : P → Nat
  execute : O → L → P → Nat → Digest384 → TransactionId → Nat → Except ε (Candidate O L)

section Kernel

variable {O L P ε : Type}

variable (M : Machine O L P ε) (a : ActionEnvelope P)

/-- On the fields of the state. -/
def ChainState.newWithAssetLedger (s : ChainState O L) :
    Except ChainStateError (ChainState O L) := do
  rejectIf (maxNonceChannels < s.nonceChannels.length)
    (.tooManyNonceChannels s.nonceChannels.length maxNonceChannels)
  rejectIf (maxFeeAccounts < s.feeAccounts.length)
    (.tooManyFeeAccounts s.feeAccounts.length maxFeeAccounts)
  rejectIf (maxUsedFeeTickets < s.usedFeeTickets.length)
    (.tooManyUsedFeeTickets s.usedFeeTickets.length maxUsedFeeTickets)
  rejectIf (∃ expiresAt ∈ s.usedFeeTickets.values, expiresAt < s.height ∨
    min (s.height + maxFeeTicketLifetime) u64Max < expiresAt) .usedFeeTicketOutsideReplayWindow
  return s

/-- The asset ledger is the default one. -/
def ChainState.genesisWithFeeAccounts (chainId : ChainId) (objects : O) (ledger : L)
    (nonceChannels : SortedMap ChannelKey Nat) (feeAccounts : FeeAccounts)
    (resourcePrices : ResourcePrices) : Except ChainStateError (ChainState O L) :=
  ChainState.newWithAssetLedger ⟨chainId, 0, Digest384.zero, objects, nonceChannels, feeAccounts,
    .empty, resourcePrices, ledger⟩

/-- What the admission of an action found: the charge for its maximum resources and the account of
its payer. -/
structure Admission where
  maximumCharge : Nat
  account : FeeAccount

/-- The checks of `apply_block` on one action, up to the balance of the payer. -/
def admitAction (state : ChainState O L) (height index : Nat)
    (accounts : FeeAccounts) (a : ActionEnvelope P) : Except (BlockApplyError ε) Admission := do
  rejectIf (a.chainId ≠ state.chainId) (.actionWrongChain index)
  rejectIf (¬ a.validity.Contains height) (.actionOutsideValidity index)
  rejectIf (M.payloadHeight a.payload ≠ height) (.payloadHeightMismatch index)
  rejectIf (a.feeTicket.validUntil < height) (.feeTicketExpired index)
  rejectIf (a.feeTicket.payer ≠ a.sender) (.feePayerDoesNotMatchSender index)
  rejectIf (a.feeTicket.validUntil ≠ a.validity.validUntil ∨
    maxFeeTicketLifetime < a.feeTicket.validUntil - a.validity.validFrom)
    (.feeTicketValidityTooLong index)
  let maximumCharge ← okOr (a.maximumResources.checkedCharge state.resourcePrices)
    (.resourceChargeOverflow index)
  let maximumBackedCharge ← okOr (checkedAdd 128 maximumCharge feeTicketAdmissionCharge)
    (.resourceChargeOverflow index)
  rejectIf (a.feeTicket.reservedAmount < maximumBackedCharge) (.insufficientFeeReservation index)
  let account ← okOr (accounts.get? a.feeTicket.payer) (.missingFeeAccount index)
  rejectIf (a.feeTicket.nonce < account.nextNonce)
    (.feeTicketNonceReplay index a.feeTicket.nonce account.nextNonce)
  rejectIf (account.nextNonce < a.feeTicket.nonce)
    (.feeTicketNonceGap index a.feeTicket.nonce account.nextNonce)
  rejectIf (account.balance < a.feeTicket.reservedAmount) (.insufficientFeeBalance index)
  return ⟨maximumCharge, account⟩

def insertUsedTicket (tickets : SortedMap Digest384 Nat) (ticketId : Digest384)
    (expiresAt index : Nat) : Except (BlockApplyError ε) (SortedMap Digest384 Nat) := do
  rejectIf (tickets.contains ticketId) (.feeTicketAlreadyUsed index)
  rejectIf (maxUsedFeeTickets ≤ tickets.length) (.usedFeeTicketCapacityExhausted index)
  return tickets.insert ticketId expiresAt

/-- The charge of an executed action: the price of what it used, or the maximum when it used more
than its ceiling. -/
def resourceCharge (prices : ResourcePrices) (used ceiling : ResourceVector)
    (maximumCharge index : Nat) : Except (BlockApplyError ε) Nat :=
  if used.FitsWithin ceiling then okOr (used.checkedCharge prices) (.resourceChargeOverflow index)
  else .ok maximumCharge

/-- The end of an action: the admission charge is added and the account pays. -/
def chargeFee (account : FeeAccount) (charge index : Nat) :
    Except (BlockApplyError ε) (Nat × FeeAccount) := do
  let feeCharged ← okOr (checkedAdd 128 charge feeTicketAdmissionCharge)
    (.resourceChargeOverflow index)
  let account ← (account.consume feeCharged).mapError fun
    | .insufficientBalance => .insufficientFeeBalance index
    | .nonceExhausted => .feeTicketNonceExhausted index
  return (feeCharged, account)

/-- The variables of the loop over the actions. -/
structure Progress (O L : Type) where
  objects : O
  ledger : L
  nonceChannels : SortedMap ChannelKey Nat
  feeAccounts : FeeAccounts
  usedFeeTickets : SortedMap Digest384 Nat
  receipts : List ActionReceipt

def applyAction (state : ChainState O L) (height : Nat) (blockId : Digest384) (index : Nat)
    (a : ActionEnvelope P) (s : Progress O L) : Except (BlockApplyError ε) (Progress O L) := do
  let admission ← admitAction M state height index s.feeAccounts a
  let tickets ← insertUsedTicket s.usedFeeTickets a.feeTicket.ticketId a.feeTicket.validUntil index
  let next ← okOr (s.nonceChannels.get? (toLex (a.sender, a.nonceChannel)))
    (.missingNonceChannel index)
  let sequence ← (advanceNonce next a.sequence).mapError (.nonce index)
  let encodedBytes ← okOr (fitsIn 64 (M.encodedLength a)) (.resourceCountOverflow index)
  let accesses ← okOr (fitsIn 64 (M.objectAccesses a.payload)) (.resourceCountOverflow index)
  let candidate ← (M.execute s.objects s.ledger a.payload height blockId (M.actionId a)
    index).mapError .machine
  let used : ResourceVector := ⟨candidate.policySteps, accesses, accesses, 0, 0, encodedBytes⟩
  let charge ← resourceCharge state.resourcePrices used a.maximumResources admission.maximumCharge
    index
  let fits := decide (used.FitsWithin a.maximumResources)
  let objects := if fits then candidate.objects.getD s.objects else s.objects
  let ledger := if fits then candidate.ledger.getD s.ledger else s.ledger
  let outcome := if fits then candidate.outcome else .resourceLimitExceeded
  let (feeCharged, account) ← chargeFee admission.account charge index
  let postState ← (M.commitObjects objects).mapError .machine
  return {
    objects := objects
    ledger := ledger
    nonceChannels := s.nonceChannels.insert (toLex (a.sender, a.nonceChannel)) sequence
    feeAccounts := s.feeAccounts.insert a.feeTicket.payer account
    usedFeeTickets := tickets
    receipts := s.receipts ++ [⟨M.actionId a, outcome, used, feeCharged, a.sequence, postState⟩] }

def applyActions (M : Machine O L P ε) (state : ChainState O L) (height : Nat)
    (blockId : Digest384) :
    Nat → List (ActionEnvelope P) → Progress O L → Except (BlockApplyError ε) (Progress O L)
  | _, [], s => .ok s
  | index, a :: rest, s => do
    let s ← applyAction M state height blockId index a s
    applyActions M state height blockId (index + 1) rest s

/-- The order check of `apply_block`: each identifier is above the one before it. -/
def checkActionOrder (M : Machine O L P ε) :
    Nat → Option TransactionId → List (ActionEnvelope P) → Except (BlockApplyError ε) Unit
  | _, _, [] => .ok ()
  | index, previous, a :: rest => do
    rejectIf (∃ id ∈ previous, M.actionId a ≤ id) (.actionsNotStrictlyIncreasing index)
    checkActionOrder M (index + 1) (some (M.actionId a)) rest

structure BlockOutput (O L : Type) where
  state : ChainState O L
  receipt : BlockReceipt
  receiptRoot : Digest384

/-- A block with the state before it and its output. -/
abbrev AppliedBlock (O L P : Type) := ChainState O L × DevnetBlock P × BlockOutput O L

def applyBlock (C : Crypto) (M : Machine O L P ε) (state : ChainState O L) (block : DevnetBlock P) :
    Except (BlockApplyError ε) (BlockOutput O L) := do
  rejectIf (block.chainId ≠ state.chainId) .wrongChain
  let expectedHeight ← okOr (checkedAdd 64 state.height 1) .heightExhausted
  rejectIf (block.height ≠ expectedHeight) (.unexpectedHeight expectedHeight block.height)
  rejectIf (block.parentBlockId ≠ state.headBlockId) .wrongParent
  let preState ← (M.commitObjects state.objects).mapError .machine
  rejectIf (block.preState ≠ preState) .preStateMismatch
  rejectIf (block.preChainState ≠ M.commitState state) .preChainStateMismatch
  checkActionOrder M 0 none block.actions
  let s ← applyActions M state block.height (M.blockId block) 0 block.actions
    ⟨state.objects, state.assetLedger, state.nonceChannels, state.feeAccounts,
      state.usedFeeTickets.retain fun _ expiresAt => decide (block.height ≤ expiresAt), []⟩
  let postState ← (M.commitObjects s.objects).mapError .machine
  let next ← (ChainState.newWithAssetLedger ⟨state.chainId, block.height, M.blockId block,
    s.objects, s.nonceChannels, s.feeAccounts, s.usedFeeTickets, state.resourcePrices,
    s.ledger⟩).mapError .invalidChainState
  rejectIf (maxBlockActions < s.receipts.length)
    (.invalidBlockReceipt s.receipts.length maxBlockActions)
  let receipt : BlockReceipt := ⟨M.blockId block, block.height, preState, postState,
    M.commitState state, M.commitState next, s.receipts⟩
  return ⟨next, receipt, commit C .canonicalValue receipt⟩

end Kernel

end ActiveChain.Devnet
