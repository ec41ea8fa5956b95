import ActiveChain.State.Tree
import ActiveChain.Cash.Types

/-!
# Actions, fees and receipts of the development chain

The values of `action-kernel` and `devnet-kernel` that a block passes through.

* `ResourceVector.checkedCharge` — the price of six resources in checked arithmetic;
  `checkedCharge_eq_some` says when it exists.
* `FeeTicket`, `FeeAccount.consume`, `advanceNonce` — reservations, balances and replay counters.
* `ActionOutcome`, `ActionReceipt`, `BlockReceipt` — what a block reports about its actions.
-/

namespace ActiveChain.Devnet

open List

/-! ## Resources -/

@[ext] structure ResourceVector where
  policySteps : Nat
  objectReads : Nat
  objectWrites : Nat
  vmGas : Nat
  events : Nat
  encodedBytes : Nat
deriving DecidableEq, Repr

/-- One price for each dimension. -/
structure ResourcePrices where
  policyStep : Nat
  objectRead : Nat
  objectWrite : Nat
  vmGas : Nat
  event : Nat
  encodedByte : Nat
deriving DecidableEq, Repr

namespace ResourceVector

def FitsWithin (v ceiling : ResourceVector) : Prop :=
  v.policySteps ≤ ceiling.policySteps ∧ v.objectReads ≤ ceiling.objectReads ∧
  v.objectWrites ≤ ceiling.objectWrites ∧ v.vmGas ≤ ceiling.vmGas ∧ v.events ≤ ceiling.events ∧
  v.encodedBytes ≤ ceiling.encodedBytes
deriving Decidable

variable (v : ResourceVector) (p : ResourcePrices)

/-- The terms of `checked_charge`, in its order. -/
def terms : List (Nat × Nat) :=
  [(v.policySteps, p.policyStep), (v.objectReads, p.objectRead), (v.objectWrites, p.objectWrite),
    (v.vmGas, p.vmGas), (v.events, p.event), (v.encodedBytes, p.encodedByte)]

/-- The loop of `checked_charge`. -/
def chargeLoop : List (Nat × Nat) → Nat → Option Nat
  | [], charge => some charge
  | (units, price) :: rest, charge => do
    let term ← checkedMul 128 units price
    let charge ← checkedAdd 128 charge term
    chargeLoop rest charge

def checkedCharge : Option Nat := chargeLoop (v.terms p) 0

/-- The price of the terms. -/
def chargeOf (terms : List (Nat × Nat)) : Nat := (terms.map fun t => t.1 * t.2).sum

theorem chargeLoop_eq_some {terms : List (Nat × Nat)} {charge c : Nat} (hc : charge < 2 ^ 128) :
    chargeLoop terms charge = some c ↔
      c = charge + chargeOf terms ∧ charge + chargeOf terms < 2 ^ 128 := by
  induction terms generalizing charge with
  | nil =>
    simp only [chargeLoop, chargeOf, map_nil, sum_nil, Nat.add_zero, Option.some.injEq]
    exact ⟨fun h => ⟨h.symm, hc⟩, fun h => h.1.symm⟩
  | cons t rest ih =>
    obtain ⟨units, price⟩ := t
    have hsum : chargeOf ((units, price) :: rest) = units * price + chargeOf rest := by
      simp [chargeOf]
    simp only [chargeLoop, bind, Option.bind_eq_some_iff, checkedMul_eq_some,
      checkedAdd_eq_some, hsum]
    constructor
    · rintro ⟨_, ⟨rfl, -⟩, _, ⟨rfl, hadd⟩, h⟩
      obtain ⟨rfl, hlt⟩ := (ih hadd).1 h
      omega
    · rintro ⟨rfl, hlt⟩
      have hadd : charge + units * price < 2 ^ 128 := by omega
      refine ⟨_, ⟨rfl, by omega⟩, _, ⟨rfl, hadd⟩, (ih hadd).2 ?_⟩
      omega

theorem checkedCharge_eq_some {v : ResourceVector} {p : ResourcePrices} {c : Nat} :
    v.checkedCharge p = some c ↔ c = chargeOf (v.terms p) ∧ chargeOf (v.terms p) < 2 ^ 128 := by
  rw [checkedCharge, chargeLoop_eq_some (by decide), Nat.zero_add]

theorem chargeOf_le {v ceiling : ResourceVector} (h : v.FitsWithin ceiling) (p : ResourcePrices) :
    chargeOf (v.terms p) ≤ chargeOf (ceiling.terms p) := by
  obtain ⟨h1, h2, h3, h4, h5, h6⟩ := h
  simp only [chargeOf, terms, map_cons, map_nil, sum_cons, sum_nil]
  have := Nat.mul_le_mul_right p.policyStep h1
  have := Nat.mul_le_mul_right p.objectRead h2
  have := Nat.mul_le_mul_right p.objectWrite h3
  have := Nat.mul_le_mul_right p.vmGas h4
  have := Nat.mul_le_mul_right p.event h5
  have := Nat.mul_le_mul_right p.encodedByte h6
  omega

end ResourceVector

/-! ## Tickets, accounts and channels -/

structure ValidityInterval where
  validFrom : Nat
  validUntil : Nat
  ordered : validFrom ≤ validUntil
deriving DecidableEq

def ValidityInterval.Contains (v : ValidityInterval) (height : Nat) : Prop :=
  v.validFrom ≤ height ∧ height ≤ v.validUntil
deriving Decidable

@[ext] structure FeeTicket where
  ticketId : Digest384
  payer : PrincipalId
  reservedAmount : Nat
  validUntil : Nat
  nonce : Nat
  permittedResources : ResourceVector
  reserved_ne_zero : reservedAmount ≠ 0

instance : DecidableEq FeeTicket := fun _ _ => decidable_of_iff _ FeeTicket.ext_iff.symm

/-- Without the payer it is stored under. -/
structure FeeAccount where
  balance : Nat
  nextNonce : Nat
deriving DecidableEq, Repr

abbrev FeeAccounts := SortedMap PrincipalId FeeAccount

inductive FeeAccountConsumeError
  | insufficientBalance
  | nonceExhausted
deriving DecidableEq, Repr

/-- A failed call leaves the block, so the half-made change is not kept. -/
def FeeAccount.consume (a : FeeAccount) (charge : Nat) :
    Except FeeAccountConsumeError FeeAccount := do
  let balance ← okOr (checkedSub a.balance charge) .insufficientBalance
  let nextNonce ← okOr (checkedAdd 64 a.nextNonce 1) .nonceExhausted
  return ⟨balance, nextNonce⟩

inductive NonceAdvanceError
  | replay (supplied expected : Nat)
  | sequenceGap (supplied expected : Nat)
  | sequenceExhausted
deriving DecidableEq, Repr

/-- `NonceChannel::advance`, on the next sequence of the channel. -/
def advanceNonce (next supplied : Nat) : Except NonceAdvanceError Nat := do
  rejectIf (supplied < next) (.replay supplied next)
  rejectIf (next < supplied) (.sequenceGap supplied next)
  okOr (checkedAdd 64 next 1) .sequenceExhausted

/-! ## Receipts -/

inductive ReceiptResult
  | success
  | requestContextMismatch
  | accessManifestViolation
  | objectNotFound
  | staleObjectVersion
  | controlPolicyMismatch
  | authorizationDenied
  | unsupportedObligation
  | immutableObject
  | transferDisabled
  | ownerUnchanged
  | versionExhausted
deriving DecidableEq, Repr

def ReceiptResult.tag : ReceiptResult → Nat
  | .success => 0
  | .requestContextMismatch => 1
  | .accessManifestViolation => 2
  | .objectNotFound => 3
  | .staleObjectVersion => 4
  | .controlPolicyMismatch => 5
  | .authorizationDenied => 6
  | .unsupportedObligation => 7
  | .immutableObject => 8
  | .transferDisabled => 9
  | .ownerUnchanged => 10
  | .versionExhausted => 11

structure TransitionReceipt where
  result : ReceiptResult
  failedCommand : Option Nat
  objectsUpdated : Nat
  policySteps : Nat
  preStateCommitment : Digest384
  postStateCommitment : Digest384
deriving DecidableEq, Repr

inductive ActionOutcome
  | transition (receipt : TransitionReceipt)
  | assetTransition (preLedger postLedger : Digest384)
  | resourceLimitExceeded
  | anchorSubmitted (reference : Digest384)
deriving DecidableEq, Repr

structure ActionReceipt where
  transactionId : TransactionId
  outcome : ActionOutcome
  resourcesUsed : ResourceVector
  feeCharged : Nat
  sequence : Nat
  postState : StateCommitment
deriving DecidableEq, Repr

def maxBlockActions : Nat := 32

structure BlockReceipt where
  blockId : Digest384
  height : Nat
  preState : StateCommitment
  postState : StateCommitment
  preChainState : Digest384
  postChainState : Digest384
  actionReceipts : List ActionReceipt
deriving DecidableEq, Repr

/-! ## Canonical bodies -/

/-- An optional byte behind its tag. -/
def optionBody : Option Nat → Transcript
  | none => [.u8 0]
  | some value => [.u8 1, .u8 value]

/-- `TransitionReceipt::encode`. -/
def TransitionReceipt.body (r : TransitionReceipt) : Transcript :=
  [.u8 r.result.tag] ++ optionBody r.failedCommand ++
    [.u8 r.objectsUpdated, .u32 r.policySteps, .digest r.preStateCommitment,
      .digest r.postStateCommitment]

/-- `ActionOutcome::encode`. -/
def ActionOutcome.body : ActionOutcome → Transcript
  | .transition receipt => .u8 0 :: receipt.body
  | .resourceLimitExceeded => [.u8 1]
  | .assetTransition preLedger postLedger => [.u8 2, .digest preLedger, .digest postLedger]
  | .anchorSubmitted reference => [.u8 3, .digest reference]

/-- `ResourceVector::encode`. -/
def ResourceVector.body (v : ResourceVector) : Transcript :=
  [.u64 v.policySteps, .u64 v.objectReads, .u64 v.objectWrites, .u64 v.vmGas, .u64 v.events,
    .u64 v.encodedBytes]

/-- `StateCommitment::encode`. -/
def stateCommitmentBody (c : StateCommitment) : Transcript := [.digest c.root, .u64 c.objectCount]

/-- `ActionReceipt::encode`. -/
def ActionReceipt.body (r : ActionReceipt) : Transcript :=
  [.digest r.transactionId] ++ r.outcome.body ++ r.resourcesUsed.body ++
    [.u128 r.feeCharged, .u64 r.sequence] ++ stateCommitmentBody r.postState

instance : CanonicalType BlockReceipt where
  typeTag := 0x0074
  schemaVersion := 3
  body r := [.digest r.blockId, .u64 r.height] ++ stateCommitmentBody r.preState ++
    stateCommitmentBody r.postState ++ [.digest r.preChainState, .digest r.postChainState,
      .u32 r.actionReceipts.length] ++ r.actionReceipts.flatMap ActionReceipt.body

end ActiveChain.Devnet
