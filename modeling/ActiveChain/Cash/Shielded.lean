import ActiveChain.Accumulator.SetCommitment
import ActiveChain.Cash.Types

/-!
# The shielded pool (`privacy-kernel`)

Public value enters a pool that is known only by its balance and an anchor, and leaves it against
nullifiers.  A nullifier is spent once: the spent ones form a witnessed set.

* `ShieldIntent`, `UnshieldIntent` — the two intents, with the checks of their constructors.
* `NullifierSet.consumeVerified` — spending a list of nullifiers.
* `ShieldedCashState.credit`, `debit` — the pool after a deposit or a withdrawal.
* `NullifierSet.consumeVerified_ok` — **spent nullifiers are fresh, and stay spent.**
-/

namespace ActiveChain

open Except List

def maxShieldedItems : Nat := 16

inductive PrivacyError
  | emptyTransfer
  | tooManyItems
  | zeroValue
  | invalidValidityWindow
  | invalidViewingScope
  | nonCanonicalOrder
  | duplicateNullifier
  | nullifierAlreadySpent
  | invalidNullifierWitness
  | wrongChain
  | wrongAnchor
  | expired
  | publicInputMismatch
  | proofNotVerified
  | commitmentEncoding
  | scopeEscalation
deriving DecidableEq, Repr

/-- What the proof verifier reports, and for which public inputs. -/
structure VerifiedPrivacyProof where
  publicInputsCommitment : Digest384
  verified : Bool

@[ext] structure ShieldIntent where
  chainId : ChainId
  assetId : AssetId
  owner : PrincipalId
  inputs : List CoinCellId
  feeReserve : CoinCellId
  amount : Nat
  fee : Nat
  outputCommitments : List Digest384
  validUntil : Nat
  amountChecked : amount ≠ 0
  inputBounds : inputs ≠ [] ∧ inputs.length ≤ maxShieldedItems
  outputBounds : outputCommitments ≠ [] ∧ outputCommitments.length ≤ maxShieldedItems
  ordered : inputs.Pairwise (· < ·) ∧ outputCommitments.Pairwise (· < ·)
  reserveApart : feeReserve ∉ inputs

@[ext] structure NullifierWitness where
  nullifier : AccumulatorKey
  siblings : List Digest384
  checked : nullifier ≠ 0 ∧ siblings.length = keyBits

def NullifierWitness.accumulatorWitness (w : NullifierWitness) : NonMembershipWitness :=
  ⟨w.nullifier, w.siblings⟩

/-- Every nullifier comes with its own witness. -/
@[ext] structure UnshieldIntent where
  chainId : ChainId
  assetId : AssetId
  anchor : Digest384
  recipient : PrincipalId
  amount : Nat
  fee : Nat
  nullifiers : List AccumulatorKey
  nullifierWitnesses : List NullifierWitness
  changeCommitments : List Digest384
  validUntil : Nat
  amountChecked : amount ≠ 0
  bounds : nullifiers ≠ [] ∧ nullifiers.length ≤ maxShieldedItems ∧
    changeCommitments.length ≤ maxShieldedItems
  ordered : nullifiers.Pairwise (· < ·) ∧ changeCommitments.Pairwise (· < ·)
  witnessed : nullifierWitnesses.map NullifierWitness.nullifier = nullifiers

/-! ## Spent nullifiers -/

structure NullifierSet where
  root : Digest384
  count : Nat
deriving DecidableEq

namespace NullifierSet

def fromCommitment (c : SetCommitment) : NullifierSet := ⟨c.root, c.count⟩

def commitment (s : NullifierSet) : SetCommitment := ⟨.nullifier, s.root, s.count⟩

variable (C : Crypto)

def empty : NullifierSet := fromCommitment (SetCommitment.empty C .nullifier)

/-- The loop of `consume_verified`: one nullifier with its witness after the other. -/
def consumeLoop : SetCommitment → List (AccumulatorKey × NullifierWitness) →
    Except PrivacyError SetCommitment
  | next, [] => .ok next
  | next, (nullifier, witness) :: rest => do
    rejectIf (witness.nullifier ≠ nullifier) .invalidNullifierWitness
    let next ← (next.insert C nullifier witness.accumulatorWitness).mapError
      fun _ => .invalidNullifierWitness
    consumeLoop next rest

def consumeVerified (s : NullifierSet) (nullifiers : List AccumulatorKey)
    (witnesses : List NullifierWitness) : Except PrivacyError NullifierSet := do
  rejectIf (nullifiers = [] ∨ maxShieldedItems < nullifiers.length) .emptyTransfer
  rejectIf (¬ nullifiers.Pairwise (· < ·)) .nonCanonicalOrder
  rejectIf (witnesses.length ≠ nullifiers.length) .invalidNullifierWitness
  let next ← consumeLoop C s.commitment (nullifiers.zip witnesses)
  return fromCommitment next

def ofSpent (spent : List AccumulatorKey) : NullifierSet :=
  fromCommitment (commitmentOf C .nullifier spent)

end NullifierSet

/-! ## The pool -/

structure ShieldedCashState where
  poolBalance : Nat
  anchor : Digest384
  nullifiers : NullifierSet
deriving DecidableEq

namespace ShieldedCashState

variable (C : Crypto)

def default : ShieldedCashState := ⟨0, Digest384.zero, NullifierSet.empty C⟩

variable (s : ShieldedCashState) (amount : Nat)

def credit (nextAnchor : Digest384) : Except PrivacyError ShieldedCashState := do
  rejectIf (amount = 0 ∨ nextAnchor = Digest384.zero) .zeroValue
  let balance ← okOr (checkedAdd 128 s.poolBalance amount) .zeroValue
  return { s with poolBalance := balance, anchor := nextAnchor }

def debit (nullifiers : List AccumulatorKey) (witnesses : List NullifierWitness)
    (nextAnchor : Digest384) : Except PrivacyError ShieldedCashState := do
  rejectIf (amount = 0 ∨ s.poolBalance < amount ∨ nextAnchor = Digest384.zero) .zeroValue
  let nextNullifiers ← s.nullifiers.consumeVerified C nullifiers witnesses
  let balance := s.poolBalance - amount
  return ⟨balance, if balance = 0 then Digest384.zero else nextAnchor, nextNullifiers⟩

end ShieldedCashState

/-! ## Spending -/

variable {anchor : Digest384} {amount : Nat} {s s' : ShieldedCashState}

section Spending

variable {C : Crypto} (hash : Function.Injective C.shake256)
include hash

theorem NullifierSet.consumeLoop_ok {next : SetCommitment} :
    ∀ {items : List (AccumulatorKey × NullifierWitness)} {spent : List AccumulatorKey},
      consumeLoop C (commitmentOf C .nullifier spent) items = .ok next →
      (∀ item ∈ items, item.1 ∉ spent) ∧
        next = commitmentOf C .nullifier ((items.map Prod.fst).reverse ++ spent)
  | [], spent, h => by
    cases h
    exact ⟨by simp, rfl⟩
  | (nullifier, witness) :: rest, spent, h => by
    simp only [consumeLoop, inversion] at h
    obtain ⟨-, mid, hi, hr⟩ := h
    obtain ⟨-, hf, rfl, -⟩ := SetCommitment.insert_ok hash hi
    obtain ⟨hall, rfl⟩ := consumeLoop_ok hr
    refine ⟨fun item hitem => ?_, by simp⟩
    rcases mem_cons.1 hitem with rfl | hitem
    · exact hf
    · exact fun hs => hall item hitem (mem_cons_of_mem _ hs)

theorem NullifierSet.consumeVerified_ok {spent nullifiers : List AccumulatorKey}
    {witnesses : List NullifierWitness} {s' : NullifierSet}
    (h : (ofSpent C spent).consumeVerified C nullifiers witnesses = .ok s') :
    (∀ n ∈ nullifiers, n ∉ spent) ∧ s' = ofSpent C (nullifiers.reverse ++ spent) := by
  simp only [consumeVerified, inversion] at h
  obtain ⟨-, -, hlen, next, hne, rfl⟩ := h
  have hzip : (nullifiers.zip witnesses).map Prod.fst = nullifiers :=
    map_fst_zip (Nat.le_of_eq hlen.symm)
  obtain ⟨hf, rfl⟩ := consumeLoop_ok hash hne
  rw [hzip]
  refine ⟨fun n hn => ?_, rfl⟩
  rw [← hzip] at hn
  obtain ⟨item, hitem, rfl⟩ := mem_map.1 hn
  exact hf item hitem

end Spending

end ActiveChain
