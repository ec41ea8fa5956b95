import ActiveChain.Cash.AuthenticatedTree
import ActiveChain.Wallet.Ingress

/-!
# Rejection of an expired grant (`rpc-server/src/faucet.rs`)

The operator closes a pending grant offline, from the journal of its signed transfers and an ingress
whose cells a finalized header authenticates.
-/

namespace ActiveChain

open Except

inductive FaucetState
  | pending
  | finalized
  | rejected
deriving DecidableEq

/-- The variants of `FaucetError` that the rejection of a grant uses. -/
inductive FaucetError
  | invalidFinalityEvidence
  | notFound
  | invalidTransition
  | reconciliationRequired

/-- `FaucetReceiptV1`, without the fields that only a finalized receipt has. -/
structure FaucetReceipt where
  reference : Digest384
  recipient : PrincipalId
  amount : Nat
  state : FaucetState
  transactionId : Option TransactionId

structure FaucetRecord where
  receipt : FaucetReceipt
  delivered : List TransactionId
  requiredCells : Nat
  confirmed : List TransactionId

/-- What is read of the header of a verified finality bundle. -/
structure FinalizedCash where
  chainId : ChainId
  height : Nat
  cashCellRoot : Digest384

def grantCellReference (C : Crypto) (grant : Digest384) (index : Nat) : Digest384 :=
  C.shake256 [.tag "ACTIVECHAIN-FAUCET-GRANT-CELL-V1", .digest grant, .u8 index]

namespace FaucetRecord

variable (record : FaucetRecord) (cell : Nat)

/-- The settlement reference of the transfer that delivers one cell of the grant. -/
def cellReference (C : Crypto) : Digest384 :=
  if record.requiredCells = 1 then record.receipt.reference
  else grantCellReference C record.receipt.reference cell

def cellAmount : Nat :=
  record.receipt.amount / record.requiredCells +
    if cell = 0 then record.receipt.amount % record.requiredCells else 0

/-- The check of one cell, with the transfer that the journal holds for it. -/
def CellUnexecuted (K : CashAuthorizationKernel) (s : CashIngress) (inputs : FinalizedCash)
    (journalled : Option CashAuthorizationRequest) : Prop :=
  (journalled = none → record.delivered.length ≤ cell) ∧ ∀ r ∈ journalled,
    r.chainId = inputs.chainId ∧ r.transfer.recipient = record.receipt.recipient ∧
    r.transfer.amount = record.cellAmount cell ∧ r.transfer.validUntil < inputs.height ∧
    K.intentId r ∉ s.nonAuthoritativeAccepted ∧
    (∃ lane ∈ s.authorizationLanes r.signer,
      r.sessionId ∉ lane.consumedSessions ∧ lane.nextNonce ≤ r.nonce) ∧
    ∀ id ∈ record.delivered[cell]?, id = K.intentId r
deriving Decidable

end FaucetRecord

/-- The journal is loaded with one transfer for each settlement reference, and `finality` is absent
when the bundle is not verified.  The result is the receipt and the records that are saved. -/
def rejectExpiredUnexecutedGrant (C : Crypto) (K : CashAuthorizationKernel)
    (records : List FaucetRecord) (journal : SortedMap Digest384 CashAuthorizationRequest)
    (reference : Digest384) (s : CashIngress) (height : Nat) (finality : Option FinalizedCash) :
    Except FaucetError (FaucetReceipt × List FaucetRecord) := do
  let inputs ← okOr finality .invalidFinalityEvidence
  let root ← (authenticatedCoinCellRoot C s.ledger.cells).mapError fun _ => .invalidFinalityEvidence
  rejectIf (inputs.chainId ≠ s.ledger.definition.chainId ∨ inputs.height ≠ height ∨ height = 0 ∨
    inputs.cashCellRoot ≠ root) .invalidFinalityEvidence
  let record ← okOr (records.find? (·.receipt.reference = reference)) .notFound
  rejectIf (record.receipt.state ≠ .pending ∨ record.confirmed ≠ []) .invalidTransition
  -- every check of the loop over the cells fails with the same error
  rejectIf (¬ ∀ cell < record.requiredCells, record.CellUnexecuted cell K s inputs
    (journal.get? (record.cellReference cell C))) .reconciliationRequired
  rejectIf (reference = Digest384.zero ∨ record.receipt.amount = 0) .invalidTransition
  let rejected := { record.receipt with state := .rejected }
  return (rejected, records.set (records.findIdx (·.receipt.reference = reference))
    { record with receipt := rejected })

namespace CashIngress

variable (C : Crypto) (K : CashAuthorizationKernel) (start : CashIngress)

/-- An ingress and the transfers it has executed since `start`.  Every other operation (sessions,
keys, enrolments, pruning, settlements) keeps the transfers it has accepted: see
`Executed.register`, `Executed.prune` and `CashPreview.executed_enrollment`. -/
inductive Executed : List CashAuthorizationRequest → CashIngress → Prop
  | start : Executed [] start
  | submit {done : List CashAuthorizationRequest} {s s' : CashIngress}
      {r : CashAuthorizationRequest} {height : Nat} (h : Executed done s)
      (hs : s.submitAuthorized C K r height = .ok s') : Executed (r :: done) s'
  | other {done : List CashAuthorizationRequest} {s s' : CashIngress} (h : Executed done s)
      (hs : s.nonAuthoritativeAccepted ⊆ s'.nonAuthoritativeAccepted) : Executed done s'

variable {C K start} {done : List CashAuthorizationRequest} {s s' : CashIngress}
  {r : CashAuthorizationRequest} {height : Nat}

theorem submitAuthorized_ok (h : s.submitAuthorized C K r height = .ok s') :
    height ≤ r.transfer.validUntil ∧
      s'.nonAuthoritativeAccepted = K.intentId r :: s.nonAuthoritativeAccepted := by
  simp only [submitAuthorized, checkRequest, enter, inversion] at h
  obtain ⟨_, ⟨-, -, -, ⟨hv, -⟩, -⟩, -, -, -, _, -, h⟩ := h
  split at h
  · cases h
  · cases h
    exact ⟨Nat.not_lt.1 hv, rfl⟩

theorem Executed.register {grant : CashSessionGrant} (h : Executed C K start done s)
    (hr : s.registerSession K grant = .ok s') : Executed C K start done s' := by
  simp only [registerSession, inversion] at hr
  obtain ⟨-, _, -, -, -, -, rfl⟩ := hr
  exact h.other (List.Subset.refl _)

theorem Executed.prune (h : Executed C K start done s) :
    Executed C K start done (s.pruneReplayState height) :=
  h.other (List.Subset.refl _)

theorem Executed.accepted (h : Executed C K start done s) (hr : r ∈ done) :
    K.intentId r ∈ s.nonAuthoritativeAccepted := by
  induction h with
  | start => cases hr
  | submit _ hs ih =>
    rw [(submitAuthorized_ok hs).2]
    rcases List.mem_cons.1 hr with rfl | hr
    · exact List.mem_cons_self
    · exact List.mem_cons_of_mem _ (ih hr)
  | other _ hs ih => exact hs (ih hr)

/-- **No journalled transfer of a grant that is rejected has been executed, and none is executed by
any ingress at that height or later.** -/
theorem rejected_grant_unexecuted {records : List FaucetRecord}
    {journal : SortedMap Digest384 CashAuthorizationRequest} {reference : Digest384}
    {finality : Option FinalizedCash} {result : FaucetReceipt × List FaucetRecord}
    (h : Executed C K start done s)
    (hr : rejectExpiredUnexecutedGrant C K records journal reference s height finality =
      .ok result) :
    ∃ record, records.find? (·.receipt.reference = reference) = some record ∧
      ∀ cell < record.requiredCells, ∀ r, journal.get? (record.cellReference cell C) = some r →
        r ∉ done ∧ ∀ (s' : CashIngress) (height' : Nat), height ≤ height' →
          ∀ t, s'.submitAuthorized C K r height' ≠ .ok t := by
  simp only [rejectExpiredUnexecutedGrant, inversion] at hr
  obtain ⟨inputs, -, _, -, ⟨-, rfl, -⟩, record, hf, -, hc, -⟩ := hr
  refine ⟨record, hf, fun cell hlt r hget => ?_⟩
  obtain ⟨-, -, -, hexpired, hnew, -⟩ := (hc cell hlt).2 r hget
  refine ⟨mt h.accepted hnew, fun s' height' hle t ht => ?_⟩
  exact absurd (submitAuthorized_ok ht).1 (by omega)

end CashIngress

namespace FullHistory

/-- Without cells, so that the root of the ledger needs no unfolding. -/
def settled (s : CashIngress) : CashIngress :=
  { s with ledger := { s.ledger with cells := ⟨.empty, Nat.zero_le _⟩ } }

def pending : FaucetRecord := ⟨⟨3, 8, 40, .pending, none⟩, [], 1, []⟩

def journal : SortedMap Digest384 CashAuthorizationRequest :=
  ⟨[(3, second)], List.pairwise_singleton _ _⟩

def header (s : CashIngress) : FinalizedCash := ⟨1, 101, rootOf .transparent s.ledger.cells⟩

/-- The first transfer is executed, and the second one expires with its grant. -/
theorem expired_grant_rejected : ∃ s,
    CashIngress.Executed .transparent kernel (ingress []) [first] s ∧
    (∃ result, rejectExpiredUnexecutedGrant .transparent kernel [pending] journal 3 s 101
      (some (header s)) = .ok result) ∧
    ∀ (s' : CashIngress) (height : Nat), 101 ≤ height →
      ∀ t, s'.submitAuthorized .transparent kernel second height ≠ .ok t := by
  have hrun : ∃ s₁ ∈ ((ingress []).registerSession kernel (session 1)).toOption,
      ∃ s ∈ (s₁.submitAuthorized .transparent kernel first 1).toOption,
      (settled s).ledger.definition.chainId = 1 ∧
      ∀ cell < pending.requiredCells, pending.CellUnexecuted cell kernel (settled s)
        (header (settled s)) (journal.get? (pending.cellReference cell .transparent)) := by
    decide +kernel
  obtain ⟨s₁, h₁, s, h₂, hchain, hcells⟩ := hrun
  have hexec : CashIngress.Executed .transparent kernel (ingress []) [first] (settled s) :=
    .other (.submit (.register .start (mem_toOption.1 h₁)) (mem_toOption.1 h₂)) (List.Subset.refl _)
  have hroot : authenticatedCoinCellRoot .transparent (settled s).ledger.cells = .ok _ :=
    (authenticatedCoinCellRoot_eq_ok (by rintro _ _ ⟨⟩)).2 ⟨by rintro _ _ ⟨⟩, rfl⟩
  have hrej : ∃ result, rejectExpiredUnexecutedGrant .transparent kernel [pending] journal 3
      (settled s) 101 (some (header (settled s))) = .ok result := by
    simp only [rejectExpiredUnexecutedGrant, inversion]
    exact ⟨_, _, rfl, _, hroot, ⟨hchain.symm, rfl, by decide, rfl⟩, pending, rfl, ⟨rfl, rfl⟩,
      hcells, by decide, rfl⟩
  obtain ⟨result, hresult⟩ := hrej
  obtain ⟨_, hf, hdone⟩ := CashIngress.rejected_grant_unexecuted hexec hresult
  cases hf
  exact ⟨settled s, hexec, ⟨result, hresult⟩, (hdone 0 (by decide) second rfl).2⟩

end FullHistory

end ActiveChain
