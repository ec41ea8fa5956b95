import ActiveChain.Lib.Lanes
import ActiveChain.Wallet.Faucet
import Mathlib.Data.Prod.Lex
import Mathlib.Order.WithBot

/-!
# Qualification of cash actions (`rpc-server/src/transfer_submission.rs`)

A batch is tried against a preview of the finalized ingress, again and again: an action may depend
on one that comes later in the batch.
-/

namespace ActiveChain

/-- `CashKeyEnrollmentV1`, with the result of `verify`. -/
structure CashKeyEnrollment where
  chainId : ChainId
  publicKey : PublicKey
  validFrom : Nat
  expiresAt : Nat
  verified : Bool

/-- The hashes of an enrolment, and the decoders of the three kinds of actions. -/
structure CashActionKernel where
  cash : CashAuthorizationKernel
  walletPrincipalId : PublicKey → PrincipalId
  reference : CashKeyEnrollment → Digest384
  decodeEnrollment : List UInt8 → Option CashKeyEnrollment
  decodeOperator : List UInt8 → Option (CashSessionGrant × CashAuthorizationRequest)
  decodeTransfer : List UInt8 → Option CashAuthorizationRequest

/-- An ingress, and the number of its authorization lanes. -/
structure CashPreview where
  ingress : CashIngress
  lanes : Nat

namespace CashPreview

variable (C : Crypto) (K : CashActionKernel) (height : Nat) (s : CashPreview)

/-- Nothing reads the error. -/
def stageCashKeyEnrollment (e : CashKeyEnrollment) : Option CashPreview :=
  let signer := K.walletPrincipalId e.publicKey
  if e.verified = true ∧ e.chainId = s.ingress.chainId ∧ e.validFrom ≤ height ∧
      height ≤ e.expiresAt ∧ (s.ingress.authorizationLanes signer).isNone ∧ s.lanes < 256 ∧
      (∃ cell ∈ s.ingress.ledger.cells.cells.values, cell.owner = signer) ∧
      s.ingress.nonAuthoritativeAccepted.length < maxNonAuthoritativeAccepted then
    some ⟨{ s.ingress.setLane signer ⟨e.publicKey, 0, [], .empty,
        K.cash.authenticator s.ingress.chainId e.publicKey, height⟩ with
      nonAuthoritativeAccepted := K.reference e :: s.ingress.nonAuthoritativeAccepted },
      s.lanes + 1⟩
  else none

/-- An enrolment executes no transfer. -/
theorem executed_enrollment {s s' : CashPreview} {e : CashKeyEnrollment} {start : CashIngress}
    {done : List CashAuthorizationRequest} (h : CashIngress.Executed C K.cash start done s.ingress)
    (hs : s.stageCashKeyEnrollment K height e = some s') :
    CashIngress.Executed C K.cash start done s'.ingress := by
  rw [stageCashKeyEnrollment] at hs
  split_ifs at hs
  cases hs
  exact h.other (List.subset_cons_self _ _)

def submitOperatorFaucetAuthorization (grant : CashSessionGrant) (r : CashAuthorizationRequest) :
    Option CashPreview :=
  if grant.sessionId = r.sessionId ∧ grant.signer = r.signer ∧ grant.chainId = r.chainId then do
    let ingress ← (s.ingress.registerSession K.cash grant).toOption
    let ingress ← (ingress.submitAuthorized C K.cash r height).toOption
    return { s with ingress }
  else none

def applyAction (action : List UInt8) : Option CashPreview :=
  match K.decodeEnrollment action with
  | some e => s.stageCashKeyEnrollment K height e
  | none =>
    match K.decodeOperator action with
    | some (grant, r) => s.submitOperatorFaucetAuthorization C K height grant r
    | none => do
      let r ← K.decodeTransfer action
      let ingress ← (s.ingress.submitAuthorized C K.cash r height).toOption
      return { s with ingress }

/-- `none` is an oversized batch.  The signers and nonces are those of operator authorizations. -/
def qualifyCashActions (actions : List (List UInt8)) :
    Option (List (List UInt8) × List (List UInt8)) :=
  if 32 < actions.length then none
  else
    let key (action : List UInt8) : WithBot (PrincipalId ×ₗ Nat) :=
      (K.decodeOperator action).map fun a => toLex (a.2.signer, a.2.nonce)
    some (Lanes.saturate (fun action s => s.applyAction C K height action) s
      (actions.mergeSort fun a b => key a ≤ key b))

/-- **A batch is divided into actions that are accepted one after the other and actions that are not
acceptable after them.** -/
theorem qualified_maximal (actions : List (List UInt8)) (h : actions.length ≤ 32) :
    ∃ accepted rejected t, s.qualifyCashActions C K height actions = some (accepted, rejected) ∧
      (accepted ++ rejected).Perm actions ∧
      accepted.foldlM (fun s action => s.applyAction C K height action) s = some t ∧
      ∀ action ∈ rejected, t.applyAction C K height action = none := by
  rw [qualifyCashActions, if_neg (Nat.not_lt.2 h)]
  obtain ⟨hperm, t, hrun, hleft⟩ :=
    Lanes.saturate_spec (fun action s => s.applyAction C K height action) s _
  exact ⟨_, _, t, rfl, hperm.trans (List.mergeSort_perm _ _), hrun, hleft⟩

end CashPreview

namespace FullHistory

/-- An action names one of two transfers with its session. -/
def actionKernel : CashActionKernel :=
  ⟨kernel, fun _ => 7, fun _ => 1, fun _ => none,
    fun action => some (if action = [0] then (session 1, first) else (session 2, second)),
    fun _ => none⟩

/-- The second transfer comes first in the batch, and again at its end. -/
def batch : List (List UInt8) := [[1], [0], [2]]

theorem transfer_qualified : ∃ accepted rejected, ∃ t : CashPreview,
    CashPreview.qualifyCashActions .transparent actionKernel 1 ⟨ingress [], 1⟩ batch =
      some (accepted, rejected) ∧ accepted ≠ [] ∧ (accepted ++ rejected).Perm batch ∧
    accepted.foldlM (fun s action => s.applyAction .transparent actionKernel 1 action)
      (⟨ingress [], 1⟩ : CashPreview) = some t ∧
    ∀ action ∈ rejected, t.applyAction .transparent actionKernel 1 action = none := by
  obtain ⟨accepted, rejected, t, h, hperm, hrun, hleft⟩ :=
    CashPreview.qualified_maximal .transparent actionKernel 1 ⟨ingress [], 1⟩ batch (by decide)
  refine ⟨accepted, rejected, t, h, ?_, hperm, hrun, hleft⟩
  -- Otherwise the first transfer would be rejected, which the start accepts.
  rintro rfl
  cases hrun
  have hnone := hleft [0] (hperm.mem_iff.2 (by decide))
  exact absurd hnone (by decide +kernel)

end FullHistory

end ActiveChain
