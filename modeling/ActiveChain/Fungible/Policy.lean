import ActiveChain.Cash.Types
import ActiveChain.Commitment

/-!
# Issuer policies of fungible assets (`protocol-types::asset`)

The finalized policy of an asset holds its cap, the supply issued and its lifecycle.  An issuer
approval names the policy it was given for by its commitment.

* `FungibleAssetPolicyV1` — the policy, within its cap by construction.
* `applyApprovedMint`, `applyApprovedBurn`, `applyLifecycleAction` — the operations on it.
* `PolicyOperation.run` — any sequence of them.
-/

namespace ActiveChain

open Function Digest384

/-- The errors of `AssetDefinitionError` that the policy operations return. -/
inductive AssetDefinitionError
  | invalidLifecycleTransition
  | invalidSupplyTransition
  | issuerMismatch
  | supplyCapExceeded
deriving DecidableEq, Repr

abbrev AssetM : Type → Type := Except AssetDefinitionError

inductive FungibleAssetLifecycle
  | registered
  | paused
  | retired
deriving DecidableEq, Repr

def FungibleAssetLifecycle.code : FungibleAssetLifecycle → Nat
  | .registered => 0
  | .paused => 1
  | .retired => 2

@[ext] structure FungibleAssetPolicyV1 where
  assetId : AssetId
  issuer : PrincipalId
  reserveCommitment : Digest384
  redemptionPolicy : Digest384
  jurisdictionProfile : Digest384
  authoritySet : Digest384
  supplyCap : Nat
  supplyIssued : Nat
  lifecycle : FungibleAssetLifecycle
  identityChecked : assetId ≠ zero ∧ issuer ≠ zero ∧
    authoritySet ≠ zero
  capChecked : supplyCap ≠ 0 ∧ supplyIssued ≤ supplyCap

instance : DecidableEq FungibleAssetPolicyV1 :=
  fun _ _ => decidable_of_iff _ FungibleAssetPolicyV1.ext_iff.symm

instance : CanonicalType FungibleAssetPolicyV1 where
  typeTag := 0x011b
  schemaVersion := 1
  body p := [.digest p.assetId, .digest p.issuer, .digest p.reserveCommitment,
    .digest p.redemptionPolicy, .digest p.jurisdictionProfile, .digest p.authoritySet,
    .u128 p.supplyCap, .u128 p.supplyIssued, .u8 p.lifecycle.code]

inductive FungibleIssuerOperation
  | mint
  | burn
  | redemption
deriving DecidableEq, Repr

@[ext] structure FungibleIssuerApprovalV1 where
  assetId : AssetId
  policyCommitment : Digest384
  authoritySet : Digest384
  approvalCommitment : Digest384
  operation : FungibleIssuerOperation
  amount : Nat
  supplyBefore : Nat
  effectiveHeight : Nat
  expiresHeight : Nat
  identityChecked : assetId ≠ zero ∧ policyCommitment ≠ zero ∧
    authoritySet ≠ zero ∧ approvalCommitment ≠ zero
  amountChecked : amount ≠ 0
  windowChecked : effectiveHeight < expiresHeight

inductive FungibleAssetLifecycleAction
  | pause
  | resume
  | retire
deriving DecidableEq, Repr

structure FungibleAssetLifecycleActionV1 where
  assetId : AssetId
  expectedPolicy : Digest384
  authoritySet : Digest384
  approvalCommitment : Digest384
  reasonCommitment : Digest384
  action : FungibleAssetLifecycleAction
  effectiveHeight : Nat
  expiresHeight : Nat
  identityChecked : assetId ≠ zero ∧ expectedPolicy ≠ zero ∧
    authoritySet ≠ zero ∧ approvalCommitment ≠ zero ∧
    reasonCommitment ≠ zero
  windowChecked : effectiveHeight < expiresHeight

def FungibleIssuerApprovalV1.activeAt (approval : FungibleIssuerApprovalV1) (height : Nat) : Prop :=
  approval.effectiveHeight ≤ height ∧ height < approval.expiresHeight
deriving Decidable

def FungibleAssetLifecycleActionV1.activeAt (action : FungibleAssetLifecycleActionV1)
    (height : Nat) : Prop :=
  action.effectiveHeight ≤ height ∧ height < action.expiresHeight
deriving Decidable

section

variable (C : Crypto) (policy : FungibleAssetPolicyV1)

namespace FungibleAssetPolicyV1

/-- Over the envelope, not through `commit`. -/
def commitment : Digest384 :=
  C.shake256 (.tag "ACTIVECHAIN-FUNGIBLE-ASSET-POLICY-V1" :: envelope policy)

/-- The policy with another supply within the cap. -/
def withSupply (supplyIssued : Nat) (h : supplyIssued ≤ policy.supplyCap) : FungibleAssetPolicyV1 :=
  { policy with supplyIssued := supplyIssued, capChecked := ⟨policy.capChecked.1, h⟩ }

/-- The transitions of `apply_lifecycle_action`. -/
def nextLifecycle (action : FungibleAssetLifecycleAction) : Option FungibleAssetLifecycle :=
  match policy.lifecycle, action with
  | .registered, .pause => some .paused
  | .paused, .resume => some .registered
  | .registered, .retire => if policy.supplyIssued = 0 then some .retired else none
  | _, _ => none

def applyLifecycleAction (action : FungibleAssetLifecycleActionV1) (height : Nat) :
    AssetM FungibleAssetPolicyV1 := do
  rejectIf (¬ action.activeAt height ∨ action.assetId ≠ policy.assetId ∨
    action.authoritySet ≠ policy.authoritySet ∨ action.expectedPolicy ≠ policy.commitment C)
    .invalidLifecycleTransition
  let lifecycle ← okOr (policy.nextLifecycle action.action) .invalidLifecycleTransition
  return { policy with lifecycle := lifecycle }

def applyMint (issuer : PrincipalId) (amount supplyBefore : Nat) :
    AssetM FungibleAssetPolicyV1 := do
  rejectIf (issuer ≠ policy.issuer) .issuerMismatch
  rejectIf (policy.lifecycle ≠ .registered ∨ amount = 0 ∨ supplyBefore ≠ policy.supplyIssued)
    .invalidSupplyTransition
  let supplyIssued ← okOr (checkedAdd 128 supplyBefore amount) .supplyCapExceeded
  if h : supplyIssued ≤ policy.supplyCap then return policy.withSupply supplyIssued h
  else throw .supplyCapExceeded

def applyBurn (amount supplyBefore : Nat) : AssetM FungibleAssetPolicyV1 :=
  if h : policy.lifecycle = .registered ∧ amount ≠ 0 ∧ supplyBefore = policy.supplyIssued ∧
      amount ≤ supplyBefore then
    .ok (policy.withSupply (supplyBefore - amount)
      (h.2.2.1 ▸ Nat.le_trans (Nat.sub_le _ _) policy.capChecked.2))
  else .error .invalidSupplyTransition

end FungibleAssetPolicyV1

def FungibleIssuerApprovalV1.bindsContext (C : Crypto) (approval : FungibleIssuerApprovalV1)
    (policy : FungibleAssetPolicyV1) (operation : FungibleIssuerOperation)
    (amount supplyBefore height : Nat) : Prop :=
  approval.assetId = policy.assetId ∧ approval.policyCommitment = policy.commitment C ∧
    approval.authoritySet = policy.authoritySet ∧ approval.operation = operation ∧
    approval.amount = amount ∧ approval.supplyBefore = supplyBefore ∧ approval.activeAt height
deriving Decidable

namespace FungibleAssetPolicyV1

def applyApprovedMint (issuer : PrincipalId) (approval : FungibleIssuerApprovalV1) (height : Nat) :
    AssetM FungibleAssetPolicyV1 := do
  rejectIf (issuer ≠ policy.issuer ∨
    ¬ approval.bindsContext C policy .mint approval.amount policy.supplyIssued height)
    .invalidSupplyTransition
  policy.applyMint issuer approval.amount approval.supplyBefore

def applyApprovedBurn (approval : FungibleIssuerApprovalV1) (operation : FungibleIssuerOperation)
    (height : Nat) : AssetM FungibleAssetPolicyV1 := do
  rejectIf (¬ (operation = .burn ∨ operation = .redemption) ∨
    ¬ approval.bindsContext C policy operation approval.amount policy.supplyIssued height)
    .invalidSupplyTransition
  policy.applyBurn approval.amount approval.supplyBefore

section Supply

variable {policy next : FungibleAssetPolicyV1} {issuer : PrincipalId} {amount supplyBefore : Nat}

theorem applyMint_eq_ok : policy.applyMint issuer amount supplyBefore = .ok next ↔
    issuer = policy.issuer ∧ policy.lifecycle = .registered ∧ amount ≠ 0 ∧
      supplyBefore = policy.supplyIssued ∧ policy.supplyIssued + amount < 2 ^ 128 ∧
      ∃ h : policy.supplyIssued + amount ≤ policy.supplyCap,
        next = policy.withSupply (policy.supplyIssued + amount) h := by
  simp only [applyMint, Except.inversion]
  constructor
  · rintro ⟨hi, ⟨hl, ham, hb⟩, supply, ⟨rfl, hf⟩, h⟩
    subst hb
    split_ifs at h with hcap
    cases h
    exact ⟨hi, hl, ham, rfl, hf, hcap, rfl⟩
  · rintro ⟨hi, hl, ham, rfl, hf, hcap, rfl⟩
    refine ⟨hi, ⟨hl, ham, rfl⟩, _, ⟨rfl, hf⟩, ?_⟩
    rw [dif_pos hcap]
    rfl

theorem applyBurn_eq_ok : policy.applyBurn amount supplyBefore = .ok next ↔
    policy.lifecycle = .registered ∧ amount ≠ 0 ∧ supplyBefore = policy.supplyIssued ∧
      amount ≤ policy.supplyIssued ∧ ∃ h : policy.supplyIssued - amount ≤ policy.supplyCap,
        next = policy.withSupply (policy.supplyIssued - amount) h := by
  unfold applyBurn
  constructor
  · intro h
    split_ifs at h with hc
    obtain ⟨hl, ham, rfl, hle⟩ := hc
    cases h
    exact ⟨hl, ham, rfl, hle, _, rfl⟩
  · rintro ⟨hl, ham, rfl, hle, hcap, rfl⟩
    rw [dif_pos ⟨hl, ham, rfl, hle⟩]

end Supply

/-- **Under an injective hash the commitment determines the policy.** -/
theorem commitment_injective {C : Crypto} (hash : Injective C.shake256) :
    Injective (commitment C) := by
  intro p q h
  have h := body_of_envelope (List.cons.inj (hash h)).2
  simp only [CanonicalType.body, Transcript.inversion] at h
  obtain ⟨has, hi, hre, hr, hpr, hau, hcap, his, hc⟩ := h
  have hl : p.lifecycle = q.lifecycle := by
    cases hp : p.lifecycle <;> cases hq : q.lifecycle <;> simp_all [FungibleAssetLifecycle.code]
  exact FungibleAssetPolicyV1.ext has hi hre hr hpr hau hcap his hl

end FungibleAssetPolicyV1

/-! ## Runs -/

/-- One call on the policy: an approved mint, an approved burn or redemption, a lifecycle action, or
a supply change that needs no approval. -/
inductive PolicyOperation
  | approvedMint (issuer : PrincipalId) (approval : FungibleIssuerApprovalV1) (height : Nat)
  | approvedBurn (approval : FungibleIssuerApprovalV1) (operation : FungibleIssuerOperation)
      (height : Nat)
  | lifecycle (action : FungibleAssetLifecycleActionV1) (height : Nat)
  | mint (issuer : PrincipalId) (amount supplyBefore : Nat)
  | burn (amount supplyBefore : Nat)

namespace PolicyOperation

/-- The call. -/
def apply : PolicyOperation → AssetM FungibleAssetPolicyV1
  | .approvedMint issuer approval height => policy.applyApprovedMint C issuer approval height
  | .approvedBurn approval operation height => policy.applyApprovedBurn C approval operation height
  | .lifecycle action height => policy.applyLifecycleAction C action height
  | .mint issuer amount supplyBefore => policy.applyMint issuer amount supplyBefore
  | .burn amount supplyBefore => policy.applyBurn amount supplyBefore

/-- The policy after a call; a rejected one leaves it. -/
def step (op : PolicyOperation) : FungibleAssetPolicyV1 := (op.apply C policy).toOption.getD policy

def run (ops : List PolicyOperation) : FungibleAssetPolicyV1 := ops.foldl (step C) policy

/-- The approval a call presents. -/
def approval : PolicyOperation → Option FungibleIssuerApprovalV1
  | .approvedMint _ approval _ => some approval
  | .approvedBurn approval _ _ => some approval
  | _ => none

/-- The call fits the approval: the kind of operation, the issuer of a mint, and the height. -/
def Fits (approval : FungibleIssuerApprovalV1) : PolicyOperation → Prop
  | .approvedMint issuer _ height =>
    approval.operation = .mint ∧ issuer = policy.issuer ∧ approval.activeAt height
  | .approvedBurn _ operation height =>
    approval.operation = operation ∧ operation ≠ .mint ∧ approval.activeAt height
  | _ => False

end PolicyOperation

end

section

variable (C : Crypto) (approval : FungibleIssuerApprovalV1) (policy : FungibleAssetPolicyV1)

def FungibleIssuerApprovalV1.GivenFor : Prop :=
  approval.assetId = policy.assetId ∧ approval.policyCommitment = policy.commitment C ∧
    approval.authoritySet = policy.authoritySet ∧ approval.supplyBefore = policy.supplyIssued

/-- The supply change that an approval stands for. -/
def FungibleIssuerApprovalV1.effect : AssetM FungibleAssetPolicyV1 :=
  match approval.operation with
  | .mint => policy.applyMint policy.issuer approval.amount approval.supplyBefore
  | _ => policy.applyBurn approval.amount approval.supplyBefore

end

open FungibleAssetPolicyV1 FungibleIssuerApprovalV1 PolicyOperation

section Replay

variable {C : Crypto} {policy next : FungibleAssetPolicyV1} {op again : PolicyOperation}
  {approval : FungibleIssuerApprovalV1}

theorem approved_eq_ok (ha : op.approval = some approval) : op.apply C policy = .ok next ↔
    op.Fits policy approval ∧ approval.GivenFor C policy ∧ approval.effect policy = .ok next := by
  cases op with
  | approvedMint issuer presented height =>
    cases ha
    simp only [apply, applyApprovedMint, Except.inversion, bindsContext, PolicyOperation.Fits,
      GivenFor, true_and]
    constructor
    · rintro ⟨⟨rfl, has, hp, hau, hk, hb, hac⟩, h⟩
      refine ⟨⟨hk, rfl, hac⟩, ⟨has, hp, hau, hb⟩, ?_⟩
      rw [effect, hk]
      exact h
    · rintro ⟨⟨hk, rfl, hac⟩, ⟨has, hp, hau, hb⟩, h⟩
      refine ⟨⟨rfl, has, hp, hau, hk, hb, hac⟩, ?_⟩
      rw [effect, hk] at h
      exact h
  | approvedBurn presented operation height =>
    cases ha
    simp only [apply, applyApprovedBurn, Except.inversion, bindsContext, PolicyOperation.Fits,
      GivenFor, true_and]
    have hki : ¬ (¬ operation = .burn ∧ ¬ operation = .redemption) ↔ operation ≠ .mint := by
      cases operation <;> simp
    rw [hki]
    constructor
    · rintro ⟨⟨hne, has, hp, hau, rfl, hb, hac⟩, h⟩
      refine ⟨⟨rfl, hne, hac⟩, ⟨has, hp, hau, hb⟩, ?_⟩
      unfold effect
      split
      · exact absurd ‹_› hne
      · exact h
    · rintro ⟨⟨rfl, hne, hac⟩, ⟨has, hp, hau, hb⟩, h⟩
      refine ⟨⟨hne, has, hp, hau, rfl, hb, hac⟩, ?_⟩
      unfold effect at h
      split at h
      · exact absurd ‹_› hne
      · exact h
  | lifecycle => cases ha
  | mint => cases ha
  | burn => cases ha

/-- **When an approval is accepted again.**  After an accepted call and any run, a second call with
the same approval is rejected exactly when the policy is not back at the value the first call found,
or the call does not fit the approval. -/
theorem approval_reapplied_iff (hash : Injective C.shake256)
    (ha : op.approval = some approval) (haagain : again.approval = some approval)
    (haccepted : op.apply C policy = .ok next) (between : List PolicyOperation) :
    (∃ e, again.apply C (PolicyOperation.run C next between) = .error e) ↔
      ¬ (PolicyOperation.run C next between = policy ∧ again.Fits policy approval) := by
  obtain ⟨-, hg, hef⟩ := (approved_eq_ok ha).1 haccepted
  generalize run C next between = later
  constructor
  · rintro ⟨e, he⟩ ⟨rfl, hf⟩
    rw [(approved_eq_ok haagain).2 ⟨hf, hg, hef⟩] at he
    cases he
  · intro hnot
    cases hag : again.apply C later with
    | error e => exact ⟨e, rfl⟩
    | ok result =>
      -- the approval names one policy, so the policy must be back
      obtain ⟨hf, hg', -⟩ := (approved_eq_ok haagain).1 hag
      have hb : later = policy := commitment_injective hash (hg'.2.1.symm.trans hg.2.1)
      exact absurd ⟨hb, hb ▸ hf⟩ hnot

end Replay

namespace ReplayedMint

def policy : FungibleAssetPolicyV1 where
  assetId := 1
  issuer := 2
  reserveCommitment := 3
  redemptionPolicy := 4
  jurisdictionProfile := 5
  authoritySet := 6
  supplyCap := 1000
  supplyIssued := 0
  lifecycle := .registered
  identityChecked := by decide
  capChecked := by decide

def issued : FungibleAssetPolicyV1 := policy.withSupply 100 (by decide)

def approvalFor (p : FungibleAssetPolicyV1) (operation : FungibleIssuerOperation) :
    FungibleIssuerApprovalV1 where
  assetId := 1
  policyCommitment := p.commitment .transparent
  authoritySet := 6
  approvalCommitment := 7
  operation := operation
  amount := 100
  supplyBefore := p.supplyIssued
  effectiveHeight := 10
  expiresHeight := 20
  identityChecked :=
    ⟨by decide, Crypto.transparent_ne_zero (List.cons_ne_nil _ _), by decide, by decide⟩
  amountChecked := by decide
  windowChecked := by decide

def mintAt (height : Nat) : PolicyOperation := .approvedMint 2 (approvalFor policy .mint) height

def burnBack : PolicyOperation := .approvedBurn (approvalFor issued .burn) .burn 11

/-- **A mint, a burn, and the same mint approval a second time: all are accepted.** -/
theorem mint_approval_accepted_twice : (mintAt 10).apply .transparent policy = .ok issued ∧
      burnBack.apply .transparent issued = .ok policy ∧
      (mintAt 12).apply .transparent policy = .ok issued ∧
      (mintAt 10).approval = (mintAt 12).approval :=
  ⟨by decide +kernel, by decide +kernel, by decide +kernel, rfl⟩

/-- After a second mint the first approval is not accepted again. -/
theorem mint_approval_rejected_later : ∃ e, (mintAt 12).apply .transparent
    (PolicyOperation.run .transparent issued
      [.approvedMint 2 (approvalFor issued .mint) 11]) = .error e := by
  have hf : (mintAt 10).approval = some (approvalFor policy .mint) := rfl
  refine (approval_reapplied_iff Crypto.transparent_injective hf rfl
    (by decide +kernel : (mintAt 10).apply .transparent policy = .ok issued) _).2 fun h => ?_
  have hs : supplyIssued _ = 0 := congrArg supplyIssued h.1
  exact absurd hs (by decide +kernel)

end ReplayedMint

end ActiveChain
