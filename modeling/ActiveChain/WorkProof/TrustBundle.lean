import ActiveChain.Lib.Fault
import ActiveChain.Primitives

/-!
# Trust bundles of a verifier (`application-primitives`)

A verifier trusts a chain of bundles, each signed by a threshold of the signers that the previous
one names.  A bundle pins the chain, a finalized checkpoint and the proof system.

* `TrustSignerSet`, `ActumVerifierTrustBundle`, `SignedTrustBundle` — signers and bundles.
* `verifyThreshold` — enough signers of a set have signed.
* `verifyTrustBundleBootstrap` — the first bundle of a chain.
* `verifyTrustBundleTransition` — one bundle follows another.  The successor of a sequence number
  is computed with a check, so that the last one panics.
* `verifyTrustBundleTransition_ok` — what an accepted step keeps.
-/

namespace ActiveChain

open Digest384

def maxTrustSigners : Nat := 16

def maxTrustSignatures : Nat := maxTrustSigners * 2

def maxTrustPublicKeyBytes : Nat := 1312

def maxTrustSignatureBytes : Nat := 2420

inductive TrustBundleError
  | invalidSignerSet
  | invalidBundle
  | invalidSignature
  | invalidTransition
  | thresholdNotMet
deriving DecidableEq, Repr

abbrev TrustM := Except (Fault TrustBundleError)

inductive TrustSignatureAlgorithm
  | mlDsa44
deriving DecidableEq, Repr

abbrev SignatureCheck := TrustSignatureAlgorithm → List Nat → Digest384 → List Nat → Bool

def TrustSignatureAlgorithm.asU8 : TrustSignatureAlgorithm → Nat
  | mlDsa44 => 1

/-! ## Signers -/

structure TrustSigner where
  signerId : Digest384
  algorithm : TrustSignatureAlgorithm
  publicKey : List Nat
  validFromSequence : Nat
  validUntilSequence : Nat
deriving DecidableEq

namespace TrustSigner

/-- `TrustSignerV1::validate` passes. -/
def Valid (s : TrustSigner) : Prop :=
  s.signerId ≠ zero ∧ s.publicKey.length = maxTrustPublicKeyBytes ∧
    s.validFromSequence ≠ 0 ∧ s.validFromSequence ≤ s.validUntilSequence
deriving Decidable

def encode (s : TrustSigner) : Transcript :=
  [.digest s.signerId, .u8 s.algorithm.asU8, .u32 s.publicKey.length] ++ s.publicKey.map .u8 ++
    [.u64 s.validFromSequence, .u64 s.validUntilSequence]

end TrustSigner

structure TrustSignerSet where
  revision : Nat
  signers : List TrustSigner
  threshold : Nat
deriving DecidableEq

namespace TrustSignerSet

def validate (set : TrustSignerSet) : TrustM Unit :=
  rejectIf (set.revision = 0 ∨ set.signers = [] ∨ maxTrustSigners < set.signers.length ∨
    set.threshold = 0 ∨ set.signers.length < set.threshold ∨
    ¬ set.signers.Pairwise (fun a b => a.signerId < b.signerId) ∨
    ∃ s ∈ set.signers, ¬ s.Valid) (.error .invalidSignerSet)

def signerSetId (sha3 : HashFn) (set : TrustSignerSet) : TrustM Digest384 := do
  set.validate
  return sha3 (.tag "ACTUM-TRUST-SIGNER-SET-V1" :: .u32 set.signers.length ::
    set.signers.flatMap TrustSigner.encode ++ [.u16 set.threshold])

end TrustSignerSet

/-! ## Bundles -/

structure ActumVerifierTrustBundle where
  schemaRevision : Nat
  bundleSequence : Nat
  previousBundleId : Digest384
  chainId : Digest384
  genesisCommitment : Digest384
  protocolRevision : Nat
  checkpointHeight : Nat
  checkpointBlockId : Digest384
  checkpointStateRoot : Digest384
  checkpointFinalityCommitment : Digest384
  validatorSetRoot : Digest384
  proofProfileId : Digest384
  proofSystemRevision : Nat
  verifierRevision : Nat
  risc0ImageId : Nat
  policyId : Digest384
  policyRevision : Nat
  issuedAtMs : Nat
  notBeforeMs : Nat
  notAfterMs : Nat
  signerSetId : Digest384
  signerSetRevision : Nat
  signerThreshold : Nat
  nextSignerSetId : Digest384
  nextSignerSetRevision : Nat
  nextSignerThreshold : Nat
  nextSignerActivationSequence : Nat
deriving DecidableEq

/-- The next sequence number; the addition is checked, and the release build panics. -/
def nextSequence (sequence : Nat) : TrustM Nat :=
  expectOk (okOr (checkedAdd 64 sequence 1) ()) "attempt to add with overflow"

theorem nextSequence_eq_ok {sequence next : Nat} (h : nextSequence sequence = .ok next) :
    next = sequence + 1 := by
  rw [nextSequence, expectOk_eq_ok, okOr_eq_ok] at h
  exact eq_add_of_checkedAdd h

namespace ActumVerifierTrustBundle

variable (b : ActumVerifierTrustBundle)

def Announces : Prop := b.nextSignerSetId ≠ zero
deriving Decidable

/-- The announced signer set is newer, and active from the next bundle on. -/
def checkAnnounced : TrustM Unit := do
  rejectIf (b.nextSignerSetRevision ≤ b.signerSetRevision) (.error .invalidBundle)
  let next ← nextSequence b.bundleSequence
  rejectIf (b.nextSignerActivationSequence ≠ next) (.error .invalidBundle)

def validate : TrustM Unit := do
  rejectIf (b.schemaRevision ≠ 1 ∨ b.bundleSequence = 0 ∨
    ¬ (b.bundleSequence = 1 ↔ b.previousBundleId = zero) ∨
    b.chainId = zero ∨ b.genesisCommitment = zero ∨ b.protocolRevision = 0 ∨
    b.checkpointHeight = 0 ∨ b.checkpointBlockId = zero ∨
    b.checkpointStateRoot = zero ∨ b.checkpointFinalityCommitment = zero ∨
    b.validatorSetRoot = zero ∨ b.proofProfileId = zero ∨
    b.proofSystemRevision = 0 ∨ b.verifierRevision = 0 ∨ b.risc0ImageId = 0 ∨
    b.policyId = zero ∨ b.policyRevision = 0 ∨ b.notBeforeMs < b.issuedAtMs ∨
    b.notAfterMs ≤ b.notBeforeMs ∨ b.signerSetId = zero ∨ b.signerSetRevision = 0 ∨
    b.signerThreshold = 0 ∨ ¬ (b.Announces ↔ b.nextSignerSetRevision ≠ 0 ∧
      b.nextSignerThreshold ≠ 0 ∧ b.nextSignerActivationSequence ≠ 0)) (.error .invalidBundle)
  if b.Announces then b.checkAnnounced else return ()

def encode : Transcript :=
  [.u16 b.schemaRevision, .u64 b.bundleSequence, .digest b.previousBundleId, .digest b.chainId,
    .digest b.genesisCommitment, .u32 b.protocolRevision, .u64 b.checkpointHeight,
    .digest b.checkpointBlockId, .digest b.checkpointStateRoot,
    .digest b.checkpointFinalityCommitment, .digest b.validatorSetRoot, .digest b.proofProfileId,
    .u32 b.proofSystemRevision, .u32 b.verifierRevision, .int 256 b.risc0ImageId,
    .digest b.policyId, .u32 b.policyRevision, .u64 b.issuedAtMs, .u64 b.notBeforeMs,
    .u64 b.notAfterMs, .digest b.signerSetId, .u32 b.signerSetRevision, .u16 b.signerThreshold,
    .digest b.nextSignerSetId, .u32 b.nextSignerSetRevision, .u16 b.nextSignerThreshold,
    .u64 b.nextSignerActivationSequence]

def bundleId (sha3 : HashFn) (b : ActumVerifierTrustBundle) : TrustM Digest384 := do
  b.validate
  return sha3 (.tag "ACTUM-VERIFIER-TRUST-BUNDLE-V1" :: b.encode)

end ActumVerifierTrustBundle

structure TrustBundleSignature where
  signerSetId : Digest384
  signerId : Digest384
  algorithm : TrustSignatureAlgorithm
  signature : List Nat
deriving DecidableEq

/-- `TrustBundleSignatureV1::validate` passes. -/
def TrustBundleSignature.Valid (s : TrustBundleSignature) : Prop :=
  s.signerSetId ≠ zero ∧ s.signerId ≠ zero ∧
    s.signature.length = maxTrustSignatureBytes
deriving Decidable

/-- Signatures are ordered by signer set, then by signer. -/
def TrustBundleSignature.Before (a b : TrustBundleSignature) : Prop :=
  a.signerSetId < b.signerSetId ∨ a.signerSetId = b.signerSetId ∧ a.signerId < b.signerId

instance : DecidableRel TrustBundleSignature.Before :=
  fun _ _ => inferInstanceAs (Decidable (_ ∨ _))

/-- `SignedActumVerifierTrustBundleV1`. -/
structure SignedTrustBundle where
  body : ActumVerifierTrustBundle
  bundleId : Digest384
  signatures : List TrustBundleSignature
deriving DecidableEq

section Checks

variable (sha3 : HashFn) (verify : SignatureCheck)

def SignedTrustBundle.validate (b : SignedTrustBundle) : TrustM Unit := do
  let id ← b.body.bundleId sha3
  rejectIf (id ≠ b.bundleId ∨ b.signatures = [] ∨ maxTrustSignatures < b.signatures.length ∨
    ¬ b.signatures.Pairwise TrustBundleSignature.Before ∨ ∃ s ∈ b.signatures, ¬ s.Valid)
    (.error .invalidSignature)

def verifyTimeAndSet (body : ActumVerifierTrustBundle) (set : TrustSignerSet) (nowMs : Nat) :
    TrustM Unit := do
  let setId ← set.signerSetId sha3
  rejectIf (nowMs < body.notBeforeMs ∨ body.notAfterMs < nowMs ∨ body.signerSetId ≠ setId ∨
    body.signerSetRevision ≠ set.revision ∨ body.signerThreshold ≠ set.threshold)
    (.error .invalidTransition)

section

variable (bundle : SignedTrustBundle) (set : TrustSignerSet)

/-- One signature of the set, in the loop of `verify_threshold`. -/
def countSignature (accepted : Nat) (s : TrustBundleSignature) : TrustM Nat := do
  let signer ← okOr (set.signers.find? fun signer => signer.signerId == s.signerId)
    (.error .invalidSignature)
  rejectIf (s.algorithm ≠ signer.algorithm ∨ bundle.body.bundleSequence < signer.validFromSequence ∨
    signer.validUntilSequence < bundle.body.bundleSequence ∨
    verify s.algorithm signer.publicKey bundle.bundleId s.signature = false)
    (.error .invalidSignature)
  return accepted + 1

def verifyThreshold : TrustM Unit := do
  let setId ← set.signerSetId sha3
  let accepted ← (bundle.signatures.filter fun s => s.signerSetId == setId).foldlM
    (countSignature verify bundle set) 0
  rejectIf (accepted < set.threshold) (.error .thresholdNotMet)

def verifyTrustBundleBootstrap (signerSet : TrustSignerSet) (nowMs : Nat) : TrustM Unit := do
  bundle.validate sha3
  signerSet.validate
  rejectIf (bundle.body.bundleSequence ≠ 1 ∨ bundle.body.previousBundleId ≠ zero)
    (.error .invalidTransition)
  verifyTimeAndSet sha3 bundle.body signerSet nowMs
  let setId ← signerSet.signerSetId sha3
  rejectIf (∃ s ∈ bundle.signatures, s.signerSetId ≠ setId) (.error .invalidSignature)
  verifyThreshold sha3 verify bundle signerSet

end

variable (previous next : SignedTrustBundle) (currentSet : TrustSignerSet)
  (activatedSet : Option TrustSignerSet) (nowMs : Nat)

/-- The checks of a transition that brings in the announced signers. -/
def verifyRotation : TrustM Unit := do
  let newSet ← okOr activatedSet (.error .invalidTransition)
  newSet.validate
  let newId ← newSet.signerSetId sha3
  rejectIf (previous.body.nextSignerSetId ≠ newId ∨
    previous.body.nextSignerSetRevision ≠ newSet.revision ∨
    previous.body.nextSignerThreshold ≠ newSet.threshold) (.error .invalidTransition)
  verifyTimeAndSet sha3 next.body newSet nowMs
  let currentId ← currentSet.signerSetId sha3
  rejectIf (∃ s ∈ next.signatures, s.signerSetId ≠ currentId ∧ s.signerSetId ≠ newId)
    (.error .invalidSignature)
  verifyThreshold sha3 verify next currentSet
  verifyThreshold sha3 verify next newSet

/-- The checks of a transition that keeps the signers. -/
def verifySameSigners (next : SignedTrustBundle) (currentSet : TrustSignerSet)
    (activatedSet : Option TrustSignerSet) (nowMs : Nat) : TrustM Unit := do
  rejectIf activatedSet.isSome (.error .invalidTransition)
  verifyTimeAndSet sha3 next.body currentSet nowMs
  let currentId ← currentSet.signerSetId sha3
  rejectIf (∃ s ∈ next.signatures, s.signerSetId ≠ currentId) (.error .invalidSignature)
  verifyThreshold sha3 verify next currentSet

def verifyTrustBundleTransition : TrustM Unit := do
  previous.validate sha3
  next.validate sha3
  currentSet.validate
  let sequence ← nextSequence previous.body.bundleSequence
  let currentId ← currentSet.signerSetId sha3
  rejectIf (next.body.bundleSequence ≠ sequence ∨
    next.body.previousBundleId ≠ previous.bundleId ∨ next.body.chainId ≠ previous.body.chainId ∨
    next.body.genesisCommitment ≠ previous.body.genesisCommitment ∨
    next.body.checkpointHeight < previous.body.checkpointHeight ∨
    previous.body.signerSetId ≠ currentId ∨
    previous.body.signerSetRevision ≠ currentSet.revision ∨
    previous.body.signerThreshold ≠ currentSet.threshold) (.error .invalidTransition)
  if previous.body.Announces ∧
      previous.body.nextSignerActivationSequence = next.body.bundleSequence then
    verifyRotation sha3 verify previous next currentSet activatedSet nowMs
  else verifySameSigners sha3 verify next currentSet activatedSet nowMs

end Checks

theorem verifyTrustBundleTransition_ok {sha3 : HashFn} {verify : SignatureCheck}
    {previous next : SignedTrustBundle} {currentSet : TrustSignerSet}
    {activatedSet : Option TrustSignerSet} {nowMs : Nat}
    (h : verifyTrustBundleTransition sha3 verify previous next currentSet activatedSet nowMs =
      .ok ()) :
    next.body.bundleSequence = previous.body.bundleSequence + 1 ∧
      next.body.chainId = previous.body.chainId ∧
      next.body.genesisCommitment = previous.body.genesisCommitment := by
  simp only [verifyTrustBundleTransition, Except.inversion] at h
  obtain ⟨-, -, -, sequence, hs, _, -, ⟨hn, -, hc, hg, -⟩, -⟩ := h
  exact ⟨hn.trans (nextSequence_eq_ok hs), hc, hg⟩

end ActiveChain
