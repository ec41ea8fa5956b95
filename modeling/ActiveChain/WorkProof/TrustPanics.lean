import ActiveChain.Wire
import ActiveChain.WorkProof.TrustChain

/-!
# Which trust bundles make the process panic

The successor of a sequence number is computed while a bundle is validated, which the decoder does
before anybody has checked a signature.

* `SignedTrustBundle.decode` — the decoder.
-/

namespace ActiveChain

open Except List
open Decode (readInt readBytes readLength readMany)

/-! ## The decoder -/

namespace ActumVerifierTrustBundle

/-- The fields, before they are checked. -/
def readFields : Decode ActumVerifierTrustBundle := do
  return {
    schemaRevision := ← readInt 2
    bundleSequence := ← readInt 8
    previousBundleId := ← readInt 48
    chainId := ← readInt 48
    genesisCommitment := ← readInt 48
    protocolRevision := ← readInt 4
    checkpointHeight := ← readInt 8
    checkpointBlockId := ← readInt 48
    checkpointStateRoot := ← readInt 48
    checkpointFinalityCommitment := ← readInt 48
    validatorSetRoot := ← readInt 48
    proofProfileId := ← readInt 48
    proofSystemRevision := ← readInt 4
    verifierRevision := ← readInt 4
    risc0ImageId := ← readInt 32
    policyId := ← readInt 48
    policyRevision := ← readInt 4
    issuedAtMs := ← readInt 8
    notBeforeMs := ← readInt 8
    notAfterMs := ← readInt 8
    signerSetId := ← readInt 48
    signerSetRevision := ← readInt 4
    signerThreshold := ← readInt 2
    nextSignerSetId := ← readInt 48
    nextSignerSetRevision := ← readInt 4
    nextSignerThreshold := ← readInt 2
    nextSignerActivationSequence := ← readInt 8 }

def decode : Decode ActumVerifierTrustBundle := do
  let value ← readFields
  Decode.check (value.validate.mapError
    (Fault.mapErr fun _ => .invalidValue "invalid verifier trust bundle"))
  return value

/-- Valid if only its sequence were one lower: the successor of the last number overflows. -/
def Overflows (b : ActumVerifierTrustBundle) : Prop :=
  b.bundleSequence = 2 ^ 64 - 1 ∧ b.Announces ∧ b.nextSignerActivationSequence ≠ 0 ∧
    { b with bundleSequence := b.bundleSequence - 1,
             nextSignerActivationSequence := b.bundleSequence }.validate = .ok ()

end ActumVerifierTrustBundle

def TrustSignatureAlgorithm.decode : Decode TrustSignatureAlgorithm := do
  let tag ← readInt 1
  if tag = 1 then return .mlDsa44
  else Decode.check (.error (.error (.invalidEnumTag "TrustSignatureAlgorithmV1" tag)))

def TrustBundleSignature.decode : Decode TrustBundleSignature := do
  let signerSetId ← readInt 48
  let signerId ← readInt 48
  let algorithm ← TrustSignatureAlgorithm.decode
  let signature ← readBytes maxTrustSignatureBytes
  let value := ⟨signerSetId, signerId, algorithm, signature.map UInt8.toNat⟩
  Decode.check (rejectIf (¬ value.Valid)
    (.error (.invalidValue "invalid trust bundle signature")))
  return value

def SignedTrustBundle.decode (sha3 : HashFn) : Decode SignedTrustBundle := do
  let body ← ActumVerifierTrustBundle.decode
  let bundleId ← readInt 48
  let count ← readLength maxTrustSignatures
  let signatures ← readMany TrustBundleSignature.decode count
  let value : SignedTrustBundle := ⟨body, bundleId, signatures⟩
  Decode.check ((value.validate sha3).mapError
    (Fault.mapErr fun _ => .invalidValue "invalid signed verifier trust bundle"))
  return value

/-! ## Panics of the checks -/

theorem nextSequence_panics_iff {sequence : Nat} (h : sequence < 2 ^ 64) :
    (nextSequence sequence).Panics ↔ sequence = 2 ^ 64 - 1 := by
  by_cases hlast : sequence = 2 ^ 64 - 1
  · refine iff_of_true ⟨"attempt to add with overflow", ?_⟩ hlast
    rw [hlast]
    rfl
  · have hadd : checkedAdd 64 sequence 1 = some (sequence + 1) := checkedAdd_eq_some.2 (by omega)
    rw [nextSequence, hadd]
    exact iff_of_false (not_panics_ok _) hlast

theorem ActumVerifierTrustBundle.validate_panics_iff {b : ActumVerifierTrustBundle}
    (h : b.bundleSequence < 2 ^ 64) : b.validate.Panics ↔ b.Overflows := by
  unfold validate Overflows
  rw [panics_reject_bind]
  by_cases ha : b.Announces
  · have hnext : nextSequence (2 ^ 64 - 1 - 1) = .ok (2 ^ 64 - 1) := by decide
    have hpanics : (nextSequence b.bundleSequence >>= fun next =>
        rejectIf (b.nextSignerActivationSequence ≠ next)
          (Fault.error TrustBundleError.invalidBundle)).Panics ↔ b.bundleSequence = 2 ^ 64 - 1 := by
      rw [panics_bind, nextSequence_panics_iff h]
      exact or_iff_left fun ⟨_, _, hp⟩ => not_panics_reject hp
    rw [if_pos ha, checkAnnounced, panics_reject_bind, hpanics]
    simp only [Announces] at ha
    constructor
    · rintro ⟨hm, hrev, hlast⟩
      have hact : b.nextSignerActivationSequence ≠ 0 := fun hz => hm (by simp [ha, hz, Announces])
      refine ⟨hlast, ha, hact, ?_⟩
      simp only [validate, checkAnnounced, inversion, Announces, if_pos ha, hlast, hnext]
      refine ⟨by simpa [hlast, hact, Announces] using hm, hrev, _, rfl, rfl⟩
    · rintro ⟨hlast, -, hact, hv⟩
      simp only [validate, checkAnnounced, inversion, Announces, if_pos ha, hlast] at hv
      exact ⟨by simpa [hlast, hact, Announces] using hv.1, hv.2.1, hlast⟩
  · rw [if_neg ha]
    exact iff_of_false (fun hp => not_panics_ok () hp.2) fun ho => ha ho.2.1

open ActumVerifierTrustBundle

section Checks

variable {sha3 : HashFn} {verify : SignatureCheck}
  {bundle previous next : SignedTrustBundle} {set current : TrustSignerSet}
  {activated : Option TrustSignerSet} {nowMs : Nat}

theorem signerSetId_quiet : ¬ (set.signerSetId sha3).Panics :=
  not_panics_bind not_panics_reject fun _ => not_panics_ok _

theorem verifyTimeAndSet_quiet {body : ActumVerifierTrustBundle} :
    ¬ (verifyTimeAndSet sha3 body set nowMs).Panics :=
  not_panics_bind signerSetId_quiet fun _ => not_panics_reject

theorem verifyThreshold_quiet : ¬ (verifyThreshold sha3 verify bundle set).Panics := by
  refine not_panics_bind signerSetId_quiet fun _ => not_panics_bind ?_ fun _ => not_panics_reject
  refine not_panics_foldlM (fun _ _ => ?_) _ _
  exact not_panics_bind not_panics_okOr fun _ =>
    not_panics_bind not_panics_reject fun _ => not_panics_ok _

theorem verifyRotation_quiet :
    ¬ (verifyRotation sha3 verify previous next current activated nowMs).Panics := by
  refine not_panics_bind not_panics_okOr fun new => not_panics_bind not_panics_reject fun _ =>
    not_panics_bind signerSetId_quiet fun _ => not_panics_bind not_panics_reject fun _ =>
    not_panics_bind verifyTimeAndSet_quiet fun _ => not_panics_bind signerSetId_quiet fun _ =>
    not_panics_bind not_panics_reject fun _ => ?_
  exact not_panics_bind verifyThreshold_quiet fun _ => verifyThreshold_quiet

theorem verifySameSigners_quiet :
    ¬ (verifySameSigners sha3 verify next current activated nowMs).Panics := by
  refine not_panics_bind not_panics_reject fun _ => not_panics_bind
    verifyTimeAndSet_quiet fun _ => ?_
  exact not_panics_bind signerSetId_quiet fun _ =>
    not_panics_bind not_panics_reject fun _ => verifyThreshold_quiet

theorem SignedTrustBundle.validate_panics_iff (h : bundle.body.bundleSequence < 2 ^ 64) :
    (bundle.validate sha3).Panics ↔ bundle.body.Overflows := by
  have hid : (bundle.body.bundleId sha3).Panics ↔ bundle.body.validate.Panics :=
    panics_bind_left fun _ => not_panics_ok _
  unfold SignedTrustBundle.validate
  rw [panics_bind_left fun _ => not_panics_reject, hid,
    ActumVerifierTrustBundle.validate_panics_iff h]

theorem bootstrap_panics_iff (h : bundle.body.bundleSequence < 2 ^ 64) :
    (verifyTrustBundleBootstrap sha3 verify bundle set nowMs).Panics ↔ bundle.body.Overflows := by
  unfold verifyTrustBundleBootstrap
  rw [panics_bind_left, SignedTrustBundle.validate_panics_iff h]
  refine fun _ => not_panics_bind not_panics_reject fun _ => not_panics_bind not_panics_reject
    fun _ => not_panics_bind verifyTimeAndSet_quiet fun _ => ?_
  exact not_panics_bind signerSetId_quiet fun _ =>
    not_panics_bind not_panics_reject fun _ => verifyThreshold_quiet

theorem transition_panics_iff (hp : previous.body.bundleSequence < 2 ^ 64)
    (hn : next.body.bundleSequence < 2 ^ 64) :
    (verifyTrustBundleTransition sha3 verify previous next current activated nowMs).Panics ↔
      previous.body.Overflows ∨ previous.validate sha3 = .ok () ∧ (next.body.Overflows ∨
        next.validate sha3 = .ok () ∧ current.validate = .ok () ∧
          previous.body.bundleSequence = 2 ^ 64 - 1) := by
  have hset : ¬ current.validate.Panics := not_panics_reject
  unfold verifyTrustBundleTransition
  rw [panics_bind, SignedTrustBundle.validate_panics_iff hp, exists_unit,
    panics_bind, SignedTrustBundle.validate_panics_iff hn, exists_unit,
    panics_bind, or_iff_right hset, exists_unit, panics_bind_left, nextSequence_panics_iff hp]
  refine fun _ => not_panics_bind signerSetId_quiet fun _ => not_panics_bind not_panics_reject
    fun _ => ?_
  split_ifs
  · exact verifyRotation_quiet
  · exact verifySameSigners_quiet

end Checks

/-! ## Panics of the decoder -/

section Decoder

open Decode

variable {input rest : List UInt8} {b : ActumVerifierTrustBundle}

theorem safe_readFields : Safe readFields := by
  unfold readFields
  repeat' refine (safe_readInt _).bind fun _ => ?_
  exact safe_pure _

theorem readFields_sequence (h : readFields.run input = .ok (b, rest)) :
    b.bundleSequence < 2 ^ 64 := by
  cases b
  simp only [readFields, Decode.inversion, mk.injEq, existsAndEq] at h
  exact h.2.2.1

theorem safe_decodeSignature : Safe TrustBundleSignature.decode := by
  refine (safe_readInt _).bind fun _ => (safe_readInt _).bind fun _ => Safe.bind ?_ fun _ =>
    Safe.bind ?_ fun _ => safe_reject.bind fun _ => safe_pure _
  · refine (safe_readInt _).bind fun tag => ?_
    split_ifs
    · exact safe_pure _
    · exact fun _ h => not_panics_error _ (panics_check.1 h)
  · exact (safe_readLength _).bind safe_readRaw

theorem decode_panics_iff (sha3 : HashFn) :
    ((SignedTrustBundle.decode sha3).run input).Panics ↔ ∃ b rest,
      readFields.run input = .ok (b, rest) ∧ b.Overflows := by
  have hbody : (decode.run input).Panics ↔ ∃ b rest,
      readFields.run input = .ok (b, rest) ∧ b.Overflows := by
    rw [decode, safe_readFields.panics_bind]
    refine exists_congr fun b => exists_congr fun rest => and_congr_right fun h => ?_
    rw [panics_check_return, b.validate_panics_iff (readFields_sequence h)]
  rw [SignedTrustBundle.decode, Decode.panics_bind, hbody]
  refine or_iff_left ?_
  rintro ⟨b, rest, hdecode, h⟩
  -- a body that was read is valid, so that the second check of it does not panic
  simp only [decode, run_bind_eq_ok, run_check_eq_ok, run_pure_eq_ok, mapError_eq_ok] at hdecode
  obtain ⟨b, _, hread, _, _, ⟨hv, -⟩, rfl, -⟩ := hdecode
  obtain ⟨id, _, -, h⟩ := (safe_readInt _).panics_bind.1 h
  obtain ⟨count, _, -, h⟩ := (safe_readLength _).panics_bind.1 h
  obtain ⟨signatures, _, -, h⟩ := (safe_decodeSignature.many _).panics_bind.1 h
  rw [panics_check_return, SignedTrustBundle.validate_panics_iff (readFields_sequence hread),
    ← validate_panics_iff (readFields_sequence hread), hv] at h
  exact not_panics_ok _ h

end Decoder

/-- **The decoder panics exactly on bytes of a bundle whose check overflows, and the checks exactly
on such a bundle, or after a valid bundle at the last sequence number.** -/
theorem trust_bundle_panics_iff (sha3 : HashFn) (verify : SignatureCheck) :
    (∀ input, ((SignedTrustBundle.decode sha3).run input).Panics ↔ ∃ b rest,
      ActumVerifierTrustBundle.readFields.run input = .ok (b, rest) ∧ b.Overflows) ∧
    (∀ bundle set nowMs, bundle.body.bundleSequence < 2 ^ 64 →
      ((verifyTrustBundleBootstrap sha3 verify bundle set nowMs).Panics ↔
        bundle.body.Overflows)) ∧
    ∀ previous next current activated nowMs, previous.body.bundleSequence < 2 ^ 64 →
      next.body.bundleSequence < 2 ^ 64 →
      ((verifyTrustBundleTransition sha3 verify previous next current activated nowMs).Panics ↔
        previous.body.Overflows ∨ previous.validate sha3 = .ok () ∧ (next.body.Overflows ∨
          next.validate sha3 = .ok () ∧ current.validate = .ok () ∧
            previous.body.bundleSequence = 2 ^ 64 - 1)) :=
  ⟨fun _ => decode_panics_iff sha3, fun _ _ _ h => bootstrap_panics_iff h,
    fun _ _ _ _ _ hp hn => transition_panics_iff hp hn⟩

/-- A bundle at the last sequence number that announces signers; nothing signs it. -/
def lastSequenceBytes : List UInt8 :=
  [0, 1] ++ replicate 8 255 ++ replicate 504 1 ++ replicate 8 2 ++ replicate 102 1 ++
    replicate 4 2 ++ replicate 10 1

/-- **Bytes that make the decoder panic.** -/
theorem last_sequence_bytes_panic :
    ((SignedTrustBundle.decode Crypto.transparent.shake256).run lastSequenceBytes).Panics :=
  ⟨"attempt to add with overflow", by decide +kernel⟩

theorem second_bundle_does_not_panic : ¬ (verifyTrustBundleTransition Twins.crypto.shake256
    Twins.verify (Twins.signed Twins.first) (Twins.signed Twins.second) Twins.signers none
    0).Panics := by
  rw [(trust_bundle_panics_iff _ _).2.2 _ _ _ _ _ (by decide) (by decide)]
  rintro (⟨h, -⟩ | ⟨-, ⟨h, -⟩ | ⟨-, -, h⟩⟩) <;> exact absurd h (by decide)

end ActiveChain
