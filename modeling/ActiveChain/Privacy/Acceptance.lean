import ActiveChain.Privacy.ProofOfFunds

/-!
# Acceptance of external credentials (`external-credential-admission`)

A policy lists the issuers, configurations and schemas of the credentials that are admitted.  Its
commitment hashes the lists one after the other, without their lengths.
-/

namespace ActiveChain

open Function

inductive ExternalAdmissionError
  | malformedPolicy
deriving DecidableEq

@[ext] structure ExternalCredentialAcceptancePolicy where
  issuers : List PrincipalId
  configurations : List Digest384
  schemas : List Digest384
  minimumAssurance : CredentialAssuranceClass
  maximumStatusAge : Nat
  requireIssuanceLog : Bool
  purposeCommitment : Digest384
  verifierVersion : Nat
  proofVersion : Nat
  revision : Nat
deriving DecidableEq

def CredentialAssuranceClass.asU8 : CredentialAssuranceClass → Nat
  | .tlsNotarizedEvidence => 0
  | .holderSelfIssued => 1
  | .issuerUpgraded => 2
  | .regulatedAttestation => 3

namespace ExternalCredentialAcceptancePolicy

variable (p : ExternalCredentialAcceptancePolicy)

/-- `new`, on the fields of the policy. -/
def new : Except ExternalAdmissionError ExternalCredentialAcceptancePolicy := do
  rejectIf (p.issuers = [] ∨ p.configurations = [] ∨ p.schemas = [] ∨
    (∃ n ∈ [p.issuers.length, p.configurations.length, p.schemas.length], 32 < n) ∨
    ¬ p.issuers.IsChain (· < ·) ∨ ¬ p.configurations.IsChain (· < ·) ∨
    ¬ p.schemas.IsChain (· < ·) ∨ p.purposeCommitment = Digest384.zero ∨ p.verifierVersion = 0 ∨
    p.proofVersion = 0 ∨ p.revision = 0) .malformedPolicy
  return p

def commitment (C : Crypto) : Digest384 :=
  C.shake256 (.tag "ACTIVECHAIN-EXTERNAL-CREDENTIAL-POLICY-V1" ::
    (p.issuers.map .digest ++ (p.configurations.map .digest ++ (p.schemas.map .digest ++
      [.u8 p.minimumAssurance.asU8, .u64 p.maximumStatusAge, .u8 p.requireIssuanceLog.toNat,
        .digest p.purposeCommitment, .u16 p.verifierVersion, .u16 p.proofVersion,
        .u64 p.revision]))))

/-- The three lists, one after the other. -/
def listed : List Digest384 := p.issuers ++ (p.configurations ++ p.schemas)

/-- All that is not in the lists. -/
def terms : CredentialAssuranceClass × Nat × Bool × Digest384 × Nat × Nat × Nat :=
  (p.minimumAssurance, p.maximumStatusAge, p.requireIssuanceLog, p.purposeCommitment,
    p.verifierVersion, p.proofVersion, p.revision)

variable {p} {q : ExternalCredentialAcceptancePolicy} {C : Crypto}

theorem commitment_eq_iff (hash : Injective C.shake256) :
    p.commitment C = q.commitment C ↔ p.listed = q.listed ∧ p.terms = q.terms := by
  have hmap : Injective (List.map Chunk.digest) :=
    List.map_injective_iff.2 fun _ _ => Chunk.digest.inj
  have hassurance : p.minimumAssurance.asU8 = q.minimumAssurance.asU8 ↔
      p.minimumAssurance = q.minimumAssurance := by
    cases p.minimumAssurance <;> cases q.minimumAssurance <;> decide
  have hlog : p.requireIssuanceLog.toNat = q.requireIssuanceLog.toNat ↔
      p.requireIssuanceLog = q.requireIssuanceLog := by
    cases p.requireIssuanceLog <;> cases q.requireIssuanceLog <;> decide
  unfold commitment
  rw [hash.eq_iff, List.cons_inj_right, ← List.append_assoc, ← List.append_assoc,
    ← List.append_assoc, ← List.append_assoc, ← List.map_append, ← List.map_append,
    ← List.map_append, ← List.map_append, List.append_assoc, List.append_assoc]
  constructor
  · intro h
    obtain ⟨hlists, h⟩ := List.append_inj' h rfl
    simp only [Transcript.inversion, hassurance, hlog] at h
    exact ⟨hmap hlists, by simpa [terms] using h⟩
  · rintro ⟨hlists, hterms⟩
    simp only [terms, Prod.mk.injEq] at hterms
    simp only [listed] at hlists
    simp only [hlists, hterms]

/-- **A commitment tells two policies apart exactly when their lists differ as one list, one of the
other terms differs, or the lists are cut at the same places.** -/
theorem commitment_determines_policy (hash : Injective C.shake256) :
    (p.commitment C = q.commitment C → p = q) ↔
      p.listed ≠ q.listed ∨ p.terms ≠ q.terms ∨
        p.issuers.length = q.issuers.length ∧
          p.configurations.length = q.configurations.length := by
  rw [commitment_eq_iff hash]
  constructor
  · intro h
    by_cases heq : p.listed = q.listed ∧ p.terms = q.terms
    · rw [h heq]
      exact .inr (.inr ⟨rfl, rfl⟩)
    · tauto
  · rintro hor ⟨hlisted, hterms⟩
    obtain ⟨hi, hc⟩ := (hor.resolve_left (not_not_intro hlisted)).resolve_left
      (not_not_intro hterms)
    obtain ⟨hissuers, h⟩ := List.append_inj hlisted hi
    obtain ⟨hconfigurations, hschemas⟩ := List.append_inj h hc
    simp only [terms, Prod.mk.injEq] at hterms
    obtain ⟨hassurance, hage, hlog, hpurpose, hverifier, hproof, hrevision⟩ := hterms
    exact ExternalCredentialAcceptancePolicy.ext hissuers hconfigurations hschemas hassurance hage
      hlog hpurpose hverifier hproof hrevision

/-- A policy with one schema, for issuer-upgraded credentials with a log. -/
def small (issuers configurations : List Digest384) : ExternalCredentialAcceptancePolicy :=
  ⟨issuers, configurations, [4], .issuerUpgraded, 9, true, 5, 1, 1, 1⟩

theorem small_told_apart : Injective Crypto.transparent.shake256 ∧
    (small [1, 2] [3]).new = .ok (small [1, 2] [3]) ∧
    (small [1] [3, 5]).new = .ok (small [1] [3, 5]) ∧
    (small [1, 2] [3]).commitment .transparent ≠ (small [1] [3, 5]).commitment .transparent := by
  refine ⟨Crypto.transparent_injective, rfl, rfl, fun h => ?_⟩
  have heq := (commitment_determines_policy Crypto.transparent_injective).2 (.inl (by decide)) h
  exact absurd heq (by decide)

/-- The second issuer of one policy is the first configuration of the other. -/
theorem commitment_shared : (small [1, 2] [3]).new = .ok (small [1, 2] [3]) ∧
    (small [1] [2, 3]).new = .ok (small [1] [2, 3]) ∧ small [1, 2] [3] ≠ small [1] [2, 3] ∧
    Injective Crypto.transparent.shake256 ∧
    (small [1, 2] [3]).commitment .transparent = (small [1] [2, 3]).commitment .transparent :=
  ⟨rfl, rfl, by decide, Crypto.transparent_injective, rfl⟩

end ExternalCredentialAcceptancePolicy

end ActiveChain
