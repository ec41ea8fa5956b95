import ActiveChain.Primitives

/-!
# Domain-separated commitments (`protocol-commitment`)

A commitment hashes a value's canonical body behind the domain, the type tag and the schema version,
so that one commitment never stands for values of two kinds.

* `CanonicalType` — type tag, schema version and body of a value.
* `commit` — the commitment in a domain.
* `commit_inj`, `body_of_commit` — under an injective hash it determines all of them.
-/

namespace ActiveChain

/-- The registered purposes of `DomainTag` that the model commits for. -/
inductive DomainTag
  | canonicalValue
  | nativeAssetId
  | cashTransitionId
  | coinCellId
  | coinCellSetRoot
  | supplyRoot
  | genesisAllocationRoot
  | privacyPublicInputs
deriving DecidableEq, Repr

def DomainTag.asU16 : DomainTag → Nat
  | .canonicalValue => 0x0001
  | .nativeAssetId => 0x000a
  | .cashTransitionId => 0x000b
  | .coinCellId => 0x000c
  | .coinCellSetRoot => 0x000d
  | .supplyRoot => 0x000e
  | .genesisAllocationRoot => 0x000f
  | .privacyPublicInputs => 0x0012

/-- `CanonicalType`: the canonical encoding of a value is its body.  Every bound of the encoder
holds by the checks of the type, so that encoding does not fail. -/
class CanonicalType (α : Type) where
  typeTag : Nat
  schemaVersion : Nat
  body : α → Transcript

def commitmentTranscript (domain : DomainTag) (typeTag schemaVersion : Nat) (body : Transcript) :
    Transcript :=
  [.tag "ACTIVECHAIN-COMMITMENT", .u16 1, .u16 domain.asU16, .u16 typeTag, .u16 schemaVersion,
    .u64 body.length] ++ body

/-- `encode_envelope`: the body behind the type tag, the schema version and its length. -/
def envelope {α : Type} [CanonicalType α] (value : α) : Transcript :=
  [.u16 (CanonicalType.typeTag α), .u16 (CanonicalType.schemaVersion α),
    .u32 (CanonicalType.body value).length] ++ CanonicalType.body value

theorem body_of_envelope {α : Type} [CanonicalType α] {a b : α} (h : envelope a = envelope b) :
    CanonicalType.body a = CanonicalType.body b :=
  List.append_inj_right h rfl

def commit {α : Type} [CanonicalType α] (C : Crypto) (domain : DomainTag) (value : α) : Digest384 :=
  C.shake256 (commitmentTranscript domain (CanonicalType.typeTag α) (CanonicalType.schemaVersion α)
    (CanonicalType.body value))

section Injective

variable {α β : Type} [CanonicalType α] [CanonicalType β] {C : Crypto}
  (hash : Function.Injective C.shake256)
include hash

/-- **A commitment determines its domain, the type and the body.** -/
theorem commit_inj {domain domain' : DomainTag} {a : α} {b : β}
    (h : commit C domain a = commit C domain' b) :
    domain = domain' ∧ CanonicalType.typeTag α = CanonicalType.typeTag β ∧
      CanonicalType.body a = CanonicalType.body b := by
  have h := hash h
  simp only [commitmentTranscript, Transcript.inversion] at h
  obtain ⟨hd, htag, -, -, hb⟩ := h
  refine ⟨?_, htag, hb⟩
  cases domain <;> cases domain' <;> simp_all [DomainTag.asU16]

theorem body_of_commit {domain : DomainTag} {a a' : α}
    (h : commit C domain a = commit C domain a') : CanonicalType.body a = CanonicalType.body a' :=
  (commit_inj hash h).2.2

end Injective

end ActiveChain
