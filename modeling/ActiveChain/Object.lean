import ActiveChain.Authority.Capability
import ActiveChain.Commitment
import ActiveChain.Lib.Bytes

/-!
# Protocol objects (`protocol-types::object`)

* `Object` — an object with its authority, policies, value and lease; the checks of `Object::new`
  are fields.
* `Object.body_injective` — an object's canonical body determines it.
-/

namespace ActiveChain

def maxPublicObjectValue : Nat := 16384

inductive ObjectOwner
  | principal (id : PrincipalId)
  | shared
  | immutable
  | capabilityControlled (id : CapabilityId)
  | shielded (commitment : Digest384)
deriving DecidableEq, Repr

/-- Only registered bits are set. -/
@[ext] structure ObjectFlags where
  bits : Nat
  known : bits &&& 7 = bits
deriving DecidableEq, Repr

namespace ObjectFlags

def none : ObjectFlags := ⟨0, rfl⟩

def transferable : ObjectFlags := ⟨1, rfl⟩

def contains (flags flag : ObjectFlags) : Prop := flags.bits &&& flag.bits = flag.bits
deriving Decidable

end ObjectFlags

@[ext] structure Object where
  objectId : ObjectId
  objectVersion : Nat
  typeId : Digest384
  owner : ObjectOwner
  controlPolicyHash : Digest384
  usePolicyHash : Digest384
  disclosurePolicyHash : Digest384
  upgradePolicyHash : Digest384
  packageId : Option Digest384
  valueRoot : Digest384
  publicValue : Option (List UInt8)
  leaseExpiryEpoch : Nat
  storageDeposit : Nat
  flags : ObjectFlags
  publicBounded : ∀ value ∈ publicValue, value.length ≤ maxPublicObjectValue
  immutableFixed : ¬ (owner = .immutable ∧ flags.contains .transferable)
deriving DecidableEq

/-! ## Canonical bodies -/

def ObjectOwner.body : ObjectOwner → Transcript
  | .principal id => [.u8 0, .digest id]
  | .shared => [.u8 1]
  | .immutable => [.u8 2]
  | .capabilityControlled id => [.u8 3, .digest id]
  | .shielded commitment => [.u8 4, .digest commitment]

def packageBody : Option Digest384 → Transcript
  | none => [.u8 0]
  | some id => [.u8 1, .digest id]

/-- The encoded public value: a tag, and the bytes behind their length. -/
def publicValueBody : Option (List UInt8) → Transcript
  | none => [.u8 0]
  | some value => [.u8 1, .u32 value.length, .bytes (fromBe value)]

instance : CanonicalType Object where
  typeTag := 0x0050
  schemaVersion := 1
  body o := [.digest o.objectId.toNat, .u64 o.objectVersion, .digest o.typeId] ++ (o.owner.body ++
    ([.digest o.controlPolicyHash, .digest o.usePolicyHash, .digest o.disclosurePolicyHash,
      .digest o.upgradePolicyHash] ++ (packageBody o.packageId ++ ([.digest o.valueRoot] ++
    (publicValueBody o.publicValue ++ [.u64 o.leaseExpiryEpoch, .u128 o.storageDeposit,
      .u16 o.flags.bits])))))

/-- The bytes of integers and digests. -/
def widthOf (pieces : Transcript) : Nat :=
  (pieces.map fun | .int bits _ => bits / 8 | _ => 48).sum

/-- The length of `encode_envelope`. -/
def Object.envelopeLength (o : Object) : Nat :=
  let value := o.publicValue.elim 0 fun bytes => lebWidth bytes.length + bytes.length
  let body := 371 + widthOf o.owner.body + widthOf (packageBody o.packageId) + value
  4 + lebWidth body + body

theorem ObjectOwner.body_selfDelimiting : SelfDelimiting ObjectOwner.body := by
  intro a b s t h
  cases a <;> cases b <;> simp_all [ObjectOwner.body]

theorem packageBody_selfDelimiting : SelfDelimiting packageBody := by
  intro a b s t h
  cases a <;> cases b <;> simp_all [packageBody]

theorem publicValueBody_selfDelimiting : SelfDelimiting publicValueBody := by
  intro a b s t h
  cases a with
  | none => cases b <;> simp_all [publicValueBody]
  | some v =>
    cases b with
    | none => simp [publicValueBody] at h
    | some value' =>
      simp only [publicValueBody, Transcript.inversion] at h
      obtain ⟨hl, hv, hr⟩ := h
      -- bytes of one length are told apart by their number
      have hb := beBytes_fromBe v
      rw [hl, hv, beBytes_fromBe] at hb
      exact ⟨congrArg some hb.symm, hr⟩

theorem Object.body_injective : Function.Injective (CanonicalType.body : Object → Transcript) := by
  intro o o' h
  simp only [CanonicalType.body, Transcript.inversion] at h
  obtain ⟨hid, hv, ht, h⟩ := h
  obtain ⟨ho, h⟩ := ObjectOwner.body_selfDelimiting _ _ _ _ h
  simp only [Transcript.inversion] at h
  obtain ⟨hc, huse, hd, hu, h⟩ := h
  obtain ⟨hp, h⟩ := packageBody_selfDelimiting _ _ _ _ h
  obtain ⟨hr, h⟩ := List.cons.inj h
  obtain ⟨hpu, h⟩ := publicValueBody_selfDelimiting _ _ _ _ h
  simp only [Transcript.inversion] at h hr
  obtain ⟨hl, hde, hf⟩ := h
  exact Object.ext (BitVec.eq_of_toNat_eq hid) hv ht ho hc huse hd hu
    hp hr hpu hl hde (ObjectFlags.ext hf)

end ActiveChain
