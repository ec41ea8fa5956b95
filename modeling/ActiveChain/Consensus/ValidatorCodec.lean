import ActiveChain.Cash.Capacity
import ActiveChain.Consensus.Types

/-!
# The bytes of validator sets (`protocol-types::consensus`)

Both encodings put a length prefix before the members.  The declared maximum length allows one byte
for it, which is what fewer than 128 members need.

* `ValidatorSet.codes`, `ValidatorGenesis.codes` — which values have bytes, and which.
* `room_iff` — a list of records with one byte reserved for its length fits unless it is full.
-/

namespace ActiveChain

open Decode List Fields

open Encoder (writeInt writeList appends)

theorem maxValidators_le : maxValidatorsPerEpoch ≤ maxBodyLength := by decide

/-! ## Sets -/

def ValidatorWeight.fields (v : ValidatorWeight) : Fields := [(48, v.validator), (16, v.stake)]

def ValidatorWeight.encode : Write ValidatorWeight := fun v _ e => v.fields.write e

def ValidatorWeight.decode : Decode ValidatorWeight := do
  let validator ← readInt 48
  return ⟨validator, ← readInt 16⟩

theorem ValidatorWeight.codes : Codes encode decode (·.fields.Fit) (·.fields.bytes) where
  write_eq_ok {v _ _ _} _ := v.fields.write_eq_ok
  read_eq_ok := by
    rintro input rest ⟨validator, stake⟩
    simp only [decode, inversion, ValidatorWeight.mk.injEq, existsAndEq]
    simp only [fields, fit_cons, fit_nil, bytes, flatMap_cons,
      flatMap_nil, append_assoc, nil_append]
    constructor
    · rintro ⟨hv, hi, hs⟩
      exact ⟨⟨hv, hs, trivial⟩, hi⟩
    · rintro ⟨⟨hv, hs, -⟩, hi⟩
      exact ⟨hv, hi, hs⟩

namespace ValidatorSet

def encode : Write ValidatorSet := fun s _ e =>
  writeList maxValidatorsPerEpoch ValidatorWeight.encode s.validators e

def decode : Decode ValidatorSet := do
  let values ← readList maxValidatorsPerEpoch ValidatorWeight.decode
  Decode.check (orInvalid (ValidatorSet.new values) "invalid validator set")

/-- `CanonicalType for ValidatorSet`. -/
def codec : CanonicalCodec ValidatorSet where
  typeTag := 0x0066
  schemaVersion := 1
  maxEncodedLen := 1 + maxValidatorsPerEpoch * (48 + 16)
  maxFits := by decide
  encode := encode
  decode := decode

/-- Identifiers and stakes are machine numbers. -/
def InRange (s : ValidatorSet) : Prop := ∀ v ∈ s.validators, v.fields.Fit

open ValidatorSet

theorem new_eq_ok {validators : List ValidatorWeight} {s : ValidatorSet} :
    new validators = .ok s ↔ s.validators = validators := by
  constructor
  · intro h
    unfold new at h
    split_ifs at h <;> split at h <;> cases h
    rfl
  · rintro rfl
    unfold new
    rw [dif_pos s.bounds, dif_pos s.positive]
    split
    · rename_i h
      cases h.symm.trans s.total
    · rename_i h
      cases h.symm.trans s.total
      rw [dif_pos s.ordered]

theorem codes : Codes codec.encode codec.decode InRange
    (fun s => listBytes (·.fields.bytes) s.validators) where
  write_eq_ok {s _ _ _} h :=
    (ValidatorWeight.codes.list maxValidators_le).write_eq_ok ⟨s.bounds.2, h⟩
  read_eq_ok := by
    intro input rest s
    simp only [codec, decode, inversion,
      (ValidatorWeight.codes.list maxValidators_le).read_eq_ok, new_eq_ok, existsAndEq]
    exact and_iff_right s.bounds.2

end ValidatorSet

/-! ## Manifests -/

def ValidatorGenesisEntry.fields (v : ValidatorGenesisEntry) : Fields :=
  [(48, v.validator), (16, v.stake), (1312, v.publicKey)]

def ValidatorGenesisEntry.encode : Write ValidatorGenesisEntry := fun v _ e => v.fields.write e

def ValidatorGenesisEntry.decode : Decode ValidatorGenesisEntry := do
  let validator ← readInt 48
  let stake ← readInt 16
  let publicKey ← readInt 1312
  Decode.check (orInvalid (ValidatorGenesisEntry.new validator stake publicKey)
    "invalid validator genesis entry")

open ValidatorGenesisEntry

theorem ValidatorGenesisEntry.new_eq_ok {validator : PrincipalId} {stake : Nat} {key : PublicKey}
    {v : ValidatorGenesisEntry} : new validator stake key = .ok v ↔
      v.validator = validator ∧ v.stake = stake ∧ v.publicKey = key := by
  constructor
  · intro h
    unfold new at h
    split_ifs at h
    cases h
    simp
  · rintro ⟨rfl, rfl, rfl⟩
    rw [new, dif_pos v.positive]

theorem ValidatorGenesisEntry.codes : Codes encode decode (·.fields.Fit) (·.fields.bytes) where
  write_eq_ok {v _ _ _} _ := v.fields.write_eq_ok
  read_eq_ok := by
    simp only [decode, inversion, new_eq_ok, existsAndEq]
    simp only [fields, fit_cons, fit_nil, bytes, flatMap_cons,
      flatMap_nil, append_assoc, nil_append]
    intro input rest value
    constructor
    · rintro ⟨hv, hi, hs, hk⟩
      exact ⟨⟨hv, hs, hk, trivial⟩, hi⟩
    · rintro ⟨⟨hv, hs, hk, -⟩, hi⟩
      exact ⟨hv, hi, hs, hk⟩

namespace ValidatorGenesis

def encode : Write ValidatorGenesis := fun g _ e => do
  let e ← Fields.write [(8, g.epoch), (8, g.activationHeight), (8, g.protocolRevision)] e
  writeList maxValidatorsPerEpoch ValidatorGenesisEntry.encode g.entries e

def decode : Decode ValidatorGenesis := do
  let epoch ← readInt 8
  let activationHeight ← readInt 8
  let protocolRevision ← readInt 8
  let entries ← readList maxValidatorsPerEpoch ValidatorGenesisEntry.decode
  Decode.check (orInvalid (newWithRevision epoch activationHeight protocolRevision entries)
    "invalid validator genesis")

/-- `CanonicalType for ValidatorGenesis`. -/
def codec : CanonicalCodec ValidatorGenesis where
  typeTag := 0x006b
  schemaVersion := 2
  maxEncodedLen := 8 + 8 + 8 + 1 + maxValidatorsPerEpoch * (48 + 16 + 1312)
  maxFits := by decide
  encode := encode
  decode := decode

/-- Heights, identifiers, stakes and keys are machine numbers. -/
def InRange (g : ValidatorGenesis) : Prop :=
  Fields.Fit [(8, g.epoch), (8, g.activationHeight), (8, g.protocolRevision)] ∧
    ∀ v ∈ g.entries, v.fields.Fit

def bytes (g : ValidatorGenesis) : List UInt8 :=
  Fields.bytes [(8, g.epoch), (8, g.activationHeight), (8, g.protocolRevision)] ++
    listBytes (·.fields.bytes) g.entries

theorem newWithRevision_eq_ok {epoch activationHeight protocolRevision : Nat}
    {entries : List ValidatorGenesisEntry} {g : ValidatorGenesis} :
    newWithRevision epoch activationHeight protocolRevision entries = .ok g ↔ g.epoch = epoch ∧
      g.activationHeight = activationHeight ∧ g.protocolRevision = protocolRevision ∧
      g.entries = entries := by
  constructor
  · intro h
    unfold newWithRevision at h
    split_ifs at h
    cases h
    simp
  · rintro ⟨rfl, rfl, rfl, rfl⟩
    rw [newWithRevision, dif_pos g.bounds, dif_pos g.revision, dif_pos g.ordered]

theorem codes : Codes codec.encode codec.decode InRange bytes where
  write_eq_ok {g _ _ _} h := by
    simp [codec, encode, appends, Fields.write_eq_ok,
      (ValidatorGenesisEntry.codes.list maxValidators_le).write_eq_ok ⟨g.bounds.2.2, h.2⟩, bytes]
  read_eq_ok := by
    intro input rest g
    simp only [codec, decode, inversion,
      (ValidatorGenesisEntry.codes.list maxValidators_le).read_eq_ok, newWithRevision_eq_ok,
      existsAndEq]
    simp only [InRange, bytes, Fields.fit_cons, Fields.fit_nil, Fields.bytes, flatMap_cons,
      flatMap_nil, append_assoc, nil_append, g.bounds.2.2]
    tauto

end ValidatorGenesis

/-! ## Room -/

theorem room_iff {n size : Nat} (hn : n ≤ maxValidatorsPerEpoch) (hs : 0 < size) :
    lebWidth n + n * size ≤ 1 + maxValidatorsPerEpoch * size ↔ n < maxValidatorsPerEpoch := by
  have hone := lebWidth_le_iff (n := n) 0
  have htwo := (lebWidth_le_iff 1).2 (show n < 128 ^ 2 by unfold maxValidatorsPerEpoch at hn; omega)
  unfold maxValidatorsPerEpoch at *
  constructor
  · by_contra hf
    obtain rfl : n = 256 := by omega
    omega
  · intro h
    have := Nat.mul_le_mul_right size (show n + 1 ≤ 256 by omega)
    rw [Nat.succ_mul] at this
    omega

theorem ValidatorSet.roundTrips_iff_room {s : ValidatorSet} (h : s.InRange) :
    RoundTrips codec s ↔ s.validators.length < maxValidatorsPerEpoch := by
  rw [roundTrips_iff_fits codes (by decide) h, ← room_iff s.bounds.2 (show 0 < 48 + 16 by decide)]
  simp [codec, listBytes, length_lebBytes, ValidatorWeight.fields, bytes]

/-- **A validator set or manifest in machine numbers is encoded and decoded to itself exactly when
it is not full.** -/
theorem validators_roundTrip_iff (s : ValidatorSet) (g : ValidatorGenesis) : (s.InRange →
      (RoundTrips ValidatorSet.codec s ↔ s.validators.length < maxValidatorsPerEpoch)) ∧
    (g.InRange →
      (RoundTrips ValidatorGenesis.codec g ↔ g.entries.length < maxValidatorsPerEpoch)) := by
  refine ⟨ValidatorSet.roundTrips_iff_room, fun h => ?_⟩
  rw [roundTrips_iff_fits ValidatorGenesis.codes (by decide) h,
    ← room_iff g.bounds.2.2 (show 0 < 48 + 16 + 1312 by decide)]
  simp [ValidatorGenesis.codec, ValidatorGenesis.bytes, listBytes, length_lebBytes,
    length_flatMap, fields, bytes]
  omega

def pairSet : ValidatorSet :=
  ⟨[⟨1, 1⟩, ⟨2, 1⟩], 2, by decide, by decide, by decide, by decide⟩

def pairGenesis : ValidatorGenesis :=
  ⟨0, 1, 5, [⟨1, 1, 0, Nat.one_ne_zero⟩, ⟨2, 1, 0, Nat.one_ne_zero⟩], by decide, by decide,
    by decide⟩

theorem pair_roundTrips : pairSet.InRange ∧ pairGenesis.InRange ∧
    RoundTrips ValidatorSet.codec pairSet ∧ RoundTrips ValidatorGenesis.codec pairGenesis := by
  have hs : pairSet.InRange := by
    simp [ValidatorSet.InRange, pairSet, ValidatorWeight.fields, fit_cons, fit_nil]
  have hg : pairGenesis.InRange := by
    simp [ValidatorGenesis.InRange, pairGenesis, fields, fit_cons, fit_nil]
  have hiff := validators_roundTrip_iff pairSet pairGenesis
  exact ⟨hs, hg, (hiff.1 hs).2 (by decide), (hiff.2 hg).2 (by decide)⟩

/-- The set of 256 validators with one unit of stake each. -/
def ValidatorSet.full : ValidatorSet where
  validators := (List.range 256).map fun i => ⟨i, 1⟩
  totalStake := 256
  bounds := by decide +kernel
  positive := by simp
  total := by decide +kernel
  ordered := by simpa [Function.comp_def] using pairwise_lt_range

/-- A full set passes its constructor and has no encoding. -/
theorem full_set_not_encoded :
    ValidatorSet.new ValidatorSet.full.validators = .ok ValidatorSet.full ∧
      ¬ RoundTrips ValidatorSet.codec ValidatorSet.full := by
  have hr : ValidatorSet.full.InRange := by
    intro v hv
    obtain ⟨i, hi, rfl⟩ := mem_map.1 hv
    have := mem_range.1 hi
    simp [ValidatorWeight.fields, fit_cons, fit_nil]
    omega
  refine ⟨ValidatorSet.new_eq_ok.2 rfl, ?_⟩
  rw [ValidatorSet.roundTrips_iff_room hr]
  simp [ValidatorSet.full, maxValidatorsPerEpoch]

end ActiveChain
