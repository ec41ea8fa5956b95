import ActiveChain.Lib.PrefixCode
import ActiveChain.Lib.Result
import ActiveChain.Lib.SelfDelimiting

/-!
# Digests, signatures and hash transcripts

What the crates take from `sha3` and `ml-dsa`, and the values that pass through them.

* `Digest384`, `PrincipalId`, `PublicKey` — byte strings read as big-endian numbers, so that the
  byte order of the source is the order of `Nat`.  The bound `2 ^ 384` is not imposed: an injective
  hash, which the protocol results assume, has no model in a finite type.
-/

namespace ActiveChain

/-- A 384-bit digest, read as a number. -/
abbrev Digest384 := Nat

def Digest384.zero : Digest384 := 0

abbrev PrincipalId := Digest384

abbrev ChainId := Digest384

/-- An encoded ML-DSA-44 verification key. -/
abbrev PublicKey := Nat

def u64Max : Nat := 2 ^ 64 - 1

inductive CryptoFamily
  | mlDsa
  | slhDsaShake
  | mlKem
  | shake
deriving DecidableEq, Repr

structure CryptoSuiteId where
  family : CryptoFamily
  parameterSet : Nat
  encodingVersion : Nat
  securityProfile : Nat
deriving DecidableEq, Repr

/-- The suite of every consensus signature. -/
def CryptoSuiteId.mlDsa44 : CryptoSuiteId := ⟨.mlDsa, 44, 1, 2⟩

/-- A suite and its encoded bytes. -/
@[ext] structure ProtocolSignature where
  suite : CryptoSuiteId
  bytes : Nat
deriving DecidableEq, Repr

/-- One piece of a transcript. -/
inductive Chunk
  | tag (text : String)
  | int (bits value : Nat)
  | digest (d : Digest384)
  | key (k : PublicKey)
  | bytes (b : Nat)
deriving DecidableEq

/-- The input of a hasher or of a signer. -/
abbrev Transcript := List Chunk

abbrev HashFn := Transcript → Digest384

/-- The rules that compare transcripts piece by piece, as one rule set for `simp`. -/
theorem Transcript.inversion :
    (∀ {a b : Chunk} {s t : Transcript}, a :: s = b :: t ↔ a = b ∧ s = t) ∧
    (∀ {a : Chunk} {s t : Transcript}, a :: s ++ t = a :: (s ++ t)) ∧
    (∀ {s : Transcript}, [] ++ s = s) ∧
    (∀ {b b' n n' : Nat}, Chunk.int b n = .int b' n' ↔ b = b' ∧ n = n') ∧
    (∀ {d d' : Digest384}, Chunk.digest d = .digest d' ↔ d = d') ∧
    (∀ {k k' : PublicKey}, Chunk.key k = .key k' ↔ k = k') ∧
    (∀ {b b' : Nat}, Chunk.bytes b = .bytes b' ↔ b = b') ∧
    (∀ {p : Prop}, p ∧ True ↔ p) ∧ ∀ {p : Prop}, True ∧ p ↔ p := by
  simp

variable (n : Nat)

abbrev Chunk.u8 : Chunk := .int 8 n

abbrev Chunk.u16 : Chunk := .int 16 n

abbrev Chunk.u32 : Chunk := .int 32 n

abbrev Chunk.u64 : Chunk := .int 64 n

abbrev Chunk.u128 : Chunk := .int 128 n

inductive VerificationError
  | invalidKeyLength
  | invalidSignatureLength
  | malformedKey
  | malformedSignature
  | invalidSignature
  | unknownValidator
  | duplicateValidator
  | nonCanonicalVoteOrder
  | voteContextMismatch
  | voteSetRootMismatch
  | stakeMismatch
  | stakeOverflow
deriving DecidableEq, Repr

abbrev VerifyM : Type → Type := Except VerificationError

/-- SHAKE256 truncated to 384 bits, and ML-DSA-44 signing and verification. -/
structure Crypto where
  shake256 : HashFn
  sign : PublicKey → Transcript → Nat
  verifyMlDsa44 : PublicKey → Transcript → Nat → VerifyM Unit

/-- `V1_0_PROTOCOL_REVISION`, also `INITIAL_PROTOCOL_REVISION`. -/
def initialProtocolRevision : Nat := 1

/-- `V2_PROTOCOL_REVISION`, the last revision of the version series. -/
def lastProtocolRevision : Nat := 6

/-- `ProtocolVersionProfile::new` accepts the revision. -/
def knownRevision (revision : Nat) : Prop :=
  initialProtocolRevision ≤ revision ∧ revision ≤ lastProtocolRevision
deriving Decidable

/-- The weighted quorum test `3 * signer > 2 * total` in checked `u128` arithmetic; `none` is an
overflow. -/
def quorumReached (signerStake totalStake : Nat) : Option Bool :=
  (checkedMul 128 signerStake 3).bind fun signed =>
    (checkedMul 128 totalStake 2).map fun total => decide (total < signed)

theorem quorumReached_true {signerStake totalStake : Nat}
    (h : quorumReached signerStake totalStake = some true) : 2 * totalStake < 3 * signerStake := by
  obtain ⟨signed, hs, h⟩ := Option.bind_eq_some_iff.1 h
  obtain ⟨total, ht, h⟩ := Option.map_eq_some_iff.1 h
  have hlt := of_decide_eq_true h
  have := (checkedMul_eq_some.1 hs).1
  have := (checkedMul_eq_some.1 ht).1
  omega

/-- What a durable save did.  The file writers rename a finished file into place and then sync the
directory, so a failed save may leave the old content or the new one. -/
inductive SaveOutcome
  | written
  | lost
  | late
deriving DecidableEq, Repr

/-! ## A computable injective hash -/

def Chunk.fields : Chunk → List Nat
  | .tag text => [0, PrefixCode.natCode (text.toList.map Char.toNat)]
  | .int bits value => [1, bits, value]
  | .digest d => [2, d]
  | .key k => [3, k]
  | .bytes b => [4, b]

theorem Chunk.fields_selfDelimiting : SelfDelimiting Chunk.fields := by
  intro a b s t h
  -- the kind decides how many numbers follow
  cases a <;> cases b <;> simp [fields] at h
  case tag.tag text text' =>
    have ht : Function.Injective Char.toNat := fun _ _ => Char.toNat_inj.1
    have hc := List.map_injective_iff.2 ht (PrefixCode.natCode_injective h.1)
    exact ⟨by rw [String.toList_inj.1 hc], h.2⟩
  case int.int => exact ⟨by rw [h.1, h.2.1], h.2.2⟩
  case digest.digest => exact ⟨by rw [h.1], h.2⟩
  case key.key => exact ⟨by rw [h.1], h.2⟩
  case bytes.bytes => exact ⟨by rw [h.1], h.2⟩

/-- A hash that keeps its whole input; the signature of a key holder is the key itself. -/
def Crypto.transparent : Crypto where
  shake256 t := PrefixCode.natCode (t.flatMap Chunk.fields)
  sign key _ := key
  verifyMlDsa44 key _ signature := if signature = key then .ok () else .error .invalidSignature

theorem Crypto.transparent_injective : Function.Injective Crypto.transparent.shake256 := by
  intro t t' h
  refine Chunk.fields_selfDelimiting.flatMap_injective (fun c => ?_)
    (PrefixCode.natCode_injective h)
  cases c <;> simp [Chunk.fields]

theorem Crypto.transparent_ne_zero {t : Transcript} (h : t ≠ []) :
    Crypto.transparent.shake256 t ≠ Digest384.zero := by
  intro hz
  exact h (Crypto.transparent_injective hz)

end ActiveChain
