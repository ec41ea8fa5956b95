import Mathlib.Tactic.IntervalCases
import Mathlib.Tactic.Ring
import ActiveChain.Lib.Bytes
import ActiveChain.Lib.Fault

/-!
# The bounded canonical codec (`canonical-codec`)

Values are written field by field into a bounded buffer and read back by a cursor over untrusted
bytes.  A top-level value travels in an envelope: type tag, schema version, a minimal ULEB128 length
and the body.

* `writeLength_eq_ok`, `readLength_eq_ok` — **a length is written and read in exactly one way.**
* `inspectCanonicalEnvelope_eq_ok` — the accepted envelopes.
-/

namespace ActiveChain

open Except List Nat StateT

def maxBodyLength : Nat := 2 ^ 32 - 1

def maxLengthPrefixLength : Nat := 5

inductive EncodeError
  | lengthLimitExceeded (length maximum : Nat)
  | outputLimitExceeded (attempted maximum : Nat)
  | lengthOverflow
deriving DecidableEq, Repr

inductive DecodeError
  | unexpectedEnd (needed remaining : Nat)
  | invalidTypeTag (expected actual : Nat)
  | unsupportedSchemaVersion (expected actual : Nat)
  | nonMinimalLength
  | lengthOverflow
  | lengthLimitExceeded (length maximum : Nat)
  | invalidBoolean (tag : Nat)
  | invalidEnumTag (typeName : String) (tag : Nat)
  | invalidValue (reason : String)
  | trailingData (remaining : Nat)
deriving DecidableEq, Repr

def canonicalLengthPrefixLen (value : Nat) : Nat :=
  if 0x80 ≤ value then canonicalLengthPrefixLen (value >>> 7) + 1 else 1
termination_by value
decreasing_by
  rw [shiftRight_eq_div_pow]
  omega

/-! ## Writing -/

/-- Bytes that never outgrow the maximum, a `usize`. -/
@[ext] structure Encoder (maximum : Nat) where
  bytes : List UInt8
  bounded : bytes.length ≤ maximum
  fits : maximum < 2 ^ 64

namespace Encoder

variable {maximum : Nat}

def new (maximum : Nat) (h : maximum < 2 ^ 64) : Encoder maximum := ⟨[], Nat.zero_le _, h⟩

variable (e : Encoder maximum)

def writeRaw (value : List UInt8) : Except EncodeError (Encoder maximum) :=
  if 2 ^ 64 ≤ e.bytes.length + value.length then .error .lengthOverflow
  else if h : maximum < e.bytes.length + value.length then
    .error (.outputLimitExceeded (e.bytes.length + value.length) maximum)
  else .ok ⟨e.bytes ++ value, by rw [length_append]; exact Nat.le_of_not_lt h, e.fits⟩

def writeU8 (value : UInt8) : Except EncodeError (Encoder maximum) := e.writeRaw [value]

def writeU16 (value : UInt16) : Except EncodeError (Encoder maximum) :=
  e.writeRaw (beBytes 2 value.toNat)

/-- The loop of `write_length`. -/
def writeLengthLoop (e : Encoder maximum) (value : Nat) : Except EncodeError (Encoder maximum) := do
  let low := value &&& 0x7f
  let high := value >>> 7
  let e ← e.writeU8 (UInt8.ofNat (if high ≠ 0 then low ||| 0x80 else low))
  if _h : high = 0 then return e else writeLengthLoop e high
termination_by value
decreasing_by
  have hhigh : value >>> 7 ≠ 0 := _h
  rw [shiftRight_eq_div_pow] at hhigh ⊢
  omega

def writeLength (length limit : Nat) : Except EncodeError (Encoder maximum) := do
  rejectIf (limit < length ∨ maxBodyLength < length)
    (.lengthLimitExceeded length (min limit maxBodyLength))
  writeLengthLoop e length

end Encoder

/-! ## Reading -/

/-- `Decoder`: the bytes that are still unread. -/
abbrev Decode (α : Type) := StateT (List UInt8) (Except (Fault DecodeError)) α

/-- What a constructor rejects is an invalid value. -/
abbrev orInvalid {ε α : Type} (x : Except ε α) (message : String) : Except (Fault DecodeError) α :=
  x.mapError fun _ => .error (.invalidValue message)

namespace Decode

variable {α : Type}

def check (x : Except (Fault DecodeError) α) : Decode α := fun input => x.map (·, input)

def readRaw (length : Nat) : Decode (List UInt8) := fun input =>
  if input.length < length then .error (.error (.unexpectedEnd length input.length))
  else .ok (input.take length, input.drop length)

def readU8 : Decode UInt8 := do return (← readRaw 1).headD 0

def readBool : Decode Bool := do
  let tag ← readU8
  if tag = 0 then return false
  else if tag = 1 then return true
  else check (.error (.error (.invalidBoolean tag.toNat)))

def readInt (bytes : Nat) : Decode Nat := do return fromBe (← readRaw bytes)

def readU16 : Decode Nat := readInt 2

/-- The rounds of `read_length` from `index` on. -/
def readLengthLoop (limit : Nat) : Nat → Nat → Nat → Decode Nat
  | 0, _, _ => check (.error (.error .lengthOverflow))
  | rounds + 1, index, value => do
    let byte ← readU8
    check (rejectIf (index = maxLengthPrefixLength - 1 ∧ 0x0f < byte.toNat)
      (.error .lengthOverflow))
    let value := value ||| ((byte.toNat &&& 0x7f) <<< (index * 7))
    if byte.toNat &&& 0x80 = 0 then
      check (rejectIf (canonicalLengthPrefixLen value ≠ index + 1) (.error .nonMinimalLength))
      check (rejectIf (limit < value) (.error (.lengthLimitExceeded value limit)))
      return value
    else readLengthLoop limit rounds (index + 1) value

def readLength (limit : Nat) : Decode Nat := readLengthLoop limit maxLengthPrefixLength 0 0

def readMany (read : Decode α) : Nat → Decode (List α)
  | 0 => return []
  | rounds + 1 => do
    let value ← read
    let values ← readMany read rounds
    return value :: values

def finish : Decode Unit := fun input =>
  if input = [] then .ok ((), input) else .error (.error (.trailingData input.length))

end Decode

/-! ## Envelopes -/

/-- `CanonicalType`: tag, version, bound and the two directions of the body codec. -/
structure CanonicalCodec (α : Type) where
  typeTag : UInt16
  schemaVersion : UInt16
  maxEncodedLen : Nat
  maxFits : maxEncodedLen < 2 ^ 64
  encode : α → {maximum : Nat} → Encoder maximum → Except EncodeError (Encoder maximum)
  decode : Decode α

@[ext] structure CanonicalEnvelopeRef where
  typeTag : UInt16
  schemaVersion : UInt16
  body : List UInt8

def inspectCanonicalEnvelope (input : List UInt8) (expectedType expectedVersion : UInt16)
    (maximumBodyLength : Nat) : Except (Fault DecodeError) CanonicalEnvelopeRef :=
  let read : Decode CanonicalEnvelopeRef := do
    let typeTag ← Decode.readU16
    Decode.check (rejectIf (typeTag ≠ expectedType.toNat)
      (.error (.invalidTypeTag expectedType.toNat typeTag)))
    let schemaVersion ← Decode.readU16
    Decode.check (rejectIf (schemaVersion ≠ expectedVersion.toNat)
      (.error (.unsupportedSchemaVersion expectedVersion.toNat schemaVersion)))
    let bodyLength ← Decode.readLength maximumBodyLength
    let body ← Decode.readRaw bodyLength
    Decode.finish
    return ⟨expectedType, expectedVersion, body⟩
  (read.run input).map Prod.fst

namespace CanonicalCodec

variable {α : Type} (T : CanonicalCodec α)

def encodeBody (value : α) : Except EncodeError (List UInt8) := do
  rejectIf (maxBodyLength < T.maxEncodedLen) (.lengthLimitExceeded T.maxEncodedLen maxBodyLength)
  let e ← T.encode value (Encoder.new T.maxEncodedLen T.maxFits)
  return e.bytes

def encodeEnvelope (value : α) : Except EncodeError (List UInt8) := do
  let body ← T.encodeBody value
  if h : T.maxEncodedLen + (2 + 2 + maxLengthPrefixLength) < 2 ^ 64 then
    let e ← (Encoder.new _ h).writeU16 T.typeTag
    let e ← e.writeU16 T.schemaVersion
    let e ← e.writeLength body.length T.maxEncodedLen
    let e ← e.writeRaw body
    return e.bytes
  else .error .lengthOverflow

def decodeEnvelope (input : List UInt8) : Except (Fault DecodeError) α := do
  let envelope ← inspectCanonicalEnvelope input T.typeTag T.schemaVersion T.maxEncodedLen
  let read : Decode α := do
    let value ← T.decode
    Decode.finish
    return value
  let (value, _) ← read.run envelope.body
  return value

/-- The body codec round-trips: what it writes it reads back, and what it reads it writes back. -/
structure RoundTrips : Prop where
  decode_encode : ∀ value body, T.encodeBody value = .ok body → T.decode.run body = .ok (value, [])
  encode_decode : ∀ value body, body.length ≤ T.maxEncodedLen → T.decode.run body =
    .ok (value, []) → T.encodeBody value = .ok body

end CanonicalCodec

/-! ## Reading back -/

namespace Decode

variable {α β : Type} {input rest : List UInt8}

variable {x : Decode α} {f : α → Decode β}

theorem run_bind_eq_ok {b : β} :
    (x >>= f).run input = .ok (b, rest) ↔
      ∃ a between, x.run input = .ok (a, between) ∧ (f a).run between = .ok (b, rest) := by
  rw [run_bind, bind_eq_ok, Prod.exists]

theorem run_pure_eq_ok {a b : α} :
    (pure a : Decode α).run input = .ok (b, rest) ↔ b = a ∧ rest = input := by
  rw [run_pure]
  simp [pure, Except.pure, eq_comm]

theorem run_check_eq_ok {x : Except (Fault DecodeError) α} {a : α} :
    (check x).run input = .ok (a, rest) ↔ x = .ok a ∧ rest = input := by
  cases x <;> simp [check, run, Except.map, eq_comm]

theorem run_reject_eq_ok {c : Prop} [Decidable c] {e : Fault DecodeError} {u : Unit} :
    (check (rejectIf c e)).run input = .ok (u, rest) ↔ ¬ c ∧ rest = input := by
  rw [run_check_eq_ok, rejectIf_eq_ok]

theorem run_bind_of_eq_ok {a : α} (h : x.run input = .ok (a, rest)) :
    (x >>= f).run input = (f a).run rest := by
  rw [run_bind, h]
  rfl

theorem run_reject_bind {c : Prop} [Decidable c] {e : Fault DecodeError} {f : Unit → Decode α}
    {r : α × List UInt8} :
    (check (rejectIf c e) >>= f).run input = .ok r ↔ ¬ c ∧ (f ()).run input = .ok r := by
  rw [run_bind_eq_ok]
  constructor
  · rintro ⟨u, between, hch, hrun⟩
    obtain ⟨hc, rfl⟩ := run_reject_eq_ok.1 hch
    exact ⟨hc, hrun⟩
  · rintro ⟨hc, hrun⟩
    exact ⟨(), input, run_reject_eq_ok.2 ⟨hc, rfl⟩, hrun⟩

theorem readRaw_eq_ok {length : Nat} {bytes : List UInt8} :
    (readRaw length).run input = .ok (bytes, rest) ↔
      bytes.length = length ∧ input = bytes ++ rest := by
  unfold readRaw run
  dsimp only
  constructor
  · intro h
    split_ifs at h with hl
    cases h
    exact ⟨length_take_of_le (Nat.le_of_not_lt hl), (take_append_drop _ _).symm⟩
  · rintro ⟨rfl, rfl⟩
    simp

theorem readU8_eq_ok {byte : UInt8} :
    readU8.run input = .ok (byte, rest) ↔ input = byte :: rest := by
  simp only [readU8, run_bind_eq_ok, readRaw_eq_ok, run_pure_eq_ok]
  constructor
  · rintro ⟨bytes, between, ⟨hl, rfl⟩, rfl, rfl⟩
    obtain ⟨byte, rfl⟩ := length_eq_one_iff.1 hl
    rfl
  · rintro rfl
    exact ⟨[byte], rest, ⟨rfl, rfl⟩, rfl, rfl⟩

/-- **An integer of fixed width is read in exactly one way.** -/
theorem readInt_eq_ok {w n : Nat} :
    (readInt w).run input = .ok (n, rest) ↔ n < 256 ^ w ∧ input = beBytes w n ++ rest := by
  simp only [readInt, run_bind_eq_ok, readRaw_eq_ok, run_pure_eq_ok]
  constructor
  · rintro ⟨bytes, between, ⟨rfl, rfl⟩, rfl, rfl⟩
    exact ⟨fromBe_lt bytes, by rw [beBytes_fromBe]⟩
  · rintro ⟨hn, rfl⟩
    exact ⟨_, rest, ⟨length_beBytes w n, rfl⟩, (fromBe_beBytes w hn).symm, rfl⟩

theorem finish_eq_ok {u : Unit} : finish.run input = .ok (u, rest) ↔ input = [] ∧ rest = [] := by
  unfold finish run
  dsimp only
  constructor
  · intro h
    split_ifs at h with hnil
    cases h
    exact ⟨hnil, hnil⟩
  · rintro ⟨rfl, rfl⟩
    rfl

end Decode

theorem canonicalLengthPrefixLen_eq (value : Nat) :
    canonicalLengthPrefixLen value = lebWidth value := by
  fun_induction canonicalLengthPrefixLen value with
  | case1 value h ih =>
    have hh : value >>> 7 = value / 128 := shiftRight_eq_div_pow value 7
    rw [ih, hh, lebWidth.eq_def value, if_neg (by omega)]
  | case2 value h => rw [lebWidth, if_pos (by omega)]

theorem or_shiftLeft_seven {v : Nat} (low index : Nat) (h : v < 128 ^ index) :
    v ||| (low <<< (index * 7)) = v + low * 128 ^ index := by
  have hpow : 128 ^ index = 2 ^ (index * 7) := by rw [Nat.mul_comm, Nat.pow_mul]
  rw [Nat.or_comm, ← shiftLeft_add_eq_or_of_lt (hpow ▸ h), shiftLeft_eq, hpow, Nat.add_comm]

theorem and_continuation (byte : UInt8) : byte.toNat &&& 0x80 = 0 ↔ byte.toNat < 128 := by
  have hall : ∀ n : Fin 256, n.val &&& 0x80 = 0 ↔ n.val < 128 := by decide +kernel
  exact hall ⟨byte.toNat, byte.toNat_lt⟩

theorem and_payload (n : Nat) : n &&& 0x7f = n % 128 := and_two_pow_sub_one_eq_mod n 7

namespace Decode

variable {input rest : List UInt8}

variable {byte i v : Nat}

theorem last_byte_fits (hi : i < maxLengthPrefixLength) (hv : v < 128 ^ i) (hb : byte < 128) :
    ¬ (i = maxLengthPrefixLength - 1 ∧ 0x0f < byte) ↔
      v + byte * 128 ^ i ≤ maxBodyLength := by
  simp only [maxLengthPrefixLength, maxBodyLength] at hi ⊢
  interval_cases i <;> omega

theorem next_value_lt {low : Nat} (hv : v < 128 ^ i) (hlow : low < 128) :
    v + low * 128 ^ i < 128 ^ (i + 1) := by
  have hle := mul_le_mul_right (128 ^ i) (succ_le_of_lt hlow)
  rw [succ_mul] at hle
  omega

theorem lebWidth_last (hv : v < 128 ^ i) (hb : byte < 128) :
    lebWidth (v + byte * 128 ^ i) = i + 1 ↔ i = 0 ∨ byte ≠ 0 := by
  have hle : 128 ^ i ≤ v + byte * 128 ^ i ↔ byte ≠ 0 := by
    constructor
    · rintro h rfl
      omega
    · intro h
      have := mul_le_mul_right (128 ^ i) (one_le_iff_ne_zero.2 h)
      omega
  rw [lebWidth_eq_iff, hle]
  exact and_iff_right (next_value_lt hv hb)

variable {limit r : Nat}

theorem readLengthLoop_cons {n : Nat} {byte : UInt8} {tail : List UInt8} (hv : v < 128 ^ i) :
    (readLengthLoop limit (n + 1) i v).run (byte :: tail) = .ok (r, rest) ↔
      ¬ (i = maxLengthPrefixLength - 1 ∧ 0x0f < byte.toNat) ∧
      if byte.toNat < 128 then
        lebWidth (v + byte.toNat * 128 ^ i) = i + 1 ∧
          v + byte.toNat * 128 ^ i ≤ limit ∧
          r = v + byte.toNat * 128 ^ i ∧ rest = tail
      else (readLengthLoop limit n (i + 1) (v + byte.toNat % 128 * 128 ^ i)).run tail
          = .ok (r, rest) := by
  rw [readLengthLoop, run_bind_of_eq_ok (readU8_eq_ok.2 rfl), run_reject_bind]
  rw [and_payload, or_shiftLeft_seven _ _ hv]
  by_cases hb : byte.toNat < 128
  · rw [if_pos ((and_continuation byte).2 hb), if_pos hb, run_reject_bind, run_reject_bind,
      run_pure_eq_ok, mod_eq_of_lt hb, canonicalLengthPrefixLen_eq, not_not, not_lt]
  · rw [if_neg (mt (and_continuation byte).1 hb), if_neg hb]

theorem readLengthLoop_eq_ok (n : Nat) : ∀ {i v : Nat}
    {input rest : List UInt8}, n + i = maxLengthPrefixLength → v < 128 ^ i →
    ((readLengthLoop limit n i v).run input = .ok (r, rest) ↔
      ∃ high, (i = 0 ∨ high ≠ 0) ∧ r = v + high * 128 ^ i ∧
        r ≤ limit ∧ r ≤ maxBodyLength ∧ input = lebBytes high ++ rest) := by
  induction n with
  | zero =>
    intro i v input rest hi hv
    obtain rfl : i = 5 := by simpa [maxLengthPrefixLength] using hi
    simp only [readLengthLoop, run_check_eq_ok, reduceCtorEq, false_and, false_iff]
    rintro ⟨high, hh, rfl, -, hmax, -⟩
    have hpos : high ≠ 0 := hh.resolve_left (by decide)
    simp only [maxBodyLength] at hmax
    omega
  | succ n ih =>
    intro i v input rest hi hv
    cases input with
    | nil =>
      rw [readLengthLoop, run_bind_eq_ok]
      simp [readU8_eq_ok, lebBytes_ne_nil]
    | cons byte tail =>
      rw [readLengthLoop_cons hv]
      simp only [eq_comm (a := byte :: tail), lebBytes_append_eq_cons]
      by_cases hb : byte.toNat < 128
      · rw [if_pos hb, lebWidth_last hv hb, last_byte_fits (by omega) hv hb]
        constructor
        · rintro ⟨hmax, hz, hl, rfl, rfl⟩
          exact ⟨byte.toNat, hz, rfl, hl, hmax, .inl ⟨hb, rfl, rfl⟩⟩
        · rintro ⟨high, hz, rfl, hl, hmax, ⟨-, rfl, rfl⟩ | ⟨hla, -⟩⟩
          · exact ⟨hmax, hz, hl, rfl, rfl⟩
          · omega
      · rw [if_neg hb, ih (by omega) (next_value_lt hv (mod_lt _ (by decide)))]
        constructor
        · rintro ⟨-, high, hh, rfl, hl, hmax, rfl⟩
          refine ⟨byte.toNat % 128 + high * 128, .inr (by omega), ?_, hl, hmax,
            .inr ⟨by omega, by omega, by omega, ?_⟩⟩
          · ring
          · rw [show (byte.toNat % 128 + high * 128) / 128 = high by omega]
        · rintro ⟨high, -, rfl, hl, hmax, ⟨hsm, -⟩ | ⟨-, hh, hlow, rfl⟩⟩
          · omega
          · have hs : v + high * 128 ^ i =
                v + byte.toNat % 128 * 128 ^ i + high / 128 * 128 ^ (i + 1) := by
              rw [← hlow, pow_succ]
              nth_rewrite 1 [← mod_add_div high 128]
              ring
            refine ⟨?_, high / 128, .inr (by omega), hs, hl, hmax, rfl⟩
            -- a fifth byte that asks for more is already over 32 bits
            rintro ⟨rfl, -⟩
            simp only [maxBodyLength, maxLengthPrefixLength] at hmax
            omega

/-- **A length is read in exactly one way.** -/
theorem readLength_eq_ok {length : Nat} : (readLength limit).run input = .ok (length, rest) ↔
      length ≤ limit ∧ length ≤ maxBodyLength ∧ input = lebBytes length ++ rest := by
  rw [readLength, readLengthLoop_eq_ok maxLengthPrefixLength rfl (by decide)]
  simp

end Decode

/-! ## Loops -/

namespace Decode

variable {α : Type} {read : Decode α}

variable {P : α → Prop}

theorem forall_of_readMany (h : ∀ {input value rest}, read.run input = .ok (value, rest) → P value)
    (n : Nat) :
    ∀ {input vs rest}, (readMany read n).run input = .ok (vs, rest) →
      ∀ value ∈ vs, P value := by
  induction n with
  | zero =>
    intro input vs rest hrun
    cases hrun
    simp
  | succ n ih =>
    intro input vs rest hrun
    obtain ⟨value, _, hr, hrun⟩ := run_bind_eq_ok.1 hrun
    obtain ⟨values', _, hm, hret⟩ := run_bind_eq_ok.1 hrun
    cases hret
    exact forall_mem_cons.2 ⟨h hr, ih hm⟩

theorem readMany_eq_ok {encode : α → List UInt8}
    (h : ∀ {input v rest}, read.run input = .ok (v, rest) ↔ P v ∧ input = encode v ++ rest)
    (n : Nat) :
    ∀ {input vs rest}, (readMany read n).run input = .ok (vs, rest) ↔
      vs.length = n ∧ (∀ v ∈ vs, P v) ∧
        input = vs.flatMap encode ++ rest := by
  induction n with
  | zero =>
    intro input vs rest
    rw [readMany, run_pure_eq_ok, length_eq_zero_iff]
    constructor
    · rintro ⟨rfl, rfl⟩
      simp
    · rintro ⟨rfl, -, rfl⟩
      exact ⟨rfl, rfl⟩
  | succ n ih =>
    intro input vs rest
    simp only [readMany, run_bind_eq_ok, run_pure_eq_ok, h, ih]
    constructor
    · rintro ⟨v, _, ⟨hva, rfl⟩, values', _, ⟨rfl, hv, rfl⟩, rfl, rfl⟩
      refine ⟨rfl, forall_mem_cons.2 ⟨hva, hv⟩, ?_⟩
      rw [flatMap_cons, append_assoc]
    · rintro ⟨hl, hall, rfl⟩
      obtain ⟨v, values', rfl⟩ := exists_cons_of_length_eq_add_one hl
      obtain ⟨hva, hv⟩ := forall_mem_cons.1 hall
      refine ⟨v, _, ⟨hva, ?_⟩, values', rest, ⟨succ_inj.1 hl, hv, rfl⟩, rfl, rfl⟩
      rw [flatMap_cons, append_assoc]

end Decode

open Decode

/-! ## Which reads can panic -/

namespace Decode

variable {α β : Type} {input : List UInt8}

variable {x : Decode α} {f : α → Decode β}

theorem panics_bind :
    ((x >>= f).run input).Panics ↔ (x.run input).Panics ∨
      ∃ a rest, x.run input = .ok (a, rest) ∧ ((f a).run rest).Panics := by
  rw [run_bind, Except.panics_bind, Prod.exists]

theorem panics_check {x : Except (Fault DecodeError) α} :
    ((check x).run input).Panics ↔ x.Panics := by
  cases x <;> simp [check, run, Except.map, Except.Panics]

theorem panics_check_return {ε : Type} {x : Except (Fault ε) Unit} {g : ε → DecodeError} {a : α} :
    ((check (x.mapError (Fault.mapErr g)) >>= fun _ => pure a).run input).Panics ↔ x.Panics := by
  rw [panics_bind, panics_check, panics_mapErr]
  refine or_iff_left ?_
  rintro ⟨_, _, -, h⟩
  exact not_panics_ok _ h

def Safe (x : Decode α) : Prop := ∀ input, ¬ (x.run input).Panics

theorem safe_pure (a : α) : Safe (pure a : Decode α) := fun _ => not_panics_ok _

theorem Safe.bind (hx : Safe x) (hf : ∀ a, Safe (f a)) : Safe (x >>= f) := by
  intro input h
  obtain h | ⟨a, rest, -, h⟩ := panics_bind.1 h
  · exact hx input h
  · exact hf a rest h

theorem Safe.panics_bind (hx : Safe x) :
    ((x >>= f).run input).Panics ↔
      ∃ a rest, x.run input = .ok (a, rest) ∧ ((f a).run rest).Panics := by
  rw [Decode.panics_bind]
  exact or_iff_right (hx input)

theorem safe_reject {c : Prop} [Decidable c] {e : DecodeError} :
    Safe (check (rejectIf c (.error e))) := fun _ h => not_panics_reject (panics_check.1 h)

theorem safe_readRaw (length : Nat) : Safe (readRaw length) := by
  intro input
  unfold readRaw run
  dsimp only
  split
  · exact not_panics_error _
  · exact not_panics_ok _

theorem safe_readU8 : Safe readU8 := (safe_readRaw 1).bind fun _ => safe_pure _

theorem safe_readInt (bytes : Nat) : Safe (readInt bytes) :=
  (safe_readRaw bytes).bind fun _ => safe_pure _

theorem safe_readBool : Safe readBool := by
  refine safe_readU8.bind fun tag => ?_
  split_ifs
  · exact safe_pure _
  · exact safe_pure _
  · exact fun _ h => not_panics_error _ (panics_check.1 h)

theorem safe_readLengthLoop (limit n : Nat) : ∀ i v, Safe (readLengthLoop limit n i v) := by
  induction n with
  | zero => exact fun _ _ _ h => not_panics_error _ (panics_check.1 h)
  | succ n ih =>
    intro i v
    refine safe_readU8.bind fun byte => safe_reject.bind fun _ => ?_
    split_ifs
    · exact safe_reject.bind fun _ => safe_reject.bind fun _ => safe_pure _
    · exact ih _ _

theorem safe_readLength (limit : Nat) : Safe (readLength limit) := safe_readLengthLoop limit _ 0 0

variable {read : Decode α}

theorem panics_readMany (n : Nat) : ∀ {input : List UInt8},
    ((readMany read n).run input).Panics ↔
      ∃ k < n, ∃ vs rest, (readMany read k).run input = .ok (vs, rest) ∧
        (read.run rest).Panics := by
  induction n with
  | zero =>
    intro input
    simp only [not_lt_zero, false_and, exists_false, iff_false]
    exact safe_pure [] input
  | succ n ih =>
    intro input
    rw [readMany, panics_bind]
    constructor
    · rintro (h | ⟨v, rest, hr, h⟩)
      · exact ⟨0, succ_pos n, [], input, rfl, h⟩
      · obtain h | ⟨_, _, -, h⟩ := panics_bind.1 h
        · obtain ⟨k, hk, vs, rest', hm, h⟩ := ih.1 h
          refine ⟨k + 1, by omega, v :: vs, rest', ?_, h⟩
          rw [readMany, run_bind_of_eq_ok hr, run_bind_of_eq_ok hm]
          rfl
        · exact absurd h (safe_pure _ _)
    · rintro ⟨k, hk, vs, rest, hm, h⟩
      cases k with
      | zero =>
        cases hm
        exact .inl h
      | succ k =>
        obtain ⟨v, between, hr, hm⟩ := run_bind_eq_ok.1 hm
        obtain ⟨values', rest', hm, hret⟩ := run_bind_eq_ok.1 hm
        cases hret
        refine .inr ⟨v, between, hr, panics_bind.2 (.inl ?_)⟩
        exact ih.2 ⟨k, by omega, values', rest, hm, h⟩

theorem Safe.many (h : Safe read) (n : Nat) : Safe (readMany read n) := by
  intro input hp
  obtain ⟨k, -, vs, rest, -, hr⟩ := (panics_readMany n).1 hp
  exact h rest hr

end Decode

open Encoder

/-! ## Writing is what is read back -/

namespace Encoder

variable {maximum : Nat} {e e' : Encoder maximum}

theorem writeRaw_eq_ok {value : List UInt8} :
    e.writeRaw value = .ok e' ↔ e'.bytes = e.bytes ++ value := by
  have hf := e.fits
  unfold writeRaw
  constructor
  · intro h
    split_ifs at h
    cases h
    rfl
  · intro h
    have hb : e.bytes.length + value.length ≤ maximum := by
      rw [← length_append, ← h]
      exact e'.bounded
    rw [if_neg (by omega), dif_neg (by omega)]
    exact congrArg ok (Encoder.ext h.symm)

theorem exists_between {first second : List UInt8} :
    (∃ between : Encoder maximum, between.bytes = e.bytes ++ first ∧
      e'.bytes = between.bytes ++ second) ↔ e'.bytes = e.bytes ++ (first ++ second) := by
  constructor
  · rintro ⟨between, hf, hs⟩
    rw [hs, hf, append_assoc]
  · intro h
    rw [← append_assoc] at h
    have hb : (e.bytes ++ first).length ≤ maximum := by
      have hle := e'.bounded
      rw [h, length_append] at hle
      omega
    exact ⟨⟨e.bytes ++ first, hb, e.fits⟩, rfl, h⟩

/-- **The loop appends the minimal code.** -/
theorem writeLengthLoop_eq_ok (value : Nat) : ∀ {e : Encoder maximum},
    e.writeLengthLoop value = .ok e' ↔ e'.bytes = e.bytes ++ lebBytes value := by
  induction value using Nat.strongRecOn with
  | ind value ih =>
    intro e
    have hh : value >>> 7 = value / 128 := shiftRight_eq_div_pow value 7
    have hor : value % 128 ||| 0x80 = value % 128 + 128 :=
      or_shiftLeft_seven 1 1 (mod_lt value (by decide))
    rw [writeLengthLoop]
    simp only [hh, and_payload, hor, bind_eq_ok, writeU8, writeRaw_eq_ok]
    by_cases hs : value < 128
    · have hz : value / 128 = 0 := div_eq_of_lt hs
      simp only [hz, ne_eq, not_true_eq_false, if_false, dif_pos, mod_eq_of_lt hs,
        lebBytes_of_lt hs]
      constructor
      · rintro ⟨last, hl, hret⟩
        cases hret
        exact hl
      · intro h
        exact ⟨e', h, rfl⟩
    · have hpos : value / 128 ≠ 0 := by omega
      have hle : value / 128 < value := div_lt_self (by omega) (by decide)
      simp only [hpos, ne_eq, not_false_eq_true, if_true, dif_neg, ih _ hle,
        lebBytes_of_le (Nat.le_of_not_lt hs)]
      exact exists_between

theorem writeLength_eq_ok {length limit : Nat} :
    e.writeLength length limit = .ok e' ↔
      length ≤ limit ∧ length ≤ maxBodyLength ∧ e'.bytes = e.bytes ++ lebBytes length := by
  simp [writeLength, inversion, writeLengthLoop_eq_ok, and_assoc]

end Encoder

/-! ## Accepted envelopes -/

def envelopeBytes (typeTag schemaVersion : UInt16) (body : List UInt8) : List UInt8 :=
  beBytes 2 typeTag.toNat ++ (beBytes 2 schemaVersion.toNat ++ (lebBytes body.length ++ body))

theorem inspectCanonicalEnvelope_eq_ok {input : List UInt8} {expectedType expectedVersion : UInt16}
    {maximumBodyLength : Nat} {envelope : CanonicalEnvelopeRef} :
    inspectCanonicalEnvelope input expectedType expectedVersion maximumBodyLength = .ok envelope ↔
      envelope.typeTag = expectedType ∧ envelope.schemaVersion = expectedVersion ∧
      envelope.body.length ≤ maximumBodyLength ∧ envelope.body.length ≤ maxBodyLength ∧
      input = envelopeBytes expectedType expectedVersion envelope.body := by
  have htag := expectedType.toNat_lt
  have hv := expectedVersion.toNat_lt
  obtain ⟨typeTag, schemaVersion, body⟩ := envelope
  simp only [inspectCanonicalEnvelope, map_eq_ok, Prod.exists, run_bind_eq_ok,
    readU16, readInt_eq_ok, run_reject_eq_ok, readLength_eq_ok,
    readRaw_eq_ok, finish_eq_ok, run_pure_eq_ok, not_not]
  constructor
  · rintro ⟨envelope, rest, ⟨tag, _, ⟨-, rfl⟩, _, _, ⟨rfl, rfl⟩, version, _, ⟨-, rfl⟩, _, _,
      ⟨rfl, rfl⟩, length, _, ⟨hl, hmax, rfl⟩, bytes, _, ⟨rfl, rfl⟩, _, _, ⟨rfl, rfl⟩, rfl, rfl⟩, hr⟩
    cases hr
    exact ⟨rfl, rfl, hl, hmax, by rw [append_nil]; rfl⟩
  · rintro ⟨rfl, rfl, hl, hmax, rfl⟩
    exact ⟨_, [], ⟨_, _, ⟨htag, rfl⟩, (), _, ⟨rfl, rfl⟩, _, _, ⟨hv, rfl⟩, (), _, ⟨rfl, rfl⟩,
      _, _, ⟨hl, hmax, rfl⟩, body, [], ⟨rfl, by rw [append_nil]⟩, (), [], ⟨rfl, rfl⟩,
      rfl, rfl⟩, rfl⟩

theorem length_envelopeBytes_le {typeTag schemaVersion : UInt16} {body : List UInt8}
    (h : body.length ≤ maxBodyLength) : (envelopeBytes typeTag schemaVersion body).length ≤
      body.length + (2 + 2 + maxLengthPrefixLength) := by
  have hw : lebWidth body.length ≤ 4 + 1 := (lebWidth_le_iff 4).2 (lt_of_le_of_lt h (by decide))
  simp only [envelopeBytes, length_append, length_beBytes, length_lebBytes, maxLengthPrefixLength]
  omega

namespace CanonicalCodec

variable {α : Type} {T : CanonicalCodec α} {value : α} {body input : List UInt8}

theorem encodeBody_bounded (h : T.encodeBody value = .ok body) :
    body.length ≤ T.maxEncodedLen ∧ T.maxEncodedLen ≤ maxBodyLength := by
  simp only [encodeBody, inversion, not_lt] at h
  obtain ⟨hmax, e, -, hret⟩ := h
  cases hret
  exact ⟨e.bounded, hmax⟩

theorem encodeEnvelope_eq_ok : T.encodeEnvelope value = .ok input ↔
    ∃ body, T.encodeBody value = .ok body ∧
      input = envelopeBytes T.typeTag T.schemaVersion body := by
  rw [encodeEnvelope, bind_eq_ok]
  refine exists_congr fun body => and_congr_right fun hb => ?_
  obtain ⟨hl, hmax⟩ := encodeBody_bounded hb
  have hf : T.maxEncodedLen + (2 + 2 + maxLengthPrefixLength) < 2 ^ 64 := by
    simp only [maxLengthPrefixLength, maxBodyLength] at hmax ⊢
    omega
  have hbo : (envelopeBytes T.typeTag T.schemaVersion body).length ≤ _ :=
    length_envelopeBytes_le (hl.trans hmax)
  simp only [dif_pos hf, bind_eq_ok, writeU16, writeRaw_eq_ok, writeLength_eq_ok]
  constructor
  · rintro ⟨e₁, h₁, e₂, h₂, e₃, ⟨-, -, h₃⟩, e₄, h₄, hret⟩
    cases hret
    rw [h₄, h₃, h₂, h₁]
    simp [envelopeBytes, new]
  · rintro rfl
    let whole : Encoder (T.maxEncodedLen + (2 + 2 + maxLengthPrefixLength)) :=
      ⟨envelopeBytes T.typeTag T.schemaVersion body, by omega, hf⟩
    have hw : whole.bytes = (new _ hf).bytes ++ envelopeBytes T.typeTag T.schemaVersion body := rfl
    obtain ⟨e₁, h₁, hr⟩ := exists_between.2 hw
    obtain ⟨e₂, h₂, hr⟩ := exists_between.2 hr
    obtain ⟨e₃, h₃, h₄⟩ := exists_between.2 hr
    exact ⟨e₁, h₁, e₂, h₂, e₃, ⟨hl, hl.trans hmax, h₃⟩, whole, h₄, rfl⟩

/-- **The accepted strings are the envelopes of the bodies that decode completely.** -/
theorem decodeEnvelope_eq_ok : T.decodeEnvelope input = .ok value ↔
    ∃ body, body.length ≤ T.maxEncodedLen ∧ body.length ≤ maxBodyLength ∧
      input = envelopeBytes T.typeTag T.schemaVersion body ∧
      T.decode.run body = .ok (value, []) := by
  simp only [decodeEnvelope, bind_eq_ok, inspectCanonicalEnvelope_eq_ok,
    run_bind_eq_ok, finish_eq_ok, run_pure_eq_ok, Prod.exists]
  constructor
  · rintro ⟨envelope, ⟨-, -, hl, hmax, hi⟩, _, _,
      ⟨decoded, _, hd, _, _, ⟨rfl, rfl⟩, rfl, rfl⟩, hret⟩
    cases hret
    exact ⟨envelope.body, hl, hmax, hi, hd⟩
  · rintro ⟨body, hl, hmax, hi, hd⟩
    exact ⟨⟨T.typeTag, T.schemaVersion, body⟩, ⟨rfl, rfl, hl, hmax, hi⟩, value, [],
      ⟨value, [], hd, (), [], ⟨rfl, rfl⟩, rfl, rfl⟩, rfl⟩

/-- **The envelope is a bijection on a type whose body codec round-trips.** Written envelopes are
read back; a string that is accepted is the one that is written, so no other string gives the
same value. -/
theorem envelope_bijective (h : T.RoundTrips) : (∀ value body, T.encodeBody value = .ok body →
      ∃ input, T.encodeEnvelope value = .ok input ∧ T.decodeEnvelope input = .ok value) ∧
    (∀ value input, T.encodeEnvelope value = .ok input → T.decodeEnvelope input = .ok value) ∧
    (∀ value input, T.decodeEnvelope input = .ok value → T.encodeEnvelope value = .ok input) ∧
    (∀ value input other, T.decodeEnvelope input = .ok value → T.decodeEnvelope other = .ok value →
      input = other) ∧
    (∀ limit length input rest, (Decode.readLength limit).run input = .ok (length, rest) ↔
      length ≤ limit ∧ length ≤ maxBodyLength ∧ input = lebBytes length ++ rest) ∧
    (∀ input expectedType expectedVersion maximumBodyLength envelope,
      inspectCanonicalEnvelope input expectedType expectedVersion maximumBodyLength = .ok envelope ↔
        envelope.typeTag = expectedType ∧ envelope.schemaVersion = expectedVersion ∧
        envelope.body.length ≤ maximumBodyLength ∧ envelope.body.length ≤ maxBodyLength ∧
        input = envelopeBytes expectedType expectedVersion envelope.body) := by
  have hr : ∀ value input, T.encodeEnvelope value = .ok input →
      T.decodeEnvelope input = .ok value := by
    intro value input he
    obtain ⟨body, hb, rfl⟩ := encodeEnvelope_eq_ok.1 he
    obtain ⟨hl, hmax⟩ := encodeBody_bounded hb
    exact decodeEnvelope_eq_ok.2 ⟨body, hl, hl.trans hmax, rfl, h.decode_encode value body hb⟩
  have hw : ∀ value input, T.decodeEnvelope input = .ok value →
      T.encodeEnvelope value = .ok input := by
    intro value input hd
    obtain ⟨body, hl, -, rfl, hrun⟩ := decodeEnvelope_eq_ok.1 hd
    exact encodeEnvelope_eq_ok.2 ⟨body, h.encode_decode value body hl hrun, rfl⟩
  refine ⟨?_, hr, hw, ?_, fun _ _ _ _ => readLength_eq_ok,
    fun _ _ _ _ _ => inspectCanonicalEnvelope_eq_ok⟩
  · intro value body hb
    have he := encodeEnvelope_eq_ok.2 ⟨body, hb, rfl⟩
    exact ⟨_, he, hr value _ he⟩
  · intro value input other hi ho
    exact ok.inj ((hw value input hi).symm.trans (hw value other ho))

/-- A type whose body is one `u16`, as `impl_fixed_integer` writes it. -/
def word : CanonicalCodec UInt16 where
  typeTag := 1
  schemaVersion := 1
  maxEncodedLen := 2
  maxFits := by decide
  encode value _ e := e.writeU16 value
  decode := do return UInt16.ofNat (← Decode.readU16)

theorem word_encodeBody_eq_ok {v : UInt16} :
    word.encodeBody v = .ok body ↔ body = beBytes 2 v.toNat := by
  have hmax : ¬ maxBodyLength < word.maxEncodedLen := by decide
  rw [encodeBody, rejectIf_of_not hmax, ok_bind]
  simp only [word, writeU16, bind_eq_ok, writeRaw_eq_ok, new, nil_append]
  constructor
  · rintro ⟨e, he, hret⟩
    cases hret
    exact he
  · rintro rfl
    exact ⟨⟨_, (length_beBytes 2 _).le, by decide⟩, rfl, rfl⟩

theorem word_roundTrips : word.RoundTrips where
  decode_encode value body h := by
    obtain rfl := word_encodeBody_eq_ok.1 h
    have hr : readU16.run (beBytes 2 value.toNat) = .ok (value.toNat, []) :=
      readInt_eq_ok.2 ⟨value.toNat_lt, (append_nil _).symm⟩
    simp only [word, run_bind_of_eq_ok hr, run_pure_eq_ok, UInt16.ofNat_toNat, and_self]
  encode_decode value body _ h := by
    simp only [word, run_bind_eq_ok, readU16, readInt_eq_ok, run_pure_eq_ok] at h
    obtain ⟨n, _, ⟨hn, rfl⟩, rfl, rfl⟩ := h
    rw [word_encodeBody_eq_ok, append_nil, UInt16.toNat_ofNat',
      mod_eq_of_lt (show n < 2 ^ 16 from hn)]

theorem word_envelope : word.decodeEnvelope [0, 1, 0, 1, 2, 0, 7] = .ok 7 ∧
    ∀ input, word.decodeEnvelope input = .ok 7 → input = [0, 1, 0, 1, 2, 0, 7] := by
  have hc : envelopeBytes 1 1 (beBytes 2 7) = [0, 1, 0, 1, 2, 0, 7] := by
    simp [envelopeBytes, beBytes, lebBytes_of_lt]
  obtain ⟨-, hr, -, hu, -⟩ := envelope_bijective word_roundTrips
  have hs := hr 7 _ (encodeEnvelope_eq_ok.2 ⟨_, word_encodeBody_eq_ok.2 rfl, rfl⟩)
  rw [show envelopeBytes word.typeTag word.schemaVersion (beBytes 2 (UInt16.toNat 7)) =
    [0, 1, 0, 1, 2, 0, 7] from hc] at hs
  exact ⟨hs, fun input hi => hu 7 input _ hi hs⟩

end CanonicalCodec

end ActiveChain
