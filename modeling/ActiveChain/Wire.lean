import ActiveChain.Codec

/-!
# Values with exactly one code (`canonical-codec`)

The body codecs are a writer and a reader for each type.  What is to be shown of every pair is the
same: the writer appends a fixed string, and the reader accepts that string and no other.

* `Decode.inversion` — what a successful reader tells, statement by statement.
* `codes_int`, `codes_bool`, `codes_bytes`, `Codes.list` — the implementations of the
  crate.
* `run_tagged_eq_ok` — a variant behind its tag.
* `Codes.encodeEnvelope_eq_ok`, `Codes.decodeEnvelope_eq_ok` — **the envelopes of the valid values
  whose bodies are short enough are the ones that are written and the ones that are accepted.**
-/

namespace ActiveChain

open Decode Except List

/-- The type of `CanonicalEncode::encode`. -/
abbrev Write (α : Type) :=
  α → {maximum : Nat} → Encoder maximum → Except EncodeError (Encoder maximum)

namespace Encoder

variable {α : Type}

/-- `write_u8` to `write_u128`, also `write_raw` of a digest: a big-endian integer of the given
number of bytes. -/
def writeInt (bytes : Nat) : Write Nat := fun value _ e => e.writeRaw (beBytes bytes value)

def writeBool : Write Bool := fun value _ e => writeInt 1 value.toNat e

def writeBytes (limit : Nat) : Write (List UInt8) := fun value _ e => do
  let e ← e.writeLength value.length limit
  e.writeRaw value

def writeMany (write : Write α) : Write (List α)
  | [], _, e => .ok e
  | value :: values, _, e => do
    let e ← write value e
    writeMany write values e

def writeList (limit : Nat) (write : Write α) : Write (List α) := fun values _ e => do
  let e ← e.writeLength values.length limit
  writeMany write values e

end Encoder

namespace Decode

variable {α : Type}

def readBytes (limit : Nat) : Decode (List UInt8) := do readRaw (← readLength limit)

/-- `read_length` and a loop that pushes one value per round. -/
def readList (limit : Nat) (read : Decode α) : Decode (List α) := do
  readMany read (← readLength limit)

end Decode

theorem Decode.inversion :
    (∀ {α β : Type} {x : Decode α} {f : α → Decode β} {input rest : List UInt8} {b : β},
      (x >>= f).run input = .ok (b, rest) ↔
        ∃ a between, x.run input = .ok (a, between) ∧ (f a).run between = .ok (b, rest)) ∧
    (∀ {α : Type} {input rest : List UInt8} {a b : α},
      (pure a : Decode α).run input = .ok (b, rest) ↔ b = a ∧ rest = input) ∧
    (∀ {α : Type} {x : Except (Fault DecodeError) α} {input rest : List UInt8} {a : α},
      (check x).run input = .ok (a, rest) ↔ x = .ok a ∧ rest = input) ∧
    (∀ {w n : Nat} {input rest : List UInt8},
      (readInt w).run input = .ok (n, rest) ↔ n < 256 ^ w ∧ input = beBytes w n ++ rest) ∧
    (∀ {ε ε' α : Type} {g : ε → ε'} {x : Except ε α} {a : α},
      x.mapError g = .ok a ↔ x = .ok a) ∧
    (∀ {a b c : Prop}, (a ∧ b) ∧ c ↔ a ∧ b ∧ c) ∧
    (∀ {α : Type} {p : α → Prop} {b : Prop}, (∃ x, b ∧ p x) ↔ b ∧ ∃ x, p x) ∧
    (∀ {p : Prop}, True ∧ p ↔ p) ∧ ∀ {p : Prop}, p ∧ True ↔ p :=
  ⟨run_bind_eq_ok, run_pure_eq_ok, run_check_eq_ok, readInt_eq_ok, mapError_eq_ok, and_assoc,
    exists_and_left, iff_of_eq (true_and _), iff_of_eq (and_true _)⟩

/-- **A writer and a reader with one code for each valid value.** -/
structure Codes {α : Type} (write : Write α) (read : Decode α) (Valid : α → Prop)
    (bytes : α → List UInt8) : Prop where
  write_eq_ok : ∀ {value : α} {maximum : Nat} {e e' : Encoder maximum}, Valid value →
    (write value e = .ok e' ↔ e'.bytes = e.bytes ++ bytes value)
  read_eq_ok : ∀ {input rest : List UInt8} {value : α},
    read.run input = .ok (value, rest) ↔ Valid value ∧ input = bytes value ++ rest

open Encoder

/-- What a sequence of writes appends. -/
theorem Encoder.appends {maximum : Nat} :
    (∀ {x : Except EncodeError (Encoder maximum)} {f : _ → Except _ (Encoder maximum)}
      {e' : Encoder maximum}, x >>= f = .ok e' ↔ ∃ e, x = .ok e ∧ f e = .ok e') ∧
    (∀ {w n : Nat} {e e' : Encoder maximum},
      writeInt w n e = .ok e' ↔ e'.bytes = e.bytes ++ beBytes w n) ∧
    (∀ {b : Bool} {e e' : Encoder maximum},
      writeBool b e = .ok e' ↔ e'.bytes = e.bytes ++ beBytes 1 b.toNat) ∧
    ∀ {e e' : Encoder maximum} {first second : List UInt8},
      (∃ between : Encoder maximum, between.bytes = e.bytes ++ first ∧
        e'.bytes = between.bytes ++ second) ↔ e'.bytes = e.bytes ++ (first ++ second) :=
  ⟨bind_eq_ok, writeRaw_eq_ok, writeRaw_eq_ok, exists_between⟩

section Primitives

variable {α : Type} {write : Write α} {read : Decode α} {Valid : α → Prop} {bytes : α → List UInt8}

theorem codes_int (w : Nat) :
    Codes (writeInt w) (readInt w) (· < 256 ^ w) (beBytes w) where
  write_eq_ok _ := writeRaw_eq_ok
  read_eq_ok := readInt_eq_ok

theorem codes_bool :
    Codes writeBool readBool (fun _ => True) (fun b => beBytes 1 b.toNat) where
  write_eq_ok _ := writeRaw_eq_ok
  read_eq_ok {input rest value} := by
    rw [readBool, run_bind_eq_ok, true_and]
    simp only [readU8_eq_ok]
    constructor
    · rintro ⟨tag, between, rfl, hrun⟩
      split_ifs at hrun with hz hone
      · obtain ⟨rfl, rfl⟩ := run_pure_eq_ok.1 hrun
        simp [hz, beBytes]
      · obtain ⟨rfl, rfl⟩ := run_pure_eq_ok.1 hrun
        simp [hone, beBytes]
      · cases (run_check_eq_ok.1 hrun).1
    · rintro rfl
      refine ⟨UInt8.ofNat value.toNat, rest, by simp [beBytes], ?_⟩
      cases value <;> rfl

theorem run_tagged_eq_ok {payload : Nat → Decode α} {tag : α → Nat} (htag : ∀ v, tag v < 256)
    (h : ∀ {t : Nat} {input rest : List UInt8} {v : α}, (payload t).run input = .ok (v, rest) ↔
        tag v = t ∧ Valid v ∧ input = bytes v ++ rest) {input rest : List UInt8} {v : α} :
    (do payload (← readInt 1) : Decode α).run input = .ok (v, rest) ↔
      Valid v ∧ input = (beBytes 1 (tag v) ++ bytes v) ++ rest := by
  simp only [run_bind_eq_ok, readInt_eq_ok, h]
  constructor
  · rintro ⟨t, between, ⟨-, rfl⟩, rfl, hv, rfl⟩
    exact ⟨hv, (append_assoc _ _ _).symm⟩
  · rintro ⟨hv, rfl⟩
    exact ⟨tag v, _, ⟨htag v, append_assoc _ _ _⟩, rfl, hv, rfl⟩

theorem codes_bytes {limit : Nat} (hl : limit ≤ maxBodyLength) :
    Codes (writeBytes limit) (readBytes limit) (·.length ≤ limit)
      (fun v => lebBytes v.length ++ v) where
  write_eq_ok {v maximum e e'} hv := by
    simp [writeBytes, bind_eq_ok, writeLength_eq_ok,
      writeRaw_eq_ok, hv, hv.trans hl, exists_between]
  read_eq_ok {input rest v} := by
    simp only [readBytes, run_bind_eq_ok, readLength_eq_ok, readRaw_eq_ok]
    constructor
    · rintro ⟨length, between, ⟨hle, -, rfl⟩, rfl, rfl⟩
      exact ⟨hle, (append_assoc _ _ _).symm⟩
    · rintro ⟨hle, rfl⟩
      exact ⟨_, _, ⟨hle, hle.trans hl, append_assoc _ _ _⟩, rfl, rfl⟩

def listBytes (bytes : α → List UInt8) (values : List α) : List UInt8 :=
  lebBytes values.length ++ values.flatMap bytes

theorem length_flatMap_le {size : Nat} {vs : List α} (h : ∀ v ∈ vs, (bytes v).length ≤ size) :
    (vs.flatMap bytes).length ≤ vs.length * size := by
  induction vs with
  | nil => exact Nat.zero_le _
  | cons v vs ih =>
    obtain ⟨hf, hr⟩ := forall_mem_cons.1 h
    have := ih hr
    rw [flatMap_cons, length_append, length_cons, Nat.succ_mul]
    omega

theorem length_listBytes_le {count size : Nat} (k : Nat) {vs : List α}
    (hc : vs.length ≤ count) (hw : count < 128 ^ (k + 1)) (h : ∀ v ∈ vs, (bytes v).length ≤ size) :
    (listBytes bytes vs).length ≤ k + 1 + count * size := by
  have hv := length_flatMap_le h
  have hl : lebWidth vs.length ≤ k + 1 := (lebWidth_le_iff k).2 (by omega)
  have hs : vs.length * size ≤ count * size := Nat.mul_le_mul_right _ hc
  rw [listBytes, length_append, length_lebBytes]
  omega

theorem Codes.writeMany_eq_ok (h : Codes write read Valid bytes) {maximum : Nat}
    {e' : Encoder maximum} (vs : List α) : ∀ {e : Encoder maximum},
    (∀ v ∈ vs, Valid v) →
    (Encoder.writeMany write vs e = .ok e' ↔ e'.bytes = e.bytes ++ vs.flatMap bytes) := by
  induction vs with
  | nil =>
    simp [Encoder.writeMany, Encoder.ext_iff, eq_comm]
  | cons v vs ih =>
    intro e hv
    obtain ⟨hf, hr⟩ := forall_mem_cons.1 hv
    simp [Encoder.writeMany, appends, h.write_eq_ok hf, ih hr]

theorem Codes.list (h : Codes write read Valid bytes) {limit : Nat} (hl : limit ≤ maxBodyLength) :
    Codes (writeList limit write) (readList limit read)
      (fun vs => vs.length ≤ limit ∧ ∀ v ∈ vs, Valid v) (listBytes bytes) where
  write_eq_ok {vs maximum e e'} hv := by
    simp [writeList, bind_eq_ok, writeLength_eq_ok,
      h.writeMany_eq_ok vs hv.2, hv.1, hv.1.trans hl, exists_between, listBytes]
  read_eq_ok {input rest vs} := by
    simp only [readList, run_bind_eq_ok, readLength_eq_ok, readMany_eq_ok h.read_eq_ok]
    constructor
    · rintro ⟨length, between, ⟨hle, -, rfl⟩, rfl, hv, rfl⟩
      exact ⟨⟨hle, hv⟩, (append_assoc _ _ _).symm⟩
    · rintro ⟨⟨hle, hv⟩, rfl⟩
      exact ⟨_, _, ⟨hle, hle.trans hl, append_assoc _ _ _⟩, rfl, hv, rfl⟩

end Primitives

/-! ## Envelopes -/

namespace Codes

variable {α : Type} {T : CanonicalCodec α} {Valid : α → Prop} {bytes : α → List UInt8}
  {value : α} {input : List UInt8}

section

variable (h : Codes T.encode T.decode Valid bytes) (hmax : T.maxEncodedLen ≤ maxBodyLength)
include h hmax

theorem encodeBody_eq_ok (hv : Valid value) {body : List UInt8} :
    T.encodeBody value = .ok body ↔ (bytes value).length ≤ T.maxEncodedLen ∧
    body = bytes value := by
  rw [CanonicalCodec.encodeBody, rejectIf_of_not (Nat.not_lt.2 hmax), ok_bind]
  simp only [bind_eq_ok, h.write_eq_ok hv, new, nil_append]
  constructor
  · rintro ⟨e, he, hret⟩
    cases hret
    exact ⟨he ▸ e.bounded, he⟩
  · rintro ⟨hle, rfl⟩
    exact ⟨⟨bytes value, hle, T.maxFits⟩, rfl, rfl⟩

theorem encodeEnvelope_eq_ok (hv : Valid value) :
    T.encodeEnvelope value = .ok input ↔ (bytes value).length ≤ T.maxEncodedLen ∧
      input = envelopeBytes T.typeTag T.schemaVersion (bytes value) := by
  simp only [CanonicalCodec.encodeEnvelope_eq_ok, h.encodeBody_eq_ok hmax hv]
  constructor
  · rintro ⟨body, ⟨hle, rfl⟩, rfl⟩
    exact ⟨hle, rfl⟩
  · rintro ⟨hle, rfl⟩
    exact ⟨_, ⟨hle, rfl⟩, rfl⟩

theorem decodeEnvelope_eq_ok :
    T.decodeEnvelope input = .ok value ↔ Valid value ∧ (bytes value).length ≤ T.maxEncodedLen ∧
      input = envelopeBytes T.typeTag T.schemaVersion (bytes value) := by
  simp only [CanonicalCodec.decodeEnvelope_eq_ok, h.read_eq_ok, append_nil]
  constructor
  · rintro ⟨body, hle, -, rfl, hv, rfl⟩
    exact ⟨hv, hle, rfl⟩
  · rintro ⟨hv, hle, rfl⟩
    exact ⟨_, hle, hle.trans hmax, rfl, hv, rfl⟩

end

end Codes

end ActiveChain
