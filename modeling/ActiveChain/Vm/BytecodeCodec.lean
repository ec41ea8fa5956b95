import ActiveChain.Vm.Bytecode
import ActiveChain.Wire

/-!
# The bytes of ObjectVM programs (`bytecode-verifier::bytecode`)

* `VmValueType`, `VmInstruction`, `VmProgram` — writers and readers, field by field.
* `VmInstruction.codes`, `VmProgram.codes` — one code for each instruction and each program.
-/

namespace ActiveChain.Vm

open Decode List VmProgram VmInstruction

open Encoder (writeInt writeBool writeList appends)

/-! ## Types -/

namespace VmValueType

/-- `as u8`. -/
def tag : VmValueType → Nat
  | .u64 => 0
  | .bool => 1
  | .digest => 2
  | .object => 3
  | .capability => 4

def encode : Write VmValueType := fun t _ e => writeInt 1 t.tag e

def decodeTag : Nat → Decode VmValueType
  | 0 => return .u64
  | 1 => return .bool
  | 2 => return .digest
  | 3 => return .object
  | 4 => return .capability
  | tag => Decode.check (.error (.error (.invalidEnumTag "VmValueType" tag)))

def decode : Decode VmValueType := do decodeTag (← readInt 1)

theorem tag_lt (t : VmValueType) : t.tag < 256 := by cases t <;> decide

theorem decodeTag_eq_ok {tag : Nat} {input rest : List UInt8} {t : VmValueType} :
    (decodeTag tag).run input = .ok (t, rest) ↔ t.tag = tag ∧ True ∧ input = [] ++ rest := by
  unfold decodeTag
  split
  case h_6 =>
    refine iff_of_false nofun ?_
    rintro ⟨htag, -⟩
    cases t <;> simp_all [VmValueType.tag]
  all_goals
    rw [run_pure_eq_ok]
    cases t <;> simp [VmValueType.tag, eq_comm]

theorem codes : Codes encode decode (fun _ => True) (fun t => beBytes 1 t.tag) where
  write_eq_ok _ := Encoder.writeRaw_eq_ok
  read_eq_ok := by
    intro input rest t
    rw [decode, run_tagged_eq_ok tag_lt decodeTag_eq_ok, append_nil]

end VmValueType

/-! ## Instructions -/

namespace VmInstruction

def tag : VmInstruction → Nat
  | .loadU64 .. => 0
  | .loadBool .. => 1
  | .loadDigest .. => 2
  | .copy .. => 3
  | .move .. => 4
  | .addU64 .. => 5
  | .eqU64 .. => 6
  | .jump .. => 7
  | .branchIf .. => 8
  | .consumeCapability .. => 9
  | .emit .. => 10
  | .ret .. => 11

def encode : Write VmInstruction
  | .loadU64 destination value, _, e => do
    let e ← writeInt 1 0 e
    let e ← writeInt 1 destination e
    writeInt 8 value e
  | .loadBool destination value, _, e => do
    let e ← writeInt 1 1 e
    let e ← writeInt 1 destination e
    writeBool value e
  | .loadDigest destination value, _, e => do
    let e ← writeInt 1 2 e
    let e ← writeInt 1 destination e
    writeInt 48 value e
  | .copy destination source, _, e => do
    let e ← writeInt 1 3 e
    let e ← writeInt 1 destination e
    writeInt 1 source e
  | .move destination source, _, e => do
    let e ← writeInt 1 4 e
    let e ← writeInt 1 destination e
    writeInt 1 source e
  | .addU64 destination left right, _, e => do
    let e ← writeInt 1 5 e
    let e ← writeInt 1 destination e
    let e ← writeInt 1 left e
    writeInt 1 right e
  | .eqU64 destination left right, _, e => do
    let e ← writeInt 1 6 e
    let e ← writeInt 1 destination e
    let e ← writeInt 1 left e
    writeInt 1 right e
  | .jump target, _, e => do
    let e ← writeInt 1 7 e
    writeInt 2 target e
  | .branchIf condition target, _, e => do
    let e ← writeInt 1 8 e
    let e ← writeInt 1 condition e
    writeInt 2 target e
  | .consumeCapability source, _, e => do
    let e ← writeInt 1 9 e
    writeInt 1 source e
  | .emit source, _, e => do
    let e ← writeInt 1 10 e
    writeInt 1 source e
  | .ret sources, _, e => do
    let e ← writeInt 1 11 e
    writeList maxVmOutputs (writeInt 1) sources e

def decodePayload : Nat → Decode VmInstruction
  | 0 => return .loadU64 (← readInt 1) (← readInt 8)
  | 1 => return .loadBool (← readInt 1) (← Decode.readBool)
  | 2 => return .loadDigest (← readInt 1) (← readInt 48)
  | 3 => return .copy (← readInt 1) (← readInt 1)
  | 4 => return .move (← readInt 1) (← readInt 1)
  | 5 => return .addU64 (← readInt 1) (← readInt 1) (← readInt 1)
  | 6 => return .eqU64 (← readInt 1) (← readInt 1) (← readInt 1)
  | 7 => return .jump (← readInt 2)
  | 8 => return .branchIf (← readInt 1) (← readInt 2)
  | 9 => return .consumeCapability (← readInt 1)
  | 10 => return .emit (← readInt 1)
  | 11 => return .ret (← readList maxVmOutputs (readInt 1))
  | tag => Decode.check (.error (.error (.invalidEnumTag "VmInstruction" tag)))

def decode : Decode VmInstruction := do decodePayload (← readInt 1)

/-- The numbers are those of the machine types, and a return is not too long to be written. -/
def InRange : VmInstruction → Prop
  | .loadU64 destination value => destination < 256 ^ 1 ∧ value < 256 ^ 8
  | .loadBool destination _ => destination < 256 ^ 1
  | .loadDigest destination value => destination < 256 ^ 1 ∧ value < 256 ^ 48
  | .copy destination source | .move destination source =>
    destination < 256 ^ 1 ∧ source < 256 ^ 1
  | .addU64 destination left right | .eqU64 destination left right =>
    destination < 256 ^ 1 ∧ left < 256 ^ 1 ∧ right < 256 ^ 1
  | .jump target => target < 256 ^ 2
  | .branchIf condition target => condition < 256 ^ 1 ∧ target < 256 ^ 2
  | .consumeCapability source | .emit source => source < 256 ^ 1
  | .ret sources => sources.length ≤ maxVmOutputs ∧ ∀ source ∈ sources, source < 256 ^ 1

def payloadBytes : VmInstruction → List UInt8
  | .loadU64 destination value => beBytes 1 destination ++ beBytes 8 value
  | .loadBool destination value => beBytes 1 destination ++ beBytes 1 value.toNat
  | .loadDigest destination value => beBytes 1 destination ++ beBytes 48 value
  | .copy destination source | .move destination source =>
    beBytes 1 destination ++ beBytes 1 source
  | .addU64 destination left right | .eqU64 destination left right =>
    beBytes 1 destination ++ (beBytes 1 left ++ beBytes 1 right)
  | .jump target => beBytes 2 target
  | .branchIf condition target => beBytes 1 condition ++ beBytes 2 target
  | .consumeCapability source | .emit source => beBytes 1 source
  | .ret sources => listBytes (beBytes 1) sources

def bytes (instruction : VmInstruction) : List UInt8 :=
  beBytes 1 instruction.tag ++ instruction.payloadBytes

theorem codes_sources : Codes (writeList maxVmOutputs (writeInt 1))
    (readList maxVmOutputs (readInt 1))
    (fun srcs => srcs.length ≤ maxVmOutputs ∧ ∀ source ∈ srcs, source < 256 ^ 1)
    (listBytes (beBytes 1)) :=
  (codes_int 1).list (by decide)

theorem tag_lt (i : VmInstruction) : i.tag < 256 := by
  cases i <;> exact Nat.lt_of_sub_eq_succ rfl

variable {i : VmInstruction}

theorem decodePayload_eq_ok {tag : Nat} {input rest : List UInt8} :
    (decodePayload tag).run input = .ok (i, rest) ↔
      i.tag = tag ∧ i.InRange ∧ input = i.payloadBytes ++ rest := by
  unfold decodePayload
  split
  case h_13 =>
    refine iff_of_false nofun ?_
    rintro ⟨htag, -⟩
    cases i <;> simp_all [VmInstruction.tag]
  all_goals
    simp only [inversion, codes_bool.read_eq_ok, codes_sources.read_eq_ok, existsAndEq]
    cases i <;> simp [tag, InRange, payloadBytes]
  all_goals tauto

theorem codes : Codes encode decode InRange bytes where
  write_eq_ok := by
    intro i maximum e e' hr
    cases i with
    | ret srcs =>
      simp only [encode, appends, codes_sources.write_eq_ok hr]
      rfl
    | _ =>
      simp only [encode, appends]
      rfl
  read_eq_ok := by
    intro input rest i
    rw [decode, run_tagged_eq_ok tag_lt decodePayload_eq_ok, bytes]

theorem length_bytes_le (h : i.InRange) : i.bytes.length ≤ 50 := by
  cases i with
  | ret srcs =>
    have hs : (listBytes (beBytes 1) srcs).length ≤ 0 + 1 + maxVmOutputs * 1 :=
      length_listBytes_le 0 h.1 (by decide) fun source _ => (length_beBytes 1 source).le
    have hmax : maxVmOutputs = 16 := rfl
    simp only [bytes, payloadBytes, length_append, length_beBytes]
    omega
  | _ => simp [bytes, payloadBytes]

end VmInstruction

/-! ## Programs -/

def programValidationDecodeError : VmProgramValidationError → DecodeError
  | .emptyRegisters => .invalidValue "ObjectVM program declares no registers"
  | .tooManyRegisters .. => .invalidValue "ObjectVM program exceeds the register bound"
  | .tooManyInputs .. => .invalidValue "ObjectVM program exceeds the input bound"
  | .inputCountExceedsRegisters => .invalidValue "ObjectVM input count exceeds its registers"
  | .tooManyOutputs .. => .invalidValue "ObjectVM program exceeds the output bound"
  | .emptyInstructions => .invalidValue "ObjectVM program has no instructions"
  | .tooManyInstructions .. => .invalidValue "ObjectVM program exceeds the instruction bound"
  | .tooManyReturnSources .. => .invalidValue "ObjectVM return exceeds the output bound"
  | .tooManyEvents .. => .invalidValue "ObjectVM program exceeds the event bound"

namespace VmProgram

def encode : Write VmProgram := fun program _ e => do
  let e ← writeInt 1 program.inputCount e
  let e ← writeList maxVmRegisters VmValueType.encode program.registerTypes e
  let e ← writeList maxVmOutputs VmValueType.encode program.outputTypes e
  let e ← writeList maxVmInstructions VmInstruction.encode program.instructions e
  writeInt 1 program.maximumEvents e

def decode : Decode VmProgram := do
  let inputCount ← readInt 1
  let registerTypes ← readList maxVmRegisters VmValueType.decode
  let outputTypes ← readList maxVmOutputs VmValueType.decode
  let instructions ← readList maxVmInstructions VmInstruction.decode
  let maximumEvents ← readInt 1
  Decode.check ((VmProgram.new inputCount registerTypes outputTypes instructions
    maximumEvents).mapError fun e => .error (programValidationDecodeError e))

def codec : CanonicalCodec VmProgram where
  typeTag := 0x0060
  schemaVersion := 1
  maxEncodedLen := 12854
  maxFits := by decide
  encode := encode
  decode := decode

/-- The instructions hold numbers of the machine types. -/
def InRange (program : VmProgram) : Prop :=
  ∀ instruction ∈ program.instructions, instruction.InRange

def fieldBytes (inputCount : Nat) (registerTypes outputTypes : List VmValueType)
    (instructions : List VmInstruction) (maximumEvents : Nat) : List UInt8 :=
  beBytes 1 inputCount ++ (listBytes (beBytes 1 ·.tag) registerTypes ++
    (listBytes (beBytes 1 ·.tag) outputTypes ++ (listBytes VmInstruction.bytes instructions ++
      beBytes 1 maximumEvents)))

def bytes (program : VmProgram) : List UInt8 :=
  fieldBytes program.inputCount program.registerTypes program.outputTypes program.instructions
    program.maximumEvents

variable {instructions : List VmInstruction}

variable {outputTypes registerTypes : List VmValueType} {inputCount maximumEvents : Nat}
  {prog : VmProgram}

/-- **The programs that `new` makes are those with the given fields.** -/
theorem new_eq_ok :
    new inputCount registerTypes outputTypes instructions maximumEvents = .ok prog ↔
      prog.inputCount = inputCount ∧ prog.registerTypes = registerTypes ∧
      prog.outputTypes = outputTypes ∧ prog.instructions = instructions ∧
      prog.maximumEvents = maximumEvents := by
  constructor
  · intro h
    unfold new at h
    split_ifs at h <;> split at h <;> cases h
    exact ⟨rfl, rfl, rfl, rfl, rfl⟩
  · rintro ⟨rfl, rfl, rfl, rfl, rfl⟩
    have hr := oversizedReturn_eq_none_iff.2 prog.returns
    unfold new
    rw [dif_neg prog.registers.1, dif_neg (Nat.not_lt.2 prog.registers.2),
      dif_neg (Nat.not_lt.2 prog.inputs.1), dif_neg (Nat.not_lt.2 prog.inputs.2),
      dif_neg (Nat.not_lt.2 prog.outputs), dif_neg prog.size.1, dif_neg (Nat.not_lt.2 prog.size.2)]
    split
    · rename_i hs
      rw [hr] at hs
      cases hs
    · rw [dif_neg (Nat.not_lt.2 prog.events)]

theorem codes_types {limit : Nat} (hl : limit ≤ maxBodyLength) :
    Codes (writeList limit VmValueType.encode) (readList limit VmValueType.decode)
      (·.length ≤ limit) (listBytes (beBytes 1 ·.tag)) := by
  have h := VmValueType.codes.list hl
  simpa using h

theorem codes_instructions :
    Codes (writeList maxVmInstructions VmInstruction.encode)
      (readList maxVmInstructions VmInstruction.decode) (fun is => is.length ≤ maxVmInstructions ∧
        ∀ i ∈ is, i.InRange) (listBytes VmInstruction.bytes) :=
  VmInstruction.codes.list (by decide)

theorem inputCount_lt (prog : VmProgram) : prog.inputCount < 256 ^ 1 :=
  Nat.lt_of_le_of_lt prog.inputs.1 (by decide)

theorem maximumEvents_lt (prog : VmProgram) : prog.maximumEvents < 256 ^ 1 :=
  Nat.lt_of_le_of_lt prog.events (by decide)

theorem codes : Codes encode decode InRange bytes where
  write_eq_ok := by
    intro prog maximum e e' hra
    simp only [encode, appends, (codes_types (by decide)).write_eq_ok prog.registers.2,
      (codes_types (by decide)).write_eq_ok prog.outputs,
      codes_instructions.write_eq_ok ⟨prog.size.2, hra⟩]
    rfl
  read_eq_ok := by
    intro input rest prog
    have hr : maxVmRegisters ≤ maxBodyLength := by decide
    have ho : maxVmOutputs ≤ maxBodyLength := by decide
    simp only [decode, inversion, (codes_types hr).read_eq_ok, (codes_types ho).read_eq_ok,
      codes_instructions.read_eq_ok, new_eq_ok, existsAndEq]
    have := prog.inputCount_lt
    have := prog.maximumEvents_lt
    have := prog.registers.2
    have := prog.outputs
    have := prog.size.2
    simp only [bytes, fieldBytes, InRange, append_assoc]
    tauto

theorem length_bytes_le (h : prog.InRange) : prog.bytes.length ≤ codec.maxEncodedLen := by
  have htag : ∀ t : VmValueType, (beBytes 1 t.tag).length ≤ 1 := fun t => (length_beBytes 1 _).le
  have hr : (listBytes (beBytes 1 ·.tag) prog.registerTypes).length ≤ 0 + 1 + 32 * 1 :=
    length_listBytes_le 0 prog.registers.2 (by decide) fun t _ => htag t
  have ho : (listBytes (beBytes 1 ·.tag) prog.outputTypes).length ≤ 0 + 1 + 16 * 1 :=
    length_listBytes_le 0 prog.outputs (by decide) fun t _ => htag t
  have hi : (listBytes VmInstruction.bytes prog.instructions).length ≤ 1 + 1 + 256 * 50 :=
    length_listBytes_le 1 prog.size.2 (by decide) fun i hmem =>
      VmInstruction.length_bytes_le (h i hmem)
  simp only [bytes, fieldBytes, length_append, length_beBytes, codec]
  omega

theorem decode_fieldBytes (hin : inputCount < 256 ^ 1) (hr : registerTypes.length ≤ maxVmRegisters)
    (ho : outputTypes.length ≤ maxVmOutputs)
    (hi : instructions.length ≤ maxVmInstructions ∧ ∀ i ∈ instructions, i.InRange)
    (he : maximumEvents < 256 ^ 1) (rest : List UInt8) :
    decode.run (fieldBytes inputCount registerTypes outputTypes instructions maximumEvents ++
      rest) = ((new inputCount registerTypes outputTypes instructions maximumEvents).mapError
        fun e => .error (programValidationDecodeError e)).map (·, rest) := by
  simp only [fieldBytes, append_assoc, decode]
  rw [run_bind_of_eq_ok ((codes_int 1).read_eq_ok.2 ⟨hin, rfl⟩),
    run_bind_of_eq_ok ((codes_types (by decide)).read_eq_ok.2 ⟨hr, rfl⟩),
    run_bind_of_eq_ok ((codes_types (by decide)).read_eq_ok.2 ⟨ho, rfl⟩),
    run_bind_of_eq_ok (codes_instructions.read_eq_ok.2 ⟨hi, rfl⟩),
    run_bind_of_eq_ok ((codes_int 1).read_eq_ok.2 ⟨he, rfl⟩)]
  rfl

end VmProgram

/-- **The program codec is a bijection between the programs and the accepted strings.** Every
program is written and read back; a string that is accepted is the one that is written for its
program. -/
theorem vmProgram_codec : (∀ program : VmProgram, program.InRange →
      ∃ input, VmProgram.codec.encodeEnvelope program = .ok input ∧
        VmProgram.codec.decodeEnvelope input = .ok program) ∧
    (∀ input program, VmProgram.codec.decodeEnvelope input = .ok program →
      program.InRange ∧ VmProgram.codec.encodeEnvelope program = .ok input) ∧
    (∀ input rest program, VmProgram.codec.decode.run input = .ok (program, rest) →
      ∃ inputCount registerTypes outputTypes instructions maximumEvents,
        input = VmProgram.fieldBytes inputCount registerTypes outputTypes instructions
          maximumEvents ++ rest ∧
        VmProgram.new inputCount registerTypes outputTypes instructions maximumEvents =
          .ok program) ∧
    ∀ inputCount registerTypes outputTypes instructions maximumEvents rest,
      inputCount < 256 ^ 1 → registerTypes.length ≤ maxVmRegisters →
      outputTypes.length ≤ maxVmOutputs → instructions.length ≤ maxVmInstructions →
      (∀ instruction ∈ instructions, instruction.InRange) → maximumEvents < 256 ^ 1 →
      VmProgram.codec.decode.run (VmProgram.fieldBytes inputCount registerTypes outputTypes
          instructions maximumEvents ++ rest) =
        ((VmProgram.new inputCount registerTypes outputTypes instructions maximumEvents).mapError
          fun e => .error (programValidationDecodeError e)).map (·, rest) := by
  have hmax : codec.maxEncodedLen ≤ maxBodyLength := by decide
  have hc : Codes codec.encode codec.decode InRange bytes := codes
  refine ⟨?_, ?_, ?_, ?_⟩
  · intro program hr
    have hl := length_bytes_le hr
    exact ⟨_, (hc.encodeEnvelope_eq_ok hmax hr).2 ⟨hl, rfl⟩,
      (hc.decodeEnvelope_eq_ok hmax).2 ⟨hr, hl, rfl⟩⟩
  · intro input program hd
    obtain ⟨hr, hl, rfl⟩ := (hc.decodeEnvelope_eq_ok hmax).1 hd
    exact ⟨hr, (hc.encodeEnvelope_eq_ok hmax hr).2 ⟨hl, rfl⟩⟩
  · intro input rest program hd
    obtain ⟨-, rfl⟩ := hc.read_eq_ok.1 hd
    exact ⟨_, _, _, _, _, rfl, new_eq_ok.2 ⟨rfl, rfl, rfl, rfl, rfl⟩⟩
  · intro _ _ _ _ _ rest hi hre ho hs hr he
    exact decode_fieldBytes hi hre ho ⟨hs, hr⟩ he rest

def constant : VmProgram :=
  ⟨0, [.u64], [.u64], [.loadU64 0 7, .ret [0]], 0, by decide, by decide, by decide, by decide,
    by simp [maxVmOutputs], Nat.zero_le _⟩

theorem constant_roundTrips : constant.InRange ∧ ∃ input,
    codec.encodeEnvelope constant = .ok input ∧ codec.decodeEnvelope input = .ok constant := by
  have hr : constant.InRange := by
    simp [VmProgram.InRange, constant, VmInstruction.InRange, maxVmOutputs]
  exact ⟨hr, vmProgram_codec.1 constant hr⟩

end ActiveChain.Vm
