import ActiveChain.Vm.Bytecode

/-!
# The ObjectVM interpreter (`object-vm`)

The interpreter runs a verified program on explicit inputs.  Every round compares the registers with
the verifier's record, prepays the instruction's gas and executes it.

* `VmValue`, `VmState` — values, and registers, program counter, gas, steps and events.
* `executeLoop_mono` — more rounds do not change a result.
-/

namespace ActiveChain.Vm

/-! ## Values and results -/

inductive VmValue
  | u64 (value : Nat)
  | bool (value : Bool)
  | digest (value : Digest384)
  | object (value : Object)
  | capability (value : CapabilityId)
deriving DecidableEq

def VmValue.valueType : VmValue → VmValueType
  | .u64 _ => .u64
  | .bool _ => .bool
  | .digest _ => .digest
  | .object _ => .object
  | .capability _ => .capability

inductive VmEventValue
  | u64 (value : Nat)
  | bool (value : Bool)
  | digest (value : Digest384)
deriving DecidableEq, Repr

def VmEventValue.fromVmValue : VmValue → Option VmEventValue
  | .u64 value => some (.u64 value)
  | .bool value => some (.bool value)
  | .digest value => some (.digest value)
  | .object _ | .capability _ => none

inductive VmExecutionResultError
  | invalidStepCount (steps : Nat)
  | tooManyOutputs (actual maximum : Nat)
  | tooManyEvents (actual maximum : Nat)
deriving DecidableEq, Repr

structure VmExecutionResult where
  gasUsed : Nat
  steps : Nat
  outputs : List VmValue
  events : List VmEventValue
  stepsBounded : steps ≠ 0 ∧ steps ≤ maxVmInstructions
  outputsBounded : outputs.length ≤ maxVmOutputs
  eventsBounded : events.length ≤ maxVmEvents

def VmExecutionResult.new (gasUsed steps : Nat) (outputs : List VmValue)
    (events : List VmEventValue) : Except VmExecutionResultError VmExecutionResult :=
  if hsteps : steps = 0 ∨ maxVmInstructions < steps then .error (.invalidStepCount steps)
  else if houtputs : maxVmOutputs < outputs.length then
    .error (.tooManyOutputs outputs.length maxVmOutputs)
  else if hevents : maxVmEvents < events.length then
    .error (.tooManyEvents events.length maxVmEvents)
  else .ok { gasUsed, steps, outputs, events
             stepsBounded := by omega
             outputsBounded := by omega
             eventsBounded := by omega }

inductive VmExecutionError
  | inputCountMismatch (expected actual : Nat)
  | inputTypeMismatch (register : Nat) (expected actual : VmValueType)
  | gasExhausted (programCounter gasUsed instructionCost gasLimit : Nat)
  | arithmeticOverflow (programCounter : Nat)
  | invariantViolation (programCounter : Nat) (reason : String)
  | invalidResult (error : VmExecutionResultError)
deriving DecidableEq, Repr

abbrev VmM : Type → Type := Except VmExecutionError

/-! ## Registers -/

abbrev Registers := List (Option VmValue)

section Registers

variable (registers : Registers) (pc : Nat)

variable (register : Nat)

/-- `initialize`. -/
def initializeRegister (value : VmValue) : VmM Registers :=
  match registers[register]? with
  | none => .error (.invariantViolation pc "verified destination register is out of bounds")
  | some (some _) => .error (.invariantViolation pc "verified destination is already initialized")
  | some none => .ok (registers.set register (some value))

/-- `read`. -/
def readRegister : VmM VmValue :=
  okOr registers[register]?.join (.invariantViolation pc "verified source register is unavailable")

/-- `take`. -/
def takeRegister : VmM (VmValue × Registers) := do
  let value ← readRegister registers pc register
  return (value, registers.set register none)

def readU64 : VmM Nat := do
  match ← readRegister registers pc register with
  | .u64 value => return value
  | _ => .error (.invariantViolation pc "verified unsigned operand has the wrong type")

def readBool : VmM Bool := do
  match ← readRegister registers pc register with
  | .bool value => return value
  | _ => .error (.invariantViolation pc "verified Boolean operand has the wrong type")

/-- The loop of a return. -/
def takeAll (pc : Nat) : List Nat → Registers → VmM (List VmValue × Registers)
  | [], registers => .ok ([], registers)
  | source :: sources, registers => do
    let (value, registers) ← takeRegister registers pc source
    let (values, registers) ← takeAll pc sources registers
    return (value :: values, registers)

end Registers

/-! ## The loop -/

/-- The local variables of the loop of `execute_program`. -/
structure VmState where
  registers : Registers
  programCounter : Nat
  gasUsed : Nat
  steps : Nat
  events : List VmEventValue

def FlowState.AdmitsRuntimeState (state : FlowState) (availability : List Bool)
    (eventCount : Nat) : Prop :=
  availability.length = state.registers.length ∧ eventCount ≤ state.maximumEvents ∧
    ∀ entry ∈ state.registers.zip availability, (entry.1 = .available ↔ entry.2 = true)
deriving Decidable

def verifyRuntimeRefinement (verified : VerifiedProgram) (registers : Registers)
    (eventCount pc : Nat) : VmM Unit := do
  let certificate ← okOr verified.instructionStates[pc]?
    (.invariantViolation pc "verified instruction certificate is missing")
  rejectIf (¬ certificate.AdmitsRuntimeState (registers.map Option.isSome) eventCount)
    (.invariantViolation pc "runtime registers disagree with verifier certificate")

def prepayGas (pc gasUsed instructionCost gasLimit : Nat) : VmM Nat := do
  let nextGas ← okOr (checkedAdd 64 gasUsed instructionCost)
    (.gasExhausted pc gasUsed instructionCost gasLimit)
  rejectIf (gasLimit < nextGas) (.gasExhausted pc gasUsed instructionCost gasLimit)
  return nextGas

/-- `checked_add`. -/
def addU64Checked (pc left right : Nat) : VmM Nat :=
  okOr (checkedAdd 64 left right) (.arithmeticOverflow pc)

def selectBranchTarget (pc : Nat) (condition : Bool) (target : Nat) : Nat :=
  if condition then target else pc + 1

/-- What a round leads to: the next round, or the result. -/
abbrev Outcome := VmState ⊕ VmExecutionResult

/-- The state behind an instruction that has written the registers and falls through. -/
def VmState.fallthrough (s : VmState) (registers : Registers) : Outcome :=
  .inl { s with registers, programCounter := s.programCounter + 1 }

/-- The instruction of a round, after its gas and its step have been counted. -/
def executeInstruction (program : VmProgram) (s : VmState) :
    VmInstruction → VmM Outcome
  | .loadU64 destination value => do
    return s.fallthrough
      (← initializeRegister s.registers s.programCounter destination (.u64 value))
  | .loadBool destination value => do
    return s.fallthrough
      (← initializeRegister s.registers s.programCounter destination (.bool value))
  | .loadDigest destination value => do
    return s.fallthrough
      (← initializeRegister s.registers s.programCounter destination (.digest value))
  | .copy destination source => do
    let value ← readRegister s.registers s.programCounter source
    rejectIf (¬ value.valueType.isCopyable)
      (.invariantViolation s.programCounter "verified copy source is not copyable")
    return s.fallthrough (← initializeRegister s.registers s.programCounter destination value)
  | .move destination source => do
    let (value, registers) ← takeRegister s.registers s.programCounter source
    return s.fallthrough (← initializeRegister registers s.programCounter destination value)
  | .addU64 destination left right => do
    let left ← readU64 s.registers s.programCounter left
    let right ← readU64 s.registers s.programCounter right
    let value ← addU64Checked s.programCounter left right
    return s.fallthrough
      (← initializeRegister s.registers s.programCounter destination (.u64 value))
  | .eqU64 destination left right => do
    let left ← readU64 s.registers s.programCounter left
    let right ← readU64 s.registers s.programCounter right
    return s.fallthrough
      (← initializeRegister s.registers s.programCounter destination (.bool (left = right)))
  | .jump target => return .inl { s with programCounter := target }
  | .branchIf condition target => do
    let condition ← readBool s.registers s.programCounter condition
    return .inl { s with programCounter := selectBranchTarget s.programCounter condition target }
  | .consumeCapability source => do
    let (value, registers) ← takeRegister s.registers s.programCounter source
    rejectIf (value.valueType ≠ .capability)
      (.invariantViolation s.programCounter "verified consume source is not a capability")
    return s.fallthrough registers
  | .emit source => do
    let event ← okOr
      (VmEventValue.fromVmValue (← readRegister s.registers s.programCounter source))
      (.invariantViolation s.programCounter "verified event source is not scalar")
    rejectIf (program.maximumEvents ≤ s.events.length)
      (.invariantViolation s.programCounter "verified event path exceeds declaration")
    return .inl { s with events := s.events ++ [event], programCounter := s.programCounter + 1 }
  | .ret sources => do
    let (outputs, _) ← takeAll s.programCounter sources s.registers
    let result ← (VmExecutionResult.new s.gasUsed s.steps outputs s.events).mapError .invalidResult
    return .inr result

/-- One round of the loop. -/
def step (verified : VerifiedProgram) (gasLimit : Nat) (s : VmState) : VmM Outcome := do
  verifyRuntimeRefinement verified s.registers s.events.length s.programCounter
  let instruction ← okOr verified.program.instructions[s.programCounter]?
    (.invariantViolation s.programCounter "verified program counter is out of bounds")
  let gasUsed ← prepayGas s.programCounter s.gasUsed instruction.gasCost gasLimit
  let steps ← okOr (checkedAdd 16 s.steps 1)
    (.invariantViolation s.programCounter "verified instruction count exceeds u16")
  executeInstruction verified.program { s with gasUsed, steps } instruction

/-- The loop, for at most the given number of rounds. -/
def executeLoop (verified : VerifiedProgram) (gasLimit : Nat) :
    Nat → VmState → Option (VmM VmExecutionResult)
  | 0, _ => none
  | rounds + 1, s =>
    match step verified gasLimit s with
    | .error e => some (.error e)
    | .ok (.inr result) => some (.ok result)
    | .ok (.inl next) => executeLoop verified gasLimit rounds next

def loadInputs (types : List VmValueType) : List (VmValue × Nat) → Registers →
    VmM Registers
  | [], registers => .ok registers
  | (input, register) :: rest, registers => do
    let expected := types.getD register .u64
    rejectIf (input.valueType ≠ expected) (.inputTypeMismatch register expected input.valueType)
    loadInputs types rest (registers.set register (some input))

def initialState (program : VmProgram) (inputs : List VmValue) : VmM VmState := do
  rejectIf (inputs.length ≠ program.inputCount)
    (.inputCountMismatch program.inputCount inputs.length)
  let registers ← loadInputs program.registerTypes inputs.zipIdx
    (List.replicate program.registerTypes.length none)
  return { registers, programCounter := 0, gasUsed := 0, steps := 0, events := [] }

/-- Also `execute`, for at most the given number of rounds. -/
def executeProgram (verified : VerifiedProgram) (inputs : List VmValue) (gasLimit rounds : Nat) :
    Option (VmM VmExecutionResult) :=
  match initialState verified.program inputs with
  | .error e => some (.error e)
  | .ok s => executeLoop verified gasLimit rounds s

theorem executeLoop_mono {verified : VerifiedProgram} {gasLimit : Nat}
    {result : VmM VmExecutionResult} (n : Nat) : ∀ {s : VmState}
    {more : Nat}, n ≤ more → executeLoop verified gasLimit n s = some result →
      executeLoop verified gasLimit more s = some result := by
  induction n with
  | zero =>
    intro s more _ h
    cases h
  | succ n ih =>
    intro s more hle h
    obtain ⟨more, rfl⟩ : ∃ k, more = k + 1 := ⟨more - 1, by omega⟩
    rw [executeLoop] at h ⊢
    split at h
    · exact h
    · exact h
    · exact ih (by omega) h

end ActiveChain.Vm
