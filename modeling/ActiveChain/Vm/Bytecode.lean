import Mathlib.Data.List.Nodup
import ActiveChain.Lib.ForwardFlow
import ActiveChain.Object

/-!
# ObjectVM programs and their static verification (`bytecode-verifier`)

A program has typed registers, single-assignment instructions and forward jumps.  The verifier goes
over the instructions once and records, for each of them, which registers are available on every
path that reaches it and how many events those paths have emitted at most.

* `VmProgram` — a program within the bounds of `VmProgram::new`.
* `verify` — the verifier; `VerifiedProgram` keeps one state per instruction.
* `flow_forward`, `verify_certifies` — **every instruction of a verified program was checked with
  its recorded state, and what it passes on is recorded at its targets.**
-/

namespace ActiveChain.Vm

open Except List

def maxVmRegisters : Nat := 32

def maxVmInputs : Nat := 16

def maxVmOutputs : Nat := 16

def maxVmInstructions : Nat := 256

def maxVmEvents : Nat := 16

inductive VmValueType
  | u64
  | bool
  | digest
  | object
  | capability
deriving DecidableEq, Repr

namespace VmValueType

def isCopyable : VmValueType → Bool
  | .u64 | .bool | .digest => true
  | .object | .capability => false

def isLinear : VmValueType → Bool
  | .object => true
  | _ => false

def isEventScalar (t : VmValueType) : Bool := t.isCopyable

end VmValueType

inductive VmInstruction
  | loadU64 (destination value : Nat)
  | loadBool (destination : Nat) (value : Bool)
  | loadDigest (destination : Nat) (value : Digest384)
  | copy (destination source : Nat)
  | move (destination source : Nat)
  | addU64 (destination left right : Nat)
  | eqU64 (destination left right : Nat)
  | jump (target : Nat)
  | branchIf (condition target : Nat)
  | consumeCapability (source : Nat)
  | emit (source : Nat)
  | ret (sources : List Nat)
deriving DecidableEq, Repr

def VmInstruction.gasCost : VmInstruction → Nat
  | .loadDigest .. | .addU64 .. => 2
  | .emit _ => 4
  | .ret sources => 1 + sources.length
  | _ => 1

inductive VmProgramValidationError
  | emptyRegisters
  | tooManyRegisters (actual maximum : Nat)
  | tooManyInputs (actual maximum : Nat)
  | inputCountExceedsRegisters
  | tooManyOutputs (actual maximum : Nat)
  | emptyInstructions
  | tooManyInstructions (actual maximum : Nat)
  | tooManyReturnSources (actual maximum : Nat)
  | tooManyEvents (actual maximum : Nat)
deriving DecidableEq, Repr

structure VmProgram where
  inputCount : Nat
  registerTypes : List VmValueType
  outputTypes : List VmValueType
  instructions : List VmInstruction
  maximumEvents : Nat
  registers : registerTypes ≠ [] ∧ registerTypes.length ≤ maxVmRegisters
  inputs : inputCount ≤ maxVmInputs ∧ inputCount ≤ registerTypes.length
  outputs : outputTypes.length ≤ maxVmOutputs
  size : instructions ≠ [] ∧ instructions.length ≤ maxVmInstructions
  returns : ∀ sources, VmInstruction.ret sources ∈ instructions → sources.length ≤ maxVmOutputs
  events : maximumEvents ≤ maxVmEvents

/-- The first return with too many sources. -/
def oversizedReturn (instructions : List VmInstruction) : Option Nat :=
  instructions.findSome? fun
    | .ret sources => if maxVmOutputs < sources.length then some sources.length else none
    | _ => none

theorem oversizedReturn_eq_none_iff {is : List VmInstruction} : oversizedReturn is = none ↔
    ∀ srcs, VmInstruction.ret srcs ∈ is → srcs.length ≤ maxVmOutputs := by
  rw [oversizedReturn, findSome?_eq_none_iff]
  constructor
  · intro h srcs hmem
    simpa using h _ hmem
  · intro h i hmem
    cases i with
    | ret srcs => exact if_neg (Nat.not_lt.2 (h srcs hmem))
    | _ => rfl

def VmProgram.new (inputCount : Nat) (registerTypes outputTypes : List VmValueType)
    (instructions : List VmInstruction) (maximumEvents : Nat) :
    Except VmProgramValidationError VmProgram :=
  if hregisters : registerTypes = [] then .error .emptyRegisters
  else if hregisterCount : maxVmRegisters < registerTypes.length then
    .error (.tooManyRegisters registerTypes.length maxVmRegisters)
  else if hinputs : maxVmInputs < inputCount then .error (.tooManyInputs inputCount maxVmInputs)
  else if hfit : registerTypes.length < inputCount then .error .inputCountExceedsRegisters
  else if houtputs : maxVmOutputs < outputTypes.length then
    .error (.tooManyOutputs outputTypes.length maxVmOutputs)
  else if hempty : instructions = [] then .error .emptyInstructions
  else if hsize : maxVmInstructions < instructions.length then
    .error (.tooManyInstructions instructions.length maxVmInstructions)
  else match hreturn : oversizedReturn instructions with
    | some actual => .error (.tooManyReturnSources actual maxVmOutputs)
    | none =>
      if hevents : maxVmEvents < maximumEvents then
        .error (.tooManyEvents maximumEvents maxVmEvents)
      else .ok {
        inputCount, registerTypes, outputTypes, instructions, maximumEvents
        registers := ⟨hregisters, Nat.le_of_not_lt hregisterCount⟩
        inputs := ⟨Nat.le_of_not_lt hinputs, Nat.le_of_not_lt hfit⟩
        outputs := Nat.le_of_not_lt houtputs
        size := ⟨hempty, Nat.le_of_not_lt hsize⟩
        returns := oversizedReturn_eq_none_iff.1 hreturn
        events := Nat.le_of_not_lt hevents }

/-! ## Verification -/

/-- Also `RegisterAvailability`. -/
inductive RegisterState
  | uninitialized
  | available
  | moved
deriving DecidableEq, Repr

/-- Also `VerifiedInstructionState`. -/
@[ext] structure FlowState where
  registers : List RegisterState
  maximumEvents : Nat
deriving DecidableEq, Repr

inductive VmVerificationError
  | registerOutOfBounds (programCounter register : Nat)
  | sourceUnavailable (programCounter register : Nat)
  | destinationAlreadyInitialized (programCounter register : Nat)
  | typeMismatch (programCounter register : Nat) (expected actual : VmValueType)
  | copyRequiresCopyable (programCounter source : Nat) (actual : VmValueType)
  | emitRequiresScalar (programCounter source : Nat) (actual : VmValueType)
  | targetOutOfBounds (programCounter target : Nat)
  | targetNotForward (programCounter target : Nat)
  | fallthroughPastEnd (programCounter : Nat)
  | inconsistentMerge (programCounter : Nat)
  | unreachableInstruction (programCounter : Nat)
  | eventLimitExceeded (programCounter : Nat)
  | outputCountMismatch (programCounter expected actual : Nat)
  | duplicateReturnRegister (programCounter register : Nat)
  | linearObjectNotReturned (programCounter register : Nat)
deriving DecidableEq, Repr

abbrev VmVerifyM : Type → Type := Except VmVerificationError

structure VerifiedProgram where
  program : VmProgram
  instructionStates : List FlowState

section Verify

variable (program : VmProgram) (state : FlowState) (pc : Nat)

variable (register : Nat)

/-- With the declared type of the register. -/
def requireRegister : VmVerifyM VmValueType :=
  okOr program.registerTypes[register]? (.registerOutOfBounds pc register)

def requireSource : VmVerifyM VmValueType := do
  let actual ← requireRegister program pc register
  rejectIf (state.registers[register]? ≠ some .available) (.sourceUnavailable pc register)
  return actual

def requireSourceType (expected : VmValueType) : VmVerifyM Unit := do
  let actual ← requireSource program state pc register
  rejectIf (actual ≠ expected) (.typeMismatch pc register expected actual)

def requireDestination (expected : VmValueType) : VmVerifyM Unit := do
  let actual ← requireRegister program pc register
  rejectIf (actual ≠ expected) (.typeMismatch pc register expected actual)
  rejectIf (state.registers[register]? ≠ some .uninitialized)
    (.destinationAlreadyInitialized pc register)

def requireTarget (target : Nat) : VmVerifyM Nat := do
  rejectIf (program.instructions.length ≤ target) (.targetOutOfBounds pc target)
  rejectIf (target ≤ pc) (.targetNotForward pc target)
  return target

def nextProgramCounter : VmVerifyM Nat := do
  rejectIf (program.instructions.length ≤ pc + 1) (.fallthroughPastEnd pc)
  return pc + 1

abbrev FlowEdges := List (Nat × FlowState)

/-- The edge of `propagate_fallthrough`. -/
def propagateFallthrough (state : FlowState) : VmVerifyM FlowEdges := do
  let next ← nextProgramCounter program pc
  return [(next, state)]

def FlowState.setRegister (state : FlowState) (register : Nat) (next : RegisterState) : FlowState :=
  { state with registers := state.registers.set register next }

/-- The first loop of `verify_return`, with the registers returned so far. -/
def returnSources : List (Nat × VmValueType) → List Nat → VmVerifyM (List Nat)
  | [], returned => .ok returned
  | (source, expected) :: rest, returned => do
    let _ ← requireRegister program pc source
    rejectIf (source ∈ returned) (.duplicateReturnRegister pc source)
    requireSourceType program state pc source expected
    returnSources rest (source :: returned)

/-- A live linear register that has not been returned. -/
def Abandoned (returned : List Nat) (register : Nat) : Prop :=
  program.registerTypes[register]?.any (·.isLinear) ∧
    state.registers[register]? = some .available ∧ register ∉ returned
deriving Decidable

def verifyReturn (sources : List Nat) : VmVerifyM Unit := do
  rejectIf (sources.length ≠ program.outputTypes.length)
    (.outputCountMismatch pc program.outputTypes.length sources.length)
  let returned ← returnSources program state pc (sources.zip program.outputTypes) []
  match (List.range program.registerTypes.length).find? (Abandoned program state returned ·) with
  | some register => .error (.linearObjectNotReturned pc register)
  | none => .ok ()

def flowLoad (destination : Nat) (loaded : VmValueType) : VmVerifyM FlowEdges := do
  requireDestination program state pc destination loaded
  propagateFallthrough program pc (state.setRegister destination .available)

/-- The round of an operation on two integers. -/
def flowBinary (destination left right : Nat) (result : VmValueType) :
    VmVerifyM FlowEdges := do
  requireDestination program state pc destination result
  requireSourceType program state pc left .u64
  requireSourceType program state pc right .u64
  propagateFallthrough program pc (state.setRegister destination .available)

/-- One round of the loop of `verify`: the checks of the instruction, and what is merged where. -/
def flowInstruction : VmInstruction → VmVerifyM FlowEdges
  | .loadU64 destination _ => flowLoad program state pc destination .u64
  | .loadBool destination _ => flowLoad program state pc destination .bool
  | .loadDigest destination _ => flowLoad program state pc destination .digest
  | .copy destination source => do
    let sourceType ← requireSource program state pc source
    rejectIf (¬ sourceType.isCopyable) (.copyRequiresCopyable pc source sourceType)
    requireDestination program state pc destination sourceType
    propagateFallthrough program pc (state.setRegister destination .available)
  | .move destination source => do
    let sourceType ← requireSource program state pc source
    requireDestination program state pc destination sourceType
    propagateFallthrough program pc
      ((state.setRegister source .moved).setRegister destination .available)
  | .addU64 destination left right => flowBinary program state pc destination left right .u64
  | .eqU64 destination left right => flowBinary program state pc destination left right .bool
  | .jump target => do
    let target ← requireTarget program pc target
    return [(target, state)]
  | .branchIf condition target => do
    requireSourceType program state pc condition .bool
    let target ← requireTarget program pc target
    let next ← nextProgramCounter program pc
    return [(next, state), (target, state)]
  | .consumeCapability source => do
    requireSourceType program state pc source .capability
    propagateFallthrough program pc (state.setRegister source .moved)
  | .emit source => do
    let sourceType ← requireSource program state pc source
    rejectIf (¬ sourceType.isEventScalar) (.emitRequiresScalar pc source sourceType)
    rejectIf (program.maximumEvents < state.maximumEvents + 1) (.eventLimitExceeded pc)
    propagateFallthrough program pc { state with maximumEvents := state.maximumEvents + 1 }
  | .ret sources => do
    verifyReturn program state pc sources
    return []

/-- The instruction at the program counter, which the loop bounds, with its flow. -/
def flow : VmVerifyM FlowEdges :=
  match program.instructions[pc]? with
  | some instruction => flowInstruction program state pc instruction
  | none => .ok []

/-- `merge_state` into a state that is there. -/
def mergeState (target : Nat) (existing candidate : FlowState) : VmVerifyM FlowState := do
  rejectIf (existing.registers ≠ candidate.registers) (.inconsistentMerge target)
  return { existing with maximumEvents := max existing.maximumEvents candidate.maximumEvents }

/-- The state in front of the first instruction. -/
def entryState : FlowState where
  registers := List.replicate program.inputCount .available ++
    List.replicate (program.registerTypes.length - program.inputCount) .uninitialized
  maximumEvents := 0

def verify : VmVerifyM VerifiedProgram := do
  let count := program.instructions.length
  let states ← ForwardFlow.pass mergeState (fun pc state => flow program state pc)
    .unreachableInstruction count 0 ((List.replicate count none).set 0 (some (entryState program)))
  let instructionStates ← states.zipIdx.mapM fun (state, pc) =>
    okOr state (.unreachableInstruction pc)
  return { program, instructionStates }

end Verify

/-! ## What the checks establish -/

section Checks

variable {program : VmProgram} {state : FlowState} {pc : Nat}

variable {register : Nat}

theorem requireSource_eq_ok {actual : VmValueType} :
    requireSource program state pc register = .ok actual ↔
      program.registerTypes[register]? = some actual ∧
        state.registers[register]? = some .available := by
  simp only [requireSource, requireRegister, inversion, existsAndEq, and_true]

variable {expected : VmValueType}

theorem requireSourceType_eq_ok :
    requireSourceType program state pc register expected = .ok () ↔
      program.registerTypes[register]? = some expected ∧
        state.registers[register]? = some .available := by
  simp only [requireSourceType, inversion, requireSource_eq_ok, existsAndEq, and_true]

theorem requireDestination_eq_ok :
    requireDestination program state pc register expected = .ok () ↔
      program.registerTypes[register]? = some expected ∧
        state.registers[register]? = some .uninitialized := by
  simp only [requireDestination, requireRegister, inversion, existsAndEq, true_and]

theorem nextProgramCounter_eq_ok {next : Nat} :
    nextProgramCounter program pc = .ok next ↔
      next = pc + 1 ∧ pc + 1 < program.instructions.length := by
  simp only [nextProgramCounter, inversion, not_le]
  exact and_comm.trans (and_congr_left' eq_comm)

variable {edges : FlowEdges}

theorem propagateFallthrough_eq_ok :
    propagateFallthrough program pc state = .ok edges ↔
      edges = [(pc + 1, state)] ∧ pc + 1 < program.instructions.length := by
  simp only [propagateFallthrough, inversion, nextProgramCounter_eq_ok, existsAndEq]
  tauto

theorem requireTarget_eq_ok {target target' : Nat} :
    requireTarget program pc target = .ok target' ↔
      target' = target ∧ target < program.instructions.length ∧ pc < target := by
  simp only [requireTarget, inversion, not_le]
  tauto

theorem returnSources_eq_ok (srcs : List (Nat × VmValueType)) :
    ∀ {returned all : List Nat}, returnSources program state pc srcs returned = .ok all →
      all = (srcs.map Prod.fst).reverse ++ returned ∧
      (returned.Nodup → all.Nodup) ∧
      ∀ e ∈ srcs, program.registerTypes[e.1]? = some e.2 ∧
        state.registers[e.1]? = some .available := by
  induction srcs with
  | nil =>
    intro returned all h
    cases h
    exact ⟨rfl, id, by simp⟩
  | cons e rest ih =>
    intro returned all h
    simp only [returnSources, inversion, requireSourceType_eq_ok] at h
    obtain ⟨_, -, hf, hs, hre⟩ := h
    obtain ⟨rfl, hn, hall⟩ := ih hre
    exact ⟨by simp, fun hr => hn (nodup_cons.2 ⟨hf, hr⟩),
      forall_mem_cons.2 ⟨hs, hall⟩⟩

/-- **A verified return** gives distinct available registers of the declared types, and leaves no
object behind. -/
structure Returns (program : VmProgram) (state : FlowState) (sources : List Nat) : Prop where
  length : sources.length = program.outputTypes.length
  nodup : sources.Nodup
  typed : ∀ entry ∈ sources.zip program.outputTypes,
    program.registerTypes[entry.1]? = some entry.2 ∧ state.registers[entry.1]? = some .available
  complete : ∀ register, program.registerTypes[register]? = some .object →
    state.registers[register]? = some .available → register ∈ sources

theorem returns_of_verifyReturn {sources : List Nat}
    (h : verifyReturn program state pc sources = .ok ()) : Returns program state sources := by
  simp only [verifyReturn, inversion] at h
  obtain ⟨hl, all, hs, hf⟩ := h
  obtain ⟨rfl, hn, hty⟩ := returnSources_eq_ok _ hs
  have hall : (sources.zip program.outputTypes).map Prod.fst = sources := map_fst_zip hl.le
  rw [hall, append_nil] at hn hf
  refine ⟨hl, nodup_reverse.1 (hn nodup_nil), hty, ?_⟩
  intro register ht hav
  by_contra hmem
  split at hf
  · cases hf
  · next hno =>
      have hlt := (List.getElem?_eq_some_iff.1 ht).1
      refine find?_eq_none.1 hno register (mem_range.2 hlt) (decide_eq_true ?_)
      exact ⟨by rw [ht]; rfl, hav, by simpa using hmem⟩

theorem flow_forward (h : flow program state pc = .ok edges) :
    ∀ edge ∈ edges, pc < edge.1 ∧ edge.1 < program.instructions.length := by
  have hf : ∀ {next : FlowState} {edges : FlowEdges},
      propagateFallthrough program pc next = .ok edges →
      ∀ edge ∈ edges, pc < edge.1 ∧ edge.1 < program.instructions.length := by
    intro next edges he
    obtain ⟨rfl, hlt⟩ := propagateFallthrough_eq_ok.1 he
    simpa using hlt
  unfold flow at h
  split at h
  · next instruction _ =>
      cases instruction with
      | loadU64 | loadBool | loadDigest =>
        obtain ⟨_, -, h⟩ := bind_eq_ok.1 h
        exact hf h
      | addU64 | eqU64 =>
        simp only [flowInstruction, flowBinary, inversion] at h
        exact hf h.2.2.2
      | copy =>
        simp only [flowInstruction, inversion] at h
        obtain ⟨_, -, -, -, h⟩ := h
        exact hf h
      | move =>
        simp only [flowInstruction, inversion] at h
        obtain ⟨_, -, -, h⟩ := h
        exact hf h
      | consumeCapability =>
        simp only [flowInstruction, inversion] at h
        exact hf h.2
      | emit =>
        simp only [flowInstruction, inversion] at h
        obtain ⟨_, -, -, -, h⟩ := h
        exact hf h
      | jump =>
        simp only [flowInstruction, bind_eq_ok, requireTarget_eq_ok] at h
        obtain ⟨_, ⟨rfl, hb, hfo⟩, hret⟩ := h
        cases hret
        simpa using ⟨hfo, hb⟩
      | branchIf =>
        simp only [flowInstruction, inversion, requireTarget_eq_ok, nextProgramCounter_eq_ok] at h
        obtain ⟨-, _, ⟨rfl, hb, hfo⟩, _, ⟨rfl, hn⟩, hret⟩ := h
        cases hret
        simpa using ⟨hn, hfo, hb⟩
      | ret =>
        obtain ⟨_, -, hret⟩ := bind_eq_ok.1 h
        cases hret
        simp
  · cases h
    simp

end Checks

/-! ## The certificates -/

instance : Preorder FlowState where
  le a b := a.registers = b.registers ∧ a.maximumEvents ≤ b.maximumEvents
  le_refl _ := ⟨rfl, Nat.le_refl _⟩
  le_trans _ _ _ h h' := ⟨h.1.trans h'.1, h.2.trans h'.2⟩

section Certificates

variable {program : VmProgram} {verified : VerifiedProgram}

theorem flow_sound (prog : VmProgram) :
    ForwardFlow.Sound mergeState fun pc s => flow prog s pc where
  upper h := by
    simp only [mergeState, inversion] at h
    obtain ⟨hs, hret⟩ := h
    cases hret
    exact ⟨⟨rfl, Nat.le_max_left _ _⟩, ⟨hs.symm, Nat.le_max_right _ _⟩⟩
  forward h edge hmem := (flow_forward h edge hmem).1

/-- The recorded states of a program, one per instruction, each closed under the flow. -/
structure Certified (verified : VerifiedProgram) : Prop where
  entry : ∃ state, verified.instructionStates[0]? = some state ∧
    entryState verified.program ≤ state
  flows : ∀ pc state, verified.instructionStates[pc]? = some state →
    ∃ edges, flow verified.program state pc = .ok edges ∧
      ∀ edge ∈ edges, ∃ above, verified.instructionStates[edge.1]? = some above ∧ edge.2 ≤ above
  length : verified.instructionStates.length = verified.program.instructions.length

theorem collect_eq_ok {states : List (Option FlowState)} {collected : List FlowState}
    (h : (states.zipIdx.mapM fun (state, pc) =>
      okOr state (VmVerificationError.unreachableInstruction pc)) = .ok collected) :
    states = collected.map some := by
  rw [← zipIdx_map_fst 0 states]
  generalize states.zipIdx = numbered at h ⊢
  induction mapM_eq_ok.1 h with
  | nil => rfl
  | cons hs hr ih =>
    rw [map_cons, map_cons, okOr_eq_ok.1 hs, ih (mapM_eq_ok.2 hr)]

theorem verify_certifies (h : verify program = .ok verified) :
    verified.program = program ∧ Certified verified := by
  simp only [verify, bind_eq_ok] at h
  obtain ⟨states, hpa, collected, hc, hret⟩ := h
  cases hret
  refine ⟨rfl, ?_⟩
  obtain ⟨hl, -, hco, hp⟩ := ForwardFlow.pass_sound (flow_sound program) _ hpa
  obtain rfl := collect_eq_ok hc
  rw [length_set, length_replicate, length_map] at hl
  have hs : ∀ {pc : Nat} {state}, (collected.map some)[pc]? = some (some state) ↔
      collected[pc]? = some state := by
    simp
  have hab : ∀ {pc : Nat} {state}, ForwardFlow.Covers (collected.map some) pc state →
      ∃ above, collected[pc]? = some above ∧ state ≤ above := by
    rintro pc state ⟨above, hget, hle⟩
    exact ⟨above, hs.1 hget, hle⟩
  refine ⟨hab (hco 0 _ ⟨_, ?_, le_rfl⟩), ?_, hl⟩
  · exact getElem?_set_self (by simpa using length_pos_iff.2 program.size.1)
  · intro pc state hget
    have hlt : pc < collected.length := (List.getElem?_eq_some_iff.1 hget).1
    obtain ⟨state', edges, hget', hf, he⟩ := hp pc (Nat.zero_le pc) (by omega)
    obtain rfl : state = state' := Option.some.inj (hget.symm.trans (hs.1 hget'))
    refine ⟨edges, hf, fun edge hmem => hab (he edge hmem ?_)⟩
    rw [length_map, hl]
    exact (flow_forward hf edge hmem).2

end Certificates

end ActiveChain.Vm
