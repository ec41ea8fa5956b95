import ActiveChain.Lib.Slots
import ActiveChain.Vm.Soundness

/-!
# Verified programs keep their resources (`bytecode-verifier`, `object-vm`)

Scalars may be copied; objects and capabilities may only be moved, returned or, for capabilities,
consumed.  A projection that vanishes on scalars picks out such a resource.

* `consumedBy`, `consumedLoop` — the values that the rounds consume.
* `step_conserves`, `executeLoop_conserves` — one round and a whole run: what the registers held is
  what they hold, plus what was consumed and returned.
-/

namespace ActiveChain.Vm

open Except List

def VmValue.object? : VmValue → Option Object
  | .object value => some value
  | _ => none

def VmValue.capability? : VmValue → Option CapabilityId
  | .capability value => some value
  | _ => none

def VmInstruction.consumed (registers : Registers) : VmInstruction → List VmValue
  | .consumeCapability source => registers[source]?.join.toList
  | _ => []

def consumedBy (verified : VerifiedProgram) (s : VmState) : List VmValue :=
  match verified.program.instructions[s.programCounter]? with
  | some instruction => instruction.consumed s.registers
  | none => []

def consumedLoop (verified : VerifiedProgram) (gasLimit : Nat) : Nat → VmState → List VmValue
  | 0, _ => []
  | rounds + 1, s =>
    match step verified gasLimit s with
    | .ok (.inl next) => consumedBy verified s ++ consumedLoop verified gasLimit rounds next
    | _ => []

def consumedCapabilities (verified : VerifiedProgram) (inputs : List VmValue)
    (gasLimit rounds : Nat) : List CapabilityId :=
  match initialState verified.program inputs with
  | .error _ => []
  | .ok s => (consumedLoop verified gasLimit rounds s).filterMap VmValue.capability?

/-! ## Registers -/

/-- A projection to something that cannot be copied. -/
def Resource {β : Type} (f : VmValue → Option β) : Prop :=
  ∀ v : VmValue, v.valueType.isCopyable → f v = none

open VmValue

theorem resource_object : Resource object? := by
  intro v hv
  cases v <;> first | rfl | cases hv

theorem resource_capability : Resource capability? := by
  intro v hv
  cases v <;> first | rfl | cases hv

section Registers

variable {β : Type} {f : VmValue → Option β} {registers registers' : Registers} {pc : Nat}
  {register : Nat} {v : VmValue}

theorem readRegister_eq_ok :
    readRegister registers pc register = .ok v ↔ registers[register]? = some (some v) := by
  rw [readRegister, okOr_eq_ok, Option.join_eq_some_iff]

theorem held_fill (h : initializeRegister registers pc register v = .ok registers') :
    (held f registers').Perm (held f registers ++ (f v).toList) := by
  unfold initializeRegister at h
  split at h
  · cases h
  · cases h
  · next he =>
      cases h
      simpa using held_set (f := f) (some v) he

theorem held_take (h : takeRegister registers pc register = .ok (v, registers')) :
    (held f registers' ++ (f v).toList).Perm (held f registers) := by
  simp only [takeRegister, bind_eq_ok, readRegister_eq_ok] at h
  obtain ⟨v', hf, hret⟩ := h
  cases hret
  simpa using held_set (f := f) none hf

theorem held_takeAll (pc : Nat) (srcs : List Nat) : ∀ {regs rest : Registers}
    {outputs : List VmValue}, takeAll pc srcs regs = .ok (outputs, rest) →
      (held f rest ++ outputs.filterMap f).Perm (held f regs) := by
  induction srcs with
  | nil =>
    intro regs rest outputs h
    cases h
    simp
  | cons source srcs ih =>
    intro regs rest outputs h
    simp only [takeAll, bind_eq_ok, Prod.exists] at h
    obtain ⟨v, between, hta, outputs', rest', ht, hret⟩ := h
    cases hret
    have hr := (ih ht).append_right (f v).toList
    refine List.Perm.trans ?_ (hr.trans (held_take hta))
    rw [append_assoc, show (v :: outputs').filterMap f = (f v).toList ++ outputs'.filterMap f by
      rw [filterMap_cons]; cases f v <;> rfl]
    exact perm_append_comm.append_left _

end Registers

/-! ## Rounds -/

section Rounds

variable {β : Type} {f : VmValue → Option β} {program : VmProgram} {s next : VmState}

/-- **An instruction keeps every resource**, up to what it consumes. -/
theorem executeInstruction_conserves (hf : Resource f) {i : VmInstruction}
    (h : executeInstruction program s i = .ok (.inl next)) :
    (held f next.registers ++ (i.consumed s.registers).filterMap f).Perm (held f s.registers) := by
  have hs : ∀ {destination v regs}, v.valueType.isCopyable →
      initializeRegister s.registers s.programCounter destination v = .ok regs →
      s.fallthrough regs = .inl next → (held f next.registers).Perm (held f s.registers) := by
    rintro _ v _ hv hi ⟨⟩
    simpa [hf v hv] using held_fill (f := f) hi
  cases i <;> simp only [executeInstruction, inversion, Prod.exists] at h <;>
    simp only [VmInstruction.consumed, filterMap_nil, append_nil]
  case loadU64 | loadBool | loadDigest =>
    obtain ⟨_, hi, hret⟩ := h
    exact hs rfl hi hret
  case copy =>
    obtain ⟨v, -, hc, regs, hi, hret⟩ := h
    exact hs hc hi hret
  case move =>
    obtain ⟨v, between, ht, regs, hi, ⟨⟩⟩ := h
    exact (held_fill hi).trans (held_take ht)
  case addU64 =>
    obtain ⟨_, -, _, -, sum, -, regs, hi, hret⟩ := h
    exact hs rfl hi hret
  case eqU64 =>
    obtain ⟨a, -, b, -, regs, hi, hret⟩ := h
    exact hs rfl hi hret
  case jump =>
    cases h
    exact .refl _
  case branchIf =>
    obtain ⟨_, -, ⟨⟩⟩ := h
    exact .refl _
  case consumeCapability =>
    obtain ⟨v, regs, ht, -, ⟨⟩⟩ := h
    have hh := held_take (f := f) ht
    simp only [takeRegister, bind_eq_ok, readRegister_eq_ok] at ht
    obtain ⟨v', hfu, hta⟩ := ht
    cases hta
    rw [hfu]
    cases hv : f v <;> simpa [hv, VmState.fallthrough] using hh
  case emit =>
    obtain ⟨_, -, _, -, -, ⟨⟩⟩ := h
    exact .refl _
  case ret =>
    obtain ⟨_, _, -, _, -, ⟨⟩⟩ := h

variable {verified : VerifiedProgram} {gasLimit : Nat} {result : VmExecutionResult}

theorem execute_of_step {outcome : Outcome} (h : step verified gasLimit s = .ok outcome) :
    ∃ i gasUsed steps,
      verified.program.instructions[s.programCounter]? = some i ∧
      executeInstruction verified.program { s with gasUsed, steps } i = .ok outcome := by
  simp only [step, inversion] at h
  obtain ⟨-, i, hi, gasUsed, -, steps, -, hrun⟩ := h
  exact ⟨i, gasUsed, steps, hi, hrun⟩

theorem step_conserves (hf : Resource f) (h : step verified gasLimit s = .ok (.inl next)) :
    (held f next.registers ++ (consumedBy verified s).filterMap f).Perm (held f s.registers) := by
  obtain ⟨i, gasUsed, steps, hi, hrun⟩ := execute_of_step h
  have hc := executeInstruction_conserves hf hrun
  rw [consumedBy, hi]
  exact hc

theorem return_of_execute {i : VmInstruction}
    (h : executeInstruction program s i = .ok (.inr result)) :
    ∃ srcs rest, i = .ret srcs ∧
      takeAll s.programCounter srcs s.registers = .ok (result.outputs, rest) := by
  cases i with
  | ret srcs =>
    simp only [executeInstruction, inversion, Prod.exists] at h
    obtain ⟨outputs, rest, ht, result', hnew, hret⟩ := h
    cases hret
    unfold VmExecutionResult.new at hnew
    split_ifs at hnew
    cases hnew
    exact ⟨srcs, rest, rfl, ht⟩
  | jump => cases h
  | loadU64 | loadBool | loadDigest | branchIf =>
    obtain ⟨_, -, hret⟩ := bind_eq_ok.1 h
    cases hret
  | copy | move | addU64 | eqU64 | consumeCapability | emit =>
    simp [executeInstruction, bind_eq_ok, VmState.fallthrough, pure, Except.pure] at h

/-- The values that the last round leaves in the registers: no object is among them. -/
structure LeftInRegisters (s : VmState) (result : VmExecutionResult) (rest : Registers) : Prop where
  objects : held VmValue.object? rest = []
  conserved : ∀ {β : Type} (f : VmValue → Option β),
    (held f rest ++ result.outputs.filterMap f).Perm (held f s.registers)

/-- **The last round of a verified program returns every object.** -/
theorem return_conserves {st : FlowState} {r : VmExecutionResult} (hc : Certified verified)
    (hi : Invariant verified s st) (h : step verified gasLimit s = .ok (.inr r)) :
    ∃ rest, LeftInRegisters s r rest := by
  obtain ⟨ins, gasUsed, steps, hin, hrun⟩ := execute_of_step h
  obtain ⟨edges, hf, -⟩ := hc.flows _ _ hi.recorded
  obtain ⟨srcs, rest, rfl, ht⟩ := return_of_execute hrun
  rw [flow, hin] at hf
  obtain ⟨_, hve, -⟩ := bind_eq_ok.1 hf
  have hr := returns_of_verifyReturn hve
  obtain ⟨outputs, rest', ht', -, -, hl⟩ := takeAll_returns hi.agrees hr
  obtain ⟨rfl, rfl⟩ : r.outputs = outputs ∧ rest = rest' := by
    have := ht.symm.trans ht'
    simpa using this
  refine ⟨rest, eq_nil_iff_forall_not_mem.2 fun o ho => ?_, fun f => held_takeAll _ _ ht⟩
  -- an object that is left is available, so the verifier has seen it returned
  obtain ⟨i, v, hs, hv⟩ := mem_held.1 ho
  rw [hl i] at hs
  split_ifs at hs with hmem
  · cases hs
  · have hty := hi.agrees.typed i v hs
    cases v <;> cases hv
    exact hmem (hr.complete i hty ((hi.agrees.available i).2 ⟨_, hs⟩))

theorem executeLoop_conserves (hc : Certified verified) (n : Nat) :
    ∀ {s : VmState} {st : FlowState}, Invariant verified s st →
      executeLoop verified gasLimit n s = some (.ok result) →
      ∃ rest, held object? rest = [] ∧
        ∀ {β : Type} (f : VmValue → Option β), Resource f →
          (held f rest ++ result.outputs.filterMap f ++
            (consumedLoop verified gasLimit n s).filterMap f).Perm (held f s.registers) := by
  induction n with
  | zero =>
    intro s st _ h
    cases h
  | succ n ih =>
    intro s st hi h
    have hro : Advances verified s (step verified gasLimit s) := step_sound hc hi
    rw [executeLoop] at h
    split at h
    · cases h
    · next result' hs =>
        cases h
        obtain ⟨rest, hr⟩ := return_conserves hc hi hs
        refine ⟨rest, hr.objects, fun f _ => ?_⟩
        simpa [consumedLoop, hs] using hr.conserved f
    · next next hs =>
        rw [hs] at hro
        obtain ⟨-, state', hn⟩ := hro
        obtain ⟨rest, ho, hr⟩ := ih hn h
        refine ⟨rest, ho, fun f hf => ?_⟩
        have hl : consumedLoop verified gasLimit (n + 1) s =
            consumedBy verified s ++ consumedLoop verified gasLimit n next := by
          rw [consumedLoop, hs]
        rw [hl, filterMap_append]
        refine List.Perm.trans ?_ (((hr f hf).append_right _).trans (step_conserves hf hs))
        rw [append_assoc _ (List.filterMap f (consumedLoop _ _ _ _))]
        exact perm_append_comm.append_left _

theorem capability_of_consumedBy (h : step verified gasLimit s = .ok (.inl next)) :
    ∀ v ∈ consumedBy verified s, v.valueType = .capability := by
  intro v hv
  obtain ⟨i, gasUsed, steps, hi, hrun⟩ := execute_of_step h
  rw [consumedBy, hi] at hv
  cases i with
  | consumeCapability source =>
    simp only [executeInstruction, takeRegister, inversion, Prod.exists, readRegister_eq_ok] at hrun
    obtain ⟨v', regs, ⟨w, hf, hret⟩, hc, -⟩ := hrun
    cases hret
    obtain rfl : v = v' := by simpa [VmInstruction.consumed, hf] using hv
    exact hc
  | _ => cases hv

/-- **Only capabilities are consumed in a run.** -/
theorem capability_of_consumedLoop (n : Nat) :
    ∀ {s : VmState}, ∀ v ∈ consumedLoop verified gasLimit n s, v.valueType = .capability := by
  induction n with
  | zero => simp [consumedLoop]
  | succ n ih =>
    intro s v hv
    rw [consumedLoop] at hv
    split at hv
    · next next hs =>
        obtain hv | hv := mem_append.1 hv
        · exact capability_of_consumedBy hs v hv
        · exact ih v hv
    · cases hv

end Rounds

/-- **Resources are conserved.**  A successful run of a verified program on inputs of its types
returns the objects it was given, and no others; no capability is returned and consumed more often
than it was given; the outputs have the declared types; and the events stay within the
declaration. -/
theorem resources_conserved {program : VmProgram} {verified : VerifiedProgram}
    (h : verify program = .ok verified) {inputs : List VmValue} (hinputs : Typed program inputs)
    {gasLimit rounds : Nat} {result : VmExecutionResult}
    (hrun : executeProgram verified inputs gasLimit rounds = some (.ok result)) :
    (result.outputs.filterMap VmValue.object?).Perm (inputs.filterMap VmValue.object?) ∧
    (∀ capability, (result.outputs.filterMap VmValue.capability? ++
        consumedCapabilities verified inputs gasLimit rounds).count capability ≤
      (inputs.filterMap VmValue.capability?).count capability) ∧
    result.outputs.map VmValue.valueType = program.outputTypes ∧
    result.events.length ≤ program.maximumEvents := by
  obtain ⟨rfl, hce⟩ := verify_certifies h
  obtain ⟨s, state, hs, hpc, hre, hi⟩ := invariant_entry hce hinputs
  rw [executeProgram, hs] at hrun
  obtain ⟨rest, ho, hco⟩ := executeLoop_conserves hce rounds hi hrun
  have hg : ∀ {β : Type} (f : VmValue → Option β), held f s.registers = inputs.filterMap f := by
    intro β f
    rw [hre, inputRegisters, held_append, held_map_some, held_replicate_none, append_nil]
  have hd : Declared verified.program result := by
    obtain ⟨r, hr, hres, -⟩ := executeLoop_sound hce gasLimit
      (max rounds verified.program.instructions.length) hi (by omega)
    rw [executeLoop_mono rounds (Nat.le_max_left _ _) hrun] at hr
    exact hres result (Option.some.inj hr).symm
  refine ⟨?_, fun capability => ?_, hd.outputs, hd.events⟩
  · -- nothing that is consumed is an object
    have hob := hco object? resource_object
    have hcon : (consumedLoop verified gasLimit rounds s).filterMap object? = [] := by
      refine filterMap_eq_nil_iff.2 fun v hv => ?_
      have hc := capability_of_consumedLoop rounds v hv
      cases v <;> first | rfl | cases hc
    rwa [ho, nil_append, hg, hcon, append_nil] at hob
  · have hc := (hco capability? resource_capability).count_eq capability
    rw [hg] at hc
    simp only [consumedCapabilities, hs, count_append] at hc ⊢
    omega

namespace SpendingProgram

open SmallProgram (sharedObject)

/-- A program that moves an object, consumes one of two capabilities and returns the rest. -/
def program : VmProgram where
  inputCount := 3
  registerTypes := [.object, .capability, .capability, .object]
  outputTypes := [.object, .capability]
  instructions := [.consumeCapability 1, .move 3 0, .ret [3, 2]]
  maximumEvents := 0
  registers := by decide
  inputs := by decide
  outputs := by decide
  size := by decide
  returns := by
    intro sources hmem
    obtain rfl : sources = [3, 2] := by simpa using hmem
    decide
  events := by decide

def verified : VerifiedProgram where
  program := program
  instructionStates := [⟨[.available, .available, .available, .uninitialized], 0⟩,
    ⟨[.available, .moved, .available, .uninitialized], 0⟩,
    ⟨[.moved, .moved, .available, .available], 0⟩]

def inputs : List VmValue := [.object sharedObject, .capability 9, .capability 9]

def result : VmExecutionResult where
  gasUsed := 5
  steps := 3
  outputs := [.object sharedObject, .capability 9]
  events := []
  stepsBounded := by decide
  outputsBounded := by decide
  eventsBounded := by decide

theorem spending_conserved :
    verify program = .ok verified ∧ Typed program inputs ∧
      executeProgram verified inputs 5 3 = some (.ok result) ∧
      consumedCapabilities verified inputs 5 3 = [9] ∧
      (result.outputs.filterMap VmValue.object?).Perm (inputs.filterMap VmValue.object?) := by
  have hv : verify program = .ok verified := rfl
  have ht : Typed program inputs := rfl
  have hrun : executeProgram verified inputs 5 3 = some (.ok result) := rfl
  exact ⟨hv, ht, hrun, rfl, (resources_conserved hv ht hrun).1⟩

end SpendingProgram

end ActiveChain.Vm
