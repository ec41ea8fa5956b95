import ActiveChain.Vm.Soundness

/-!
# The gas of a path (`object-vm`)

Gas decides only whether a run goes on: no instruction reads the gas counter or the limit.  A
verified program therefore has one path for its inputs, and the cost of that path is the limit it
needs.

* `executeInstruction_gasUsed` — an instruction leaves the counter as prepaid.
* `executeLoop_pathCost` — the rounds of a verified program, by induction over the instructions
  ahead.
-/

namespace ActiveChain.Vm

section Instruction

variable {program : VmProgram} {s : VmState}

/-- The gas counter of what a round leads to. -/
def gasOf : Outcome → Nat
  | .inl next => next.gasUsed
  | .inr result => result.gasUsed

theorem executeInstruction_gasUsed {i : VmInstruction} {o : Outcome}
    (h : executeInstruction program s i = .ok o) : gasOf o = s.gasUsed := by
  cases i <;> simp only [executeInstruction, Except.inversion, Prod.exists] at h
  case jump => rw [← h, gasOf]
  case loadU64 | loadBool | loadDigest | branchIf =>
    obtain ⟨_, -, rfl⟩ := h
    rfl
  case ret =>
    obtain ⟨_, _, -, r, hnew, rfl⟩ := h
    unfold VmExecutionResult.new at hnew
    split_ifs at hnew
    cases hnew
    rfl
  case consumeCapability =>
    obtain ⟨_, _, -, -, rfl⟩ := h
    rfl
  case copy | emit | move =>
    obtain ⟨_, _, _, _, _, rfl⟩ := h
    rfl
  case eqU64 =>
    obtain ⟨_, -, _, -, _, -, rfl⟩ := h
    rfl
  case addU64 =>
    obtain ⟨_, -, _, -, _, -, _, -, rfl⟩ := h
    rfl

end Instruction

/-! ## The cost of a path -/

/-- Runs with every gas limit that follow one path: with less than its cost they run out of gas, and
otherwise they all end with its outcome. -/
structure PathCost (run : Nat → Option (VmM VmExecutionResult)) (cost : Nat)
    (outcome : VmM VmExecutionResult) : Prop where
  exhausted : ∀ gasLimit < cost, ∃ pc gasUsed instructionCost,
    run gasLimit = some (.error (.gasExhausted pc gasUsed instructionCost gasLimit))
  paid : ∀ gasLimit, cost ≤ gasLimit → run gasLimit = some outcome
  used : ∀ result, outcome = .ok result → result.gasUsed = cost
  overflow : ∀ e, outcome = .error e → ∃ pc, e = .arithmeticOverflow pc

/-- No instruction costs more than a full return. -/
def maxGasCost : Nat := 1 + maxVmOutputs

section Rounds

variable {verified : VerifiedProgram} {s : VmState} {state : FlowState}

theorem gasCost_le {i : VmInstruction}
    (hmem : i ∈ verified.program.instructions) : i.gasCost ≤ maxGasCost := by
  cases i with
  | ret srcs => exact Nat.add_le_add_left (verified.program.returns srcs hmem) 1
  | _ => exact Nat.le_of_ble_eq_true rfl

variable {cost : Nat}

theorem prepayGas_eq {pc gasUsed gasLimit : Nat} (h : gasUsed + cost < 2 ^ 64) :
    prepayGas pc gasUsed cost gasLimit =
      if gasLimit < gasUsed + cost then .error (.gasExhausted pc gasUsed cost gasLimit)
      else .ok (gasUsed + cost) := by
  rw [prepayGas, okOr_eq_ok.2 (checkedAdd_eq_some.2 ⟨rfl, h⟩), Except.ok_bind, rejectIf]
  split_ifs <;> rfl

variable {o : VmM VmExecutionResult} {n : Nat}

theorem PathCost.last
    (hs : ∀ gasLimit < cost, ∃ pc gasUsed instructionCost, step verified gasLimit s = .error
      (.gasExhausted pc gasUsed instructionCost gasLimit))
    (hr : ∀ gasLimit, cost ≤ gasLimit → step verified gasLimit s = o.map .inr)
    (hu : ∀ r, o = .ok r → r.gasUsed = cost)
    (ho : ∀ e, o = .error e → ∃ pc, e = .arithmeticOverflow pc) :
    PathCost (executeLoop verified · (n + 1) s) cost o where
  exhausted gasLimit hlt := by
    obtain ⟨pc, gasUsed, instructionCost, hst⟩ := hs gasLimit hlt
    exact ⟨pc, gasUsed, instructionCost, by rw [executeLoop, hst]⟩
  paid gasLimit hle := by
    rw [executeLoop, hr gasLimit hle]
    cases o <;> rfl
  used := hu
  overflow := ho

theorem PathCost.cons {prepaid : Nat} {next : VmState}
    (hs : ∀ gasLimit < prepaid, ∃ pc gasUsed instructionCost, step verified gasLimit s = .error
      (.gasExhausted pc gasUsed instructionCost gasLimit))
    (hr : ∀ gasLimit, prepaid ≤ gasLimit → step verified gasLimit s = .ok (.inl next))
    (hle : prepaid ≤ cost) (h : PathCost (executeLoop verified · n next) cost o) :
    PathCost (executeLoop verified · (n + 1) s) cost o where
  exhausted gasLimit hlt := by
    by_cases hp : gasLimit < prepaid
    · obtain ⟨pc, gasUsed, instructionCost, hst⟩ := hs gasLimit hp
      exact ⟨pc, gasUsed, instructionCost, by rw [executeLoop, hst]⟩
    · obtain ⟨pc, gasUsed, instructionCost, hre⟩ := h.exhausted gasLimit hlt
      refine ⟨pc, gasUsed, instructionCost, ?_⟩
      rw [executeLoop, hr gasLimit (Nat.le_of_not_lt hp)]
      exact hre
  paid gasLimit hpa := by
    rw [executeLoop, hr gasLimit (hle.trans hpa)]
    exact h.paid gasLimit hpa
  used := h.used
  overflow := h.overflow

theorem executeLoop_pathCost (hc : Certified verified) (n : Nat) :
    ∀ {s : VmState} {st : FlowState}, Invariant verified s st →
      verified.program.instructions.length ≤ s.programCounter + n →
      s.gasUsed ≤ maxGasCost * s.programCounter →
      ∃ cost outcome, s.gasUsed ≤ cost ∧
        cost ≤ maxGasCost * verified.program.instructions.length ∧
        PathCost (executeLoop verified · n s) cost outcome := by
  induction n with
  | zero =>
    intro s st h hl _
    have hlt := (List.getElem?_eq_some_iff.1 h.recorded).1
    rw [hc.length] at hlt
    omega
  | succ n ih =>
    intro s st h hl hgas
    obtain ⟨instruction, edges, hi, hfl, -, hst⟩ := step_eq hc h
    have hlt := (List.getElem?_eq_some_iff.1 hi).1
    have hsi := verified.program.size.2
    have hco := gasCost_le (List.mem_of_getElem? hi)
    have hste := h.steps
    let prepaid := s.gasUsed + instruction.gasCost
    let t : VmState := { s with gasUsed := prepaid, steps := s.steps + 1 }
    have hpr : prepaid ≤ maxGasCost * (s.programCounter + 1) := by
      rw [Nat.mul_succ]
      omega
    have ht : maxGasCost * (s.programCounter + 1) ≤
        maxGasCost * verified.program.instructions.length := Nat.mul_le_mul_left _ hlt
    have hsm : prepaid < 2 ^ 64 := by
      have : maxGasCost * verified.program.instructions.length ≤ maxGasCost * 256 :=
        Nat.mul_le_mul_left _ hsi
      have : maxGasCost * 256 < 2 ^ 64 := by decide
      omega
    have hs : ∀ gasLimit < prepaid, ∃ pc gasUsed instructionCost, step verified gasLimit s =
        .error (.gasExhausted pc gasUsed instructionCost gasLimit) := by
      intro gasLimit hles
      refine ⟨s.programCounter, s.gasUsed, instruction.gasCost, ?_⟩
      rw [hst, prepayGas_eq hsm, if_pos hles]
      rfl
    have hr : ∀ gasLimit, prepaid ≤ gasLimit →
        step verified gasLimit s = executeInstruction verified.program t instruction := by
      intro gasLimit hle
      rw [hst, prepayGas_eq hsm, if_neg (Nat.not_lt.2 hle)]
      rfl
    have hso : Sound verified.program edges t (executeInstruction verified.program t instruction) :=
      executeInstruction_sound (s := t) h.agrees h.events h.eventsBounded
        ⟨Nat.succ_ne_zero _, by show s.steps + 1 ≤ _; omega⟩ hfl
    have had : Advances verified s (step verified prepaid s) := step_sound hc h
    rw [hr prepaid le_rfl] at had
    cases hrun : executeInstruction verified.program t instruction with
    | error e =>
      rw [hrun] at hso hr
      refine ⟨prepaid, .error e, Nat.le_add_right _ _, by omega, .last hs hr nofun ?_⟩
      rintro _ ⟨⟩
      exact ⟨_, hso⟩
    | ok outcome =>
      have hu : gasOf outcome = prepaid := executeInstruction_gasUsed hrun
      rw [hrun] at had hr
      cases outcome with
      | inr r =>
        refine ⟨prepaid, .ok r, Nat.le_add_right _ _, by omega,
          .last hs hr ?_ nofun⟩
        rintro _ ⟨⟩
        exact hu
      | inl next =>
        obtain ⟨hf, state', hn⟩ := had
        have hah : maxGasCost * (s.programCounter + 1) ≤
            maxGasCost * next.programCounter := Nat.mul_le_mul_left _ hf
        have hu : next.gasUsed = prepaid := hu
        obtain ⟨cost, outcome, hle, hmax, hp⟩ := ih hn (by omega) (by omega)
        exact ⟨cost, outcome, by omega, hmax, hp.cons hs hr (by omega)⟩

end Rounds

/-- **Every verified program has a path cost on inputs of its types**: with less gas it runs out
of gas, with that much or more it returns one and the same result, which has used exactly that
much, or it fails with one and the same overflow. -/
theorem execution_has_path_cost {program : VmProgram} {verified : VerifiedProgram}
    (h : verify program = .ok verified) {inputs : List VmValue} (hinputs : Typed program inputs) :
    ∃ cost outcome, cost ≤ maxGasCost * program.instructions.length ∧
      ∀ rounds, program.instructions.length ≤ rounds →
        PathCost (executeProgram verified inputs · rounds) cost outcome ∧
        ∀ gasLimit gasLimit' result, gasLimit ≤ gasLimit' →
          executeProgram verified inputs gasLimit rounds = some (.ok result) →
          executeProgram verified inputs gasLimit' rounds = some (.ok result) := by
  obtain ⟨rfl, hc⟩ := verify_certifies h
  have hs := initialState_eq_ok hinputs
  obtain ⟨s, state, hi, hpc, -, hin⟩ := invariant_entry hc hinputs
  have hgas : s.gasUsed = 0 := by
    rw [hs] at hi
    cases hi
    rfl
  obtain ⟨cost, outcome, -, hmax, hp⟩ := executeLoop_pathCost hc
    verified.program.instructions.length hin (Nat.le_add_left _ _) (hgas ▸ Nat.zero_le _)
  have hall : ∀ rounds, verified.program.instructions.length ≤ rounds →
      PathCost (executeProgram verified inputs · rounds) cost outcome := by
    intro rounds hr
    refine ⟨fun gasLimit hlt => ?_, fun gasLimit hle => ?_, hp.used, hp.overflow⟩
    · obtain ⟨pc, gasUsed, instructionCost, hrun⟩ := hp.exhausted gasLimit hlt
      refine ⟨pc, gasUsed, instructionCost, ?_⟩
      rw [executeProgram, hi]
      exact executeLoop_mono _ hr hrun
    · rw [executeProgram, hi]
      exact executeLoop_mono _ hr (hp.paid gasLimit hle)
  refine ⟨cost, outcome, hmax, fun rounds hr => ⟨hall rounds hr, ?_⟩⟩
  intro gasLimit gasLimit' result hle hrun
  have hco : cost ≤ gasLimit := by
    by_contra hsh
    obtain ⟨pc, gasUsed, instructionCost, hf⟩ :=
      (hall rounds hr).exhausted gasLimit (Nat.lt_of_not_le hsh)
    rw [hrun] at hf
    cases hf
  have ho := (hall rounds hr).paid gasLimit hco
  rw [hrun] at ho
  exact ((hall rounds hr).paid gasLimit' (hco.trans hle)).trans ho.symm

namespace SmallProgram

def result : VmExecutionResult where
  gasUsed := 9
  steps := 4
  outputs := [.object sharedObject]
  events := [.u64 12]
  stepsBounded := by decide
  outputsBounded := by decide
  eventsBounded := by decide

theorem program_path_cost : verify program = .ok verified ∧ Typed program inputs ∧
    PathCost (executeProgram verified inputs · 4) 9 (.ok result) := by
  refine ⟨verify_program, inputs_typed, ?_⟩
  obtain ⟨cost, outcome, -, hr⟩ := execution_has_path_cost verify_program inputs_typed
  obtain ⟨hp, hra⟩ := hr 4 (by decide)
  have hrun : executeProgram verified inputs 9 4 = some (.ok result) := rfl
  -- more gas than both costs shows the outcome, and the outcome shows the cost
  have ho : outcome = .ok result := by
    have hb := hra 9 (9 + cost) result (Nat.le_add_right _ _) hrun
    have hpa := hp.paid (9 + cost) (Nat.le_add_left _ _)
    exact Option.some.inj (hpa.symm.trans hb)
  obtain rfl : 9 = cost := hp.used result ho
  rwa [ho] at hp

end SmallProgram

end ActiveChain.Vm
