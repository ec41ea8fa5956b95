import ActiveChain.Vm.Execute

/-!
# Verified programs run safely (`bytecode-verifier`, `object-vm`)

* `executeInstruction_sound` — one instruction, case by case: it ends in a state that one of its
  edges describes, returns, or overflows.
* `step_sound`, `executeLoop_sound` — one round, and a whole run: each round goes forward.
-/

namespace ActiveChain.Vm

open Except List VmValue

/-! ## Registers and their record -/

/-- The registers hold values of their types, exactly where the record says `available`. -/
structure Agrees (types : List VmValueType) (record : List RegisterState) (registers : Registers) :
    Prop where
  length : registers.length = types.length
  recorded : record.length = types.length
  available : ∀ i : Nat, record[i]? = some .available ↔ ∃ v, registers[i]? = some (some v)
  typed : ∀ (i : Nat) (v : VmValue), registers[i]? = some (some v) → types[i]? = some v.valueType

namespace Agrees

variable {types : List VmValueType} {record : List RegisterState} {registers : Registers}
  {register : Nat} (pc : Nat)

theorem admits {s : FlowState} {eventCount : Nat}
    (h : Agrees types s.registers registers) (hevents : eventCount ≤ s.maximumEvents) :
    s.AdmitsRuntimeState (registers.map Option.isSome) eventCount := by
  refine ⟨by rw [length_map, h.length, h.recorded], hevents, ?_⟩
  intro e he
  obtain ⟨i, hi⟩ := mem_iff_getElem?.1 he
  rw [getElem?_zip_eq_some, getElem?_map, Option.map_eq_some_iff] at hi
  obtain ⟨hr, slot, hs, hso⟩ := hi
  have hav := h.available i
  rw [hr, Option.some.injEq, hs] at hav
  rw [hav, ← hso]
  cases slot <;> simp

variable (h : Agrees types record registers)
include h

section

variable (hav : record[register]? = some .available)
include hav

theorem read {t : VmValueType} (ht : types[register]? = some t) :
    ∃ v, registers[register]? = some (some v) ∧ v.valueType = t ∧
      readRegister registers pc register = .ok v := by
  obtain ⟨v, hv⟩ := (h.available register).1 hav
  have heq := Option.some.inj ((h.typed register v hv).symm.trans ht)
  refine ⟨v, hv, heq, ?_⟩
  rw [readRegister, hv]
  rfl

theorem readU64 (ht : types[register]? = some .u64) :
    ∃ n, readU64 registers pc register = .ok n := by
  obtain ⟨v, -, hv, hr⟩ := h.read pc hav ht
  cases v <;> cases hv
  rw [Vm.readU64, hr]
  exact ⟨_, rfl⟩

theorem readBool (ht : types[register]? = some .bool) :
    ∃ b, readBool registers pc register = .ok b := by
  obtain ⟨v, -, hv, hr⟩ := h.read pc hav ht
  cases v <;> cases hv
  rw [Vm.readBool, hr]
  exact ⟨_, rfl⟩

end

omit pc in
theorem set (hlt : register < types.length) {slot : Option VmValue} {s : RegisterState}
    (hs : s = .available ↔ slot.isSome) (ht : ∀ v ∈ slot, types[register]? = some v.valueType) :
    Agrees types (record.set register s) (registers.set register slot) := by
  have hr := h.recorded
  have hl := h.length
  refine ⟨by rw [length_set, hl], by rw [length_set, hr], ?_, ?_⟩
  · intro i
    by_cases heq : register = i
    · subst heq
      rw [getElem?_set_self (by omega), getElem?_set_self (by omega), Option.some.injEq,
        hs]
      cases slot <;> simp
    · rw [getElem?_set_ne heq, getElem?_set_ne heq]
      exact h.available i
  · intro i v hv
    by_cases heq : register = i
    · subst heq
      rw [getElem?_set_self (by omega), Option.some.injEq] at hv
      exact ht v hv
    · rw [getElem?_set_ne heq] at hv
      exact h.typed i v hv

theorem fill {v : VmValue} (ht : types[register]? = some v.valueType)
    (hf : record[register]? = some .uninitialized) :
    initializeRegister registers pc register v = .ok (registers.set register (some v)) ∧
      Agrees types (record.set register .available) (registers.set register (some v)) := by
  have hlt := (List.getElem?_eq_some_iff.1 ht).1
  have hl := h.length
  have he : registers[register]? = some none := by
    cases hs : registers[register]? with
    | none =>
      rw [List.getElem?_eq_none_iff] at hs
      omega
    | some slot =>
      cases slot with
      | none => rfl
      | some w =>
        rw [(h.available register).2 ⟨w, hs⟩] at hf
        cases hf
  refine ⟨by rw [initializeRegister, he], h.set hlt (by simp) ?_⟩
  rintro w ⟨⟩
  exact ht

theorem drain (hlt : register < types.length) :
    Agrees types (record.set register .moved) (registers.set register none) :=
  h.set hlt (by simp) (by simp)

end Agrees

theorem takeAll_eq_ok (pc : Nat) (srcs : List Nat) : ∀ {regs : Registers},
    srcs.Nodup → (∀ source ∈ srcs, ∃ v, regs[source]? = some (some v)) →
    ∃ outputs rest, takeAll pc srcs regs = .ok (outputs, rest) ∧
      srcs.map (regs[·]?) = outputs.map (fun v => some (some v)) ∧
      ∀ i : Nat, rest[i]? = if i ∈ srcs then some none else regs[i]? := by
  induction srcs with
  | nil =>
    intro regs _ _
    exact ⟨[], regs, rfl, rfl, fun i => by simp⟩
  | cons source srcs ih =>
    intro regs hn hall
    obtain ⟨hf, hn⟩ := nodup_cons.1 hn
    obtain ⟨⟨v, hv⟩, hr⟩ := forall_mem_cons.1 hall
    have ho : ∀ i ∈ srcs, (regs.set source none)[i]? = regs[i]? := by
      intro i hi
      exact getElem?_set_ne (by rintro rfl; exact hf hi)
    obtain ⟨outputs, rest, ht, hou, hl⟩ := ih hn fun i hi => by
      rw [ho i hi]
      exact hr i hi
    have hre : readRegister regs pc source = .ok v := by
      rw [readRegister, hv]
      rfl
    refine ⟨v :: outputs, rest, ?_, ?_, ?_⟩
    · rw [takeAll, takeRegister, hre]
      simp [ok_bind, ht]
    · rw [map_cons, map_cons, hv, ← hou, map_congr_left ho]
    · intro i
      have hlt := (List.getElem?_eq_some_iff.1 hv).1
      rw [hl i]
      by_cases heq : source = i
      · subst heq
        rw [if_neg hf, if_pos mem_cons_self, getElem?_set_self hlt]
      · rw [getElem?_set_ne heq]
        simp [Ne.symm heq]

/-! ## One round -/

/-- What holds in front of every round. -/
structure Invariant (verified : VerifiedProgram) (s : VmState) (state : FlowState) : Prop where
  recorded : verified.instructionStates[s.programCounter]? = some state
  agrees : Agrees verified.program.registerTypes state.registers s.registers
  events : s.events.length ≤ state.maximumEvents
  eventsBounded : s.events.length ≤ verified.program.maximumEvents
  steps : s.steps ≤ s.programCounter

section

variable (program : VmProgram) (edges : FlowEdges)

/-- The state behind an instruction is described by one of its edges. -/
def Follows (s next : VmState) : Prop :=
  ∃ edge ∈ edges, next.programCounter = edge.1 ∧
    Agrees program.registerTypes edge.2.registers next.registers ∧
    next.events.length ≤ edge.2.maximumEvents ∧ next.events.length ≤ program.maximumEvents ∧
    next.steps = s.steps

/-- A result as the program declares it. -/
structure Finishes (s : VmState) (result : VmExecutionResult) : Prop where
  steps : result.steps = s.steps
  outputs : result.outputs.map VmValue.valueType = program.outputTypes
  events : result.events.length ≤ program.maximumEvents

/-- What an instruction that passed its checks can do. -/
def Sound (s : VmState) : VmM Outcome → Prop
  | .ok (.inl next) => Follows program edges s next
  | .ok (.inr result) => Finishes program s result
  | .error e => e = .arithmeticOverflow s.programCounter

/-- What the checks of an instruction promise. -/
def StepSound (state : FlowState) (s : VmState) (i : VmInstruction) : Prop :=
  flowInstruction program state s.programCounter i = .ok edges →
    Sound program edges s (executeInstruction program s i)

end

section Instructions

variable {program : VmProgram} {state : FlowState} {s : VmState} {edges : FlowEdges}
  (hagrees : Agrees program.registerTypes state.registers s.registers)
  (hevents : s.events.length ≤ state.maximumEvents)
  (hbounded : s.events.length ≤ program.maximumEvents)

section Fallthrough

include hevents hbounded

theorem sound_fallthrough {r : List RegisterState} {registers : Registers}
    (hf : propagateFallthrough program s.programCounter { state with registers := r } =
      .ok edges) (h : Agrees program.registerTypes r registers) :
    Sound program edges s (.ok (s.fallthrough registers)) := by
  obtain ⟨rfl, -⟩ := propagateFallthrough_eq_ok.1 hf
  exact ⟨_, mem_singleton_self _, rfl, h, hevents, hbounded, rfl⟩

include hagrees

variable {dst : Nat} {v : VmValue}

theorem sound_write (ht : program.registerTypes[dst]? = some v.valueType)
    (hfr : state.registers[dst]? = some .uninitialized)
    (hfl : propagateFallthrough program s.programCounter (state.setRegister dst .available) = .ok
      edges) :
    Sound program edges s (do
      return s.fallthrough (← initializeRegister s.registers s.programCounter dst v)) := by
  obtain ⟨hi, hf⟩ := hagrees.fill s.programCounter ht hfr
  rw [hi]
  exact sound_fallthrough hevents hbounded hfl hf

theorem sound_load (hf : flowLoad program state s.programCounter dst v.valueType = .ok edges) :
    Sound program edges s (do
      return s.fallthrough (← initializeRegister s.registers s.programCounter dst v)) := by
  simp only [flowLoad, inversion, requireDestination_eq_ok] at hf
  obtain ⟨⟨ht, hfr⟩, hf⟩ := hf
  exact sound_write hagrees hevents hbounded ht hfr hf

variable {source : Nat}

theorem sound_copy : StepSound program edges state s (.copy dst source) := by
  intro hf
  simp only [flowInstruction, inversion, requireSource_eq_ok, requireDestination_eq_ok] at hf
  obtain ⟨_, ⟨ht, hav⟩, hc, ⟨hd, hfr⟩, hf⟩ := hf
  obtain ⟨v, -, rfl, hr⟩ := hagrees.read s.programCounter hav ht
  rw [executeInstruction, hr, ok_bind, rejectIf_of_not (not_not.2 hc), ok_bind]
  exact sound_write hagrees hevents hbounded hd hfr hf

theorem sound_move {destination : Nat} :
    StepSound program edges state s (.move destination source) := by
  intro hf
  simp only [flowInstruction, inversion, requireSource_eq_ok, requireDestination_eq_ok] at hf
  obtain ⟨_, ⟨ht, hav⟩, ⟨hd, hfr⟩, hf⟩ := hf
  obtain ⟨v, -, rfl, hr⟩ := hagrees.read s.programCounter hav ht
  have hne : source ≠ destination := by
    rintro rfl
    rw [hav] at hfr
    cases hfr
  have hdr := hagrees.drain (List.getElem?_eq_some_iff.1 ht).1
  obtain ⟨hi, hfi⟩ := hdr.fill s.programCounter hd (by rw [getElem?_set_ne hne, hfr])
  rw [executeInstruction, takeRegister, hr]
  simp only [ok_bind, pure, Except.pure, hi]
  exact sound_fallthrough hevents hbounded hf hfi

theorem flowBinary_eq_ok {left right : Nat} {t : VmValueType}
    (hf : flowBinary program state s.programCounter dst left right t = .ok edges) :
    (∃ n, readU64 s.registers s.programCounter left = .ok n) ∧
      (∃ n, readU64 s.registers s.programCounter right = .ok n) ∧
      ∀ v : VmValue, v.valueType = t → Sound program edges s (do
        return s.fallthrough (← initializeRegister s.registers s.programCounter dst v)) := by
  simp only [flowBinary, inversion, requireDestination_eq_ok, requireSourceType_eq_ok] at hf
  obtain ⟨⟨hd, hfr⟩, ⟨hl, hl'⟩, ⟨hr, hr'⟩, hf⟩ := hf
  refine ⟨hagrees.readU64 s.programCounter hl' hl, hagrees.readU64 s.programCounter hr' hr, ?_⟩
  rintro v rfl
  exact sound_write hagrees hevents hbounded hd hfr hf

theorem sound_consume : StepSound program edges state s (.consumeCapability source) := by
  intro hf
  simp only [flowInstruction, inversion, requireSourceType_eq_ok] at hf
  obtain ⟨⟨ht, hav⟩, hf⟩ := hf
  obtain ⟨v, -, hv, hr⟩ := hagrees.read s.programCounter hav ht
  have hd := hagrees.drain (List.getElem?_eq_some_iff.1 ht).1
  rw [executeInstruction, takeRegister, hr]
  simp only [ok_bind, pure, Except.pure, rejectIf_of_not (not_not.2 hv)]
  exact sound_fallthrough hevents hbounded hf hd

theorem sound_branchIf {condition target : Nat} :
    StepSound program edges state s (.branchIf condition target) := by
  intro hf
  simp only [flowInstruction, inversion, requireSourceType_eq_ok, requireTarget_eq_ok,
    nextProgramCounter_eq_ok] at hf
  obtain ⟨⟨ht, hav⟩, _, ⟨rfl, -⟩, _, ⟨rfl, -⟩, hret⟩ := hf
  cases hret
  obtain ⟨b, hr⟩ := hagrees.readBool s.programCounter hav ht
  rw [executeInstruction, hr, ok_bind]
  cases b with
  | false =>
    exact ⟨_, mem_cons_self, rfl, hagrees, hevents, hbounded, rfl⟩
  | true =>
    exact ⟨_, mem_cons_of_mem _ mem_cons_self, rfl, hagrees, hevents, hbounded, rfl⟩

theorem sound_emit : StepSound program edges state s (.emit source) := by
  intro hf
  simp only [flowInstruction, inversion, requireSource_eq_ok, not_lt,
    propagateFallthrough_eq_ok] at hf
  obtain ⟨_, ⟨ht, hav⟩, hs, hli, rfl, -⟩ := hf
  obtain ⟨v, -, rfl, hr⟩ := hagrees.read s.programCounter hav ht
  obtain ⟨event, he⟩ : ∃ event, VmEventValue.fromVmValue v = some event := by
    cases v <;> first | exact ⟨_, rfl⟩ | cases hs
  rw [executeInstruction, hr, ok_bind, okOr_eq_ok.2 he, ok_bind, rejectIf_of_not (by omega)]
  have hl : (s.events ++ [event]).length = s.events.length + 1 := length_append
  refine ⟨_, mem_singleton_self _, rfl, hagrees, ?_, ?_, rfl⟩
  · show (s.events ++ [event]).length ≤ state.maximumEvents + 1
    omega
  · show (s.events ++ [event]).length ≤ program.maximumEvents
    omega

end Fallthrough

include hagrees in
theorem takeAll_returns {sources : List Nat} (hr : Returns program state sources) :
    ∃ outputs rest, takeAll s.programCounter sources s.registers = .ok (outputs, rest) ∧
      outputs.map valueType = program.outputTypes ∧
      sources.map (s.registers[·]?) = outputs.map (fun v => some (some v)) ∧
      ∀ i : Nat, rest[i]? = if i ∈ sources then some none else s.registers[i]? := by
  have hzip : (sources.zip program.outputTypes).map Prod.fst = sources := map_fst_zip hr.length.le
  have hp : ∀ source ∈ sources, ∃ v, s.registers[source]? = some (some v) := by
    intro source hmem
    rw [← hzip] at hmem
    obtain ⟨e, he, rfl⟩ := mem_map.1 hmem
    exact (hagrees.available e.1).1 (hr.typed e he).2
  obtain ⟨outputs, rest, ht, ho, hre⟩ := takeAll_eq_ok s.programCounter sources hr.nodup hp
  refine ⟨outputs, rest, ht, ?_, ho, hre⟩
  -- the types of the sources, read once off the signature and once off the values
  have hs : sources.map (program.registerTypes[·]?) = program.outputTypes.map some := by
    calc sources.map (program.registerTypes[·]?)
        = (sources.zip program.outputTypes).map fun e => program.registerTypes[e.1]? := by
          rw [← hzip, map_map, hzip]
          rfl
      _ = (sources.zip program.outputTypes).map fun e => some e.2 :=
          map_congr_left fun e he => (hr.typed e he).1
      _ = ((sources.zip program.outputTypes).map Prod.snd).map some := by
          rw [map_map]
          rfl
      _ = program.outputTypes.map some := by rw [map_snd_zip hr.length.ge]
  have hva : sources.map (program.registerTypes[·]?) =
      (outputs.map valueType).map some := by
    calc sources.map (program.registerTypes[·]?)
        = (sources.map (s.registers[·]?)).map fun slot => slot.join.map valueType := by
          rw [map_map]
          refine map_congr_left fun source hmem => ?_
          obtain ⟨v, hv⟩ := hp source hmem
          simp [hv, hagrees.typed source v hv]
      _ = (outputs.map valueType).map some := by
          rw [ho, map_map, map_map]
          rfl
  exact (map_injective_iff.2 (Option.some_injective _)) (hva.symm.trans hs)

include hagrees hbounded in
theorem sound_ret {srcs : List Nat} (hs : s.steps ≠ 0 ∧ s.steps ≤ maxVmInstructions) :
    StepSound program edges state s (.ret srcs) := by
  intro hf
  obtain ⟨_, hv, -⟩ := bind_eq_ok.1 hf
  have hr := returns_of_verifyReturn hv
  obtain ⟨outputs, rest, hta, ht, -⟩ := takeAll_returns hagrees hr
  have hc : outputs.length ≤ maxVmOutputs := by
    rw [← length_map valueType, ht]
    exact program.outputs
  have hl := program.events
  rw [executeInstruction, hta]
  simp only [ok_bind, VmExecutionResult.new]
  rw [dif_neg (by omega), dif_neg (by omega), dif_neg (by omega)]
  exact ⟨rfl, ht, hbounded⟩

include hagrees hevents hbounded in
theorem executeInstruction_sound {i : VmInstruction}
    (hs : s.steps ≠ 0 ∧ s.steps ≤ maxVmInstructions)
    (hf : flowInstruction program state s.programCounter i = .ok edges) :
    Sound program edges s (executeInstruction program s i) := by
  cases i with
  | loadU64 | loadBool | loadDigest => exact sound_load hagrees hevents hbounded hf
  | copy => exact sound_copy hagrees hevents hbounded hf
  | move => exact sound_move hagrees hevents hbounded hf
  | addU64 dst left right =>
    obtain ⟨⟨a, ha⟩, ⟨b, hb⟩, hw⟩ := flowBinary_eq_ok hagrees hevents hbounded hf
    rw [executeInstruction, ha, ok_bind, hb, ok_bind, addU64Checked]
    cases checkedAdd 64 a b with
    | none => rfl
    | some v => exact hw (.u64 v) rfl
  | eqU64 dst left right =>
    obtain ⟨⟨a, ha⟩, ⟨b, hb⟩, hw⟩ := flowBinary_eq_ok hagrees hevents hbounded hf
    rw [executeInstruction, ha, ok_bind, hb, ok_bind]
    exact hw (.bool _) rfl
  | jump target =>
    obtain ⟨_, ht, hret⟩ := bind_eq_ok.1 hf
    obtain ⟨rfl, -⟩ := requireTarget_eq_ok.1 ht
    cases hret
    exact ⟨_, mem_singleton_self _, rfl, hagrees, hevents, hbounded, rfl⟩
  | branchIf => exact sound_branchIf hagrees hevents hbounded hf
  | consumeCapability => exact sound_consume hagrees hevents hbounded hf
  | emit => exact sound_emit hagrees hevents hbounded hf
  | ret => exact sound_ret hagrees hbounded hs hf

end Instructions

section Rounds

variable {verified : VerifiedProgram} {gasLimit : Nat} {s : VmState} {state : FlowState}

/-- A failure that a verified program may have. -/
def VmExecutionError.Expected : VmExecutionError → Prop
  | .gasExhausted .. | .arithmeticOverflow _ => True
  | _ => False

theorem step_eq (hc : Certified verified) (h : Invariant verified s state) :
    ∃ i edges, verified.program.instructions[s.programCounter]? = some i ∧
      flowInstruction verified.program state s.programCounter i = .ok edges ∧
      (∀ edge ∈ edges, s.programCounter < edge.1 ∧
        ∃ above, verified.instructionStates[edge.1]? = some above ∧ edge.2 ≤ above) ∧
      ∀ gasLimit, step verified gasLimit s = (do
        let gasUsed ← prepayGas s.programCounter s.gasUsed i.gasCost gasLimit
        executeInstruction verified.program { s with gasUsed, steps := s.steps + 1 }
          i) := by
  obtain ⟨edges, hf, he⟩ := hc.flows _ _ h.recorded
  have hlt := (List.getElem?_eq_some_iff.1 h.recorded).1
  rw [hc.length] at hlt
  have hs := verified.program.size.2
  have hste := h.steps
  have hi : verified.program.instructions[s.programCounter]? =
    some (verified.program.instructions[s.programCounter]) := getElem?_eq_getElem hlt
  have hfo := flow_forward hf
  rw [flow, hi] at hf
  refine ⟨_, edges, hi, hf, fun edge hmem => ⟨(hfo edge hmem).1, he edge hmem⟩, fun gasLimit => ?_⟩
  have hst : checkedAdd 16 s.steps 1 = some (s.steps + 1) := by
    refine checkedAdd_eq_some.2 ⟨rfl, ?_⟩
    simp only [maxVmInstructions] at hs
    omega
  have had := h.agrees.admits h.events
  rw [step, verifyRuntimeRefinement, okOr_eq_ok.2 h.recorded, ok_bind,
    rejectIf_of_not (not_not.2 had), ok_bind, okOr_eq_ok.2 hi, ok_bind]
  simp only [okOr_eq_ok.2 hst, ok_bind]

theorem prepayGas_expected {pc gasUsed cost : Nat} {e : VmExecutionError}
    (h : prepayGas pc gasUsed cost gasLimit = .error e) : e.Expected := by
  unfold prepayGas at h
  cases hadd : checkedAdd 64 gasUsed cost with
  | none =>
    rw [hadd] at h
    cases h
    trivial
  | some nextGas =>
    rw [hadd, okOr_eq_ok.2 rfl, ok_bind] at h
    by_cases hl : gasLimit < nextGas
    · rw [rejectIf, if_pos hl] at h
      cases h
      trivial
    · rw [rejectIf_of_not hl] at h
      cases h

/-- A result within the declaration of the program. -/
structure Declared (program : VmProgram) (result : VmExecutionResult) : Prop where
  steps : result.steps ≤ program.instructions.length
  outputs : result.outputs.map VmValue.valueType = program.outputTypes
  events : result.events.length ≤ program.maximumEvents

/-- The invariant carries over to a later instruction, or the program ends as declared, or it fails
for gas or an overflow. -/
def Advances (verified : VerifiedProgram) (s : VmState) : VmM Outcome → Prop
  | .ok (.inl next) =>
    s.programCounter < next.programCounter ∧ ∃ state, Invariant verified next state
  | .ok (.inr result) => Declared verified.program result
  | .error e => e.Expected

theorem step_sound (hc : Certified verified) (h : Invariant verified s state) :
    Advances verified s (step verified gasLimit s) := by
  obtain ⟨i, edges, hi, hf, he, hst⟩ := step_eq hc h
  have hlt := (List.getElem?_eq_some_iff.1 hi).1
  have hsi := verified.program.size.2
  have hste := h.steps
  rw [hst]
  cases hgas : prepayGas s.programCounter s.gasUsed i.gasCost gasLimit with
  | error e => exact prepayGas_expected hgas
  | ok gasUsed =>
    let t : VmState := { s with gasUsed, steps := s.steps + 1 }
    have hs : Sound verified.program edges t (executeInstruction verified.program t i) :=
      executeInstruction_sound (s := t) h.agrees h.events h.eventsBounded
        ⟨Nat.succ_ne_zero _, by show s.steps + 1 ≤ _; omega⟩ hf
    rw [ok_bind]
    cases hrun : executeInstruction verified.program t i with
    | error e =>
      rw [hrun] at hs
      cases hs
      trivial
    | ok o =>
      rw [hrun] at hs
      cases o with
      | inr r =>
        refine ⟨?_, hs.outputs, hs.events⟩
        rw [hs.steps]
        show s.steps + 1 ≤ _
        omega
      | inl next =>
        obtain ⟨edge, hmem, hpc, hagrees, hevents, hbounded, hco⟩ := hs
        obtain ⟨hfo, above, hre, hr, hm⟩ := he edge hmem
        refine ⟨by omega, above, by rw [hpc]; exact hre, hr ▸ hagrees,
          hevents.trans hm, hbounded, ?_⟩
        rw [hco, hpc]
        show s.steps + 1 ≤ _
        omega

theorem executeLoop_sound (hc : Certified verified) (gasLimit n : Nat) :
    ∀ {s : VmState} {st : FlowState}, Invariant verified s st →
      verified.program.instructions.length ≤ s.programCounter + n →
      ∃ r, executeLoop verified gasLimit n s = some r ∧
        (∀ res, r = .ok res → Declared verified.program res) ∧
        ∀ e, r = .error e → e.Expected := by
  induction n with
  | zero =>
    intro s st h hl
    have hlt := (List.getElem?_eq_some_iff.1 h.recorded).1
    rw [hc.length] at hlt
    omega
  | succ n ih =>
    intro s st h hl
    have hr : Advances verified s (step verified gasLimit s) := step_sound hc h
    rw [executeLoop]
    cases hs : step verified gasLimit s with
    | error e =>
      rw [hs] at hr
      exact ⟨_, rfl, by simp, fun _ heq => by cases heq; exact hr⟩
    | ok o =>
      rw [hs] at hr
      cases o with
      | inr res => exact ⟨_, rfl, fun _ heq => by cases heq; exact hr, by simp⟩
      | inl next =>
        obtain ⟨hf, state', hn⟩ := hr
        exact ih hn (by omega)

end Rounds

/-! ## From the inputs to the result -/

section Inputs

variable {program : VmProgram} {inputs : List VmValue}

/-- The inputs have the types of the registers that they fill. -/
def Typed (program : VmProgram) (inputs : List VmValue) : Prop :=
  inputs.map VmValue.valueType = program.registerTypes.take program.inputCount
deriving Decidable

theorem loadInputs_eq_ok (types : List VmValueType) (inputs : List VmValue) :
    ∀ (filled : Registers) (free : Nat), inputs.length ≤ free →
      (∀ i v, inputs[i]? = some v → types[filled.length + i]? = some v.valueType) →
      loadInputs types (inputs.zipIdx filled.length) (filled ++ replicate free none) =
        .ok (filled ++ inputs.map some ++ replicate (free - inputs.length) none) := by
  induction inputs with
  | nil =>
    simp [loadInputs]
  | cons input inputs ih =>
    intro filled free hf ht
    obtain ⟨free, rfl⟩ : ∃ k, free = k + 1 := ⟨free - 1, by simp at hf; omega⟩
    have hty : types.getD filled.length .u64 = input.valueType := by
      have := ht 0 input rfl
      simp_all
    have hset : (filled ++ replicate (free + 1) none).set filled.length (some input) =
        (filled ++ [some input]) ++ replicate free none := by
      simp [replicate_succ]
    rw [zipIdx_cons, loadInputs, hty, rejectIf_of_not (by simp), ok_bind, hset]
    have hr := ih (filled ++ [some input]) free (by simp at hf; omega) fun i v hv => by
      have := ht (i + 1) v hv
      rwa [length_append, length_singleton, Nat.add_assoc, Nat.add_comm 1]
    rw [length_append, length_singleton] at hr
    rw [hr]
    simp

variable (h : Typed program inputs)
include h

theorem Typed.length : inputs.length = program.inputCount := by
  rw [← length_map valueType, h, length_take]
  exact Nat.min_eq_left program.inputs.2

theorem Typed.getElem? {i : Nat} {v : VmValue} (hv : inputs[i]? = some v) :
    program.registerTypes[i]? = some v.valueType := by
  have hmap : (inputs.map valueType)[i]? = some v.valueType := by
    rw [getElem?_map, hv]
    rfl
  have hlt : i < program.inputCount := h.length ▸ (List.getElem?_eq_some_iff.1 hv).1
  rwa [h, getElem?_take_of_lt hlt] at hmap

/-- The registers in front of the first round. -/
def inputRegisters (program : VmProgram) (inputs : List VmValue) : Registers :=
  inputs.map some ++ List.replicate (program.registerTypes.length - program.inputCount) none

theorem initialState_eq_ok :
    initialState program inputs =
      .ok { registers := inputRegisters program inputs, programCounter := 0, gasUsed := 0,
            steps := 0, events := [] } := by
  have hl := loadInputs_eq_ok program.registerTypes inputs []
    program.registerTypes.length (h.length ▸ program.inputs.2) fun i v hv => by
      simpa using h.getElem? hv
  rw [length_nil, nil_append, nil_append, h.length] at hl
  rw [initialState, rejectIf_of_not (not_not.2 h.length), ok_bind, hl]
  rfl

theorem agrees_entry :
    Agrees program.registerTypes (entryState program).registers
    (inputRegisters program inputs) := by
  have hi := program.inputs.2
  have hl := h.length
  refine ⟨by simp [inputRegisters, hl]; omega, by simp [entryState]; omega, ?_, ?_⟩
  · intro i
    rw [entryState, inputRegisters]
    by_cases hlt : i < program.inputCount
    · rw [getElem?_append_left (by simpa using hlt),
        getElem?_append_left (by simpa [hl] using hlt)]
      simp [hlt, hl]
    · rw [getElem?_append_right (by simpa using hlt),
        getElem?_append_right (by simpa [hl] using hlt)]
      simp [getElem?_replicate]
  · intro i v hv
    rw [inputRegisters] at hv
    by_cases hlt : i < program.inputCount
    · rw [getElem?_append_left (by simpa [hl] using hlt)] at hv
      exact h.getElem? (by simpa using hv)
    · rw [getElem?_append_right (by simpa [hl] using hlt)] at hv
      simp [getElem?_replicate] at hv

end Inputs

theorem invariant_entry {verified : VerifiedProgram} {inputs : List VmValue}
    (hc : Certified verified) (h : Typed verified.program inputs) :
    ∃ s state, initialState verified.program inputs = .ok s ∧ s.programCounter = 0 ∧
      s.registers = inputRegisters verified.program inputs ∧ Invariant verified s state := by
  obtain ⟨state, hre, hr, -⟩ := hc.entry
  exact ⟨_, state, initialState_eq_ok h, rfl, rfl, hre, hr ▸ agrees_entry h,
    Nat.zero_le _, Nat.zero_le _, Nat.le_refl 0⟩

/-- **A verified program is safe on inputs of its types**: whatever the gas limit, it halts within
as many rounds as it has instructions, and it fails only for gas or an overflow. -/
theorem verified_execution_safe {program : VmProgram} {verified : VerifiedProgram}
    (h : verify program = .ok verified) {inputs : List VmValue} (hinputs : Typed program inputs)
    (gasLimit : Nat) :
    ∃ r, (∀ rounds, program.instructions.length ≤ rounds →
        executeProgram verified inputs gasLimit rounds = some r) ∧
      (∀ result, r = .ok result → result.steps ≤ program.instructions.length) ∧
      ∀ e, r = .error e → e.Expected := by
  obtain ⟨rfl, hc⟩ := verify_certifies h
  obtain ⟨s, state, hs, hpc, -, hi⟩ := invariant_entry hc hinputs
  obtain ⟨r, hrun, hr, he⟩ := executeLoop_sound hc gasLimit
    verified.program.instructions.length hi (Nat.le_add_left _ _)
  refine ⟨r, fun rounds hro => ?_, fun result heq => (hr result heq).steps, he⟩
  rw [executeProgram, hs]
  exact executeLoop_mono _ hro hrun

namespace SmallProgram

/-- A program that forwards an object and emits the sum of two integers. -/
def program : VmProgram where
  inputCount := 2
  registerTypes := [.object, .u64, .u64, .u64]
  outputTypes := [.object]
  instructions := [.loadU64 2 5, .addU64 3 1 2, .emit 3, .ret [0]]
  maximumEvents := 1
  registers := by decide
  inputs := by decide
  outputs := by decide
  size := by decide
  returns := by
    intro sources hmem
    obtain rfl : sources = [0] := by simpa using hmem
    decide
  events := by decide

def verified : VerifiedProgram where
  program := program
  instructionStates := [⟨[.available, .available, .uninitialized, .uninitialized], 0⟩,
    ⟨[.available, .available, .available, .uninitialized], 0⟩,
    ⟨[.available, .available, .available, .available], 0⟩,
    ⟨[.available, .available, .available, .available], 1⟩]

theorem verify_program : verify program = .ok verified := by rfl

def sharedObject : Object where
  objectId := 1
  objectVersion := 0
  typeId := 0
  owner := .shared
  controlPolicyHash := 0
  usePolicyHash := 0
  disclosurePolicyHash := 0
  upgradePolicyHash := 0
  packageId := none
  valueRoot := 0
  publicValue := none
  leaseExpiryEpoch := 0
  storageDeposit := 0
  flags := .none
  publicBounded := nofun
  immutableFixed := fun h => nomatch h.1

def inputs : List VmValue := [.object sharedObject, .u64 7]

theorem inputs_typed : Typed program inputs := by rfl

theorem program_safe : verify program = .ok verified ∧ Typed program inputs ∧
    ∀ gasLimit, ∃ r, executeProgram verified inputs gasLimit 4 = some r ∧
      ∀ e, r = .error e → e.Expected := by
  refine ⟨verify_program, inputs_typed, fun gasLimit => ?_⟩
  obtain ⟨r, hrun, -, he⟩ := verified_execution_safe verify_program inputs_typed gasLimit
  exact ⟨r, hrun 4 (by decide), he⟩

end SmallProgram

end ActiveChain.Vm
