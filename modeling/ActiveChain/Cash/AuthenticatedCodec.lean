import ActiveChain.Codec
import ActiveChain.Cash.Authenticated
import ActiveChain.Cash.Partitioned

/-!
# Authenticated changes from untrusted bytes (`cash-kernel::authenticated`)

The witnesses of authenticated changes arrive as bytes; each decoder runs the verifier of what it
has read.  `hash_root` unwraps the error of a count above the limit, so a witness whose counts have
not been bounded makes the process panic.

* `verifyCoinCellPartitionTransition` — changes of several partitions under one global root.
* `decodeCoinCellMutationWitness`, `decodeCoinCellTransitionWitness`,
  `decodeCoinCellPartitionTransitionWitness` — the decoders.
* `verifyCoinCellMutation_panics_iff` — those witnesses, and no others, make the verifier panic.
-/

namespace ActiveChain

open Decode Except

/-! ## Partitions -/

structure CoinCellPartitionMutationWitness where
  partition : Nat
  transition : CoinCellTransitionWitness

structure CoinCellPartitionTransitionWitness where
  partitions : Nat
  preGlobalRoot : Digest384
  postGlobalRoot : Digest384
  preRoots : List Digest384
  mutations : List CoinCellPartitionMutationWitness

section Partitions

variable (C : Crypto)

def authenticatedCoinCellPartitionRootsHash (partitions : Nat) (roots : List Digest384) :
    Digest384 :=
  C.shake256 (cellTranscript 4 (.u16 partitions ::
    roots.zipIdx.flatMap fun (root, index) => [.u16 index, .digest root]))

/-- The guards of one round of `verify_coin_cell_partition_transition`. -/
def CoinCellPartitionMutationWitness.Linked (preRoots postRoots : List Digest384)
    (mutation : CoinCellPartitionMutationWitness) : Prop :=
  mutation.partition < postRoots.length ∧
    preRoots[mutation.partition]? = some mutation.transition.preRoot ∧
    mutation.transition.preRoot ≠ mutation.transition.postRoot
deriving Decidable

/-- The loop of `verify_coin_cell_partition_transition`. -/
def verifyPartitions (partitions : Nat) (preRoots : List Digest384) : List Digest384 →
    List CoinCellPartitionMutationWitness → MutationM (List Digest384)
  | postRoots, [] => .ok postRoots
  | postRoots, mutation :: mutations => do
    rejectIf (¬ mutation.Linked preRoots postRoots) (.error .wrongRoot)
    verifyCoinCellTransition C mutation.transition
    rejectIf (∃ nested ∈ mutation.transition.mutations,
      cashPartitionFor nested.id partitions ≠ mutation.partition) (.error .wrongRecord)
    verifyPartitions partitions preRoots
      (postRoots.set mutation.partition mutation.transition.postRoot) mutations

/-- The checks in front of the loop of `verify_coin_cell_partition_transition`. -/
def CoinCellPartitionTransitionWitness.Shaped (w : CoinCellPartitionTransitionWitness) : Prop :=
  w.partitions ≠ 0 ∧ w.partitions ≤ maxCashPartitions ∧ w.preRoots.length = w.partitions ∧
    w.mutations ≠ [] ∧ w.mutations.length ≤ maxAuthenticatedCashMutations ∧
    (w.mutations.Pairwise fun a b => a.partition < b.partition) ∧
    authenticatedCoinCellPartitionRootsHash C w.partitions w.preRoots = w.preGlobalRoot
deriving Decidable

def verifyCoinCellPartitionTransition (w : CoinCellPartitionTransitionWitness) :
    MutationM Unit := do
  rejectIf (¬ w.Shaped C) (.error .invalidShape)
  let postRoots ← verifyPartitions C w.partitions w.preRoots w.preRoots w.mutations
  rejectIf (authenticatedCoinCellPartitionRootsHash C w.partitions postRoots ≠ w.postGlobalRoot)
    (.error .wrongRoot)

end Partitions

/-! ## Decoders -/

/-- `Digest384::decode`, also of the identifiers and roots that wrap a digest. -/
def readDigest : Decode Digest384 := readInt 48

def readCoinCellRecord : Decode CoinCellRecord := do
  let id ← readDigest
  let transitionId ← readDigest
  let outputIndex ← readU16
  let owner ← readDigest
  let amount ← readInt 16
  let creationHeight ← readInt 8
  let cell ← check (orInvalid (CoinCell.new ⟨transitionId, outputIndex⟩ owner amount creationHeight)
      "coin cell amount is zero")
  return (id, cell)

def decodeRecordOption : Decode (Option CoinCellRecord) := do
  if ← readBool then return some (← readCoinCellRecord) else return none

def readMutationFields : Decode CoinCellMutationWitness := do
  let preRoot ← readDigest
  let postRoot ← readDigest
  let preCount ← readInt 4
  let postCount ← readInt 4
  let id ← readDigest
  let previous ← decodeRecordOption
  let next ← decodeRecordOption
  let count ← readLength authenticatedCashDepth
  let siblings ← readMany readDigest count
  return { preRoot, postRoot, preCount, postCount, id, previous, next, siblings }

section Decoders

variable (C : Crypto)

def decodeCoinCellMutationWitness : Decode CoinCellMutationWitness := do
  let witness ← readMutationFields
  check ((verifyCoinCellMutation C witness).mapError
    (Fault.mapErr fun _ => .invalidValue "invalid authenticated Coin Cell mutation"))
  return witness

def decodeCoinCellTransitionWitness : Decode CoinCellTransitionWitness := do
  let preRoot ← readDigest
  let postRoot ← readDigest
  let count ← readLength maxAuthenticatedCashMutations
  let mutations ← readMany (decodeCoinCellMutationWitness C) count
  let witness := { preRoot, postRoot, mutations }
  check ((verifyCoinCellTransition C witness).mapError
    (Fault.mapErr fun _ => .invalidValue "invalid authenticated Coin Cell transition"))
  return witness

def decodeCoinCellPartitionMutationWitness : Decode CoinCellPartitionMutationWitness := do
  let partition ← readU16
  let transition ← decodeCoinCellTransitionWitness C
  return { partition, transition }

def decodeCoinCellPartitionTransitionWitness : Decode CoinCellPartitionTransitionWitness := do
  let partitions ← readU16
  let preGlobalRoot ← readDigest
  let postGlobalRoot ← readDigest
  let rootCount ← readLength maxCashPartitions
  let preRoots ← readMany readDigest rootCount
  let mutationCount ← readLength maxAuthenticatedCashMutations
  let mutations ← readMany (decodeCoinCellPartitionMutationWitness C) mutationCount
  let witness := { partitions, preGlobalRoot, postGlobalRoot, preRoots, mutations }
  check ((verifyCoinCellPartitionTransition C witness).mapError
    (Fault.mapErr fun _ => .invalidValue "invalid authenticated cash partition transition"))
  return witness

end Decoders

/-! ## Which witnesses make a verifier panic -/

section Verifiers

variable {C : Crypto}

/-- A removal from one cell more than a set can hold. -/
structure CoinCellMutationWitness.Overcounted (C : Crypto) (w : CoinCellMutationWitness) :
    Prop where
  length : w.siblings.length = authenticatedCashDepth
  removes : w.previous.isSome ∧ w.next = none
  names : w.Names C w.previous
  preCount : w.preCount = maxCoinCells + 1
  postCount : w.postCount = maxCoinCells

variable {w : CoinCellMutationWitness}

open CoinCellMutationWitness

theorem overcounted_iff : w.Overcounted C ↔ w.Checked C ∧ maxCoinCells < w.preCount := by
  constructor
  · intro h
    obtain ⟨r, hr⟩ := Option.isSome_iff_exists.1 h.removes.1
    have hc : w.expectedPostCount = some w.postCount := by
      rw [expectedPostCount, hr, h.removes.2, h.preCount, h.postCount]
      rfl
    refine ⟨⟨h.length, ?_, h.names, ?_, hc, h.postCount.le⟩, by rw [h.preCount]; omega⟩
    · rw [hr, h.removes.2]
      simp
    · rw [h.removes.2]
      rintro r ⟨⟩
  · rintro ⟨hch, ho⟩
    have hc := hch.counted
    have hb := hch.bounded
    -- only a removal lowers the count
    unfold expectedPostCount at hc
    split at hc
    · have := checkedAdd_eq_some.1 hc
      omega
    · next r hp hn =>
        have := checkedSub_eq_some.1 hc
        exact ⟨hch.length, ⟨by rw [hp]; rfl, hn⟩, hch.previous, by omega, by omega⟩
    · have := Option.some.inj hc
      omega
    · cases hc

theorem verifyCoinCellMutation_panics_iff :
    (verifyCoinCellMutation C w).Panics ↔ w.Overcounted C := by
  rw [overcounted_iff]
  by_cases hc : w.Checked C
  · rw [verifyCoinCellMutation_of_checked hc]
    by_cases hco : w.preCount ≤ maxCoinCells
    · rw [hashRoot_of_le hco, ok_bind, panics_reject_bind]
      exact iff_of_false (fun h => not_panics_reject h.2) fun h => absurd h.2 (by omega)
    · rw [hashRoot_of_lt (Nat.lt_of_not_le hco)]
      exact iff_of_true ⟨_, rfl⟩ ⟨hc, Nat.lt_of_not_le hco⟩
  · refine iff_of_false ?_ fun h => hc h.1
    rw [verifyCoinCellMutation, panics_reject_bind, panics_reject_bind, panics_reject_bind]
    rintro ⟨hs, hr, hco, -⟩
    exact hc (checked_iff.2 ⟨hs, hr, hco⟩)

theorem verifyChain_panics_iff (ms : List CoinCellMutationWitness) :
    ∀ {before : Option Digest384}, (verifyChain C before ms).Panics ↔
      ∃ first m last, ms = first ++ m :: last ∧
        verifyChain C before first = .ok () ∧ m.Overcounted C := by
  induction ms with
  | nil =>
    simp [verifyChain, not_panics_ok]
  | cons head tail ih =>
    intro before
    rw [verifyChain, Except.panics_bind, verifyCoinCellMutation_panics_iff]
    simp only [exists_unit, panics_reject_bind, ih]
    constructor
    · rintro (h | ⟨hh, hl, first, m, last, rfl, hf, h⟩)
      · exact ⟨[], head, tail, rfl, rfl, h⟩
      · refine ⟨head :: first, m, last, rfl, ?_, h⟩
        rw [verifyChain, hh, ok_bind, rejectIf_of_not hl, ok_bind, hf]
    · rintro ⟨first, m, last, heq, hf, h⟩
      cases first with
      | nil =>
        cases heq
        exact .inl h
      | cons first rest =>
        cases heq
        simp only [verifyChain, Except.inversion] at hf
        obtain ⟨hh, hl, hr⟩ := hf
        exact .inr ⟨hh, hl, rest, m, last, rfl, hr, h⟩

/-- The transition verifier reaches an overcounted removal. -/
def CoinCellTransitionWitness.Overcounted (C : Crypto) (w : CoinCellTransitionWitness) : Prop :=
  w.Shaped ∧ ∃ first mutation last, w.mutations = first ++ mutation :: last ∧
    verifyChain C none first = .ok () ∧ mutation.Overcounted C

theorem verifyCoinCellTransition_panics_iff {w : CoinCellTransitionWitness} :
    (verifyCoinCellTransition C w).Panics ↔ w.Overcounted C := by
  rw [verifyCoinCellTransition, panics_reject_bind, verifyChain_panics_iff, not_not]
  rfl

theorem verifyPartitions_panics_iff {partitions : Nat} {preRoots : List Digest384}
    (ms : List CoinCellPartitionMutationWitness) : ∀ {postRoots : List Digest384},
    (verifyPartitions C partitions preRoots postRoots ms).Panics ↔
      ∃ first m last reached, ms = first ++ m :: last ∧
        verifyPartitions C partitions preRoots postRoots first = .ok reached ∧
        m.Linked preRoots reached ∧ m.transition.Overcounted C := by
  induction ms with
  | nil =>
    simp [verifyPartitions, not_panics_ok]
  | cons head tail ih =>
    intro postRoots
    rw [verifyPartitions, panics_reject_bind, Except.panics_bind, not_not,
      verifyCoinCellTransition_panics_iff]
    simp only [exists_unit, panics_reject_bind, ih]
    constructor
    · rintro ⟨hl, h | ⟨hh, hp, first, m, last, reached, rfl, hf, h⟩⟩
      · exact ⟨[], head, tail, postRoots, rfl, rfl, hl, h⟩
      · refine ⟨head :: first, m, last, reached, rfl, ?_, h⟩
        rw [verifyPartitions, rejectIf_of_not (not_not.2 hl), ok_bind, hh,
          ok_bind, rejectIf_of_not hp, ok_bind, hf]
    · rintro ⟨first, m, last, reached, heq, hf, h⟩
      cases first with
      | nil =>
        cases heq
        cases hf
        exact ⟨h.1, .inl h.2⟩
      | cons first rest =>
        cases heq
        simp only [verifyPartitions, Except.inversion] at hf
        obtain ⟨hl, hh, hp, hr⟩ := hf
        exact ⟨hl, .inr ⟨hh, hp, rest, m, last, reached, rfl, hr, h⟩⟩

def CoinCellPartitionTransitionWitness.Overcounted (C : Crypto)
    (w : CoinCellPartitionTransitionWitness) : Prop :=
  w.Shaped C ∧ ∃ first mutation last reached, w.mutations = first ++ mutation :: last ∧
    verifyPartitions C w.partitions w.preRoots w.preRoots first = .ok reached ∧
    mutation.Linked w.preRoots reached ∧ mutation.transition.Overcounted C

theorem verifyCoinCellPartitionTransition_panics_iff {w : CoinCellPartitionTransitionWitness} :
    (verifyCoinCellPartitionTransition C w).Panics ↔ w.Overcounted C := by
  rw [verifyCoinCellPartitionTransition, panics_reject_bind, Except.panics_bind, not_not,
    verifyPartitions_panics_iff]
  refine and_congr_right fun _ => or_iff_left ?_
  rintro ⟨_, -, h⟩
  exact not_panics_reject h

end Verifiers

/-! ## Which bytes make a decoder panic -/

section Decoders

variable {C : Crypto} {input : List UInt8}

theorem safe_readCoinCellRecord : Safe readCoinCellRecord := by
  refine (safe_readInt 48).bind fun _ => (safe_readInt 48).bind fun _ =>
    (safe_readInt 2).bind fun _ => (safe_readInt 48).bind fun _ =>
    (safe_readInt 16).bind fun _ => (safe_readInt 8).bind fun _ =>
    Safe.bind (fun _ h => ?_) fun _ => safe_pure _
  exact not_panics_mapError (panics_check.1 h)

theorem safe_decodeRecordOption : Safe decodeRecordOption := by
  refine safe_readBool.bind fun present => ?_
  cases present with
  | false => exact safe_pure none
  | true => exact safe_readCoinCellRecord.bind fun _ => safe_pure _

theorem safe_readMutationFields : Safe readMutationFields :=
  (safe_readInt 48).bind fun _ => (safe_readInt 48).bind fun _ =>
    (safe_readInt 4).bind fun _ => (safe_readInt 4).bind fun _ =>
    (safe_readInt 48).bind fun _ => safe_decodeRecordOption.bind fun _ =>
    safe_decodeRecordOption.bind fun _ => (safe_readLength _).bind fun count =>
    ((safe_readInt 48).many count).bind fun _ => safe_pure _

def OvercountedMutationBytes (C : Crypto) (input : List UInt8) : Prop :=
  ∃ w rest, readMutationFields.run input = .ok (w, rest) ∧ w.Overcounted C

theorem decodeCoinCellMutationWitness_panics_iff :
    ((decodeCoinCellMutationWitness C).run input).Panics ↔ OvercountedMutationBytes C input := by
  rw [decodeCoinCellMutationWitness, safe_readMutationFields.panics_bind]
  refine exists_congr fun w => exists_congr fun rest => and_congr_right fun _ => ?_
  rw [panics_check_return, verifyCoinCellMutation_panics_iff]

variable {rest : List UInt8}

theorem verify_of_decodeCoinCellMutationWitness {w : CoinCellMutationWitness}
    (h : (decodeCoinCellMutationWitness C).run input = .ok (w, rest)) :
    verifyCoinCellMutation C w = .ok () := by
  obtain ⟨_, _, -, hc⟩ := run_bind_eq_ok.1 h
  obtain ⟨_, _, hv, hret⟩ := run_bind_eq_ok.1 hc
  cases hret
  exact mapError_eq_ok.1 (run_check_eq_ok.1 hv).1

/-- The mutations of the bytes are accepted up to one that is an overcounted removal. -/
def OvercountedTransitionBytes (C : Crypto) (input : List UInt8) : Prop :=
  ∃ preRoot postRoot count start, preRoot < 256 ^ 48 ∧ postRoot < 256 ^ 48 ∧
    count ≤ maxAuthenticatedCashMutations ∧
    input = beBytes 48 preRoot ++ (beBytes 48 postRoot ++ (lebBytes count ++ start)) ∧
    ∃ k < count, ∃ accepted rest,
      (readMany (decodeCoinCellMutationWitness C) k).run start = .ok (accepted, rest) ∧
      OvercountedMutationBytes C rest

variable {w : CoinCellTransitionWitness}

theorem not_overcounted_of_verified (h : ∀ m ∈ w.mutations, verifyCoinCellMutation C m = .ok ()) :
    ¬ w.Overcounted C := by
  rintro ⟨-, first, m, last, hs, -, ho⟩
  have hv := h m (by simp [hs])
  have hp := verifyCoinCellMutation_panics_iff.2 ho
  rw [hv] at hp
  exact not_panics_ok () hp

theorem decodeCoinCellTransitionWitness_panics_iff :
    ((decodeCoinCellTransitionWitness C).run input).Panics ↔
      OvercountedTransitionBytes C input := by
  simp only [decodeCoinCellTransitionWitness, readDigest, (safe_readInt _).panics_bind,
    (safe_readLength _).panics_bind, readInt_eq_ok, readLength_eq_ok]
  constructor
  · rintro ⟨preRoot, _, ⟨hpre, hi⟩, postRoot, _, ⟨hp, hpo⟩, count, start, ⟨hc, -, hco⟩, h⟩
    refine ⟨preRoot, postRoot, count, start, hpre, hp, hc,
      by rw [hi, hpo, hco], ?_⟩
    obtain h | ⟨ms, _, hm, h⟩ := Decode.panics_bind.1 h
    · simpa only [panics_readMany, decodeCoinCellMutationWitness_panics_iff] using h
    · have ho := verifyCoinCellTransition_panics_iff.1 (panics_check_return.1 h)
      exact absurd ho (not_overcounted_of_verified
        (forall_of_readMany verify_of_decodeCoinCellMutationWitness count hm))
  · rintro ⟨preRoot, postRoot, count, start, hpre, hp, hc, hi, h⟩
    refine ⟨preRoot, _, ⟨hpre, hi⟩, postRoot, _, ⟨hp, rfl⟩, count, start,
      ⟨hc, hc.trans (by decide), rfl⟩, Decode.panics_bind.2 (.inl ?_)⟩
    simpa only [panics_readMany, decodeCoinCellMutationWitness_panics_iff] using h

theorem verify_of_decodeCoinCellTransitionWitness
    (h : (decodeCoinCellTransitionWitness C).run input = .ok (w, rest)) :
    verifyCoinCellTransition C w = .ok () := by
  simp only [decodeCoinCellTransitionWitness, run_bind_eq_ok, run_pure_eq_ok,
    run_check_eq_ok, mapError_eq_ok] at h
  obtain ⟨_, _, -, _, _, -, _, _, -, _, _, -, _, _, ⟨hv, -⟩, rfl, -⟩ := h
  exact hv

/-- The partition's transition in the bytes reaches an overcounted removal. -/
def OvercountedPartitionBytes (C : Crypto) (input : List UInt8) : Prop :=
  ∃ partition start, partition < 256 ^ 2 ∧ input = beBytes 2 partition ++ start ∧
    OvercountedTransitionBytes C start

theorem decodeCoinCellPartitionMutationWitness_panics_iff :
    ((decodeCoinCellPartitionMutationWitness C).run input).Panics ↔
      OvercountedPartitionBytes C input := by
  simp only [decodeCoinCellPartitionMutationWitness, readU16, (safe_readInt _).panics_bind,
    readInt_eq_ok, Decode.panics_bind, decodeCoinCellTransitionWitness_panics_iff, safe_pure _ _,
    and_false, exists_false, or_false, and_assoc]
  rfl

theorem verify_of_decodeCoinCellPartitionMutationWitness {w : CoinCellPartitionMutationWitness}
    (h : (decodeCoinCellPartitionMutationWitness C).run input = .ok (w, rest)) :
    verifyCoinCellTransition C w.transition = .ok () := by
  simp only [decodeCoinCellPartitionMutationWitness, run_bind_eq_ok, run_pure_eq_ok] at h
  obtain ⟨_, _, -, _, _, ht, rfl, -⟩ := h
  exact verify_of_decodeCoinCellTransitionWitness ht

/-- The partitions of the bytes are accepted up to one that reaches an overcounted removal. -/
def OvercountedPartitionTransitionBytes (C : Crypto) (input : List UInt8) : Prop :=
  ∃ partitions preGlobalRoot postGlobalRoot, ∃ preRoots : List Digest384, ∃ count start,
    partitions < 256 ^ 2 ∧ preGlobalRoot < 256 ^ 48 ∧ postGlobalRoot < 256 ^ 48 ∧
    preRoots.length ≤ maxCashPartitions ∧ (∀ root ∈ preRoots, root < 256 ^ 48) ∧
    count ≤ maxAuthenticatedCashMutations ∧
    input = beBytes 2 partitions ++ (beBytes 48 preGlobalRoot ++ (beBytes 48 postGlobalRoot ++
      (lebBytes preRoots.length ++ (preRoots.flatMap (beBytes 48) ++ (lebBytes count ++ start))))) ∧
    ∃ k < count, ∃ accepted rest,
      (readMany (decodeCoinCellPartitionMutationWitness C) k).run start =
        .ok (accepted, rest) ∧
      OvercountedPartitionBytes C rest

theorem decodeCoinCellPartitionTransitionWitness_panics_iff :
    ((decodeCoinCellPartitionTransitionWitness C).run input).Panics ↔
      OvercountedPartitionTransitionBytes C input := by
  have hsa : ∀ count, Safe (readMany (readInt 48) count) := (safe_readInt 48).many
  simp only [decodeCoinCellPartitionTransitionWitness, readDigest, readU16,
    (safe_readInt _).panics_bind, (safe_readLength _).panics_bind, (hsa _).panics_bind,
    readInt_eq_ok, readLength_eq_ok, readMany_eq_ok readInt_eq_ok]
  constructor
  · rintro ⟨partitions, _, ⟨hp, h₁⟩, preRoot, _, ⟨hpre, h₂⟩, postRoot, _, ⟨hpo, h₃⟩,
      rootCount, _, ⟨hr, -, h₄⟩, preRoots, _, ⟨rfl, hfit, h₅⟩, count, start, ⟨hc, -, h₆⟩, h⟩
    refine ⟨partitions, preRoot, postRoot, preRoots, count, start, hp, hpre, hpo, hr,
      hfit, hc, by rw [h₁, h₂, h₃, h₄, h₅, h₆], ?_⟩
    obtain h | ⟨ms, _, hm, h⟩ := Decode.panics_bind.1 h
    · simpa only [panics_readMany, decodeCoinCellPartitionMutationWitness_panics_iff] using h
    · obtain ⟨-, first, m, last, _, hs, -, -, ho⟩ :=
        verifyCoinCellPartitionTransition_panics_iff.1 (panics_check_return.1 h)
      have hv := forall_of_readMany verify_of_decodeCoinCellPartitionMutationWitness
        count hm m (by rw [show ms = _ from hs]; simp)
      have hpa := verifyCoinCellTransition_panics_iff.2 ho
      rw [hv] at hpa
      exact absurd hpa (not_panics_ok ())
  · rintro ⟨partitions, preRoot, postRoot, preRoots, count, start, hp, hpre, hpo, hr,
      hfit, hc, hi, h⟩
    refine ⟨partitions, _, ⟨hp, hi⟩, preRoot, _, ⟨hpre, rfl⟩, postRoot, _, ⟨hpo, rfl⟩,
      _, _, ⟨hr, hr.trans (by decide), rfl⟩, preRoots, _, ⟨rfl, hfit, rfl⟩, count, start,
      ⟨hc, hc.trans (by decide), rfl⟩, Decode.panics_bind.2 (.inl ?_)⟩
    simpa only [panics_readMany, decodeCoinCellPartitionMutationWitness_panics_iff] using h

/-- **The verifiers and the decoders panic exactly where they reach an overcounted removal**: a
removal with canonical records and a full path from `maxCoinCells + 1` cells. -/
theorem authenticated_panics_iff (C : Crypto) :
    (∀ w, (verifyCoinCellMutation C w).Panics ↔ w.Overcounted C) ∧
    (∀ w, (verifyCoinCellTransition C w).Panics ↔ w.Overcounted C) ∧
    (∀ w, (verifyCoinCellPartitionTransition C w).Panics ↔ w.Overcounted C) ∧
    (∀ input, ((decodeCoinCellMutationWitness C).run input).Panics ↔
      OvercountedMutationBytes C input) ∧
    (∀ input, ((decodeCoinCellTransitionWitness C).run input).Panics ↔
      OvercountedTransitionBytes C input) ∧
    ∀ input, ((decodeCoinCellPartitionTransitionWitness C).run input).Panics ↔
      OvercountedPartitionTransitionBytes C input :=
  ⟨fun _ => verifyCoinCellMutation_panics_iff, fun _ => verifyCoinCellTransition_panics_iff,
    fun _ => verifyCoinCellPartitionTransition_panics_iff,
    fun _ => decodeCoinCellMutationWitness_panics_iff,
    fun _ => decodeCoinCellTransitionWitness_panics_iff,
    fun _ => decodeCoinCellPartitionTransitionWitness_panics_iff⟩

end Decoders

namespace Numbered

/-- The removal of a canonical record from one cell more than the limit, over arbitrary siblings and
roots. -/
def overcounted : CoinCellMutationWitness where
  preRoot := 0
  postRoot := 0
  preCount := maxCoinCells + 1
  postCount := maxCoinCells
  id := 2
  previous := some (2, cell 1)
  next := none
  siblings := List.replicate authenticatedCashDepth 0

theorem overcounted_overcounted : overcounted.Overcounted C where
  length := List.length_replicate
  removes := ⟨rfl, rfl⟩
  names := by
    rintro r ⟨⟩
    exact ⟨rfl, cell_canonical 1⟩
  preCount := rfl
  postCount := rfl

def overcountedBytes : List UInt8 :=
  beBytes 48 0 ++ (beBytes 48 0 ++ (beBytes 4 (maxCoinCells + 1) ++ (beBytes 4 maxCoinCells ++
    (beBytes 48 2 ++ (1 :: (beBytes 48 2 ++ (beBytes 48 1 ++ (beBytes 2 0 ++ (beBytes 48 1 ++
    (beBytes 16 1 ++ (beBytes 8 0 ++ (0 :: (lebBytes authenticatedCashDepth ++
    ((List.replicate authenticatedCashDepth 0).flatMap (beBytes 48) ++ []))))))))))))))

/-- **A witness that the verifier panics on, and bytes that the decoder panics on.** -/
theorem overcounted_bytes_panic : (verifyCoinCellMutation C overcounted).Panics ∧
      ((decodeCoinCellMutationWitness C).run overcountedBytes).Panics :=
  ⟨verifyCoinCellMutation_panics_iff.2 overcounted_overcounted,
    decodeCoinCellMutationWitness_panics_iff.2
      ⟨overcounted, [], by decide +kernel, overcounted_overcounted⟩⟩

end Numbered

end ActiveChain
