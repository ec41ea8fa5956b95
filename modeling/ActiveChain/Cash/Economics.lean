import ActiveChain.Cash.Intents
import ActiveChain.Lib.Update
import ActiveChain.Lib.Counters

/-!
# Verifier duties (`cash-kernel::economics`)

Duties and challenges are kept in two lists.  A call looks up the first record with an identifier,
checks it, and only then marks it.

* `registerAssignment`, `assignChallenge`, `resolveChallenge`, `settleDuty` — the calls.
-/

namespace ActiveChain

open Digest384 Except List Option

/-! ## Records that are used up -/

section Records

variable {α : Type} (id : α → Digest384)

/-- Change the first record with the identifier: `iter_mut().find`. -/
def updateFirst (k : Digest384) (f : α → α) : List α → List α
  | [] => []
  | a :: rest => if id a = k then f a :: rest else a :: updateFirst k f rest

theorem find?_updateFirst {f : α → α} (hf : ∀ a, id (f a) = id a) (k j : Digest384) (rs : List α) :
    (updateFirst id k f rs).find? (id · = j) =
      if j = k then (rs.find? (id · = j)).map f else rs.find? (id · = j) := by
  induction rs with
  | nil => simp [updateFirst]
  | cons a rest ih =>
    unfold updateFirst
    by_cases hk : id a = k
    · by_cases hj : j = k
      · simp [hk, hj, hf]
      · simp [hk, hj, hf, Ne.symm hj]
    · by_cases hj : id a = j
      · simp [hj, show j ≠ k from hj ▸ hk]
      · simp [hk, hj, ih]

/-- `0` while the first record with the identifier can be used, `1` afterwards. -/
def usesAt (used : α → Bool) (records : List α) (k : Digest384) : Option Nat :=
  (records.find? (id · = k)).map fun a => (used a).toNat

variable {id} {u : α → Bool} {records : List α} {a : α}

theorem find?_of_append {k : Digest384} (h : records.find? (id · = k) = some a) (b : α) :
    (records ++ [b]).find? (id · = k) = some a := by
  rw [find?_append, h, some_or]

theorem usesAt_append (b : α) (k : Digest384) (n : Nat) (h : usesAt id u records k = some n) :
    usesAt id u (records ++ [b]) k = some n := by
  obtain ⟨a, ha, rfl⟩ := map_eq_some_iff.1 h
  exact map_eq_some_iff.2 ⟨a, find?_of_append ha b, rfl⟩

theorem usesAt_updateFirst (f : α → α) (hf : ∀ a, id (f a) = id a) (hu : ∀ a, u (f a) = true)
    {k : Digest384} (ha : records.find? (id · = k) = some a) (hopen : ¬ u a = true) :
    usesAt id u records k = some 0 ∧ usesAt id u (updateFirst id k f records) k = some 1 ∧
      ∀ j ≠ k, usesAt id u (updateFirst id k f records) j = usesAt id u records j := by
  refine ⟨by simp [usesAt, ha, hopen], ?_, fun j hj => ?_⟩
  · rw [usesAt, find?_updateFirst id hf, if_pos rfl, ha]
    simp [hu]
  · rw [usesAt, find?_updateFirst id hf, if_neg hj, usesAt]

end Records

/-! ## The calls -/

structure DutyAssignment where
  id : Digest384
  verifier : PrincipalId
  bondAmount : Nat
  reward : Nat
  deadline : Nat
  settled : Bool

def DutyAssignment.settle (a : DutyAssignment) : DutyAssignment := { a with settled := true }

structure DutyReceipt where
  assignment : Digest384
  evidence : Digest384
  height : Nat

structure ObjectiveFault where
  assignment : Digest384
  slashAmount : Nat

/-- `RewardSettlement`, as it is returned. -/
structure DutySettlement where
  assignment : Digest384
  verifier : PrincipalId
  reward : Nat
  bondReturn : Nat
  slashAmount : Nat

structure ChallengeAssignment where
  id : Digest384
  duty : Digest384
  challenger : PrincipalId
  bond : CoinCellId
  evidence : Digest384
  reward : Nat
  deadline : Nat
  resolved : Bool

def ChallengeAssignment.resolve (c : ChallengeAssignment) : ChallengeAssignment :=
  { c with resolved := true }

structure ChallengeCommitmentV1 where
  id : Digest384
  duty : Digest384
  challenger : PrincipalId
  bond : CoinCellId
  reward : Nat
  commitment : Digest384
  revealDeadline : Nat
  resolutionDeadline : Nat
  named : id ≠ zero ∧ duty ≠ zero ∧ challenger ≠ zero ∧
    bond ≠ zero ∧ commitment ≠ zero
  rewarded : reward ≠ 0
  ordered : revealDeadline ≠ 0 ∧ revealDeadline < resolutionDeadline

def challengeCommitment (C : Crypto) (id duty : Digest384) (challenger : PrincipalId)
    (evidence nonce : Digest384) : Digest384 :=
  C.shake256 [.tag "ACTIVECHAIN-VERIFIER-CHALLENGE-COMMITMENT-V1", .digest id, .digest duty,
    .digest challenger, .digest evidence, .digest nonce]

def ChallengeCommitmentV1.reveal (C : Crypto) (c : ChallengeCommitmentV1)
    (evidence nonce : Digest384) (height : Nat) : Except EconomicsError ChallengeAssignment := do
  rejectIf (c.revealDeadline < height ∨ evidence = zero ∨ nonce = zero ∨
    challengeCommitment C c.id c.duty c.challenger evidence nonce ≠ c.commitment)
    .invalidChallengeReveal
  return ⟨c.id, c.duty, c.challenger, c.bond, evidence, c.reward, c.resolutionDeadline, false⟩

structure DutyRecords where
  assignments : List DutyAssignment
  challenges : List ChallengeAssignment

inductive Payout
  | duty (settlement : DutySettlement)
  | challenge (id : Digest384) (reward : Nat)

abbrev DutyM := Update EconomicsError DutyRecords

def registerAssignment (assignment : DutyAssignment) : DutyM (List Payout) := do
  let s ← get
  .check (rejectIf (∃ a ∈ s.assignments, a.id = assignment.id) .duplicateAssignment)
  .check (rejectIf (assignment.reward = 0 ∨ assignment.bondAmount = 0 ∨ assignment.deadline = 0)
    .invalidSlash)
  modify fun s => { s with assignments := s.assignments ++ [assignment] }
  return []

def assignChallenge (C : Crypto) (commitment : ChallengeCommitmentV1) (evidence nonce : Digest384)
    (height : Nat) : DutyM (List Payout) := do
  let challenge ← .check (commitment.reveal C evidence nonce height)
  let s ← get
  .check (rejectIf (∃ c ∈ s.challenges, c.id = challenge.id) .duplicateAssignment)
  modify fun s => { s with challenges := s.challenges ++ [challenge] }
  return []

def resolveChallenge (id : Digest384) (challenger : PrincipalId) (height : Nat) :
    DutyM (List Payout) := do
  let s ← get
  let challenge ← .check (okOr (s.challenges.find? (·.id = id)) .unknownAssignment)
  .check (rejectIf (challenge.challenger ≠ challenger) .wrongVerifier)
  .check (rejectIf (challenge.resolved = true) .alreadySettled)
  .check (rejectIf (challenge.deadline < height) .expired)
  modify fun s => { s with
    challenges := updateFirst ChallengeAssignment.id id ChallengeAssignment.resolve s.challenges }
  return [.challenge id challenge.reward]

def slashOf (assignment : DutyAssignment) : Option ObjectiveFault → Except EconomicsError Nat
  | none => .ok 0
  | some fault => do
    rejectIf (fault.assignment ≠ assignment.id ∨ assignment.bondAmount < fault.slashAmount)
      .invalidSlash
    return fault.slashAmount

def settleDuty (receipt : DutyReceipt) (verifier : PrincipalId) (fault : Option ObjectiveFault) :
    DutyM (List Payout) := do
  let s ← get
  let assignment ← .check
    (okOr (s.assignments.find? (·.id = receipt.assignment)) .unknownAssignment)
  .check (rejectIf (assignment.verifier ≠ verifier) .wrongVerifier)
  .check (rejectIf (assignment.settled = true) .alreadySettled)
  .check (rejectIf (receipt.evidence = zero) .emptyEvidence)
  .check (rejectIf (assignment.deadline < receipt.height) .expired)
  let slashAmount ← .check (slashOf assignment fault)
  modify fun s => { s with
    assignments := updateFirst DutyAssignment.id receipt.assignment DutyAssignment.settle
      s.assignments }
  return [.duty ⟨assignment.id, verifier, assignment.reward, assignment.bondAmount - slashAmount,
    slashAmount⟩]

inductive DutyCall
  | register (assignment : DutyAssignment)
  | challenge (commitment : ChallengeCommitmentV1) (evidence nonce : Digest384) (height : Nat)
  | resolve (id : Digest384) (challenger : PrincipalId) (height : Nat)
  | settle (receipt : DutyReceipt) (verifier : PrincipalId) (fault : Option ObjectiveFault)

def DutyCall.action (C : Crypto) : DutyCall → DutyM (List Payout)
  | .register assignment => registerAssignment assignment
  | .challenge commitment evidence nonce height => assignChallenge C commitment
    evidence nonce height
  | .resolve id challenger height => resolveChallenge id challenger height
  | .settle receipt verifier fault => settleDuty receipt verifier fault

/-- Calls in order: everything paid out, and the records left. -/
def runDuties (C : Crypto) : DutyRecords → List DutyCall → List Payout × DutyRecords
  | s, [] => ([], s)
  | s, call :: rest =>
    match (call.action C).exec s with
    | (.ok paid, s') => (paid ++ (runDuties C s' rest).1, (runDuties C s' rest).2)
    | (.error _, s') => runDuties C s' rest

/-! ## What is paid out -/

/-- The record that a payout uses up. -/
def Payout.record : Payout → Digest384 ⊕ Digest384
  | .duty settlement => .inl settlement.assignment
  | .challenge id _ => .inr id

namespace DutyRecords

def uses (s : DutyRecords) : Digest384 ⊕ Digest384 → Option Nat
  | .inl id => usesAt DutyAssignment.id DutyAssignment.settled s.assignments id
  | .inr id => usesAt ChallengeAssignment.id ChallengeAssignment.resolved s.challenges id

def bondOf (s : DutyRecords) (id : Digest384) : Option Nat :=
  (s.assignments.find? (·.id = id)).map DutyAssignment.bondAmount

end DutyRecords

/-- Between the two states the payouts used up their records, and split the bonds of the duties. -/
structure Pays (s : DutyRecords) (paid : List Payout) (s' : DutyRecords) : Prop where
  once : Issues s.uses s'.uses (paid.map fun p => (p.record, 0))
  bonds : ∀ id bond, s.bondOf id = some bond → s'.bondOf id = some bond
  split : ∀ settlement, .duty settlement ∈ paid →
    s'.bondOf settlement.assignment = some (settlement.bondReturn + settlement.slashAmount)

open DutyRecords

section Payouts

variable {C : Crypto} {s s' s'' : DutyRecords} {paid paid' : List Payout} {call : DutyCall}

theorem Pays.trans (h : Pays s paid s') (h' : Pays s' paid' s'') : Pays s (paid ++ paid') s'' where
  once := by
    rw [map_append]
    exact h.once.trans h'.once
  bonds id bond hb := h'.bonds id bond (h.bonds id bond hb)
  split settlement hmem := by
    rcases mem_append.1 hmem with hmem | hmem
    · exact h'.bonds _ _ (h.split settlement hmem)
    · exact h'.split settlement hmem

theorem DutyCall.pays (h : (call.action C).exec s = (.ok paid, s')) : Pays s paid s' := by
  cases call with
  | register assignment =>
    simp only [action, registerAssignment, Update.inversion, inversion, existsAndEq] at h
    obtain ⟨-, -, rfl, rfl⟩ := h
    refine ⟨.created ?_, fun id bond hb => ?_, by simp⟩
    · rintro (id | id) n hn
      · exact usesAt_append assignment id n hn
      · exact hn
    · obtain ⟨a, ha, rfl⟩ := map_eq_some_iff.1 hb
      exact map_eq_some_iff.2 ⟨a, find?_of_append ha assignment, rfl⟩
  | challenge c evidence nonce height =>
    simp only [action, assignChallenge, Update.inversion, inversion, existsAndEq] at h
    obtain ⟨challenge, -, -, rfl, rfl⟩ := h
    refine ⟨.created ?_, fun _ _ hb => hb, by simp⟩
    rintro (id | id) n hn
    · exact hn
    · exact usesAt_append challenge id n hn
  | resolve id challenger height =>
    simp only [action, resolveChallenge, Update.inversion, inversion, existsAndEq] at h
    obtain ⟨challenge, hf, -, hopen, -, rfl, rfl⟩ := h
    obtain ⟨hbe, haf, ho⟩ := usesAt_updateFirst (u := ChallengeAssignment.resolved)
      ChallengeAssignment.resolve (fun _ => rfl) (fun _ => rfl) hf hopen
    refine ⟨Issues.taken (k := Sum.inr id) hbe haf ?_, fun _ _ hb => hb, by simp⟩
    rintro (j | j) hj
    · rfl
    · exact ho j fun heq => hj (heq ▸ rfl)
  | settle receipt verifier fault =>
    simp only [action, settleDuty, Update.inversion, inversion, existsAndEq] at h
    obtain ⟨assignment, hf, -, hopen, -, -, slash, hs, rfl, rfl⟩ := h
    have hid : assignment.id = receipt.assignment := by simpa using find?_some hf
    rw [← hid] at hf ⊢
    have hle : slash ≤ assignment.bondAmount := by
      cases fault with
      | none => exact Except.ok.inj hs ▸ Nat.zero_le _
      | some fault =>
        simp only [slashOf, inversion, not_lt] at hs
        exact hs.2 ▸ hs.1.2
    have hb (id : Digest384) : bondOf ⟨updateFirst DutyAssignment.id assignment.id
        DutyAssignment.settle s.assignments, s.challenges⟩ id = s.bondOf id := by
      unfold bondOf
      rw [find?_updateFirst DutyAssignment.id (f := DutyAssignment.settle) fun _ => rfl,
        apply_ite (Option.map _), Option.map_map]
      exact ite_self _
    obtain ⟨hbe, haf, ho⟩ := usesAt_updateFirst (u := DutyAssignment.settled)
      DutyAssignment.settle (fun _ => rfl) (fun _ => rfl) hf hopen
    refine ⟨Issues.taken (k := Sum.inl assignment.id) hbe haf ?_,
      fun id bond h => (hb id).trans h, ?_⟩
    · rintro (j | j) hj
      · exact ho j fun heq => hj (heq ▸ rfl)
      · rfl
    · intro settlement hmem
      cases mem_singleton.1 hmem
      rw [hb, Nat.sub_add_cancel hle]
      simp [bondOf, hf]

theorem DutyCall.transactional (C : Crypto) (call : DutyCall) : (call.action C).Transactional := by
  cases call with
  | register assignment =>
    exact .bind .get fun _ => .bind (.check _) fun _ => .bind (.check _) fun _ => .updated _ _
  | challenge c evidence nonce height =>
    exact .bind (.check _) fun _ => .bind .get fun _ => .bind (.check _) fun _ => .updated _ _
  | resolve id challenger height =>
    exact .bind .get fun _ => .bind (.check _) fun _ => .bind (.check _) fun _ =>
      .bind (.check _) fun _ => .bind (.check _) fun _ => .updated _ _
  | settle receipt verifier fault =>
    exact .bind .get fun _ => .bind (.check _) fun _ => .bind (.check _) fun _ =>
      .bind (.check _) fun _ => .bind (.check _) fun _ => .bind (.check _) fun _ =>
      .bind (.check _) fun _ => .updated _ _

theorem runDuties_pays (calls : List DutyCall) (s : DutyRecords) :
    Pays s (runDuties C s calls).1 (runDuties C s calls).2 := by
  induction calls generalizing s with
  | nil => exact ⟨.refl _, fun _ _ h => h, nofun⟩
  | cons call rest ih =>
    rw [runDuties]
    rcases hexec : (call.action C).exec s with ⟨e | paid, s'⟩
    · rw [call.transactional C s e s' hexec]
      exact ih s
    · exact (call.pays hexec).trans (ih s')

/-- **Duties and challenges pay once.**  In every run, from any records: no duty and no challenge is
paid out twice, the returned and the slashed part of a bond make up the bond, and a rejected call
leaves the records unchanged. -/
theorem duties_pay_once (C : Crypto) (s : DutyRecords) (calls : List DutyCall) :
    ((runDuties C s calls).1.map Payout.record).Nodup ∧
    (∀ settlement, .duty settlement ∈ (runDuties C s calls).1 →
      (runDuties C s calls).2.bondOf settlement.assignment =
        some (settlement.bondReturn + settlement.slashAmount)) ∧
    ∀ (call : DutyCall) (s : DutyRecords) e s', (call.action C).exec s = (.error e, s') →
    s' = s := by
  have hp := runDuties_pays (C := C) calls s
  refine ⟨?_, hp.split, fun call s e s' => call.transactional C s e s'⟩
  refine List.Nodup.of_map (fun record => (record, 0)) ?_
  rw [List.map_map]
  exact hp.once.nodup

end Payouts

end ActiveChain
