import ActiveChain.Primitives
import Mathlib.Data.List.Count
import Mathlib.Data.List.MinMax
import Mathlib.Data.List.Sort
import Mathlib.Data.Prod.Lex

/-!
# Limits on submissions (`rpc-server/src/transfer_submission.rs`)

The store counts the submissions of a window among the records it still has, and drops settled
records for reasons of its own.
-/

namespace ActiveChain

open Except List

structure TransferSubmissionPolicy where
  genesisCommitment : Digest384
  maximumPendingCount : Nat
  maximumPendingBytes : Nat
  maximumRetainedRecords : Nat
  terminalRetentionSeconds : Nat
  signerWindowSeconds : Nat
  signerWindowLimit : Nat
  globalWindowSeconds : Nat
  globalWindowLimit : Nat

/-- The states of a record. -/
inductive TransferState
  | pending
  | finalized
  | rejected
deriving DecidableEq

/-- The codes of the checks on a recorded submission. -/
inductive TransferRejectionCode
  | sessionInvalid
  | signerLimited
  | globalLimited
  | spoolFull

inductive TransferSubmissionError
  | invalidPolicy
  | rejected (code : TransferRejectionCode) (retryAfterSeconds : Option Nat) (intent : Digest384)

/-- A record, with the length of its bundle in place of the bytes. -/
structure TransferRecord where
  reference : Digest384
  signer : PrincipalId
  sessionId : Digest384
  acceptedAt : Nat
  updatedAt : Nat
  bundleLength : Nat
  state : TransferState
deriving DecidableEq

namespace TransferSubmissionPolicy

variable (p : TransferSubmissionPolicy) (records : List TransferRecord) (now : Nat)

def validate : Except TransferSubmissionError Unit :=
  rejectIf (p.genesisCommitment = Digest384.zero ∨ p.maximumPendingCount = 0 ∨
    32 < p.maximumPendingCount ∨ p.maximumPendingBytes = 0 ∨
    64 * 1024 * 1024 < p.maximumPendingBytes ∨ p.maximumRetainedRecords = 0 ∨
    1024 < p.maximumRetainedRecords ∨ p.terminalRetentionSeconds = 0 ∨ p.signerWindowSeconds = 0 ∨
    p.signerWindowLimit = 0 ∨ p.globalWindowSeconds = 0 ∨ p.globalWindowLimit = 0) .invalidPolicy

def evictExpired : List TransferRecord :=
  records.filter fun r => r.state = .pending ∨ now - r.updatedAt < p.terminalRetentionSeconds

/-- The loop that makes room, with at least as many rounds as there are records. -/
def evictOldest : Nat → List TransferRecord → Option (List TransferRecord)
  | 0, records => if records.length < p.maximumRetainedRecords then some records else none
  | rounds + 1, records =>
    if records.length < p.maximumRetainedRecords then some records
    else do
      let oldest ← (records.filter (·.state ≠ .pending)).argmin
        fun r => toLex (r.updatedAt, r.reference)
      evictOldest rounds (records.erase oldest)

def retained : Option (List TransferRecord) :=
  p.evictOldest records.length (p.evictExpired records now)

/-- The records that are saved. -/
def recordSubmission (signer : PrincipalId) (sessionId reference : Digest384) (bundleLength : Nat) :
    Except TransferSubmissionError (List TransferRecord) := do
  rejectIf (∃ r ∈ records, r.state = .pending ∧ r.signer = signer ∧ r.sessionId = sessionId)
    (.rejected .sessionInvalid none reference)
  rejectIf (p.signerWindowLimit ≤ records.countP fun r =>
    r.signer = signer ∧ now - p.signerWindowSeconds ≤ r.acceptedAt)
    (.rejected .signerLimited (some p.signerWindowSeconds) reference)
  rejectIf (p.globalWindowLimit ≤ records.countP fun r =>
    now - p.globalWindowSeconds ≤ r.acceptedAt)
    (.rejected .globalLimited (some p.globalWindowSeconds) reference)
  let pending := records.filter (·.state = .pending)
  rejectIf (p.maximumPendingCount ≤ pending.length ∨
    p.maximumPendingBytes < (pending.map (·.bundleLength)).sum + bundleLength)
    (.rejected .spoolFull (some 1) reference)
  let next ← okOr (p.retained records now) (.rejected .spoolFull (some 1) reference)
  return next.orderedInsert (·.reference ≤ ·.reference)
    ⟨reference, signer, sessionId, now, now, bundleLength, .pending⟩

end TransferSubmissionPolicy

/-- The submissions whose record was saved, with their times, the records in the file, and the
clock. -/
structure SubmissionState where
  log : List (PrincipalId × Nat)
  records : List TransferRecord
  now : Nat

/-- Whatever a submission drops has to meet the condition `Evicts`. -/
inductive SubmissionRun (p : TransferSubmissionPolicy) (Evicts : Nat → TransferRecord → Prop) :
    SubmissionState → Prop
  | create (now : Nat) : SubmissionRun p Evicts ⟨[], [], now⟩
  | wait {s : SubmissionState} (h : SubmissionRun p Evicts s) (later : Nat) (hn : s.now ≤ later) :
      SubmissionRun p Evicts { s with now := later }
  /-- A reference that has a record is answered from it. -/
  | submit {s : SubmissionState} {next : List TransferRecord} (h : SubmissionRun p Evicts s)
      (signer : PrincipalId) (sessionId reference : Digest384) (bundleLength : Nat)
      (hfresh : ∀ r ∈ s.records, r.reference ≠ reference)
      (hs : p.recordSubmission s.records s.now signer sessionId reference bundleLength = .ok next)
      (hk : ∀ kept ∈ p.retained s.records s.now, ∀ r ∈ s.records.diff kept, Evicts s.now r) :
      SubmissionRun p Evicts ⟨(signer, s.now) :: s.log, next, s.now⟩
  /-- `prepare_pending_batch` and `reconcile_finality`. -/
  | settle {s : SubmissionState} (h : SubmissionRun p Evicts s)
      (outcome : TransferRecord → Option TransferState) :
      SubmissionRun p Evicts { s with records := s.records.map fun r => match outcome r with
        | none => r
        | some state => { r with state, updatedAt := s.now } }

variable {p : TransferSubmissionPolicy} {Evicts : Nat → TransferRecord → Prop}
  {s : SubmissionState} {sel : PrincipalId → Bool} {window limit : Nat}

theorem countP_le_of_diff {kept : List TransferRecord} {q : TransferRecord → Bool} :
    ∀ {records : List TransferRecord}, (∀ r ∈ records.diff kept, ¬ q r) →
      records.countP q ≤ kept.countP q := by
  induction kept with
  | nil => exact fun h => (countP_eq_zero.2 h).le
  | cons a kept ih =>
    intro records h
    rw [diff_cons] at h
    have hle := ih h
    rw [countP_erase] at hle
    rw [countP_cons]
    split at hle <;> grind

/-- A submission of the chosen signers at `start` or later. -/
def since (sel : PrincipalId → Bool) (start : Nat) (r : TransferRecord) : Bool :=
  sel r.signer ∧ start ≤ r.acceptedAt

/-- What the records say of the submissions of the chosen signers in a window. -/
structure Counted (sel : PrincipalId → Bool) (window limit : Nat) (s : SubmissionState) : Prop where
  within : ∀ start, s.log.countP (fun a => sel a.1 ∧ start ≤ a.2 ∧ a.2 ≤ start + window) ≤ limit
  recorded : ∀ start, s.now ≤ start + window →
    s.log.countP (fun a => sel a.1 ∧ start ≤ a.2) ≤ s.records.countP (since sel start)

theorem SubmissionRun.counted (h : SubmissionRun p Evicts s)
    (hlimit : ∀ {records now signer sessionId reference bundleLength next},
      p.recordSubmission records now signer sessionId reference bundleLength = .ok next →
      sel signer → records.countP (since sel (now - window)) < limit)
    (hevicts : ∀ now r, Evicts now r → r.acceptedAt + window < now) :
    Counted sel window limit s := by
  induction h with
  | create => exact ⟨fun _ => Nat.zero_le _, fun _ _ => Nat.zero_le _⟩
  | wait _ _ hn ih => exact ⟨ih.within, fun start hs => ih.recorded start (hn.trans hs)⟩
  | @submit s _ _ signer _ _ _ _ hs hk ih =>
    have hroom := hlimit hs
    simp only [TransferSubmissionPolicy.recordSubmission, inversion] at hs
    obtain ⟨-, -, -, -, kept, hkept, rfl⟩ := hs
    -- what is dropped was accepted before any window that is still open
    have hle : ∀ start, s.now ≤ start + window →
        s.records.countP (since sel start) ≤ kept.countP (since sel start) := by
      intro start hstart
      refine countP_le_of_diff fun r hr => ?_
      have := hevicts _ _ (hk kept hkept r hr)
      simp only [since, decide_eq_true_eq, not_and, not_le]
      omega
    refine ⟨fun start => ?_, fun start hstart => ?_⟩
    · rw [countP_cons]
      split
      · rename_i hin
        simp only [decide_eq_true_eq] at hin
        obtain ⟨hsel, hlo, hhi⟩ := hin
        refine (Nat.succ_le_succ ?_).trans (hroom hsel)
        refine (countP_mono_left ?_).trans ((ih.recorded start hhi).trans (countP_mono_left ?_))
        · simp +contextual
        · simp +contextual [since]
          omega
      · exact ih.within start
    · have hlog := (ih.recorded start hstart).trans (hle start hstart)
      rw [(perm_orderedInsert _ _ _).countP_eq, countP_cons, countP_cons]
      exact Nat.add_le_add_right hlog _
  | settle _ outcome ih =>
    refine ⟨ih.within, fun start hs => (ih.recorded start hs).trans_eq ?_⟩
    rw [countP_map]
    congr 1
    funext r
    simp only [Function.comp_apply]
    split <;> rfl

/-- Both windows have passed since the submission. -/
def TransferSubmissionPolicy.OutOfWindows (p : TransferSubmissionPolicy) (now : Nat)
    (r : TransferRecord) : Prop :=
  r.acceptedAt + p.signerWindowSeconds < now ∧ r.acceptedAt + p.globalWindowSeconds < now

/-- **As long as no record is dropped before both windows have passed, the submissions that are
accepted in a window keep to its limit.** -/
theorem accepted_within_limits (h : SubmissionRun p p.OutOfWindows s) :
    (∀ signer start, s.log.countP (fun a => a.1 = signer ∧ start ≤ a.2 ∧
      a.2 ≤ start + p.signerWindowSeconds) ≤ p.signerWindowLimit) ∧
    ∀ start, s.log.countP (fun a => start ≤ a.2 ∧ a.2 ≤ start + p.globalWindowSeconds) ≤
      p.globalWindowLimit := by
  constructor
  · intro signer start
    have hc : Counted (· = signer) p.signerWindowSeconds p.signerWindowLimit s := by
      refine h.counted (fun hs hsel => ?_) fun _ _ he => he.1
      simp only [TransferSubmissionPolicy.recordSubmission, inversion] at hs
      cases of_decide_eq_true hsel
      simpa +unfoldPartialApp [since] using hs.2.1
    simpa using hc.within start
  · intro start
    have hc : Counted (fun _ => true) p.globalWindowSeconds p.globalWindowLimit s := by
      refine h.counted (fun hs _ => ?_) fun _ _ he => he.2
      simp only [TransferSubmissionPolicy.recordSubmission, inversion] at hs
      simpa +unfoldPartialApp [since] using hs.2.2.1
    simpa using hc.within start

namespace ShortRetention

/-- Settled records are kept for one second; one submission per signer and two in all are allowed in
ten. -/
def policy : TransferSubmissionPolicy := ⟨1, 32, 65536, 1024, 1, 10, 1, 10, 2⟩

/-- A transfer of signer `1` is accepted at time `1` and finalized at `2`. -/
theorem finalized_at_two :
    SubmissionRun policy Evicts ⟨[(1, 1)], [⟨1, 1, 1, 1, 2, 8000, .finalized⟩], 2⟩ := by
  have hs : SubmissionRun policy Evicts ⟨[(1, 1)], [⟨1, 1, 1, 1, 1, 8000, .pending⟩], 1⟩ :=
    (SubmissionRun.create 1).submit 1 1 1 8000 (by simp) rfl (by rintro _ ⟨⟩ _ ⟨⟩)
  exact (hs.wait 2 (by decide)).settle fun _ => some .finalized

/-- The next submission comes after the window. -/
theorem second_after_window :
    SubmissionRun policy policy.OutOfWindows
      ⟨[(1, 12), (1, 1)], [⟨2, 1, 2, 12, 12, 8000, .pending⟩], 12⟩ ∧
    ∀ start, [(1, 12), (1, 1)].countP (fun a => start ≤ a.2 ∧ a.2 ≤ start + 10) ≤ 2 := by
  have hs : SubmissionRun policy policy.OutOfWindows
      ⟨[(1, 12), (1, 1)], [⟨2, 1, 2, 12, 12, 8000, .pending⟩], 12⟩ :=
    (finalized_at_two.wait 12 (by decide)).submit 1 2 2 8000 (by simp) rfl
      (by rintro _ ⟨⟩ _ (_ | ⟨_, ⟨⟩⟩); exact ⟨by decide, by decide⟩)
  exact ⟨hs, (accepted_within_limits hs).2⟩

/-- A submission of signer `2` drops the record, and signer `1` is accepted again. -/
theorem limits_exceeded : policy.validate = .ok () ∧
    ∃ s, SubmissionRun policy (fun _ _ => True) s ∧
      policy.signerWindowLimit < s.log.countP (fun a => a.1 = 1 ∧ 1 ≤ a.2 ∧
        a.2 ≤ 1 + policy.signerWindowSeconds) ∧
      policy.globalWindowLimit < s.log.countP (fun a => 1 ≤ a.2 ∧
        a.2 ≤ 1 + policy.globalWindowSeconds) := by
  have hs : SubmissionRun policy (fun _ _ => True)
      ⟨[(2, 3), (1, 1)], [⟨2, 2, 2, 3, 3, 8000, .pending⟩], 3⟩ :=
    (finalized_at_two.wait 3 (by decide)).submit 2 2 2 8000 (by simp) rfl (by simp)
  exact ⟨rfl, _, (hs.wait 4 (by decide)).submit 1 3 3 8000 (by simp) rfl (by simp), by decide,
    by decide⟩

end ShortRetention

end ActiveChain
