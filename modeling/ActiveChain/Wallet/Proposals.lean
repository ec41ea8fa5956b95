import ActiveChain.Lib.SortedMap
import ActiveChain.Primitives

/-!
# Proposals in a wallet (`proposal-gateway`)

The store keeps a record for each proposed intent and moves it along a table of states.  A change of
state is written before the revision is counted up, which can fail.
-/

namespace ActiveChain

open Digest384 SortedMap

/-- The errors of the store. -/
inductive GatewayError
  | invalidArguments
  | expired
  | replayConflict
  | capacity
  | invalidTransition
  | concurrentReview
deriving DecidableEq

inductive WalletProposalState
  | pending
  | approved
  | rejected
  | expired
  | submitted
  | finalized
  | failed
deriving DecidableEq

/-- The transitions that `transition` allows. -/
def WalletProposalState.allows : WalletProposalState → WalletProposalState → Bool
  | .pending, .approved | .pending, .rejected | .pending, .expired => true
  | .approved, .submitted | .approved, .failed | .approved, .expired => true
  | .submitted, .finalized | .submitted, .failed => true
  | _, _ => false

/-- Any type of intents: what the store reads of one is its expiry and its identifier. -/
structure WalletProposalRecord (ι : Type) where
  intent : ι
  state : WalletProposalState
  revision : Nat
  evidence : Digest384
deriving DecidableEq

abbrev WalletProposalStore (ι : Type) := SortedMap Digest384 (WalletProposalRecord ι)

structure IntentKernel (ι : Type) where
  expiresAtHeight : ι → Nat
  proposalId : ι → Option Digest384

namespace WalletProposalStore

variable {ι : Type} (K : IntentKernel ι) (s : WalletProposalStore ι)

/-- The stores that `decode` returns. -/
def Decoded : Prop :=
  s.length ≤ 4096 ∧ ∀ entry ∈ s.entries, K.proposalId entry.2.intent = some entry.1 ∧
    entry.2.revision ≠ 0 ∧ (entry.2.state = .pending ↔ entry.2.evidence = zero)
deriving Decidable

/-- `admit`: the result, and the store after it. -/
def admitIntent [DecidableEq ι] (intent : ι) (currentHeight : Nat) :
    Except GatewayError Digest384 × WalletProposalStore ι :=
  if K.expiresAtHeight intent ≤ currentHeight then (.error .expired, s)
  else match K.proposalId intent with
    | none => (.error .invalidArguments, s)
    | some id => match s.get? id with
      | some existing =>
        if existing.intent = intent then (.ok id, s) else (.error .replayConflict, s)
      | none =>
        if 4096 ≤ s.length then (.error .capacity, s)
        else (.ok id, s.insert id ⟨intent, .pending, 1, zero⟩)

/-- The result, and the store after it: the state is assigned before the revision is counted. -/
def transition (proposalId : Digest384) (expectedRevision : Nat) (next : WalletProposalState)
    (evidence : Digest384) (currentHeight : Nat) :
    Except GatewayError (WalletProposalRecord ι) × WalletProposalStore ι :=
  match s.get? proposalId with
  | none => (.error .invalidArguments, s)
  | some record =>
    if record.revision ≠ expectedRevision then (.error .concurrentReview, s)
    else if next ≠ .expired ∧ K.expiresAtHeight record.intent ≤ currentHeight then
      (.error .expired, s)
    else if record.state.allows next = false ∨ evidence = zero then
      (.error .invalidTransition, s)
    else match checkedAdd 64 record.revision 1 with
      | none => (.error .capacity, s.insert proposalId { record with state := next })
      | some revision =>
        let record := { record with state := next, revision, evidence }
        (.ok record, s.insert proposalId record)

theorem admit_cases [DecidableEq ι] (intent : ι) (height : Nat) :
    (s.admitIntent K intent height).2 = s ∨ ∃ id, s.get? id = none ∧
      s.admitIntent K intent height = (.ok id, s.insert id ⟨intent, .pending, 1, zero⟩) := by
  fun_cases admitIntent K s intent height with
  | case6 _ id _ hnew => exact .inr ⟨id, hnew, rfl⟩
  | _ => exact .inl rfl

variable {K s} {id : Digest384} {revision height : Nat} {next : WalletProposalState}
  {evidence : Digest384}

/-- Some call finds a next state for the record, whatever its revision is. -/
def CanMove (K : IntentKernel ι) (r : WalletProposalRecord ι) : Prop :=
  ∃ next, r.state.allows next = true ∧ (next = .expired ∨ 0 < K.expiresAtHeight r.intent)

theorem transition_cases
    (hrevision : ∀ entry ∈ s.entries, CanMove K entry.2 → entry.2.revision + 1 < 2 ^ 64) :
    (∃ e, s.transition K id revision next evidence height = (.error e, s)) ∨
    ∃ old r, s.get? id = some old ∧ old.state.allows next = true ∧
      r.revision = old.revision + 1 ∧
      s.transition K id revision next evidence height = (.ok r, s.insert id r) := by
  fun_cases transition K s id revision next evidence height with
  | case5 old hold _ hopen hn hfull =>
    have hallows : old.state.allows next = true := by simpa using fun h => hn (.inl h)
    have hmove : CanMove K old := ⟨next, hallows, or_iff_not_imp_left.2 fun hne =>
      Nat.zero_lt_of_lt (not_le.1 fun hle => hopen ⟨hne, hle⟩)⟩
    exact absurd (checkedAdd_eq_some.2 ⟨rfl, hrevision _ (mem_entries.2 hold) hmove⟩)
      (by rw [hfull]; nofun)
  | case6 old hold _ _ hn revision hr =>
    exact .inr ⟨old, _, hold, by simpa using fun h => hn (.inl h), (checkedAdd_eq_some.1 hr).1, rfl⟩
  | _ => exact .inl ⟨_, rfl⟩

variable (K s)

/-- What the calls on a store keep: a rejected call changes nothing, an accepted transition counts
the revision up, and a proposal in a final state stays. -/
structure CallsKeep [DecidableEq ι] : Prop where
  admitted : ∀ intent height e, (s.admitIntent K intent height).1 = .error e →
    (s.admitIntent K intent height).2 = s
  moved : ∀ id revision next evidence height,
    (∃ e, s.transition K id revision next evidence height = (.error e, s)) ∨
    ∃ old r, s.get? id = some old ∧ r.revision = old.revision + 1 ∧
      s.transition K id revision next evidence height = (.ok r, s.insert id r)
  final : ∀ id r, s.get? id = some r → r.state ∈ [.finalized, .failed, .rejected, .expired] →
    (∀ intent height, (s.admitIntent K intent height).2.get? id = some r) ∧
    ∀ id' revision next evidence height,
      (s.transition K id' revision next evidence height).2.get? id = some r

/-- A submitted proposal can be recorded as finalized and as failed. -/
def CanFinish (id : Digest384) (r : WalletProposalRecord ι) (height : Nat) : Prop :=
  ∀ next ∈ [.finalized, .failed], ∀ evidence, evidence ≠ zero → ∃ r', r'.state = next ∧
    s.transition K id r.revision next evidence height = (.ok r', s.insert id r')

variable {K s}

theorem callsKeep_of_revision [DecidableEq ι]
    (hrevision : ∀ entry ∈ s.entries, CanMove K entry.2 → entry.2.revision + 1 < 2 ^ 64) :
    CallsKeep K s where
  admitted intent height e he := by
    rcases admit_cases K s intent height with h | ⟨id, -, h⟩
    · exact h
    · cases (congrArg Prod.fst h).symm.trans he
  moved id revision next evidence height := by
    rcases transition_cases hrevision with h | ⟨old, r, hold, -, hr⟩
    · exact .inl h
    · exact .inr ⟨old, r, hold, hr⟩
  final id r hr hfinal := by
    refine ⟨fun intent height => ?_, fun id' revision next evidence height => ?_⟩
    · rcases admit_cases K s intent height with h | ⟨id', hnew, h⟩
      · rw [h, hr]
      · rw [h]
        refine (get?_insert_ne _ _ ?_).trans hr
        rintro rfl
        cases hr.symm.trans hnew
    · rcases transition_cases hrevision with ⟨e, he⟩ | ⟨old, r', hold, hallows, -, h⟩
      · rw [he, hr]
      · rw [h]
        refine (get?_insert_ne _ _ ?_).trans hr
        rintro rfl
        cases hr.symm.trans hold
        revert hfinal hallows
        cases r.state <;> simp [WalletProposalState.allows]

/-- With the last revision, the call that finds a next state is rejected and made. -/
theorem CallsKeep.not_last [DecidableEq ι] (h : CallsKeep K s) {entry}
    (hentry : entry ∈ s.entries) (hmove : CanMove K entry.2) : entry.2.revision + 1 < 2 ^ 64 := by
  obtain ⟨id, r⟩ := entry
  obtain ⟨next, hallows, hopen⟩ := hmove
  have hget : s.get? id = some r := mem_entries.1 hentry
  by_contra hlast
  have hfull : checkedAdd 64 r.revision 1 = none := by
    rw [Option.eq_none_iff_forall_ne_some]
    intro n hn
    exact hlast (checkedAdd_eq_some.1 hn).2
  have hcall : s.transition K id r.revision next 1 0 =
      (.error .capacity, s.insert id { r with state := next }) := by
    have hexpires : next ≠ .expired → K.expiresAtHeight r.intent ≠ 0 := fun hne =>
      (hopen.resolve_left hne).ne'
    simpa [transition, hget, hallows, hfull, zero] using hexpires
  rcases h.moved id r.revision next 1 0 with ⟨e, he⟩ | ⟨_, _, -, -, he⟩
  · have hsame := congrArg (fun c => (c.2.get? id).map WalletProposalRecord.state)
      (hcall.symm.trans he)
    simp only [get?_insert_self, hget, Option.map_some, Option.some.injEq] at hsame
    rw [hsame] at hallows
    revert hallows
    cases r.state <;> simp [WalletProposalState.allows]
  · cases hcall.symm.trans he

/-- **The calls on a store keep its rules, and a submitted proposal can be finished at a height,
exactly when no record that can still move has the last revision and no submitted proposal has
expired.** -/
theorem calls_on_store [DecidableEq ι] (height : Nat) :
    (CallsKeep K s ∧ ∀ id r, s.get? id = some r → r.state = .submitted →
        CanFinish K s id r height) ↔
      ∀ entry ∈ s.entries, (CanMove K entry.2 → entry.2.revision + 1 < 2 ^ 64) ∧
        (entry.2.state = .submitted → height < K.expiresAtHeight entry.2.intent) := by
  constructor
  · rintro ⟨hkeep, hfinish⟩ ⟨id, r⟩ hentry
    refine ⟨hkeep.not_last hentry, fun hsubmitted => ?_⟩
    have hget := mem_entries.1 hentry
    obtain ⟨r', -, hcall⟩ := hfinish id r hget hsubmitted .finalized (by simp) 1 (by decide)
    by_contra hlate
    simp [transition, hget, not_lt.1 hlate] at hcall
  · intro h
    refine ⟨callsKeep_of_revision fun entry hentry => (h entry hentry).1, ?_⟩
    intro id r hget hsubmitted next hnext evidence hevidence
    obtain ⟨hrevision, hheight⟩ := h (id, r) (mem_entries.2 hget)
    have hallows : r.state.allows next = true := by
      rw [hsubmitted]
      revert hnext
      cases next <;> simp [WalletProposalState.allows]
    have hlast := hrevision ⟨next, hallows, .inr (Nat.zero_lt_of_lt (hheight hsubmitted))⟩
    simp [transition, hget, hallows, hevidence, (hheight hsubmitted).not_ge,
      checkedAdd_eq_some.2 ⟨rfl, hlast⟩]

end WalletProposalStore

namespace SingleProposal

open WalletProposalStore

/-- Intents are their own identifiers, and expire at height ten. -/
def kernel : IntentKernel Nat := ⟨fun _ => 10, some⟩

def store (state : WalletProposalState) (revision evidence : Nat) : WalletProposalStore Nat :=
  empty.insert 1 ⟨1, state, revision, evidence⟩

/-- A submitted proposal beside one that is finalized and has the last revision. -/
def withFinal : WalletProposalStore Nat :=
  (store .submitted 3 7).insert 2 ⟨2, .finalized, 2 ^ 64 - 1, 7⟩

theorem finalized_in_time : ∃ r', r'.state = .finalized ∧
    withFinal.transition kernel 1 3 .finalized 8 9 = (.ok r', withFinal.insert 1 r') := by
  refine ((calls_on_store (K := kernel) 9).2 fun entry hentry => ?_).2 1 ⟨1, .submitted, 3, 7⟩ rfl
    rfl .finalized (by simp) 8 (by decide)
  rcases List.mem_cons.1 hentry with rfl | hentry
  · exact ⟨fun _ => by decide, fun _ => by decide⟩
  · cases List.mem_singleton.1 hentry
    refine ⟨?_, by decide⟩
    rintro ⟨next, hallows, -⟩
    cases next <;> cases hallows

/-- A decoded record has the last revision: an approval is rejected and made.  A submitted proposal
cannot be finished from height ten on. -/
theorem rejected_call_changes_store :
    Decoded kernel (store .pending (2 ^ 64 - 1) 0) ∧
    (store .pending (2 ^ 64 - 1) 0).transition kernel 1 (2 ^ 64 - 1) .approved 7 0 =
      (.error .capacity, store .approved (2 ^ 64 - 1) 0) ∧
    Decoded kernel (store .submitted 3 7) ∧
    ∀ next ∈ [.finalized, .failed], ∀ evidence height, 10 ≤ height →
      ((store .submitted 3 7).transition kernel 1 3 next evidence height).1 = .error .expired := by
  refine ⟨by decide, rfl, by decide, fun next hnext evidence height hh => ?_⟩
  have hlate : next ≠ .expired ∧ 10 ≤ height := ⟨by rintro rfl; simp at hnext, hh⟩
  simp [transition, store, kernel, hlate]

end SingleProposal

end ActiveChain
