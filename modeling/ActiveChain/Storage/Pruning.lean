import ActiveChain.Lib.Update
import ActiveChain.Lib.Bytes
import ActiveChain.Lib.SortedMap
import ActiveChain.Primitives

/-!
# Pruning a ledger store

The segment files of `storage-engine` and the watermark file of `pruning`, each as its decoded
content.  Nothing is held in memory between two calls: a crash is a call that ends at one of its
saves, and a restart changes nothing.

* `TwoSegments.overtaken_segment_stays` — an interrupted deletion that is overtaken is never made.
-/

namespace ActiveChain

open Update Moves SortedMap

inductive StorageError
  | bounds
  | corrupt
  | identity
  | sequence
  | existing
  | io
deriving DecidableEq

structure LedgerRecord where
  kind : Nat
  bytes : List UInt8
deriving DecidableEq

structure SealedSegment where
  chainGenesis : Digest384
  sequence : Nat
  previousSegmentRoot : Digest384
  records : List LedgerRecord
  contentRoot : Digest384
deriving DecidableEq

def maxSegmentRecords : Nat := 4096

def maxRecordBytes : Nat := 16 * 1024 * 1024

variable (C : Crypto)

def recordRoot (r : LedgerRecord) : Digest384 :=
  C.shake256 [.tag "ACTIVECHAIN-LEDGER-RECORD-V1", .u8 r.kind, .u64 r.bytes.length,
    .bytes (fromBe r.bytes)]

namespace SealedSegment

variable (s : SealedSegment)

/-- The checks of `SealedSegment::seal`, and the root that it computes. -/
def sealed : Except StorageError Digest384 := do
  rejectIf (s.chainGenesis = .zero ∨ s.records = [] ∨ maxSegmentRecords < s.records.length ∨
    ¬ (s.sequence = 0 ↔ s.previousSegmentRoot = .zero)) .bounds
  return C.shake256 (.tag "ACTIVECHAIN-LEDGER-SEGMENT-V1" :: .digest s.chainGenesis ::
    .u64 s.sequence :: .digest s.previousSegmentRoot :: s.records.map fun r =>
      .digest (recordRoot C r))

def encode : Except StorageError Transcript := do
  let root ← s.sealed C
  rejectIf (root ≠ s.contentRoot) .corrupt
  return [.tag "ACLSEG01", .digest s.chainGenesis, .u64 s.sequence, .digest s.previousSegmentRoot,
      .u32 s.records.length] ++
    s.records.flatMap (fun r => [.u8 r.kind, .u32 r.bytes.length, .bytes (fromBe r.bytes),
      .digest (recordRoot C r)]) ++
    [.tag "ACLEND01", .digest s.contentRoot, .u32 s.records.length]

/-- What `SealedSegment::decode` checks of an encoded segment. -/
def decode : Except StorageError SealedSegment := do
  rejectIf (∃ r ∈ s.records, r.kind = 0 ∨ r.bytes = [] ∨ maxRecordBytes < r.bytes.length) .bounds
  let root ← s.sealed C
  rejectIf (root ≠ s.contentRoot) .corrupt
  return s

end SealedSegment

/-- A save or a deletion: `lost` leaves the file as it was, `late` changes it and reports an
error. -/
def saving {ε σ : Type} (outcome : SaveOutcome) (io : ε) (f : σ → σ) : Update ε σ PUnit := do
  if outcome ≠ .lost then modify f
  check (rejectIf (outcome ≠ .written) io)

theorem exec_saving_eq_ok {ε σ : Type} {outcome : SaveOutcome} {io : ε} {f : σ → σ} {s s' : σ}
    {u : PUnit} : (saving outcome io f).exec s = (.ok u, s') ↔ outcome = .written ∧ f s = s' := by
  cases outcome <;> simp [saving, exec_bind]

/-- With the segment file of each sequence. -/
structure LedgerStore where
  chainGenesis : Digest384
  segments : SortedMap Nat SealedSegment

namespace LedgerStore

def load (s : LedgerStore) (sequence : Nat) : Except StorageError SealedSegment := do
  let segment ← okOr (s.segments.get? sequence) .io
  let segment ← segment.decode C
  rejectIf (segment.chainGenesis ≠ s.chainGenesis ∨ segment.sequence ≠ sequence) .identity
  return segment

def append (segment : SealedSegment) (outcome : SaveOutcome) :
    Update StorageError LedgerStore PUnit := do
  let s ← get
  check (rejectIf (segment.chainGenesis ≠ s.chainGenesis) .identity)
  check (if 0 < segment.sequence then do
    let previous ← s.load C (segment.sequence - 1)
    rejectIf (previous.contentRoot ≠ segment.previousSegmentRoot) .sequence
  else return)
  if s.segments.contains segment.sequence then
    let present ← check (s.load C segment.sequence)
    check (rejectIf (present ≠ segment) .existing)
  else
    let _ ← check (segment.encode C)
    saving outcome .io fun s => { s with segments := s.segments.insert segment.sequence segment }

def deleteIfMatches (sequence : Nat) (expectedRoot : Digest384) (outcome : SaveOutcome) :
    Update StorageError LedgerStore PUnit := do
  let s ← get
  if s.segments.contains sequence then
    let segment ← check (s.load C sequence)
    check (rejectIf (segment.contentRoot ≠ expectedRoot) .identity)
    saving outcome .io fun s => { s with segments := s.segments.erase sequence }

end LedgerStore

open LedgerStore

inductive PruningMode
  | pruned
  | archive
deriving DecidableEq

inductive PruningError
  | early
  | snapshot
  | archive
  | checkpoint
  | sequence
  | identity
  | corrupt
  | io
deriving DecidableEq

def StorageError.toPruning : StorageError → PruningError
  | .identity => .identity
  | .sequence => .sequence
  | .corrupt => .corrupt
  | _ => .io

structure PruningWatermark where
  chainGenesis : Digest384
  segmentSequence : Nat
  segmentRoot : Digest384
  lastHeight : Nat
deriving DecidableEq

inductive ArchiveDataClass
  | ledger
  | witness
  | snapshot
  | hibernatedObject
deriving DecidableEq

/-- With the fields that the evidence is checked against. -/
structure ArchiveManifest where
  chainGenesis : Digest384
  dataClass : ArchiveDataClass
  lastHeight : Nat
  retentionExpiryEpoch : Nat
  contentRoot : Digest384

/-- With the manifest of its archive certificate. -/
structure PruningEvidence where
  segmentLastHeight : Nat
  hotRetentionUntilEpoch : Nat
  proofGraceUntilHeight : Nat
  historyAccumulatorRoot : Digest384
  snapshotGenerations : Nat × Nat
  manifest : ArchiveManifest

/-- With the content of its watermark file and the ledger store it is given. -/
structure PruningStore where
  chainGenesis : Digest384
  mode : PruningMode
  file : Option PruningWatermark
  ledger : LedgerStore

namespace PruningStore

/-- The watermark file as `PruningWatermark::decode` accepts it. -/
def watermark (s : PruningStore) : Except PruningError (Option PruningWatermark) := do
  rejectIf (∃ w ∈ s.file, w.chainGenesis = .zero ∨ w.segmentRoot = .zero ∨
    w.lastHeight = 0) .corrupt
  return s.file

section

variable (segment : SealedSegment) (evidence : PruningEvidence) (currentEpoch currentHeight : Nat)

def authorize (outcome : SaveOutcome) : Update PruningError PruningStore PruningWatermark := do
  let s ← get
  check do
    rejectIf (segment.chainGenesis ≠ s.chainGenesis) .identity
    let expectedSequence := (← s.watermark).elim 0 fun w => min (w.segmentSequence + 1) u64Max
    rejectIf (segment.sequence ≠ expectedSequence) .sequence
    rejectIf (evidence.segmentLastHeight = 0 ∨ currentEpoch ≤ evidence.hotRetentionUntilEpoch ∨
      currentHeight ≤ evidence.proofGraceUntilHeight) .early
    rejectIf (evidence.snapshotGenerations.1 ≤ evidence.segmentLastHeight ∨
      evidence.snapshotGenerations.2 ≤ evidence.snapshotGenerations.1) .snapshot
    rejectIf (evidence.historyAccumulatorRoot = .zero) .checkpoint
    let segmentBytes ← (segment.encode C).mapError StorageError.toPruning
    let manifest := evidence.manifest
    rejectIf (manifest.chainGenesis ≠ s.chainGenesis ∨ manifest.dataClass ≠ .ledger ∨
      manifest.lastHeight ≠ evidence.segmentLastHeight ∨
      manifest.retentionExpiryEpoch < currentEpoch ∨ manifest.contentRoot ≠
        C.shake256 (.tag "ACTIVECHAIN-ARCHIVE-CONTENT-V1" :: segmentBytes)) .archive
  let watermark := ⟨s.chainGenesis, segment.sequence, segment.contentRoot,
    evidence.segmentLastHeight⟩
  saving outcome .io fun s => { s with file := some watermark }
  return watermark

def completePending (outcome : SaveOutcome) : Update PruningError PruningStore PUnit := do
  let s ← get
  if s.mode = .pruned then
    match ← check s.watermark with
    | none => return
    | some w =>
      onPart ledger (fun l s => { s with ledger := l }) StorageError.toPruning
        (LedgerStore.deleteIfMatches C w.segmentSequence w.segmentRoot outcome)

def authorizeAndPrune (save deletion : SaveOutcome) :
    Update PruningError PruningStore PruningWatermark := do
  let watermark ← authorize C segment evidence currentEpoch currentHeight save
  completePending C deletion
  return watermark

end

end PruningStore

/-! ## Histories -/

/-- One call, with what becomes of its saves. -/
inductive PruningCall
  | append (segment : SealedSegment) (outcome : SaveOutcome)
  | authorize (segment : SealedSegment) (evidence : PruningEvidence)
      (currentEpoch currentHeight : Nat) (outcome : SaveOutcome)
  | authorizeAndPrune (segment : SealedSegment) (evidence : PruningEvidence)
      (currentEpoch currentHeight : Nat) (save deletion : SaveOutcome)
  | completePending (outcome : SaveOutcome)

namespace PruningStore

section

variable (s : PruningStore)

/-- The stores after a call, whatever it returned. -/
def step : PruningCall → PruningStore
  | .append segment outcome => { s with
      ledger := ((LedgerStore.append C segment outcome).exec s.ledger).2 }
  | .authorize segment evidence epoch height outcome =>
    ((authorize C segment evidence epoch height outcome).exec s).2
  | .authorizeAndPrune segment evidence epoch height save deletion =>
    ((authorizeAndPrune C segment evidence epoch height save deletion).exec s).2
  | .completePending outcome => ((completePending C outcome).exec s).2

/-- The segment of the watermark is gone. -/
def Settled : Prop :=
  ∀ w ∈ s.file, s.ledger.segments.get? w.segmentSequence = none
deriving Decidable

/-- Nothing below the watermark is left. -/
def Cleared : Prop := ∀ w ∈ s.file, ∀ k < w.segmentSequence, s.ledger.segments.get? k = none

/-- No authorization overtakes a pending deletion, and nothing is appended up to the watermark. -/
def Prompt : PruningCall → Prop
  | .append segment _ => ∀ w ∈ s.file, w.segmentSequence < segment.sequence
  | .authorize .. | .authorizeAndPrune .. => s.Settled
  | .completePending _ => True

end

/-- The stores after prompt calls. -/
inductive Reached (start : PruningStore) : PruningStore → Prop
  | start : Reached start start
  | call {s : PruningStore} {c : PruningCall} (hs : Reached start s) (hc : s.Prompt c) :
      Reached start (s.step C c)

/-- Segments may go, and all else stays. -/
def Drops (s s' : PruningStore) : Prop :=
  s'.file = s.file ∧ s'.mode = s.mode ∧
    ∀ k, s.ledger.segments.get? k = none → s'.ledger.segments.get? k = none

/-- One segment may go, and all else stays. -/
def Erases (s s' : PruningStore) : Prop :=
  s' = s ∨ ∃ k, s' = { s with
    ledger := { s.ledger with segments := s.ledger.segments.erase k } }

/-- The watermark may move on to the next sequence, and all else stays. -/
def Advances (s s' : PruningStore) : Prop :=
  s'.ledger = s.ledger ∧ s'.mode = s.mode ∧ ∀ w' ∈ s'.file,
    w' ∈ s.file ∨ ∀ k < w'.segmentSequence, ∃ w ∈ s.file, k ≤ w.segmentSequence

variable {C} {s s' : PruningStore} {segment : SealedSegment} {evidence : PruningEvidence}
  {epoch height : Nat} {outcome save deletion : SaveOutcome} {w : PruningWatermark}

theorem Drops.refl (s : PruningStore) : Drops s s := ⟨rfl, rfl, fun _ => id⟩

theorem Advances.refl (s : PruningStore) : Advances s s := ⟨rfl, rfl, fun _ => .inl⟩

theorem Cleared.drops (h : s.Cleared) (hd : Drops s s') : s'.Cleared := by
  intro w hw k hk
  rw [hd.1] at hw
  exact hd.2.2 k (h w hw k hk)

theorem Cleared.advances (h : s.Cleared) (hs : s.Settled) (ha : Advances s s') : s'.Cleared := by
  obtain ⟨hledger, -, hfile⟩ := ha
  intro w' hw' k hk
  rw [hledger]
  rcases hfile w' hw' with hw | hnew
  · exact h w' hw k hk
  · obtain ⟨w, hw, hle⟩ := hnew k hk
    rcases hle.lt_or_eq with hlt | rfl
    · exact h w hw k hlt
    · exact hs w hw

theorem authorize_advances :
    (authorize C segment evidence epoch height outcome).Moves Advances s := by
  refine get_bind (check_bind Advances.refl fun _ hok => ?_)
  simp only [Except.inversion, watermark] at hok
  obtain ⟨-, _, ⟨-, rfl⟩, hseq, -⟩ := hok
  have hnew : ∀ k < segment.sequence, ∃ w ∈ s.file, k ≤ w.segmentSequence := by
    intro k hk
    cases hfile : s.file with
    | none => simp_all
    | some w =>
      simp only [hfile, Option.elim_some] at hseq
      exact ⟨w, rfl, by omega⟩
  cases outcome
  case lost => exact .refl _
  all_goals exact ⟨rfl, rfl, by rintro _ ⟨⟩; exact .inr hnew⟩

theorem Erases.drops (h : Erases s s') : Drops s s' := by
  rcases h with rfl | ⟨k, rfl⟩
  · exact .refl _
  · exact ⟨rfl, rfl, fun j hj => by simp [get?_erase, hj]⟩

theorem completePending_erases : (completePending C outcome).Moves Erases s := by
  refine get_bind ?_
  split_ifs
  · refine check_bind (fun _ => .inl rfl) fun file _ => ?_
    cases file with
    | none => exact .inl rfl
    | some w =>
      refine onPart (Q := fun l l' => Erases { s with ledger := l } { s with ledger := l' })
        (fun _ => id) (get_bind ?_)
      split_ifs
      · refine check_bind (fun _ => .inl rfl) fun _ _ => check_bind
          (fun _ => .inl rfl) fun _ _ => ?_
        cases outcome
        case lost => exact .inl rfl
        all_goals exact .inr ⟨w.segmentSequence, rfl⟩
      · exact .inl rfl
  · exact .inl rfl

theorem completePending_settled (hmode : s.mode = .pruned)
    (h : (completePending C outcome).exec s = (.ok (), s')) : s'.Settled := by
  simp only [completePending, inversion, existsAndEq, hmode, if_true, watermark,
    Except.inversion] at h
  obtain ⟨-, h⟩ := h
  intro w hw
  cases hfile : s.file with
  | none =>
    rw [hfile] at h
    cases h
    cases hfile.symm.trans hw
  | some w' =>
    rw [hfile] at h
    obtain ⟨l, hl, rfl⟩ := exec_onPart_eq_ok.1 h
    obtain rfl := Option.some.inj (hfile.symm.trans hw)
    simp only [deleteIfMatches, inversion, existsAndEq] at hl
    split_ifs at hl with hin
    · simp only [inversion, exec_saving_eq_ok, existsAndEq] at hl
      obtain ⟨_, -, _, -, -, rfl⟩ := hl
      simp [get?_erase]
    · cases hl
      exact contains_eq_false.1 (by simpa using hin)

theorem authorizeAndPrune_moves :
    (authorizeAndPrune C segment evidence epoch height save deletion).Moves
    (fun s s' => ∃ t, Advances s t ∧ Erases t s') s := by
  have ha : Advances s ((authorize C segment evidence epoch height save).exec s).2 :=
    authorize_advances
  rw [Moves, authorizeAndPrune, exec_bind]
  rcases hexec : (authorize C segment evidence epoch height save).exec s with ⟨_ | w, t⟩
  all_goals rw [hexec] at ha
  · exact ⟨t, ha, .inl rfl⟩
  · have he : Erases t ((completePending C deletion).exec t).2 := completePending_erases
    simp only [exec_bind]
    rcases hexec : (completePending C deletion).exec t with ⟨_ | _, s'⟩
    all_goals
      rw [hexec] at he
      exact ⟨t, ha, he⟩

theorem append_get? {l : LedgerStore} : (append C segment outcome).Moves
    (fun l l' => ∀ k ≠ segment.sequence, l'.segments.get? k = l.segments.get? k) l := by
  refine get_bind (check_bind (fun _ _ _ => rfl) fun _ _ =>
    check_bind (fun _ _ _ => rfl) fun _ _ => ?_)
  split_ifs
  · exact check_bind (fun _ _ _ => rfl) fun _ _ => fun _ _ => rfl
  · refine check_bind (fun _ _ _ => rfl) fun _ _ => ?_
    cases outcome
    case lost => exact fun _ _ => rfl
    all_goals exact fun k hk => get?_insert_ne _ _ hk

/-- **Every prompt call keeps the sequences below the watermark empty.** -/
theorem Cleared.step (h : s.Cleared) {c : PruningCall} (hc : s.Prompt c) :
    (s.step C c).Cleared ∧ (s.step C c).mode = s.mode := by
  cases c with
  | append segment outcome =>
    refine ⟨fun w hw k hk => ?_, rfl⟩
    have hlt : w.segmentSequence < segment.sequence := hc w hw
    exact (append_get? k (by omega)).trans (h w hw k hk)
  | authorize => exact ⟨h.advances hc authorize_advances, authorize_advances.2.1⟩
  | authorizeAndPrune =>
    obtain ⟨t, ha, he⟩ := authorizeAndPrune_moves
    exact ⟨(h.advances hc ha).drops he.drops, he.drops.2.1.trans ha.2.1⟩
  | completePending =>
    exact ⟨h.drops completePending_erases.drops, completePending_erases.drops.2.1⟩

theorem Cleared.reached {start : PruningStore} (h : start.Cleared) (hs : Reached C start s) :
    s.Cleared ∧ s.mode = start.mode := by
  induction hs with
  | start => exact ⟨h, rfl⟩
  | call _ hc ih => exact ⟨(ih.1.step hc).1, (ih.1.step hc).2.trans ih.2⟩

/-- **After a prune nothing up to the watermark is left**, in a history that starts without a
watermark, never authorizes over a pending deletion and appends nothing up to the watermark. -/
theorem pruned_through_watermark {C : Crypto} {start s s' : PruningStore}
    (hstart : start.mode = .pruned ∧ start.file = none) (hs : Reached C start s)
    {segment : SealedSegment} {evidence : PruningEvidence} {epoch height : Nat}
    {save deletion : SaveOutcome} {w : PruningWatermark} (hsettled : s.Settled)
    (h : (authorizeAndPrune C segment evidence epoch height save deletion).exec s = (.ok w, s')) :
    s'.file = some w ∧ ∀ k ≤ w.segmentSequence, s'.ledger.segments.get? k = none := by
  have hclear : start.Cleared := fun w hw => by cases hstart.2.symm.trans hw
  obtain ⟨hcleared, hmode⟩ := hclear.reached hs
  simp only [authorizeAndPrune, inversion, existsAndEq] at h
  obtain ⟨t, _, ha, hc⟩ := h
  have hadv : Advances s ((authorize C segment evidence epoch height save).exec s).2 :=
    authorize_advances
  have hdrop : Drops t ((completePending C deletion).exec t).2 := completePending_erases.drops
  rw [ha] at hadv
  rw [hc] at hdrop
  have hbelow := (hcleared.advances hsettled hadv).drops hdrop
  have hfile : s'.file = some w := by
    simp only [authorize, inversion, exec_saving_eq_ok, existsAndEq] at ha
    obtain ⟨_, -, -, rfl, rfl⟩ := ha
    exact hdrop.1
  have hat := completePending_settled ((hadv.2.1.trans hmode).trans hstart.1) hc
  refine ⟨hfile, fun k hk => ?_⟩
  rcases hk.lt_or_eq with hlt | rfl
  · exact hbelow w hfile k hlt
  · exact hat w hfile

/-! ## Appending after a prune -/

/-- The stores after accepted appends and any other calls, with the highest segment accepted. -/
inductive Appended (C : Crypto) (start : PruningStore) : Option SealedSegment → PruningStore → Prop
  | start : Appended C start none start
  | append {s : PruningStore} {last : Option SealedSegment} {segment : SealedSegment}
      {outcome : SaveOutcome} {l : LedgerStore} (h : Appended C start last s)
      (hexec : (LedgerStore.append C segment outcome).exec s.ledger = (.ok ⟨⟩, l)) :
      Appended C start ((last.filter fun p => segment.sequence < p.sequence).or (some segment))
        { s with ledger := l }
  | other {s : PruningStore} {last : Option SealedSegment} {c : PruningCall}
      (h : Appended C start last s) (hc : ∀ segment outcome, c ≠ .append segment outcome) :
      Appended C start last (s.step C c)

/-- Nothing is stored above the last segment, and nothing else in its place. -/
def Tops (last : Option SealedSegment) (l : LedgerStore) : Prop :=
  ∀ k segment, l.segments.get? k = some segment →
    ∃ p ∈ last, k ≤ p.sequence ∧ (k = p.sequence → segment = p)

section Appends

variable {last : Option SealedSegment} {l l' : LedgerStore} {k : Nat}

theorem Tops.erases (h : Tops last s.ledger) (he : Erases s s') : Tops last s'.ledger := by
  rcases he with rfl | ⟨k, rfl⟩
  · exact h
  · intro j segment hj
    rw [get?_erase] at hj
    split_ifs at hj
    exact h j segment hj

theorem load_ok (h : l.load C k = .ok segment) : l.segments.get? k = some segment := by
  simp only [load, SealedSegment.decode, Except.inversion] at h
  obtain ⟨_, hget, _, ⟨-, _, -, -, rfl⟩, -, rfl⟩ := h
  exact hget

/-- Only the segment itself is new after an accepted append. -/
theorem append_ok (hexec : (append C segment outcome).exec l = (.ok ⟨⟩, l'))
    {x : SealedSegment} (hk : l'.segments.get? k = some x) :
    k = segment.sequence ∧ x = segment ∨ k ≠ segment.sequence ∧ l.segments.get? k = some x := by
  simp only [append, inversion, existsAndEq] at hexec
  obtain ⟨-, -, _, -, hexec⟩ := hexec
  split_ifs at hexec
  · simp only [inversion, existsAndEq, rejectIf_eq_ok, not_not] at hexec
    obtain ⟨hload, rfl⟩ := hexec
    by_cases heq : k = segment.sequence
    · exact .inl ⟨heq, Option.some.inj (hk.symm.trans (heq ▸ load_ok hload))⟩
    · exact .inr ⟨heq, hk⟩
  · simp only [inversion, existsAndEq, exec_saving_eq_ok] at hexec
    obtain ⟨_, -, -, rfl⟩ := hexec
    rw [get?_insert] at hk
    split_ifs at hk with heq
    · exact .inl ⟨heq, (Option.some.inj hk).symm⟩
    · exact .inr ⟨heq, hk⟩

theorem Tops.append (h : Tops last l) (hexec : (append C segment outcome).exec l = (.ok ⟨⟩, l')) :
    Tops ((last.filter fun p => segment.sequence < p.sequence).or (some segment)) l' := by
  intro k x hk
  rcases append_ok hexec hk with ⟨rfl, rfl⟩ | ⟨hne, hold⟩
  · cases hfilter : last.filter fun p => x.sequence < p.sequence with
    | none => exact ⟨x, rfl, le_rfl, fun _ => rfl⟩
    | some p =>
      have hlt := (Option.filter_eq_some_iff.1 hfilter).2
      simp only [decide_eq_true_eq] at hlt
      exact ⟨p, rfl, hlt.le, fun heq => absurd heq hlt.ne⟩
  · obtain ⟨p, rfl, hle, heq⟩ := h k x hold
    by_cases hlt : segment.sequence < p.sequence
    · exact ⟨p, by simp [Option.filter, hlt], hle, heq⟩
    · exact ⟨segment, by simp [Option.filter, hlt], by omega, fun heq => absurd heq hne⟩

theorem Tops.appended {start : PruningStore} (hstart : ∀ k, start.ledger.segments.get? k = none)
    (h : Appended C start last s) : Tops last s.ledger := by
  induction h with
  | start =>
    intro k segment hk
    cases (hstart k).symm.trans hk
  | append _ hexec ih => exact ih.append hexec
  | @other s last c _ hc ih =>
    cases c with
    | append segment outcome => exact absurd rfl (hc segment outcome)
    | authorize =>
      rw [step, authorize_advances.1]
      exact ih
    | authorizeAndPrune =>
      obtain ⟨t, ha, he⟩ := authorizeAndPrune_moves
      exact Tops.erases (ha.1 ▸ ih) he
    | completePending => exact ih.erases completePending_erases

end Appends

/-- **The next segment is accepted exactly as long as the last one can be loaded.** -/
theorem next_segment_accepted_iff {C : Crypto} {start s : PruningStore} {last next : SealedSegment}
    (hstart : ∀ k, start.ledger.segments.get? k = none) (h : Appended C start (some last) s)
    (hsealed : ∃ bytes, next.encode C = .ok bytes)
    (hchain : next.chainGenesis = s.ledger.chainGenesis) (hseq : next.sequence = last.sequence + 1)
    (hlink : next.previousSegmentRoot = last.contentRoot) :
    (∃ l, (LedgerStore.append C next .written).exec s.ledger = (.ok ⟨⟩, l)) ↔
      s.ledger.load C last.sequence = .ok last := by
  obtain ⟨bytes, hsealed⟩ := hsealed
  have htops := Tops.appended hstart h
  have hfree : s.ledger.segments.contains (last.sequence + 1) = false := by
    refine contains_eq_false.2 (Option.eq_none_iff_forall_ne_some.2 fun segment hget => ?_)
    obtain ⟨_, ⟨⟩, hle, -⟩ := htops _ _ hget
    omega
  simp only [append, inversion, existsAndEq, Except.inversion, exec_saving_eq_ok, hseq, hfree,
    hsealed, hchain, hlink, Nat.succ_pos, if_true, Nat.add_sub_cancel, Bool.false_eq_true, if_false]
  constructor
  · rintro ⟨previous, hload, -⟩
    obtain ⟨_, ⟨⟩, -, heq⟩ := htops _ _ (load_ok hload)
    rw [hload, heq rfl]
  · intro hload
    exact ⟨last, hload, rfl⟩

end PruningStore

/-! ## A deletion that is overtaken -/

namespace TwoSegments

open PruningStore

abbrev crypto : Crypto := Crypto.transparent

def segmentAt (sequence : Nat) (previous : Digest384) : SealedSegment :=
  let fields : SealedSegment := ⟨1, sequence, previous, [⟨1, [7]⟩], 0⟩
  { fields with contentRoot := (fields.sealed crypto).toOption.getD 0 }

def first : SealedSegment := segmentAt 0 0

def second : SealedSegment := segmentAt 1 first.contentRoot

/-- Complete evidence for a segment up to height 10. -/
def evidence (segment : SealedSegment) : PruningEvidence where
  segmentLastHeight := 10
  hotRetentionUntilEpoch := 40
  proofGraceUntilHeight := 20
  historyAccumulatorRoot := 3
  snapshotGenerations := (20, 30)
  manifest := ⟨1, .ledger, 10, 100, crypto.shake256 (.tag "ACTIVECHAIN-ARCHIVE-CONTENT-V1" ::
    (segment.encode crypto).toOption.getD [])⟩

def start : PruningStore := ⟨1, .pruned, none, 1, SortedMap.empty⟩

def prune (segment : SealedSegment) : Update PruningError PruningStore PruningWatermark :=
  authorizeAndPrune crypto segment (evidence segment) 50 50 .written .written

def stored : PruningStore :=
  (start.step crypto (.append first .written)).step crypto (.append second .written)

/-- The process stops before it deletes the first segment. -/
def stopped : PruningStore :=
  stored.step crypto (.authorizeAndPrune first (evidence first) 50 50 .written .lost)

theorem first_segment_pruned : stored.ledger.segments.get? 0 = some first ∧
    ∃ w s', (prune first).exec stored = (.ok w, s') ∧ s'.ledger.segments.get? 0 = none := by
  obtain ⟨s', h⟩ := Except.exists_snd
    (show ((prune first).exec stored).1 = .ok ⟨1, 0, first.contentRoot, 10⟩ by decide +kernel)
  have hs : Reached crypto start stored := .call (.call .start nofun) nofun
  exact ⟨by decide +kernel, _, s', h,
    (pruned_through_watermark ⟨rfl, rfl⟩ hs (by decide +kernel) h).2 0 (Nat.zero_le _)⟩

theorem appended_first :
    Appended crypto start (some first) (start.step crypto (.append first .written)) :=
  .append .start (Prod.fst_eq_iff.1 (by decide +kernel))

theorem second_sealed : ∃ bytes, second.encode crypto = .ok bytes :=
  ⟨(second.encode crypto).toOption.getD [], by decide +kernel⟩

theorem second_follows_first : ∃ l, (LedgerStore.append crypto second .written).exec
    (start.step crypto (.append first .written)).ledger = (.ok ⟨⟩, l) :=
  (next_segment_accepted_iff (fun _ => rfl) appended_first second_sealed (by decide +kernel) rfl
    rfl).2 (by decide +kernel)

/-- The first segment is pruned, and the second one, which links to it, is refused. -/
theorem pruned_link_refused : ∃ s, Appended crypto start (some first) s ∧
    (∃ bytes, second.encode crypto = .ok bytes) ∧ second.chainGenesis = s.ledger.chainGenesis ∧
    second.sequence = first.sequence + 1 ∧ second.previousSegmentRoot = first.contentRoot ∧
    ((LedgerStore.append crypto second .written).exec s.ledger).1 = .error .io :=
  ⟨_, .other (c := .authorizeAndPrune first (evidence first) 50 50 .written .written)
    appended_first nofun, second_sealed, by decide +kernel, rfl, rfl, by decide +kernel⟩

/-- The second segment is pruned next, and the first one stays: every later call looks at the
sequence of the watermark only. -/
theorem overtaken_segment_stays : ∃ w s', (prune second).exec stopped = (.ok w, s') ∧
    w.segmentSequence = 1 ∧ s'.ledger.segments.get? 0 = some first := by
  obtain ⟨s', h⟩ := Except.exists_snd
    (show ((prune second).exec stopped).1 = .ok ⟨1, 1, second.contentRoot, 10⟩ by decide +kernel)
  refine ⟨_, s', h, rfl, ?_⟩
  rw [← show _ = s' from congrArg Prod.snd h]
  decide +kernel

end TwoSegments

end ActiveChain
