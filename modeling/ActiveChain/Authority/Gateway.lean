import ActiveChain.Authority.Ledger

/-!
# Durable authorization (`authorization-kernel`, replay store and gateway)

The two owners of an authorization ledger.  Both work on a copy of the ledger, save a snapshot of it
and only then take it over; a failed save poisons them until they are loaded again from the file.

* `AuthorizationReplayStore.admitBatch` — a block's authorizations, all or nothing.
* `AuthorizationGateway.admitCandidate`, `advanceEpoch` — one candidate and its transition; an
  epoch.
* `Durable`, `Durable.Step` — what they have in common: a ledger in memory and one in the file.
-/

namespace ActiveChain

open Except List Option AuthorizationLedger

/-! ## Snapshots -/

/-- The most budget records a snapshot can hold. -/
def maxAuthorizationInvocations : Nat := 4096

/-- Whether it succeeded, and the file after it.  A ledger with too many budget records has no
encoding. -/
def saveTypedSnapshot {σ : Type} (ledger : AuthorizationLedger) (snapshot : σ) (file : Option σ)
    (outcome : SaveOutcome) : Bool × Option σ :=
  if maxAuthorizationInvocations < ledger.budgets.length then (false, file)
  else
    match outcome with
    | .written => (true, some snapshot)
    | .lost => (false, file)
    | .late => (false, some snapshot)

theorem saveTypedSnapshot_cases {σ : Type} (l : AuthorizationLedger) (snapshot : σ)
    (file : Option σ) (o : SaveOutcome) :
    saveTypedSnapshot l snapshot file o = (true, some snapshot) ∨
      saveTypedSnapshot l snapshot file o = (false, some snapshot) ∨
      saveTypedSnapshot l snapshot file o = (false, file) := by
  unfold saveTypedSnapshot
  split
  · exact .inr (.inr rfl)
  · cases o with
    | written => exact .inl rfl
    | lost => exact .inr (.inr rfl)
    | late => exact .inr (.inl rfl)

/-! ## The replay store -/

structure AuthorizationReplaySnapshot where
  chainGenesisCommitment : Digest384
  epoch : Nat
  ledger : AuthorizationLedger

/-- With its file. -/
structure AuthorizationReplayStore where
  chainGenesisCommitment : Digest384
  epoch : Nat
  ledger : AuthorizationLedger
  poisoned : Bool
  file : Option AuthorizationReplaySnapshot

namespace AuthorizationReplayStore

variable (C : Crypto)

def new (genesis : Digest384) (epoch : Nat) : AuthorityM AuthorizationReplayStore := do
  rejectIf (genesis = 0) .malformedEnvelope
  return ⟨genesis, epoch, AuthorizationLedger.empty C, false, none⟩

/-- The loop of `admit_batch`. -/
def admitLoop (s : AuthorizationReplayStore) (next : AuthorizationLedger) :
    List VerifiedAuthorization → AuthorityM AuthorizationLedger
  | [] => .ok next
  | a :: rest => do
    rejectIf (a.envelope.chainGenesisCommitment ≠ s.chainGenesisCommitment ∨
      a.envelope.epoch ≠ s.epoch) .authentication
    let next ← next.consume C a
    s.admitLoop next rest

def snapshot (s : AuthorizationReplayStore) (ledger : AuthorizationLedger) :
    AuthorizationReplaySnapshot :=
  ⟨s.chainGenesisCommitment, s.epoch, ledger⟩

def admitBatch (s : AuthorizationReplayStore) (batch : List VerifiedAuthorization)
    (outcome : SaveOutcome) : AuthorityM Unit × AuthorizationReplayStore :=
  if s.poisoned then (.error .poisoned, s)
  else
    match s.admitLoop C s.ledger batch with
    | .error e => (.error e, s)
    | .ok next =>
      let save := saveTypedSnapshot next (s.snapshot next) s.file outcome
      if save.1 then (.ok (), { s with ledger := next, file := save.2 })
      else (.error .persistence, { s with poisoned := true, file := save.2 })

/-- A snapshot with a zero root or genesis is refused. -/
def load (file : Option AuthorizationReplaySnapshot) : Option AuthorizationReplayStore :=
  file.bind fun snapshot =>
    if snapshot.ledger.invocationSet.root = 0 ∨ snapshot.chainGenesisCommitment = 0 then none
    else some ⟨snapshot.chainGenesisCommitment, snapshot.epoch, snapshot.ledger, false, file⟩

variable {s : AuthorizationReplayStore}

theorem admitLoop_cons {l next : AuthorizationLedger} {a : VerifiedAuthorization}
    {rest : List VerifiedAuthorization}
    (hg : a.envelope.chainGenesisCommitment = s.chainGenesisCommitment)
    (he : a.envelope.epoch = s.epoch) (h : l.consume C a = .ok next) :
    s.admitLoop C l (a :: rest) = s.admitLoop C next rest := by
  rw [admitLoop, rejectIf_of_not (by simp [hg, he]), ok_bind, h, ok_bind]

theorem consumeAll_of_admitLoop (batch : List VerifiedAuthorization) :
    ∀ {l next : AuthorizationLedger}, s.admitLoop C l batch = .ok next →
      l.consumeAll C batch = .ok next := by
  induction batch with
  | nil =>
    intro l next h
    exact h
  | cons a batch ih =>
    intro l next h
    simp only [admitLoop, inversion] at h
    obtain ⟨-, middle, hf, hr⟩ := h
    rw [consumeAll, hf]
    exact ih hr

/-- A batch is rejected without a trace, or it was consumed and then: saved, lost, or saved with an
error. -/
theorem admitBatch_cases (s : AuthorizationReplayStore) (batch : List VerifiedAuthorization)
    (o : SaveOutcome) : (∃ e, s.admitBatch C batch o = (.error e, s)) ∨
      ∃ next, s.ledger.consumeAll C batch = .ok next ∧
        (s.admitBatch C batch o =
            (.ok (), { s with ledger := next, file := some (s.snapshot next) }) ∨
          s.admitBatch C batch o =
            (.error .persistence, { s with poisoned := true, file := some (s.snapshot next) }) ∨
          s.admitBatch C batch o = (.error .persistence, { s with poisoned := true })) := by
  unfold admitBatch
  split
  · exact .inl ⟨_, rfl⟩
  · cases hl : s.admitLoop C s.ledger batch with
    | error e => exact .inl ⟨e, rfl⟩
    | ok next =>
      refine .inr ⟨next, consumeAll_of_admitLoop C batch hl, ?_⟩
      rcases saveTypedSnapshot_cases next (s.snapshot next) s.file o with h | h | h
      · exact .inl (by simp [h])
      · exact .inr (.inl (by simp [h]))
      · exact .inr (.inr (by simp [h]))

end AuthorizationReplayStore

/-! ## The gateway -/

/-- The objects of the chain, as the gateway sees them: `commit_objects`, the control policy of an
object, and `apply_transfer_transaction` with whether its receipt is a success. -/
structure ObjectKernel (State Receipt Transaction : Type) where
  commitObjects : State → Option Digest384
  controlPolicyHash : State → ObjectId → Option Digest384
  applyTransfer : State → Transaction → Option (State × Receipt × Bool)

structure AuthorizedSnapshot (State Receipt : Type) where
  chainGenesisCommitment : Digest384
  epoch : Nat
  state : State
  ledger : AuthorizationLedger
  lastReceipt : Receipt
  lastEnvelope : Digest384

/-- With its file. -/
structure AuthorizationGateway (State Receipt : Type) where
  chainGenesisCommitment : Digest384
  epoch : Nat
  state : State
  ledger : AuthorizationLedger
  poisoned : Bool
  file : Option (AuthorizedSnapshot State Receipt)

namespace AuthorizationGateway

variable {Material Policy Transaction State Receipt : Type} (C : Crypto)
  (K : AuthorizationKernel Material Policy Transaction)
  (O : ObjectKernel State Receipt Transaction)

def new (state : State) (genesis : Digest384) (epoch : Nat) :
    AuthorityM (AuthorizationGateway State Receipt) := do
  rejectIf (genesis = 0) .malformedEnvelope
  return ⟨genesis, epoch, state, AuthorizationLedger.empty C, false, none⟩

variable (g : AuthorizationGateway State Receipt)
  (candidate : AuthorizationCandidate Material Transaction)

/-- The checks of `admit`, up to the save: the verified authorization, the next ledger and what the
transition gives. -/
def prepare : AuthorityM (VerifiedAuthorization × AuthorizationLedger × State × Receipt) := do
  rejectIf (g.poisoned = true) .poisoned
  let _ ← (g.ledger.invocationSet.insert C candidate.envelope.invocationId
    candidate.invocationNonMembership).mapError fun _ => .replay
  let root ← okOr (O.commitObjects g.state) .encoding
  let command ← okOr (K.commands candidate.transaction).head? .requestSubstitution
  let policy ← okOr (O.controlPolicyHash g.state command.object) .policy
  let authorization ← verifyAuthorizationCandidate K candidate g.chainGenesisCommitment g.epoch root
    policy
  let ledger ← g.ledger.consume C authorization
  let (state, receipt, success) ← okOr (O.applyTransfer g.state candidate.transaction) .transition
  rejectIf (¬ success) .transition
  return (authorization, ledger, state, receipt)

def snapshot (epoch : Nat) (state : State) (ledger : AuthorizationLedger) (lastReceipt : Receipt)
    (lastEnvelope : Digest384) : AuthorizedSnapshot State Receipt :=
  ⟨g.chainGenesisCommitment, epoch, state, ledger, lastReceipt, lastEnvelope⟩

def admitCandidate (outcome : SaveOutcome) :
    AuthorityM Receipt × AuthorizationGateway State Receipt :=
  match g.prepare C K O candidate with
  | .error e => (.error e, g)
  | .ok (authorization, ledger, state, receipt) =>
    let save := saveTypedSnapshot ledger (g.snapshot g.epoch state ledger receipt
      authorization.envelopeCommitment) g.file outcome
    if save.1 then (.ok receipt, { g with state := state, ledger := ledger, file := save.2 })
    else (.error .persistence, { g with poisoned := true, file := save.2 })

/-- A ledger with a zero root has no decoding. -/
def loadSnapshot (file : Option (AuthorizedSnapshot State Receipt)) :
    Option (AuthorizedSnapshot State Receipt) :=
  file.filter fun snapshot => snapshot.ledger.invocationSet.root ≠ 0

/-- The last receipt is read back from the file. -/
def advanceEpoch (nextEpoch : Nat) (outcome : SaveOutcome) :
    AuthorityM Unit × AuthorizationGateway State Receipt :=
  if nextEpoch ≤ g.epoch then (.error .authentication, g)
  else if g.poisoned then (.error .poisoned, g)
  else
    match loadSnapshot g.file with
    | none => (.error .persistence, g)
    | some previous =>
      let save := saveTypedSnapshot g.ledger (g.snapshot nextEpoch g.state g.ledger
        previous.lastReceipt previous.lastEnvelope) g.file outcome
      if save.1 then (.ok (), { g with epoch := nextEpoch, file := save.2 })
      else (.error .persistence, { g with poisoned := true, file := save.2 })

def load (file : Option (AuthorizedSnapshot State Receipt)) :
    Option (AuthorizationGateway State Receipt) :=
  (loadSnapshot file).bind fun snapshot =>
    if snapshot.chainGenesisCommitment = 0 then none
    else some ⟨snapshot.chainGenesisCommitment, snapshot.epoch, snapshot.state, snapshot.ledger,
      false, file⟩

/-- The authorization that `admit` would consume. -/
def presented : List VerifiedAuthorization :=
  match g.prepare C K O candidate with
  | .error _ => []
  | .ok (authorization, _) => [authorization]

theorem consumeAll_of_prepare {g : AuthorizationGateway State Receipt}
    {candidate : AuthorizationCandidate Material Transaction} {a : VerifiedAuthorization}
    {ledger : AuthorizationLedger} {s : State} {receipt : Receipt}
    (h : g.prepare C K O candidate = .ok (a, ledger, s, receipt)) :
    g.ledger.consumeAll C [a] = .ok ledger := by
  simp only [prepare, inversion, Prod.mk.injEq] at h
  obtain ⟨-, -, -, _, -, _, -, _, -, verified, -, next, hc, _, -, -, rfl, rfl, -, -⟩ := h
  rw [consumeAll, hc]
  rfl

theorem admitCandidate_cases (o : SaveOutcome) :
    (∃ e, g.admitCandidate C K O candidate o = (.error e, g)) ∨
      ∃ ledger state receipt c,
        g.ledger.consumeAll C (g.presented C K O candidate) = .ok ledger ∧
        (g.admitCandidate C K O candidate o = (.ok receipt, { g with
            state := state, ledger := ledger,
            file := some (g.snapshot g.epoch state ledger receipt c) }) ∨
          g.admitCandidate C K O candidate o = (.error .persistence, { g with
            poisoned := true,
            file := some (g.snapshot g.epoch state ledger receipt c) }) ∨
          g.admitCandidate C K O candidate o =
            (.error .persistence, { g with poisoned := true })) := by
  unfold admitCandidate presented
  cases hp : g.prepare C K O candidate with
  | error e => exact .inl ⟨e, rfl⟩
  | ok p =>
    obtain ⟨a, ledger, state, receipt⟩ := p
    refine .inr ⟨ledger, state, receipt, a.envelopeCommitment, consumeAll_of_prepare C K O hp, ?_⟩
    rcases saveTypedSnapshot_cases ledger (g.snapshot g.epoch state ledger receipt
      a.envelopeCommitment) g.file o with h | h | h
    · exact .inl (by simp [h])
    · exact .inr (.inl (by simp [h]))
    · exact .inr (.inr (by simp [h]))

theorem advanceEpoch_ledger (nextEpoch : Nat) (o : SaveOutcome) :
    (g.advanceEpoch nextEpoch o).2.ledger = g.ledger ∧
      ((g.advanceEpoch nextEpoch o).2.file = g.file ∨
        ∃ snapshot, (g.advanceEpoch nextEpoch o).2.file = some snapshot ∧
          snapshot.ledger = g.ledger) := by
  unfold advanceEpoch
  split
  · exact ⟨rfl, .inl rfl⟩
  · split
    · exact ⟨rfl, .inl rfl⟩
    · cases loadSnapshot g.file with
      | none => exact ⟨rfl, .inl rfl⟩
      | some previous =>
        rcases saveTypedSnapshot_cases g.ledger (g.snapshot nextEpoch g.state g.ledger
          previous.lastReceipt previous.lastEnvelope) g.file o with h | h | h
        · exact ⟨by simp [h], .inr ⟨_, by simp [h]; rfl, rfl⟩⟩
        · exact ⟨by simp [h], .inr ⟨_, by simp [h]; rfl, rfl⟩⟩
        · exact ⟨by simp [h], .inl (by simp [h])⟩

end AuthorizationGateway

/-! ## What the two have in common -/

structure Durable where
  memory : AuthorizationLedger
  file : Option AuthorizationLedger

/-- One operation on a durable ledger, with the authorizations that it accepted and those it was
shown. -/
inductive Durable.Step (C : Crypto) :
    Durable → (accepted presented : List VerifiedAuthorization) → Durable → Prop
  /-- Rejected before anything was saved, or not saved. -/
  | rejected (d : Durable) (presented : List VerifiedAuthorization) : Step C d [] presented d
  | committed {d : Durable} {batch : List VerifiedAuthorization} {next : AuthorizationLedger}
      (h : d.memory.consumeAll C batch = .ok next) : Step C d batch batch ⟨next, some next⟩
  /-- The file was replaced, and the save reported a failure. -/
  | unconfirmed {d : Durable} {batch : List VerifiedAuthorization} {next : AuthorizationLedger}
      (h : d.memory.consumeAll C batch = .ok next) : Step C d [] batch ⟨d.memory, some next⟩
  | loaded {d : Durable} {saved : AuthorizationLedger} (h : d.file = some saved) :
      Step C d [] [] ⟨saved, some saved⟩

/-- The ledger comes from consuming a sequence that holds all accepted authorizations and only
presented ones, in their order. -/
def Explains (C : Crypto) (ledger : AuthorizationLedger)
    (accepted presented : List VerifiedAuthorization) : Prop :=
  ∃ done, (AuthorizationLedger.empty C).consumeAll C done = .ok ledger ∧ accepted.Sublist done ∧
    done.Sublist presented

/-- What holds of a durable ledger in every run. -/
structure DurableInv (C : Crypto) (d : Durable) (accepted presented : List VerifiedAuthorization) :
    Prop where
  memory : Explains C d.memory accepted presented
  file : ∀ saved ∈ d.file, Explains C saved accepted presented

section Durable

variable {C : Crypto} {d d' : Durable} {ledger next : AuthorizationLedger}
  {accepted presented batch : List VerifiedAuthorization}

theorem consumeAll_append (first second : List VerifiedAuthorization) :
    ∀ l : AuthorizationLedger, l.consumeAll C (first ++ second) =
      (l.consumeAll C first).bind fun next => next.consumeAll C second := by
  induction first with
  | nil =>
    intro l
    rfl
  | cons a first ih =>
    intro l
    rw [cons_append, consumeAll, consumeAll]
    cases l.consume C a with
    | error e => rfl
    | ok middle => exact ih middle

theorem Explains.consume (h : Explains C ledger accepted presented)
    (hb : ledger.consumeAll C batch = .ok next) :
    Explains C next (accepted ++ batch) (presented ++ batch) := by
  obtain ⟨done, hd, hac, hp⟩ := h
  refine ⟨done ++ batch, ?_, hac.append_right batch, hp.append_right batch⟩
  rw [consumeAll_append, hd]
  exact hb

theorem Explains.mono (h : Explains C ledger accepted presented)
    (more : List VerifiedAuthorization) : Explains C ledger accepted (presented ++ more) := by
  obtain ⟨done, hd, hac, hp⟩ := h
  exact ⟨done, hd, hac, hp.trans (sublist_append_left _ _)⟩

theorem durableInv_step (hinv : DurableInv C d accepted presented)
    {newAccepted newPresented : List VerifiedAuthorization}
    (h : Durable.Step C d newAccepted newPresented d') :
    DurableInv C d' (accepted ++ newAccepted) (presented ++ newPresented) := by
  cases h with
  | rejected =>
    rw [append_nil]
    exact ⟨hinv.memory.mono _, fun saved hs => (hinv.file saved hs).mono _⟩
  | committed hb =>
    have hn := hinv.memory.consume hb
    exact ⟨hn, fun saved hs => some.inj hs ▸ hn⟩
  | unconfirmed hb =>
    rw [append_nil]
    obtain ⟨done, hd, hac, hp⟩ := hinv.memory.consume hb
    refine ⟨hinv.memory.mono _, fun saved hs => ?_⟩
    exact ⟨done, some.inj hs ▸ hd, (sublist_append_left _ _).trans hac, hp⟩
  | loaded hf =>
    rw [append_nil, append_nil]
    have hsa := hinv.file _ hf
    exact ⟨hsa, fun saved hs => some.inj hs ▸ hsa⟩

theorem durableInv_empty : DurableInv C ⟨empty C, none⟩ [] [] :=
  ⟨⟨[], rfl, List.Sublist.refl _, List.Sublist.refl _⟩, fun _ h => by cases h⟩

theorem guarantees_of_durableInv (hash : Function.Injective C.shake256)
    (hinv : DurableInv C d accepted presented) : LedgerGuarantees accepted presented := by
  obtain ⟨done, hd, hac, hp⟩ := hinv.memory
  exact guarantees_of_consumeAll hash hd hac hp

end Durable

/-! ## Runs -/

inductive ReplayStoreOp
  | admitBatch (batch : List VerifiedAuthorization) (outcome : SaveOutcome)
  | load

inductive GatewayOp (Material Transaction : Type)
  | admitCandidate (candidate : AuthorizationCandidate Material Transaction) (outcome : SaveOutcome)
  | advanceEpoch (nextEpoch : Nat) (outcome : SaveOutcome)
  | load

/-- An owner of a ledger with what it has accepted and what it was shown. -/
structure Owned (S : Type) where
  owner : S
  accepted : List VerifiedAuthorization
  presented : List VerifiedAuthorization

def AuthorizationReplayStore.durable (s : AuthorizationReplayStore) : Durable :=
  ⟨s.ledger, s.file.map AuthorizationReplaySnapshot.ledger⟩

def AuthorizationGateway.durable {State Receipt : Type} (g : AuthorizationGateway State Receipt) :
    Durable :=
  ⟨g.ledger, g.file.map AuthorizedSnapshot.ledger⟩

/-- The owner after an operation that was shown some authorizations and accepted all or none. -/
def Owned.after {S R : Type} (t : Owned S) (shown : List VerifiedAuthorization)
    (r : AuthorityM R × S) : Owned S :=
  ⟨r.2, if r.1.isOk then t.accepted ++ shown else t.accepted, t.presented ++ shown⟩

def AuthorizationReplayStore.exec (C : Crypto) (t : Owned AuthorizationReplayStore) :
    ReplayStoreOp → Owned AuthorizationReplayStore
  | .admitBatch batch outcome => t.after batch (t.owner.admitBatch C batch outcome)
  | .load => { t with owner := (load t.owner.file).getD t.owner }

open AuthorizationReplayStore

open Owned

section Runs

variable {Material Policy Transaction State Receipt S R : Type} {C : Crypto}

def AuthorizationGateway.exec (C : Crypto) (K : AuthorizationKernel Material Policy Transaction)
    (O : ObjectKernel State Receipt Transaction) (t : Owned (AuthorizationGateway State Receipt)) :
    GatewayOp Material Transaction → Owned (AuthorizationGateway State Receipt)
  | .admitCandidate candidate outcome => t.after (t.owner.presented C K O candidate)
      (t.owner.admitCandidate C K O candidate outcome)
  | .advanceEpoch nextEpoch outcome => { t with owner :=
    (t.owner.advanceEpoch nextEpoch outcome).2 }
  | .load => { t with owner := (load t.owner.file).getD t.owner }

def Owned.Steps (C : Crypto) (view : S → Durable) (t t' : Owned S) : Prop :=
  ∃ accepted presented, Durable.Step C (view t.owner) accepted presented (view t'.owner) ∧
    t'.accepted = t.accepted ++ accepted ∧ t'.presented = t.presented ++ presented

variable {view : S → Durable} {t : Owned S}

variable {shown : List VerifiedAuthorization}

variable {e : AuthorizationError} {owner : S}

theorem Owned.steps_of_rejected (h : view owner = view t.owner) :
    Steps C view t (t.after shown ((.error e : AuthorityM R), owner)) :=
  ⟨[], shown, by rw [after, h]; exact .rejected _ _, (append_nil _).symm, rfl⟩

variable {next : AuthorizationLedger}

theorem Owned.steps_of_unconfirmed (hn : (view t.owner).memory.consumeAll C shown = .ok next)
    (h : view owner = ⟨(view t.owner).memory, some next⟩) :
    Steps C view t (t.after shown ((.error e : AuthorityM R), owner)) :=
  ⟨[], shown, by rw [after, h]; exact .unconfirmed hn, (append_nil _).symm, rfl⟩

theorem Owned.steps_of_committed {r : R} (hn : (view t.owner).memory.consumeAll C shown = .ok next)
    (h : view owner = ⟨next, some next⟩) :
    Steps C view t (t.after shown ((.ok r : AuthorityM R), owner)) :=
  ⟨shown, shown, by rw [after, h]; exact .committed hn, rfl, rfl⟩

theorem Owned.steps_of_load
    (h : view owner = view t.owner ∨ ∃ saved, (view t.owner).file = some saved ∧ view owner =
      ⟨saved, some saved⟩) : Steps C view t { t with owner := owner } := by
  refine ⟨[], [], ?_, (append_nil _).symm, (append_nil _).symm⟩
  rcases h with h | ⟨saved, hf, h⟩
  · rw [h]
    exact .rejected _ _
  · rw [h]
    exact .loaded hf

theorem AuthorizationReplayStore.exec_steps (t : Owned AuthorizationReplayStore)
    (op : ReplayStoreOp) : Steps C durable t (exec C t op) := by
  cases op with
  | admitBatch batch o =>
    rw [exec]
    rcases admitBatch_cases C t.owner batch o with ⟨e, h⟩ | ⟨next, hn, h | h | h⟩
    · rw [h]
      exact steps_of_rejected rfl
    · rw [h]
      exact steps_of_committed hn rfl
    · rw [h]
      exact steps_of_unconfirmed hn rfl
    · rw [h]
      exact steps_of_rejected rfl
  | load =>
    refine steps_of_load ?_
    cases hf : t.owner.file with
    | none => exact .inl rfl
    | some snapshot =>
      rw [load, bind_some]
      split
      · exact .inl rfl
      · exact .inr ⟨snapshot.ledger, by rw [durable, hf]; rfl, rfl⟩

theorem AuthorizationGateway.exec_steps (K : AuthorizationKernel Material Policy Transaction)
    (O : ObjectKernel State Receipt Transaction) (t : Owned (AuthorizationGateway State Receipt))
    (op : GatewayOp Material Transaction) : Steps C durable t (exec C K O t op) := by
  cases op with
  | admitCandidate candidate o =>
    rw [exec]
    rcases admitCandidate_cases C K O t.owner candidate o with
      ⟨e, h⟩ | ⟨l, s, receipt, c, hn, h | h | h⟩
    · rw [h]
      exact steps_of_rejected rfl
    · rw [h]
      exact steps_of_committed hn rfl
    · rw [h]
      exact steps_of_unconfirmed hn rfl
    · rw [h]
      exact steps_of_rejected rfl
  | advanceEpoch nextEpoch o =>
    obtain ⟨hl, hf⟩ := advanceEpoch_ledger t.owner nextEpoch o
    refine ⟨[], [], ?_, (append_nil _).symm, (append_nil _).symm⟩
    rcases hf with hf | ⟨snapshot, hf, hs⟩
    · have hsam : durable (exec C K O t (.advanceEpoch nextEpoch o)).owner =
          durable t.owner := by rw [exec, durable, hl, hf]; rfl
      rw [hsam]
      exact .rejected _ _
    · have hsa : durable (exec C K O t (.advanceEpoch nextEpoch o)).owner =
          ⟨t.owner.ledger, some t.owner.ledger⟩ := by
        rw [exec, durable, hl, hf, map_some, hs]
      rw [hsa]
      exact .committed rfl
  | load =>
    refine steps_of_load ?_
    cases hf : t.owner.file with
    | none => exact .inl rfl
    | some snapshot =>
      simp only [load, loadSnapshot, filter_some]
      split
      · rw [bind_some]
        split
        · exact .inl rfl
        · exact .inr ⟨snapshot.ledger, by rw [durable, hf]; rfl, rfl⟩
      · exact .inl rfl

theorem durableInv_foldl {Op : Type} {exec : Owned S → Op → Owned S}
    (hexec : ∀ t op, Steps C view t (exec t op)) (ops : List Op) :
    ∀ t : Owned S, DurableInv C (view t.owner) t.accepted t.presented →
      DurableInv C (view (ops.foldl exec t).owner) (ops.foldl exec t).accepted
        (ops.foldl exec t).presented := by
  induction ops with
  | nil =>
    intro t h
    exact h
  | cons op ops ih =>
    intro t h
    refine ih _ ?_
    obtain ⟨accepted, presented, hs, hac, hp⟩ := hexec t op
    rw [hac, hp]
    exact durableInv_step h hs

/-- What a failed operation leaves behind: the owner as it was; or, if the save failed, the owner
poisoned, with its old file or with the snapshot of what it was about to take over. -/
def LeftBehind {F : Type} (poison : Option F → S) (file : Option F) (owner : S)
    (snapshots : F → Prop) (e : AuthorizationError) (owner' : S) : Prop :=
  owner' = owner ∨ e = .persistence ∧ (owner' = poison file ∨
    ∃ snapshot, snapshots snapshot ∧ owner' = poison (some snapshot))

/-- **Replay and budget limits.**  In every run of a replay store or of a gateway, over batches,
epoch changes, failed saves and loads, each invocation is accepted once, each grant stays within its
limits, and within its rate windows where heights do not decrease and its identifier is its own.
What is rejected changes nothing, except that a failed save poisons the owner and may have replaced
the file. -/
theorem authorization_ledger_limits (hash : Function.Injective C.shake256)
    (K : AuthorizationKernel Material Policy Transaction)
    (O : ObjectKernel State Receipt Transaction) (genesis : Digest384) (epoch : Nat) :
    (∀ (store : AuthorizationReplayStore) (ops : List ReplayStoreOp) (t : _),
      AuthorizationReplayStore.new C genesis epoch = .ok store →
      ops.foldl (AuthorizationReplayStore.exec C) ⟨store, [], []⟩ = t →
      LedgerGuarantees t.accepted t.presented ∧
      ∀ batch outcome e s', t.owner.admitBatch C batch outcome = (.error e, s') →
        LeftBehind (fun file => { t.owner with poisoned := true, file := file }) t.owner.file
          t.owner (fun snapshot => ∃ next, t.owner.ledger.consumeAll C batch = .ok next ∧
            snapshot = t.owner.snapshot next) e s') ∧
    (∀ (state : State) (gateway : AuthorizationGateway State Receipt)
      (ops : List (GatewayOp Material Transaction)) (t : _),
      AuthorizationGateway.new C state genesis epoch = .ok gateway →
      ops.foldl (AuthorizationGateway.exec C K O) ⟨gateway, [], []⟩ = t →
      LedgerGuarantees t.accepted t.presented ∧
      ∀ candidate outcome e g', t.owner.admitCandidate C K O candidate outcome = (.error e, g') →
        LeftBehind (fun file => { t.owner with poisoned := true, file := file }) t.owner.file
          t.owner (fun snapshot => ∃ next state receipt commitment,
            t.owner.ledger.consumeAll C (t.owner.presented C K O candidate) = .ok next ∧
            snapshot = t.owner.snapshot t.owner.epoch state next receipt commitment) e g') := by
  constructor
  · rintro store ops t hnew rfl
    simp only [new, inversion] at hnew
    obtain ⟨-, rfl⟩ := hnew
    refine ⟨guarantees_of_durableInv hash (durableInv_foldl
      (exec_steps (C := C)) ops _ durableInv_empty), ?_⟩
    intro batch outcome e s' h
    rcases admitBatch_cases C _ batch outcome with
      ⟨e', h'⟩ | ⟨next, hn, h' | h' | h'⟩ <;> rw [h', Prod.mk.injEq] at h
    · exact .inl h.2.symm
    · cases h.1
    · exact .inr ⟨(error.inj h.1).symm, .inr ⟨_, ⟨next, hn, rfl⟩, h.2.symm⟩⟩
    · exact .inr ⟨(error.inj h.1).symm, .inl h.2.symm⟩
  · rintro state gateway ops t hnew rfl
    simp only [AuthorizationGateway.new, inversion] at hnew
    obtain ⟨-, rfl⟩ := hnew
    refine ⟨guarantees_of_durableInv hash (durableInv_foldl
      (AuthorizationGateway.exec_steps (C := C) K O) ops _ durableInv_empty), ?_⟩
    intro candidate outcome e g' h
    rcases AuthorizationGateway.admitCandidate_cases C K O _ candidate outcome with
      ⟨e', h'⟩ | ⟨next, state', receipt, commitment, hn, h' | h' | h'⟩ <;>
      rw [h', Prod.mk.injEq] at h
    · exact .inl h.2.symm
    · cases h.1
    · exact .inr ⟨(error.inj h.1).symm,
        .inr ⟨_, ⟨next, state', receipt, commitment, hn, rfl⟩, h.2.symm⟩⟩
    · exact .inr ⟨(error.inj h.1).symm, .inl h.2.symm⟩

end Runs

/-! ## What is not promised -/

namespace SharedIdentifier

def grantWith (rate : Option RateLimit) : CapabilityGrant where
  fields := { TwoLinks.child.fields with rateLimit := rate }
  issuerSignature := TwoLinks.signature
  not_self_parent := TwoLinks.child.not_self_parent
  valid_until_after := TwoLinks.child.valid_until_after
  depth_of_allowed := TwoLinks.child.depth_of_allowed
  depth_of_forbidden := TwoLinks.child.depth_of_forbidden

def limited : CapabilityGrant := grantWith (some ⟨1, 10, by decide, Nat.succ_pos _⟩)

def unlimited : CapabilityGrant := grantWith none

/-- An invocation at height 12 when the replay set holds `keys`. -/
def invocation (C : Crypto) (id : AccumulatorKey) (h : id ≠ 0) (keys : List AccumulatorKey)
    (grant : CapabilityGrant) : VerifiedAuthorization :=
  ⟨{ TwoLinks.envelope with
      invocationId := id, value := 1, nonzero := ⟨h, TwoLinks.envelope.nonzero.2⟩ },
    93, grant, ⟨id, siblingsOf C .authorizationInvocation keys id⟩⟩

variable (C : Crypto)

def first : VerifiedAuthorization := invocation C 1 (by decide +kernel) [] limited

def second : VerifiedAuthorization := invocation C 2 (by decide +kernel) [1] unlimited

def third : VerifiedAuthorization := invocation C 3 (by decide +kernel) [2, 1] limited

def budgetsAfter (uses windowStart windowUses : Nat) : Budgets :=
  SortedMap.empty.insert 7 ⟨uses, uses, uses, windowStart, windowUses⟩

theorem consume_first : (empty C).consume C (first C) =
    .ok ⟨commitmentOf C .authorizationInvocation [1], budgetsAfter 1 10 1⟩ := by
  rw [empty, empty_eq]
  refine consume_siblings rfl not_mem_nil (by decide) ?_
  with_unfolding_all rfl

theorem consume_second : consume C
    ⟨commitmentOf C .authorizationInvocation [1], budgetsAfter 1 10 1⟩ (second C) =
    .ok ⟨commitmentOf C .authorizationInvocation [2, 1], budgetsAfter 2 0 0⟩ := by
  have hf : (2 : AccumulatorKey) ∉ [1] := by decide +kernel
  refine consume_siblings rfl hf (by decide) ?_
  with_unfolding_all rfl

theorem consume_third : consume C
    ⟨commitmentOf C .authorizationInvocation [2, 1], budgetsAfter 2 0 0⟩ (third C) =
    .ok ⟨commitmentOf C .authorizationInvocation [3, 2, 1], budgetsAfter 3 10 1⟩ := by
  have hf : (3 : AccumulatorKey) ∉ [2, 1] := by decide +kernel
  refine consume_siblings rfl hf (by decide) ?_
  with_unfolding_all rfl

def store : AuthorizationReplayStore := ⟨60, 2, AuthorizationLedger.empty C, false, none⟩

theorem admitBatch_first : (store C).admitBatch C [first C] .late =
    (.error .persistence, { store C with poisoned := true, file := some ((store C).snapshot
      ⟨commitmentOf C .authorizationInvocation [1], budgetsAfter 1 10 1⟩) }) := by
  have hl : (store C).admitLoop C (store C).ledger [first C] = _ :=
    admitLoop_cons C rfl rfl (consume_first C)
  unfold admitBatch
  rw [hl]
  rfl

theorem admitBatch_all : (store C).admitBatch C [first C, second C, third C] .written =
    (.ok (), { store C with
      ledger := ⟨commitmentOf C .authorizationInvocation [3, 2, 1], budgetsAfter 3 10 1⟩
      file := some ((store C).snapshot
        ⟨commitmentOf C .authorizationInvocation [3, 2, 1], budgetsAfter 3 10 1⟩) }) := by
  have hl : (store C).admitLoop C (store C).ledger [first C, second C, third C] = _ :=
    (admitLoop_cons C rfl rfl (consume_first C)).trans
      ((admitLoop_cons C rfl rfl (consume_second C)).trans
        (admitLoop_cons C rfl rfl (consume_third C)))
  unfold admitBatch
  rw [hl]
  rfl

theorem uses_all : spent (under limited.fields) (fun _ => 1) [first C, second C, third C] = 2 := by
  have hl : (first C).grant = limited.fields ∧ (third C).grant = limited.fields := ⟨rfl, rfl⟩
  have hu : (second C).grant ≠ limited.fields := by
    intro h
    cases congrArg (·.rateLimit) h
  simp [spent, under, hl, hu]

/-- Two grants with one identifier: the second resets the window of the first, which is used
twice in the ten blocks from height 10, where it allows one use. And a batch that is rejected for
its save is in the file. -/
theorem window_exceeded_and_rejected_batch_kept :
    (∃ s', (store .transparent).admitBatch .transparent
        [first .transparent, second .transparent, third .transparent] .written = (.ok (), s') ∧
      limited.fields.rateLimit = some ⟨1, 10, by decide, by decide⟩ ∧
      spent (under limited.fields) (fun _ => 1)
        [first .transparent, second .transparent, third .transparent] = 2 ∧
      (first .transparent).envelope.height = 12 ∧ (third .transparent).envelope.height = 12) ∧
    ∃ s', (store .transparent).admitBatch .transparent [first .transparent] .late =
        (.error .persistence, s') ∧ s'.poisoned = true ∧ s'.file ≠ (store .transparent).file :=
  ⟨⟨_, admitBatch_all _, rfl, uses_all _, rfl, rfl⟩, _, admitBatch_first _, rfl,
    some_ne_none _⟩

theorem three_invocations_once :
    ∃ t : Owned AuthorizationReplayStore,
      [ReplayStoreOp.admitBatch [first .transparent, second .transparent, third .transparent]
        .written].foldl (AuthorizationReplayStore.exec .transparent)
        ⟨store .transparent, [], []⟩ = t ∧
      t.accepted = [first .transparent, second .transparent, third .transparent] ∧
      LedgerGuarantees t.accepted t.presented := by
  have hnew : new .transparent 60 2 = .ok (store .transparent) := by
    rfl
  have hall := authorization_ledger_limits Crypto.transparent_injective TwoLinks.kernel
    (⟨fun _ => none, fun _ _ => none, fun _ _ => none⟩ : ObjectKernel Unit Unit Unit) 60 2
  refine ⟨_, rfl, ?_, (hall.1 _ _ _ hnew rfl).1⟩
  rw [foldl_cons, foldl_nil, exec, admitBatch_all]
  rfl

end SharedIdentifier

end ActiveChain
