import ActiveChain.Authority.Gateway

/-!
# What a failed save leaves behind

The durable operations of the wallet ingress and of the authorization gateway, at every point at
which a save can fail.

* `TransactionIngress.exec` — the wallet's operations; most publish through a flag, three do not
  look at it.
* `KeepsDisk` — what an operation owes to the file, whether it succeeds or fails.
-/

namespace ActiveChain

section

variable {S A : Type}

/-- Every call is refused, whatever is called before it. -/
def Refuses (exec : S → A → Bool × S) (s : S) : Prop :=
  ∀ (calls : List A) call, (exec (calls.foldl (fun s a => (exec s a).2) s) call).1 = false

/-- One operation of an owner with a file: after a success the file holds the state in memory; after
a failure it is as it was in step with the memory, or nothing is accepted any more. -/
structure KeepsDisk (exec : S → A → Bool × S) (Saved InStep : S → Prop) (s : S) (a : A) : Prop where
  success : (exec s a).1 = true → Saved (exec s a).2
  failure : (exec s a).1 = false → InStep (exec s a).2 ∨ Refuses exec (exec s a).2

theorem refuses_of_stuck {exec : S → A → Bool × S} {s : S} (h : ∀ a, exec s a = (false, s)) :
    Refuses exec s := by
  intro calls call
  have hs : calls.foldl (fun s a => (exec s a).2) s = s := by
    induction calls with
    | nil => rfl
    | cons a calls ih => rw [List.foldl_cons, h, ih]
  rw [hs, h]

end

/-! ## The wallet ingress -/

inductive WalletError (ε : Type)
  | persistence
  | rejected (error : ε)

/-- `TransactionIngress` with its file: what a snapshot holds, and the flag of the process. -/
structure TransactionIngress (σ : Type) where
  content : σ
  persistenceFaulted : Bool
  file : Option σ

/-- The durable operations, each with its effect on a copy of the state. -/
inductive DurableCall (σ ε : Type)
  | submitEnvelope (effect : σ → Except ε σ)
  | registerSessionEnvelope (effect : σ → Except ε σ)
  | registerSession (effect : σ → Except ε σ)
  | installFinalizedAuthorizationKey (effect : σ → Except ε σ)
  | settleEpoch (effect : σ → Except ε σ)
  | submitSessionAndTransfer (effect : σ → Except ε σ)
  | submitOperatorFaucetAuthorization (effect : σ → Except ε σ)
  /-- `commit_prepared`, with the state the batch was prepared from and the next one. -/
  | commitPrepared (pre : σ) (preFaulted : Bool) (next : σ)

namespace TransactionIngress

variable {σ ε : Type} [DecidableEq σ] (s : TransactionIngress σ) (next : σ) (outcome : SaveOutcome)

/-- The next state, before anything is saved. -/
def prepared : DurableCall σ ε → Except (WalletError ε) σ
  | .submitEnvelope effect | .registerSessionEnvelope effect | .registerSession effect
  | .installFinalizedAuthorizationKey effect | .settleEpoch effect
  | .submitSessionAndTransfer effect | .submitOperatorFaucetAuthorization effect =>
    (effect s.content).mapError .rejected
  | .commitPrepared pre preFaulted next => do
    rejectIf (pre ≠ s.content ∨ preFaulted ≠ s.persistenceFaulted) .persistence
    return next

def publishNext : Except (WalletError ε) Unit × TransactionIngress σ :=
  if s.persistenceFaulted then (.error .persistence, s)
  else
    match outcome with
    | .written => (.ok (), { s with content := next, file := some next })
    | .lost => (.error .persistence, s)
    | .late => (.error .persistence, { s with persistenceFaulted := true, file := some next })

/-- The result and the state after it. -/
def saveAtomic : Except (WalletError ε) Unit × TransactionIngress σ :=
  match outcome with
  | .written => (.ok (), { s with content := next, file := some next })
  | .lost => (.error .persistence, s)
  | .late => (.error .persistence, { s with file := some next })

/-- The operations that do not look at the flag. -/
def savesDirectly : DurableCall σ ε → Bool
  | .submitSessionAndTransfer _ | .submitOperatorFaucetAuthorization _
  | .commitPrepared _ _ _ => true
  | _ => false

def exec (call : DurableCall σ ε) (outcome : SaveOutcome) :
    Except (WalletError ε) Unit × TransactionIngress σ :=
  match s.prepared call with
  | .error e => (.error e, s)
  | .ok next => if savesDirectly call then s.saveAtomic next outcome else s.publishNext next outcome

def call (s : TransactionIngress σ) (a : DurableCall σ ε × SaveOutcome) :
    Bool × TransactionIngress σ :=
  ((s.exec a.1 a.2).1.isOk, (s.exec a.1 a.2).2)

def Saved : Prop := s.file = some s.content

/-- A file, if there is one, holds the state in memory. -/
def InStep : Prop := ∀ saved ∈ s.file, saved = s.content

/-- The state that an operation tries to save. -/
def attempted (call : DurableCall σ ε) : Option σ :=
  match s.prepared call with
  | .error _ => none
  | .ok next => if s.persistenceFaulted ∧ ¬ savesDirectly call then none else some next

/-- The save succeeds, or fails after the rename without a change of the state, or the file stays
and was in step. -/
def Safe (call : DurableCall σ ε) : SaveOutcome → Prop
  | .written => s.attempted call = none → s.InStep
  | .lost => s.InStep
  | .late => ∀ saved ∈ (s.attempted call).or s.file, saved = s.content

theorem call_eq (call : DurableCall σ ε) : s.call (call, outcome) =
    match s.attempted call, outcome with
    | some next, .written => (true, { s with content := next, file := some next })
    | some next, .late => (false, { s with
        persistenceFaulted := s.persistenceFaulted || ¬ savesDirectly call, file := some next })
    | _, _ => (false, s) := by
  unfold TransactionIngress.call exec attempted publishNext saveAtomic
  cases s.prepared call with
  | error e => cases outcome <;> rfl
  | ok next =>
    cases hd : savesDirectly call <;> cases hf : s.persistenceFaulted <;> cases outcome <;>
      simp [Except.isOk, Except.toBool]

/-- Whatever has happened, a session with its transfer is accepted. -/
theorem not_refuses : ¬ Refuses (TransactionIngress.call (ε := ε)) s := by
  intro h
  cases h [] (.submitSessionAndTransfer .ok, .written)

theorem call_keepsDisk_iff (call : DurableCall σ ε) :
    KeepsDisk TransactionIngress.call Saved InStep s (call, outcome) ↔ s.Safe call outcome := by
  have hiff : KeepsDisk TransactionIngress.call Saved InStep s (call, outcome) ↔
      ((s.call (call, outcome)).1 = true → (s.call (call, outcome)).2.Saved) ∧
        ((s.call (call, outcome)).1 = false → (s.call (call, outcome)).2.InStep) :=
    ⟨fun h => ⟨h.success, fun hf => (h.failure hf).resolve_right (not_refuses _)⟩,
      fun h => ⟨h.1, fun hf => .inl (h.2 hf)⟩⟩
  rw [hiff, call_eq]
  cases ha : s.attempted call <;> cases outcome <;> simp [Safe, Saved, InStep, ha]

end TransactionIngress

/-! ## The authorization gateway -/

variable {Material Policy Transaction State Receipt : Type} (C : Crypto)
  (K : AuthorizationKernel Material Policy Transaction)
  (O : ObjectKernel State Receipt Transaction)

namespace AuthorizationGateway

inductive Call (Material Transaction : Type)
  | admitCandidate (candidate : AuthorizationCandidate Material Transaction) (outcome : SaveOutcome)
  | advanceEpoch (nextEpoch : Nat) (outcome : SaveOutcome)

variable (g : AuthorizationGateway State Receipt)

def call : Call Material Transaction → Bool × AuthorizationGateway State Receipt
  | .admitCandidate candidate o =>
    ((g.admitCandidate C K O candidate o).1.isOk, (g.admitCandidate C K O candidate o).2)
  | .advanceEpoch nextEpoch o => ((g.advanceEpoch nextEpoch o).1.isOk,
    (g.advanceEpoch nextEpoch o).2)

/-- The snapshot is that of the state in memory, with the last receipt. -/
def Holds (snapshot : AuthorizedSnapshot State Receipt) : Prop :=
  ∃ receipt envelope, snapshot = g.snapshot g.epoch g.state g.ledger receipt envelope

def Saved : Prop := ∃ snapshot ∈ g.file, g.Holds snapshot

/-- The file, if there is one, holds the state in memory. -/
def InStep : Prop := ∀ snapshot ∈ g.file, g.Holds snapshot

variable {g C K O}

theorem call_of_poisoned (h : g.poisoned = true) (a : Call Material Transaction) :
    g.call C K O a = (false, g) := by
  cases a with
  | admitCandidate candidate o =>
    simp only [call, admitCandidate, prepare, rejectIf, if_pos h]
    rfl
  | advanceEpoch nextEpoch o =>
    simp only [call, advanceEpoch, if_pos h]
    split_ifs <;> rfl

/-- An operation is refused and changes nothing, is saved, or poisons the gateway. -/
theorem call_cases (a : Call Material Transaction) : g.call C K O a = (false, g) ∨
    (g.call C K O a).1 = true ∧ (g.call C K O a).2.Saved ∨
    (g.call C K O a).1 = false ∧ (g.call C K O a).2.poisoned = true := by
  cases a with
  | admitCandidate candidate o =>
    rw [call]
    rcases g.admitCandidate_cases C K O candidate o with
      ⟨e, h⟩ | ⟨l, s, receipt, c, -, h | h | h⟩ <;> rw [h]
    · exact .inl rfl
    · exact .inr (.inl ⟨rfl, _, rfl, receipt, c, rfl⟩)
    · exact .inr (.inr ⟨rfl, rfl⟩)
    · exact .inr (.inr ⟨rfl, rfl⟩)
  | advanceEpoch nextEpoch o =>
    rw [call, advanceEpoch]
    split_ifs
    · exact .inl rfl
    · exact .inl rfl
    · cases loadSnapshot g.file with
      | none => exact .inl rfl
      | some previous =>
        rcases saveTypedSnapshot_cases g.ledger (g.snapshot nextEpoch g.state g.ledger
          previous.lastReceipt previous.lastEnvelope) g.file o with h | h | h <;> simp only [h]
        · exact .inr (.inl ⟨rfl, _, rfl, _, _, rfl⟩)
        · exact .inr (.inr ⟨rfl, rfl⟩)
        · exact .inr (.inr ⟨rfl, rfl⟩)

theorem Saved.inStep (h : g.Saved) : g.InStep := by
  obtain ⟨snapshot, hfile, hh⟩ := h
  intro saved hs
  cases hfile.symm.trans hs
  exact hh

theorem call_keepsDisk (h : g.InStep ∨ g.poisoned = true) (a : Call Material Transaction) :
    KeepsDisk (call C K O) Saved InStep g a := by
  have hrefuses : ∀ g : AuthorizationGateway State Receipt, g.poisoned = true →
      Refuses (call C K O) g := fun g hp => refuses_of_stuck (call_of_poisoned hp)
  rcases g.call_cases (C := C) (K := K) (O := O) a with hc | ⟨hok, hs⟩ | ⟨hfail, hp⟩
  · exact ⟨by simp [hc], fun _ => by rw [hc]; exact h.imp_right (hrefuses g)⟩
  · exact ⟨fun _ => hs, by simp [hok]⟩
  · exact ⟨by simp [hfail], fun _ => .inr (hrefuses _ hp)⟩

theorem inStep_exec {t : Owned (AuthorizationGateway State Receipt)}
    (h : t.owner.InStep ∨ t.owner.poisoned = true) (op : GatewayOp Material Transaction) :
    (exec C K O t op).owner.InStep ∨ (exec C K O t op).owner.poisoned = true := by
  have hcall : ∀ a : Call Material Transaction,
      (t.owner.call C K O a).2.InStep ∨ (t.owner.call C K O a).2.poisoned = true := by
    intro a
    rcases t.owner.call_cases (C := C) (K := K) (O := O) a with hc | ⟨-, hs⟩ | ⟨-, hp⟩
    · rwa [hc]
    · exact .inl hs.inStep
    · exact .inr hp
  cases op with
  | admitCandidate candidate o => exact hcall (.admitCandidate candidate o)
  | advanceEpoch nextEpoch o => exact hcall (.advanceEpoch nextEpoch o)
  | load =>
    simp only [exec, load]
    cases hf : loadSnapshot t.owner.file with
    | none => simpa using h
    | some snapshot =>
      by_cases hz : snapshot.chainGenesisCommitment = 0
      · simpa [hz] using h
      · have hfile := (Option.filter_eq_some_iff.1 hf).1
        refine .inl ?_
        simp only [Option.bind_some, if_neg hz, Option.getD_some]
        exact Saved.inStep ⟨snapshot, hfile, snapshot.lastReceipt, snapshot.lastEnvelope, rfl⟩

end AuthorizationGateway

end ActiveChain
