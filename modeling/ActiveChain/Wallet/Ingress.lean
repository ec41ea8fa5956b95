import ActiveChain.Cash.History

/-!
# Admission of wallet transfers (`wallet-core/src/lib.rs`)

A transfer needs a session under the sender's key.  The ingress remembers the sessions and the
inputs it has used and every transfer it has accepted, each in a table with a limit.

* `CashIngress.submitAuthorized`, `registerSession`, `pruneReplayState` — the operations.
* `Reached.pruned` — pruning empties the tables of sessions and inputs, but not that of transfers.
-/

namespace ActiveChain

open Except SortedMap

def maxConsumedSessionsPerLane : Nat := 4096

def maxSessionBudgetsPerLane : Nat := 4096

def maxConsumedInputs : Nat := 65535

def maxNonAuthoritativeAccepted : Nat := 65535

/-- The variants of `WalletError` that the admission of a transfer uses. -/
inductive AdmissionError
  | wrongChain
  | wrongSender
  | wrongRecipient
  | expired
  | unknownAuthorizationKey
  | invalidIdentityProof
  | invalidNonce
  | sessionReplay
  | unknownSession
  | sessionBudgetExceeded
  | stateLimit
  | inputReplay
  | invalidSignature
  | nonceExhausted
  | insufficientFunds
deriving DecidableEq

structure CashSessionBudget where
  validFrom : Nat
  expiresAt : Nat
  maxSpend : Nat
  spent : Nat

structure CashAuthorizationLane where
  publicKey : PublicKey
  nextNonce : Nat
  consumedSessions : List Digest384
  sessionBudgets : SortedMap Digest384 CashSessionBudget
  authenticatorId : Digest384
  finalizedHeight : Nat

/-- `TransactionIngress`, without the flag of its process. -/
structure CashIngress where
  ledger : CashLedger
  chainId : ChainId
  authorizationLanes : PrincipalId → Option CashAuthorizationLane
  consumedInputs : List CoinCellId
  nonAuthoritativeAccepted : List TransactionId

structure CashSessionGrant where
  chainId : ChainId
  signer : PrincipalId
  sessionId : Digest384
  validFrom : Nat
  expiresAt : Nat
  maxSpend : Nat

structure CashAuthorizationRequest where
  chainId : ChainId
  signer : PrincipalId
  nonce : Nat
  sessionId : Digest384
  sessionExpiresAt : Nat
  recipientCommitment : Digest384
  transfer : CoinTransfer

/-- The hashes and the signature checks of an authorization. -/
structure CashAuthorizationKernel where
  recipientCommitment : PrincipalId → Digest384
  authenticator : ChainId → PublicKey → Digest384
  intentId : CashAuthorizationRequest → TransactionId
  verifyTransfer : PublicKey → CashAuthorizationRequest → Bool
  verifySession : PublicKey → CashSessionGrant → Bool

namespace CashIngress

variable (C : Crypto) (K : CashAuthorizationKernel) (s : CashIngress)

section

variable (sender : PrincipalId) (lane : CashAuthorizationLane)

def setLane : CashIngress :=
  { s with authorizationLanes := Function.update s.authorizationLanes sender (some lane) }

def registerSession (grant : CashSessionGrant) : Except AdmissionError CashIngress := do
  rejectIf (grant.chainId ≠ s.chainId) .wrongChain
  let lane ← okOr (s.authorizationLanes grant.signer) .unknownAuthorizationKey
  rejectIf (K.verifySession lane.publicKey grant = false) .invalidSignature
  rejectIf (lane.sessionBudgets.contains grant.sessionId = true) .sessionReplay
  rejectIf (lane.sessionBudgets.length = maxSessionBudgetsPerLane) .stateLimit
  let sessionBudgets := lane.sessionBudgets.insert grant.sessionId
    ⟨grant.validFrom, grant.expiresAt, grant.maxSpend, 0⟩
  return s.setLane grant.signer { lane with sessionBudgets := sessionBudgets }

variable (r : CashAuthorizationRequest) (height : Nat)

/-- The checks of `submit_authorized` before the limits: the lane, and the session after the
transfer. -/
def checkRequest : Except AdmissionError (CashAuthorizationLane × CashSessionBudget) := do
  rejectIf (r.chainId ≠ s.chainId) .wrongChain
  rejectIf (r.signer ≠ r.transfer.sender) .wrongSender
  rejectIf (r.recipientCommitment ≠ K.recipientCommitment r.transfer.recipient) .wrongRecipient
  rejectIf (r.transfer.validUntil < height ∨ r.sessionExpiresAt < height) .expired
  let lane ← okOr (s.authorizationLanes r.signer) .unknownAuthorizationKey
  rejectIf (lane.authenticatorId = K.authenticator s.chainId lane.publicKey ∧
    height ≤ lane.finalizedHeight) .invalidIdentityProof
  rejectIf (r.nonce ≠ lane.nextNonce) .invalidNonce
  rejectIf (r.sessionId ∈ lane.consumedSessions) .sessionReplay
  let session ← okOr (lane.sessionBudgets.get? r.sessionId) .unknownSession
  rejectIf (height < session.validFrom ∨ session.expiresAt < height ∨
    session.expiresAt < r.sessionExpiresAt) .expired
  let spend ← okOr (checkedAdd 128 r.transfer.amount r.transfer.fee) .sessionBudgetExceeded
  let spent ← okOr (checkedAdd 128 session.spent spend) .sessionBudgetExceeded
  rejectIf (session.maxSpend < spent) .sessionBudgetExceeded
  return (lane, { session with spent := spent })

/-- A table that the transfer needs is full. -/
def Full (t : CoinTransfer) : Prop :=
  lane.consumedSessions.length = maxConsumedSessionsPerLane ∨
    maxConsumedInputs < s.consumedInputs.length + (t.inputs.length + 1) ∨
    s.nonAuthoritativeAccepted.length = maxNonAuthoritativeAccepted
deriving Decidable

/-- What follows the limits in `submit_authorized`. -/
def enter (session : CashSessionBudget) (r : CashAuthorizationRequest) (height : Nat) :
    Except AdmissionError CashIngress := do
  rejectIf (∃ input ∈ r.transfer.inputs ++ [r.transfer.feeReserve], input ∈ s.consumedInputs)
    .inputReplay
  rejectIf (K.verifyTransfer lane.publicKey r = false) .invalidSignature
  let nextNonce ← okOr (checkedAdd 64 lane.nextNonce 1) .nonceExhausted
  match (CashLedger.applyTransfer C r.transfer height).exec s.ledger with
  | (.error _, _) => .error .insufficientFunds
  | (.ok _, ledger) =>
    let sessionBudgets := lane.sessionBudgets.insert r.sessionId session
    let consumedSessions := r.sessionId :: lane.consumedSessions
    .ok { s.setLane r.signer { lane with nextNonce, sessionBudgets, consumedSessions } with
      ledger := ledger
      consumedInputs := r.transfer.inputs ++ r.transfer.feeReserve :: s.consumedInputs
      nonAuthoritativeAccepted := K.intentId r :: s.nonAuthoritativeAccepted }

def submitAuthorized : Except AdmissionError CashIngress := do
  let (lane, session) ← s.checkRequest K r height
  rejectIf (s.Full lane r.transfer) .stateLimit
  s.enter C K lane session r height

/-- One lane under `prune_replay_state`. -/
def pruneLane (lane : CashAuthorizationLane) : CashAuthorizationLane :=
  { lane with
    sessionBudgets := lane.sessionBudgets.retain fun _ session => height ≤ session.expiresAt
    consumedSessions := lane.consumedSessions.filter fun id =>
      ¬ ∃ session ∈ lane.sessionBudgets.get? id, session.expiresAt < height }

def pruneReplayState : CashIngress :=
  { s with
    authorizationLanes := fun sender => (s.authorizationLanes sender).map (pruneLane height)
    consumedInputs := s.consumedInputs.filter fun id => s.ledger.cells.cells.contains id }

end

/-! ## What pruning empties -/

/-- The ingresses reached from a new one, whose ledger has come from a genesis.  Keys are installed,
rotated and enrolled without a change of the lane's sessions, and settlements change the ledger
alone. -/
inductive Reached (economy : GenesisEconomy) : CashIngress → Prop
  | new {ledger : CashLedger} {chainId : ChainId}
      (h : ∃ created intents spent, History C economy ledger created intents spent) :
      Reached economy ⟨ledger, chainId, fun _ => none, [], []⟩
  | setKey {s : CashIngress} {sender : PrincipalId} {lane : CashAuthorizationLane}
      {accepted : List TransactionId} (h : Reached economy s)
      (hc : lane.consumedSessions =
        ((s.authorizationLanes sender).map (·.consumedSessions)).getD [])
      (hb : lane.sessionBudgets =
        ((s.authorizationLanes sender).map (·.sessionBudgets)).getD .empty) :
      Reached economy { s.setLane sender lane with nonAuthoritativeAccepted := accepted }
  | register {s s' : CashIngress} {grant : CashSessionGrant} (h : Reached economy s)
      (hs : s.registerSession K grant = .ok s') : Reached economy s'
  | submit {s s' : CashIngress} {r : CashAuthorizationRequest} {height : Nat}
      (h : Reached economy s) (hs : s.submitAuthorized C K r height = .ok s') : Reached economy s'
  | prune {s : CashIngress} (height : Nat) (h : Reached economy s) :
      Reached economy (s.pruneReplayState height)
  | settle {s : CashIngress} {call : CashCall} {ledger : CashLedger} (h : Reached economy s)
      (hs : (call.prepare C).exec s.ledger = (.ok (), ledger)) :
      Reached economy { s with ledger := ledger }

/-- The ids are names of cells that were spent. -/
def Gone (economy : GenesisEconomy) (l : CashLedger) (ids : List CoinCellId) : Prop :=
  ∃ created intents spent, History C economy l created intents spent ∧
    ∀ id ∈ ids, id ∈ created ∧ l.cells.cells.get? id = none

variable {C K s} {lane : CashAuthorizationLane} {grant : CashSessionGrant}
  {r : CashAuthorizationRequest} {height : Nat} {economy : GenesisEconomy}

/-- Every used session has its budget. -/
def SessionsKept (lane : CashAuthorizationLane) : Prop :=
  ∀ id ∈ lane.consumedSessions, ∃ session, lane.sessionBudgets.get? id = some session

section

variable {l l' : CashLedger} {ids : List CoinCellId}

theorem Gone.of_subset {ids' : List CoinCellId} (h : Gone C economy l ids) (hs : ids' ⊆ ids) :
    Gone C economy l ids' := by
  obtain ⟨created, intents, spent, hist, hgone⟩ := h
  exact ⟨created, intents, spent, hist, fun id hid => hgone id (hs hid)⟩

variable (hash : Function.Injective C.shake256) (h : Gone C economy l ids)
include hash h

theorem Gone.accept (call : CashCall) (hs : (call.prepare C).exec l = (.ok (), l')) :
    Gone C economy l' (((call.intent.map CashIntent.spends).getD []) ++ ids) := by
  obtain ⟨created, intents, spent, hist, hgone⟩ := h
  rcases CashLedger.consumes_of_prepare hash hist.nullifiers hs with
    ⟨i, spent', hi, hc⟩ | ⟨hi, hcells, hshielded, hepoch⟩
  · refine ⟨_, _, _, hist.accept hash hc, fun id hid => ?_⟩
    rw [hi, Option.map_some, Option.getD_some] at hid
    rcases List.mem_append.1 hid with hid | hid
    · obtain ⟨old, new, hch, hspends⟩ := hc.change
      obtain ⟨e, he, rfl⟩ := List.mem_map.1 (hspends ▸ hid)
      have hcr := hist.live _ _ (hch.live e he)
      exact ⟨List.mem_append_left _ hcr, hist.gone hash hc hcr (.inl hid)⟩
    · obtain ⟨hcr, hn⟩ := hgone id hid
      exact ⟨List.mem_append_left _ hcr, hist.gone hash hc hcr (.inr hn)⟩
  · rw [hi]
    exact ⟨_, _, _, hist.settle hcells hshielded hepoch, fun id hid => hcells ▸ hgone id hid⟩

end

theorem SessionsKept.prune (h : SessionsKept lane) : SessionsKept (pruneLane height lane) := by
  intro id hid
  obtain ⟨hid, hkept⟩ := List.mem_filter.1 hid
  obtain ⟨session, hs⟩ := h id hid
  refine ⟨session, get?_retain_eq_some.2 ⟨hs, ?_⟩⟩
  simpa [hs] using hkept

/-- A lane with one more session, used or not. -/
theorem SessionsKept.insert (h : SessionsKept lane) {lane' : CashAuthorizationLane}
    {id : Digest384} {session : CashSessionBudget}
    (hb : lane'.sessionBudgets = lane.sessionBudgets.insert id session)
    (hc : lane'.consumedSessions ⊆ id :: lane.consumedSessions) : SessionsKept lane' := by
  intro id' hid
  rw [hb, get?_insert]
  split_ifs with heq
  · exact ⟨session, rfl⟩
  · exact h id' ((List.mem_cons.1 (hc hid)).resolve_left heq)

theorem kept_setLane {sender : PrincipalId}
    (h : ∀ p lane, s.authorizationLanes p = some lane → SessionsKept lane)
    (hl : SessionsKept lane) :
    ∀ p lane', (s.setLane sender lane).authorizationLanes p = some lane' → SessionsKept lane' := by
  intro p lane' hp
  simp only [setLane, Function.update_apply] at hp
  split_ifs at hp
  · cases hp
    exact hl
  · exact h p lane' hp

theorem Reached.kept (hash : Function.Injective C.shake256) (h : Reached C K economy s) :
    Gone C economy s.ledger s.consumedInputs ∧
      ∀ p lane, s.authorizationLanes p = some lane → SessionsKept lane := by
  induction h with
  | new h =>
    obtain ⟨created, intents, spent, hist⟩ := h
    exact ⟨⟨created, intents, spent, hist, by simp⟩, by simp⟩
  | @setKey s sender lane _ h hc hb ih =>
    refine ⟨ih.1, kept_setLane ih.2 fun id hid => ?_⟩
    cases hs : s.authorizationLanes sender with
    | none => simp [hc, hs] at hid
    | some old =>
      rw [hc, hs] at hid
      rw [hb, hs]
      exact ih.2 sender old hs id hid
  | register h hs ih =>
    simp only [registerSession, inversion] at hs
    obtain ⟨-, lane, hl, -, -, -, rfl⟩ := hs
    exact ⟨ih.1, kept_setLane ih.2 ((ih.2 _ _ hl).insert rfl (List.subset_cons_self _ _))⟩
  | @submit s s' r height h hs ih =>
    simp only [submitAuthorized, checkRequest, enter, inversion] at hs
    obtain ⟨_, ⟨-, -, -, -, lane, hl, -, -, -, _, -, -, _, -, _, -, -, rfl⟩, -, -, -,
      _, -, hs⟩ := hs
    rcases hexec : (CashLedger.applyTransfer C r.transfer height).exec s.ledger with ⟨_ | _, l⟩ <;>
      rw [hexec] at hs <;> cases hs
    refine ⟨?_, kept_setLane ih.2 ((ih.2 _ _ hl).insert rfl (List.Subset.refl _))⟩
    obtain ⟨_, _, hp, hv⟩ := Update.exec_bind_eq_ok.1 (Update.exec_atomically_eq_ok.1 hexec)
    obtain ⟨rfl, -⟩ := CashLedger.verifySelf_ok hv
    exact (ih.1.accept hash (.transfer r.transfer height) hp).of_subset
      (by simp [CashCall.intent, CashIntent.spends])
  | @prune s height h ih =>
    refine ⟨ih.1.of_subset List.filter_sublist.subset, fun p lane hp => ?_⟩
    obtain ⟨old, ho, rfl⟩ := Option.map_eq_some_iff.1 hp
    exact (ih.2 p old ho).prune
  | settle h hs ih =>
    exact ⟨(ih.1.accept hash _ hs).of_subset (List.subset_append_right _ _), ih.2⟩

/-- **Pruning at a height at which the sessions of a lane have expired empties its tables and that
of the used inputs.** -/
theorem Reached.pruned (hash : Function.Injective C.shake256) (h : Reached C K economy s)
    {sender : PrincipalId} (hl : s.authorizationLanes sender = some lane)
    (he : ∀ entry ∈ lane.sessionBudgets.entries, entry.2.expiresAt < height) :
    (pruneLane height lane).sessionBudgets = .empty ∧
      (pruneLane height lane).consumedSessions = [] ∧
      (s.pruneReplayState height).consumedInputs = [] := by
  obtain ⟨⟨_, _, _, -, hgone⟩, hkept⟩ := h.kept hash
  refine ⟨eq_of_get?_eq fun id => Option.eq_none_iff_forall_ne_some.2 fun session hs => ?_, ?_, ?_⟩
  · obtain ⟨hget, hle⟩ := get?_retain_eq_some.1 hs
    exact absurd (of_decide_eq_true hle) (Nat.not_le.2 (he _ (mem_entries.2 hget)))
  · refine List.filter_eq_nil_iff.2 fun id hid => ?_
    obtain ⟨session, hs⟩ := hkept sender lane hl id hid
    simpa [hs] using he _ (mem_entries.2 hs)
  · refine List.filter_eq_nil_iff.2 fun id hid => ?_
    simp [contains, (hgone id hid).2]

/-- No check before or after the tables fails with their error. -/
theorem submitAuthorized_limit : s.submitAuthorized C K r height = .error .stateLimit ↔
    ∃ result, s.checkRequest K r height = .ok result ∧ s.Full result.1 r.transfer := by
  rw [submitAuthorized]
  cases hcheck : s.checkRequest K r height with
  | error e =>
    have hother : (s.checkRequest K r height).FailsWith (· ≠ .stateLimit) := by simp [checkRequest]
    exact iff_of_false (fun h => hother e hcheck (Except.error.inj h)) (by simp)
  | ok result =>
    have had : (s.enter C K result.1 result.2 r height).FailsWith (· ≠ .stateLimit) := by
      rcases hexec : (CashLedger.applyTransfer C r.transfer height).exec s.ledger with
        ⟨_ | _, _⟩ <;> simp [enter, hexec]
    rw [ok_bind]
    by_cases hf : s.Full result.1 r.transfer
    · simp only [rejectIf, if_pos hf]
      exact iff_of_true rfl ⟨_, rfl, hf⟩
    · simp only [rejectIf, if_neg hf, ok_bind]
      refine iff_of_false (fun he => had _ he rfl) ?_
      rintro ⟨_, ⟨⟩, hfull⟩
      exact hf hfull

theorem registerSession_not_limited
    (h : ∀ lane ∈ s.authorizationLanes grant.signer, lane.sessionBudgets = .empty) :
    s.registerSession K grant ≠ .error .stateLimit := by
  have hroom : ∀ lane, s.authorizationLanes grant.signer = some lane →
      lane.sessionBudgets.length ≠ maxSessionBudgetsPerLane := by
    intro lane hl hfull
    rw [h lane hl] at hfull
    cases hfull
  have hregister : (s.registerSession K grant).FailsWith (· ≠ .stateLimit) := by
    simp +contextual [registerSession, hroom]
  exact fun hfail => hregister _ hfail rfl

/-- **However many transfers a reached ingress has accepted, after pruning at a height at which the
sender's sessions have expired a new session is not refused for a limit, and a transfer under it is
refused for a limit exactly when it passes the checks before the limits and 65,535 transfers were
accepted.** -/
theorem pruned_limit_iff (hash : Function.Injective C.shake256) (h : Reached C K economy s)
    (he : ∀ lane ∈ s.authorizationLanes grant.signer,
      ∀ entry ∈ lane.sessionBudgets.entries, entry.2.expiresAt < height) :
    (s.pruneReplayState height).registerSession K grant ≠ .error .stateLimit ∧
    ∀ t, (s.pruneReplayState height).registerSession K grant = .ok t →
      ∀ r : CashAuthorizationRequest, r.signer = grant.signer →
        (t.submitAuthorized C K r height = .error .stateLimit ↔
          (∃ result, t.checkRequest K r height = .ok result) ∧
            s.nonAuthoritativeAccepted.length = maxNonAuthoritativeAccepted) := by
  -- the sender's lane after pruning
  have hlane : ∀ lane, (s.pruneReplayState height).authorizationLanes grant.signer = some lane →
      lane.sessionBudgets = .empty ∧ lane.consumedSessions = [] ∧
        (s.pruneReplayState height).consumedInputs = [] := by
    intro lane hl
    obtain ⟨old, ho, rfl⟩ := Option.map_eq_some_iff.1 hl
    exact h.pruned hash ho (he old ho)
  refine ⟨registerSession_not_limited fun lane hl => (hlane lane hl).1, fun t ht r hr => ?_⟩
  simp only [registerSession, inversion] at ht
  obtain ⟨-, lane, hl, -, -, -, rfl⟩ := ht
  obtain ⟨-, hc, hi⟩ := hlane lane hl
  generalize lane.sessionBudgets.insert _ _ = budgets
  let t := (s.pruneReplayState height).setLane grant.signer { lane with sessionBudgets := budgets }
  show t.submitAuthorized C K r height = _ ↔ (∃ result, t.checkRequest K r height = _) ∧ _
  have hfull : ∀ result, t.checkRequest K r height = .ok result → (t.Full result.1 r.transfer ↔
      s.nonAuthoritativeAccepted.length = maxNonAuthoritativeAccepted) := by
    intro result hcheck
    have hresult : result.1 = { lane with sessionBudgets := budgets } := by
      simp only [checkRequest, inversion] at hcheck
      obtain ⟨-, -, -, -, lane', hl', -, -, -, _, -, -, _, -, _, -, -, rfl⟩ := hcheck
      simpa [t, setLane, hr, eq_comm] using hl'
    have hinputs : t.consumedInputs = [] := hi
    have hroom : ¬ maxConsumedInputs < 0 + (r.transfer.inputs.length + 1) := by
      have hbound := r.transfer.bounds.2
      unfold maxTransferInputs at hbound
      unfold maxConsumedInputs
      omega
    have haccepted : t.nonAuthoritativeAccepted = s.nonAuthoritativeAccepted := rfl
    rw [hresult, Full, hinputs, haccepted]
    simp only [hc, hroom, List.length_nil, maxConsumedSessionsPerLane]
    simp
  rw [submitAuthorized_limit, ← exists_and_right]
  exact exists_congr fun result => and_congr_right (hfull result)

end CashIngress

namespace FullHistory

/-- Three cells for the sender. -/
def economy : GenesisEconomy where
  definition := SmallLedger.definition
  allocations := [⟨7, 999990, 0, by decide, by decide⟩, ⟨7, 6, 0, by decide, by decide⟩,
    ⟨7, 4, 0, by decide, by decide⟩]
  securityReserve := 0
  bounds := by decide
  ordered := by decide
  total := rfl

def genesisCell (i amount : Nat) (h : amount ≠ 0) : CoinCellRecord :=
  (coinCellId .transparent ⟨genesisAllocationRoot .transparent economy, i⟩,
    ⟨⟨genesisAllocationRoot .transparent economy, i⟩, 7, amount, 0,
      SmallLedger.cell.ownerChecked, h⟩)

def genesisLedger : CashLedger :=
  { SmallLedger.ledger .transparent with
    cells := ⟨⟨[genesisCell 0 999990 (by decide), genesisCell 1 6 (by decide),
      genesisCell 2 4 (by decide)], by decide +kernel⟩, by decide⟩ }

theorem genesisLedger_history : ∃ created intents spent,
    History .transparent economy genesisLedger created intents spent := by
  have hkeys : genesisLedger.cells.cells.keys = [0, 1, 2].map fun i =>
      coinCellId .transparent ⟨genesisAllocationRoot .transparent economy, i⟩ := by rfl
  refine ⟨genesisLedger.cells.cells.keys, [], [], ?_, ?_, ?_, by simp, keys_nodup _, List.nodup_nil⟩
  · exact fun id cell h => mem_keys.2 ⟨cell, h⟩
  · intro id hid
    rw [hkeys] at hid
    obtain ⟨i, -, rfl⟩ := List.mem_map.1 hid
    exact ⟨_, rfl, .inl rfl⟩
  · rw [NullifierSet.ofSpent, ← empty_eq]
    rfl

def kernel : CashAuthorizationKernel :=
  ⟨fun _ => 0, fun _ _ => 0, fun r => r.nonce, fun _ _ => true, fun _ _ => true⟩

def lane : CashAuthorizationLane := ⟨0, 0, [], .empty, 1, 0⟩

def ingress (accepted : List TransactionId) : CashIngress :=
  { (⟨genesisLedger, 1, fun _ => none, [], []⟩ : CashIngress).setLane 7 lane with
    nonAuthoritativeAccepted := accepted }

def session (id : Nat) : CashSessionGrant := ⟨1, 7, id, 0, 10 * id, 100⟩

def request (nonce : Nat) (input reserve : CoinCellId) (h : reserve ∉ [input]) :
    CashAuthorizationRequest where
  chainId := 1
  signer := 7
  nonce := nonce
  sessionId := nonce + 1
  sessionExpiresAt := 10 * (nonce + 1)
  recipientCommitment := 0
  transfer := ⟨7, 8, [input], reserve, 40, 1, 100, ⟨by simp, by simp [maxTransferInputs]⟩, by simp,
    h, (SmallLedger.burn .transparent).amountChecked⟩

def first : CashAuthorizationRequest :=
  request 0 (genesisCell 0 1 Nat.one_ne_zero).1 (genesisCell 1 1 Nat.one_ne_zero).1
    (by decide +kernel)

/-- Takes the change of the first. -/
def second : CashAuthorizationRequest :=
  request 1 (coinCellId .transparent ⟨cashTransitionId .transparent first.transfer, 1⟩)
    (genesisCell 2 1 Nat.one_ne_zero).1 (by decide +kernel)

/-- The transfer is accepted by a new ingress, and by none that has accepted 65,535 transfers. -/
theorem full_history_rejects :
    (((ingress []).pruneReplayState 1).registerSession kernel (session 1) >>=
      (·.submitAuthorized .transparent kernel first 1)).isOk = true ∧
    ∃ accepted t, accepted.length = maxNonAuthoritativeAccepted ∧
      ((ingress accepted).pruneReplayState 1).registerSession kernel (session 1) = .ok t ∧
      t.submitAuthorized .transparent kernel first 1 = .error .stateLimit := by
  obtain ⟨accepted, h⟩ : ∃ a : List TransactionId, a.length = maxNonAuthoritativeAccepted :=
    ⟨List.range maxNonAuthoritativeAccepted, by simp⟩
  refine ⟨by decide +kernel, accepted, _, h, rfl, ?_⟩
  exact CashIngress.submitAuthorized_limit.2 ⟨_, rfl, .inr (.inr h)⟩

/-- One transfer is accepted, its session expires, and the next one is not refused for a limit. -/
theorem pruned_ingress_admits : ∃ s t, CashIngress.Reached .transparent kernel economy s ∧
    s.nonAuthoritativeAccepted.length = 1 ∧ s.consumedInputs.length = 2 ∧
    (s.pruneReplayState 11).registerSession kernel (session 2) = .ok t ∧
    (t.checkRequest kernel second 11).isOk = true ∧
    t.submitAuthorized .transparent kernel second 11 ≠ .error .stateLimit := by
  have hrun : ∃ s₁ ∈ ((ingress []).registerSession kernel (session 1)).toOption,
      ∃ s ∈ (s₁.submitAuthorized .transparent kernel first 1).toOption,
      ∃ t ∈ ((s.pruneReplayState 11).registerSession kernel (session 2)).toOption,
      s.nonAuthoritativeAccepted.length = 1 ∧ s.consumedInputs.length = 2 ∧
      (∀ lane ∈ s.authorizationLanes (session 2).signer, ∀ entry ∈ lane.sessionBudgets.entries,
        entry.2.expiresAt < 11) ∧ (t.checkRequest kernel second 11).isOk = true := by
    decide +kernel
  obtain ⟨s₁, h₁, s, h₂, t, h₃, hone, htwo, hexpired, hcheck⟩ := hrun
  have hreach : CashIngress.Reached .transparent kernel economy s :=
    .submit (.register (.setKey (.new genesisLedger_history) rfl rfl)
      (mem_toOption.1 h₁)) (mem_toOption.1 h₂)
  have hlimit := CashIngress.pruned_limit_iff Crypto.transparent_injective hreach hexpired
  refine ⟨s, t, hreach, hone, htwo, mem_toOption.1 h₃, hcheck, fun hfull => ?_⟩
  have hlen := ((hlimit.2 t (mem_toOption.1 h₃) second rfl).1 hfull).2
  rw [hone] at hlen
  cases hlen

end FullHistory

end ActiveChain
