import ActiveChain.Authority.Gateway
import ActiveChain.Lib.Replacement
import Mathlib.Data.Finset.Card

/-!
# How long the owners of an authorization ledger stay usable

The budget records of a ledger are never removed, and a snapshot has room for a bounded number of
them.  An epoch change reads the last receipt back from the file, which a new gateway does not have.

* `saved_iff` — with a working file a save fails exactly on a ledger with too many records.
* `length_budgets` — the records are the capabilities that had one and those that were presented.
-/

namespace ActiveChain

open List AuthorizationGateway AuthorizationLedger

def AuthorizationLedger.Encodable (ledger : AuthorizationLedger) : Prop :=
  ledger.budgets.length ≤ maxAuthorizationInvocations

theorem saved_iff {σ : Type} {l : AuthorizationLedger} {snapshot : σ} {file : Option σ} :
    (saveTypedSnapshot l snapshot file .written).1 = true ↔ l.Encodable := by
  unfold saveTypedSnapshot AuthorizationLedger.Encodable
  split <;> simp <;> omega

theorem encodable_of_save {σ : Type} {l : AuthorizationLedger} {snapshot : σ}
    {file : Option σ} {o : SaveOutcome} :
    ((saveTypedSnapshot l snapshot file o).1 = true → l.Encodable) ∧
      ((saveTypedSnapshot l snapshot file o).2 = file ∨
        (saveTypedSnapshot l snapshot file o).2 = some snapshot ∧ l.Encodable) := by
  unfold saveTypedSnapshot AuthorizationLedger.Encodable
  split
  · simp
  · cases o <;> simp <;> omega

/-! ## Capabilities -/

namespace AuthorizationLedger

/-- The capabilities that have a budget record or are presented. -/
def capabilitiesWith (l : AuthorizationLedger) (batch : List VerifiedAuthorization) :
    Finset CapabilityId :=
  (l.budgets.keys ++ batch.map fun a => a.grant.capabilityId).toFinset

variable {C : Crypto} {l next : AuthorizationLedger}

theorem capabilitiesWith_of_consume {a : VerifiedAuthorization} (h : l.consume C a = .ok next)
    (batch : List VerifiedAuthorization) :
    next.capabilitiesWith batch = l.capabilitiesWith (a :: batch) := by
  simp only [consume, chargeBudget, Except.inversion] at h
  obtain ⟨_, -, _, ⟨_, -, _, -, _, -, -, _, -, rfl⟩, rfl⟩ := h
  ext id
  simp only [capabilitiesWith, mem_toFinset, mem_append, SortedMap.mem_keys_insert, map_cons,
    mem_cons]
  tauto

theorem length_budgets {batch : List VerifiedAuthorization} (h : l.consumeAll C batch = .ok next) :
    next.budgets.length = (l.capabilitiesWith batch).card := by
  induction batch generalizing l with
  | nil =>
    cases h
    rw [capabilitiesWith, map_nil, append_nil, SortedMap.keys,
      toFinset_card_of_nodup next.budgets.keys_nodup, length_map]
    rfl
  | cons a batch ih =>
    simp only [consumeAll, Except.inversion] at h
    obtain ⟨middle, hc, h⟩ := h
    rw [ih h, capabilitiesWith_of_consume hc]

theorem encodable_iff {batch : List VerifiedAuthorization} (h : l.consumeAll C batch = .ok next) :
    next.Encodable ↔ (l.capabilitiesWith batch).card ≤ maxAuthorizationInvocations := by
  rw [Encodable, length_budgets h]

end AuthorizationLedger

/-! ## Poison -/

theorem healthy_iff {S A : Type} {step : S → A → S} {ill : S → Bool} {Fatal : S → A → Prop}
    (hs : ∀ s a, ill s = false → (ill (step s a) = false ↔ ¬ Fatal s a))
    (hi : ∀ s a, ill s = true → ill (step s a) = true) (acts : List A) :
    ∀ s, ill s = false → (ill (acts.foldl step s) = false ↔
      ∀ before a after, acts = before ++ a :: after → ¬ Fatal (before.foldl step s) a) := by
  have hst : ∀ (acts : List A) s, ill s = true → ill (acts.foldl step s) = true := by
    intro acts
    induction acts with
    | nil => exact fun s h => h
    | cons a acts ih => exact fun s h => ih _ (hi s a h)
  induction acts with
  | nil => simp
  | cons a acts ih =>
    intro s h
    rw [foldl_cons]
    by_cases hf : Fatal s a
    · have ha : ill (step s a) = true := by simpa [hf] using hs s a h
      simp only [hst acts _ ha, Bool.true_eq_false, false_iff]
      exact fun hall => hall [] a acts rfl hf
    · rw [ih _ ((hs s a h).2 hf)]
      constructor
      · intro hall before b after he
        cases before with
        | nil => simp_all
        | cons c before =>
          cases he
          exact hall before b after rfl
      · intro hall before b after he
        exact hall (a :: before) b after (by simp [he])

section Poison

variable {Material Policy Transaction State Receipt : Type} (C : Crypto)
  (K : AuthorizationKernel Material Policy Transaction)
  (O : ObjectKernel State Receipt Transaction)

/-- The batch is correct, and there are too many capabilities with the ones of the batch. -/
def AuthorizationReplayStore.Overflows (s : AuthorizationReplayStore)
    (batch : List VerifiedAuthorization) : Prop :=
  (∃ next, s.admitLoop C s.ledger batch = .ok next) ∧
    maxAuthorizationInvocations < (s.ledger.capabilitiesWith batch).card

section

variable (g : AuthorizationGateway State Receipt)
  (candidate : AuthorizationCandidate Material Transaction)

/-- The candidate is correct, and there are too many capabilities with its own. -/
def AuthorizationGateway.Overflows : Prop :=
  ∃ authorization result, g.prepare C K O candidate = .ok (authorization, result) ∧
    maxAuthorizationInvocations < (g.ledger.capabilitiesWith [authorization]).card

theorem AuthorizationReplayStore.unpoisoned_step (s : AuthorizationReplayStore)
    (batch : List VerifiedAuthorization) (h : s.poisoned = false) :
    (s.admitBatch C batch .written).2.poisoned = false ↔ ¬ s.Overflows C batch := by
  unfold admitBatch Overflows
  cases hl : s.admitLoop C s.ledger batch with
  | error e => simp [h]
  | ok next =>
    have hs := @saved_iff _ next (s.snapshot next) s.file
    rw [encodable_iff (consumeAll_of_admitLoop C batch hl)] at hs
    by_cases he : (s.ledger.capabilitiesWith batch).card ≤ maxAuthorizationInvocations <;>
      simp_all

theorem AuthorizationGateway.unpoisoned_step (h : g.poisoned = false) :
    (g.admitCandidate C K O candidate .written).2.poisoned = false ↔
      ¬ g.Overflows C K O candidate := by
  unfold admitCandidate Overflows
  cases hp : g.prepare C K O candidate with
  | error e => simp [h]
  | ok p =>
    obtain ⟨a, l, s, receipt⟩ := p
    have hs := @saved_iff _ l (g.snapshot g.epoch s l receipt a.envelopeCommitment) g.file
    rw [encodable_iff (consumeAll_of_prepare C K O hp)] at hs
    by_cases he : (g.ledger.capabilitiesWith [a]).card ≤ maxAuthorizationInvocations <;>
      simp_all

end

open AuthorizationReplayStore

/-- **An owner whose file operations all succeed is poisoned exactly by a correct admission after
which more capabilities have been used than a snapshot holds records.** -/
theorem unpoisoned_iff_capabilities :
    (∀ (s : AuthorizationReplayStore) batches, s.poisoned = false →
      ((batches.foldl (fun s batch => (s.admitBatch C batch .written).2) s).poisoned = false ↔
        ∀ before batch after, batches = before ++ batch :: after →
          ¬ (before.foldl (fun s batch => (s.admitBatch C batch .written).2) s).Overflows C
          batch)) ∧
    ∀ (g : AuthorizationGateway State Receipt) candidates, g.poisoned = false →
      ((candidates.foldl (fun g candidate => (g.admitCandidate C K O candidate .written).2)
          g).poisoned = false ↔
        ∀ before candidate after, candidates = before ++ candidate :: after →
          ¬ (before.foldl (fun g candidate => (g.admitCandidate C K O candidate .written).2)
            g).Overflows C K O candidate) := by
  constructor
  · intro s batches h
    refine healthy_iff (unpoisoned_step C) ?_ batches s h
    intro s batch hi
    simp [admitBatch, hi]
  · intro g candidates h
    refine healthy_iff (unpoisoned_step C K O) ?_ candidates g h
    intro g candidate hi
    rcases g.admitCandidate_cases C K O candidate .written with
      ⟨e, h⟩ | ⟨ledger, state, receipt, commitment, -, h | h | h⟩ <;> simp [h, hi]

end Poison

/-! ## Epochs -/

namespace AuthorizationGateway

variable {Material Policy Transaction State Receipt : Type} {C : Crypto}
  {K : AuthorizationKernel Material Policy Transaction}
  {O : ObjectKernel State Receipt Transaction}

/-- The ledgers in memory and in the file have encodings. -/
def Encodable (g : AuthorizationGateway State Receipt) : Prop :=
  g.ledger.Encodable ∧ ∀ snapshot ∈ g.file, snapshot.ledger.Encodable

theorem encodable_exec {t : Owned (AuthorizationGateway State Receipt)} (h : t.owner.Encodable)
    (op : GatewayOp Material Transaction) : (exec C K O t op).owner.Encodable := by
  have hsa : ∀ (l : AuthorizationLedger) (snapshot : AuthorizedSnapshot State Receipt)
      (o : SaveOutcome), snapshot.ledger = l →
      ∀ saved ∈ (saveTypedSnapshot l snapshot t.owner.file o).2,
        saved.ledger.Encodable := by
    rintro _ snapshot o rfl
    rcases (@encodable_of_save _ snapshot.ledger snapshot t.owner.file o).2 with he | ⟨he, hl⟩
    · rw [he]
      exact h.2
    · simp [he, hl]
  cases op with
  | admitCandidate candidate o =>
    simp only [exec, Owned.after, admitCandidate]
    split
    · exact h
    · split_ifs with hok
      · exact ⟨encodable_of_save.1 hok, hsa _ _ _ rfl⟩
      · exact ⟨h.1, hsa _ _ _ rfl⟩
  | advanceEpoch nextEpoch o =>
    simp only [exec, advanceEpoch]
    split_ifs
    · exact h
    · exact h
    · cases loadSnapshot t.owner.file with
      | none => exact h
      | some previous =>
        dsimp only
        split_ifs
        · exact ⟨h.1, hsa _ _ _ rfl⟩
        · exact ⟨h.1, hsa _ _ _ rfl⟩
  | load =>
    simp only [exec, load]
    cases hf : loadSnapshot t.owner.file with
    | none => simpa using h
    | some snapshot =>
      have hs := h.2 snapshot (Option.filter_eq_some_iff.1 hf).1
      by_cases hz : snapshot.chainGenesisCommitment = 0
      · simpa [hz] using h
      · simpa [hz, Encodable] using ⟨hs, h.2⟩

/-- The epoch was changed, in memory and in the file, and nothing else was. -/
def EpochChanged (g : AuthorizationGateway State Receipt) (nextEpoch : Nat)
    (r : AuthorityM Unit × AuthorizationGateway State Receipt) : Prop :=
  ∃ file, r = (.ok (), { g with epoch := nextEpoch, file := some file }) ∧
    file.chainGenesisCommitment = g.chainGenesisCommitment ∧ file.epoch = nextEpoch ∧
    file.state = g.state ∧ file.ledger = g.ledger

/-- **When file operations succeed, a gateway that is not poisoned changes to a later epoch, with
all its replay and budget state, exactly when it has a file whose root is not zero.** -/
theorem advanceEpoch_succeeds_iff {genesis : Digest384} {epoch : Nat} {state : State}
    {g : AuthorizationGateway State Receipt} {t : Owned (AuthorizationGateway State Receipt)}
    (hnew : new C state genesis epoch = .ok g) (ops : List (GatewayOp Material Transaction))
    (ht : ops.foldl (exec C K O) ⟨g, [], []⟩ = t) (hp : t.owner.poisoned = false)
    (nextEpoch : Nat) (he : t.owner.epoch < nextEpoch) :
    t.owner.EpochChanged nextEpoch (t.owner.advanceEpoch nextEpoch .written) ↔
      ∃ previous ∈ t.owner.file, previous.ledger.invocationSet.root ≠ 0 := by
  have hg : g.Encodable := by
    simp only [new, Except.inversion] at hnew
    obtain ⟨-, rfl⟩ := hnew
    exact ⟨Nat.zero_le _, fun _ h => by cases h⟩
  have hl : t.owner.ledger.Encodable := by
    rw [← ht]
    exact (List.foldlRecOn ops _
      (motive := fun t : Owned (AuthorizationGateway State Receipt) => t.owner.Encodable) hg
      fun _ h op _ => encodable_exec h op).1
  unfold advanceEpoch EpochChanged
  rw [if_neg (by omega), if_neg (by simp [hp])]
  have hs : ∀ snapshot : AuthorizedSnapshot State Receipt,
      saveTypedSnapshot t.owner.ledger snapshot t.owner.file .written = (true, some snapshot) := by
    intro snapshot
    unfold saveTypedSnapshot
    rw [if_neg (not_lt.2 hl)]
  cases hf : loadSnapshot t.owner.file with
  | none => simpa [loadSnapshot, Option.filter_eq_none_iff] using hf
  | some previous =>
    have hprevious := Option.filter_eq_some_iff.1 hf
    simpa [hs, snapshot] using ⟨previous, by simpa using hprevious⟩

end AuthorizationGateway

/-! ## One capability too many -/

namespace ManyCapabilities

open SharedIdentifier

def capability (id : CapabilityId) : CapabilityGrant where
  fields := { TwoLinks.parent.fields with capabilityId := id }
  issuerSignature := TwoLinks.signature
  not_self_parent := fun h => by cases h
  valid_until_after := TwoLinks.parent.valid_until_after
  depth_of_allowed := TwoLinks.parent.depth_of_allowed
  depth_of_forbidden := TwoLinks.parent.depth_of_forbidden

def keysTo : Nat → List AccumulatorKey
  | 0 => []
  | n + 1 => BitVec.ofNat keyBits (n + 1) :: keysTo n

theorem toNat_ofNat {n : Nat} (h : n < 2 ^ 64) : (BitVec.ofNat keyBits n).toNat = n := by
  rw [BitVec.toNat_ofNat, Nat.mod_eq_of_lt]
  exact h.trans (Nat.pow_lt_pow_right (by omega) (by decide))

theorem toNat_le_of_mem_keysTo {n : Nat} {key : AccumulatorKey} (h : key ∈ keysTo n)
    (hn : n < 2 ^ 64) : key.toNat ≤ n := by
  induction n with
  | zero => simp [keysTo] at h
  | succ n ih =>
    rcases mem_cons.1 h with rfl | h
    · rw [toNat_ofNat hn]
    · have := ih h (by omega)
      omega

theorem length_keysTo (n : Nat) : (keysTo n).length = n := by
  induction n with
  | zero => rfl
  | succ n ih => simp [keysTo, ih]

variable (C : Crypto)

theorem exists_batch (n : Nat) (hn : n + 1 < 2 ^ 64) :
    ∃ (batch : List VerifiedAuthorization) (budgets : Budgets),
      (∀ rest, (store C).admitLoop C (store C).ledger (batch ++ rest) = (store C).admitLoop C
        ⟨commitmentOf C .authorizationInvocation (keysTo n), budgets⟩ rest) ∧
      budgets.length = n ∧ ∀ id, n < id → budgets.get? id = none := by
  induction n with
  | zero =>
    refine ⟨[], SortedMap.empty, fun rest => ?_, rfl, fun _ _ => rfl⟩
    rw [nil_append, store, AuthorizationLedger.empty, empty_eq]
    rfl
  | succ n ih =>
    obtain ⟨batch, budgets, hb, hl, hg⟩ := ih (by omega)
    have hz : BitVec.ofNat keyBits (n + 1) ≠ 0 := by
      intro h
      have := congrArg BitVec.toNat h
      rw [toNat_ofNat (by omega)] at this
      simp at this
    have hf : BitVec.ofNat keyBits (n + 1) ∉ keysTo n := by
      intro h
      have := toNat_le_of_mem_keysTo h (by omega)
      rw [toNat_ofNat (by omega)] at this
      omega
    have hn1 := hg (n + 1) (by omega)
    have hc := @consume_siblings C
      (invocation C (BitVec.ofNat keyBits (n + 1)) hz (keysTo n) (capability (n + 1))) (keysTo n)
      budgets (budgets.insert (n + 1) ⟨1, 1, 1, 10, 1⟩) rfl hf (by rw [length_keysTo]; omega) (by
        have hu : usageIn budgets (invocation C _ hz (keysTo n)
            (capability (n + 1))).grant.capabilityId = BudgetUsage.zero := by
          show (budgets.get? (n + 1)).getD BudgetUsage.zero = _
          rw [hn1]
          rfl
        simp only [chargeBudget, hu]
        with_unfolding_all rfl)
    refine ⟨batch ++ [invocation C _ hz (keysTo n) (capability (n + 1))],
      budgets.insert (n + 1) ⟨1, 1, 1, 10, 1⟩, fun rest => ?_,
      by simp [SortedMap.length_insert, SortedMap.contains, hn1, hl], fun id hid => ?_⟩
    · rw [append_assoc, hb]
      exact AuthorizationReplayStore.admitLoop_cons C rfl rfl hc
    · rw [SortedMap.get?_insert_ne budgets _ (show id ≠ n + 1 by omega)]
      exact hg id (by omega)

/-- A correct batch under 4097 capabilities poisons a new store, although every file operation
succeeds. -/
theorem many_capabilities_poison :
    ∃ batch s', (store .transparent).admitBatch .transparent batch .written =
        (.error .persistence, s') ∧ s'.poisoned = true ∧ (store .transparent).poisoned = false := by
  obtain ⟨batch, budgets, hb, hl, -⟩ := exists_batch .transparent 4097 (by decide)
  have h := hb []
  rw [append_nil] at h
  refine ⟨batch, { store .transparent with poisoned := true }, ?_, rfl, rfl⟩
  unfold AuthorizationReplayStore.admitBatch
  rw [h]
  simp [AuthorizationReplayStore.admitLoop, saveTypedSnapshot, maxAuthorizationInvocations, hl,
    store]

end ManyCapabilities

/-! ## A gateway that has admitted nothing -/

namespace SharedIdentifier

/-- The state has root 61 and every object the policy 92. -/
def objects : ObjectKernel Unit Unit Unit :=
  ⟨fun _ => some 61, fun _ _ => some 92, fun _ _ => some ((), (), true)⟩

def gateway (C : Crypto) : AuthorizationGateway Unit Unit :=
  ⟨60, 2, (), AuthorizationLedger.empty C, false, none⟩

theorem new_gateway : new .transparent () 60 2 = .ok (gateway .transparent) :=
  rfl

/-- A new gateway cannot change its epoch. -/
theorem new_gateway_keeps_epoch :
    AuthorizationGateway.new .transparent () 60 2 = .ok (gateway .transparent) ∧
      (gateway .transparent).advanceEpoch 3 .written =
      (.error .persistence, gateway .transparent) :=
  ⟨new_gateway, rfl⟩

section

variable (C : Crypto)

/-- The witness that identifier 1 is new. -/
def fresh : NonMembershipWitness := ⟨1, siblingsOf C .authorizationInvocation [] 1⟩

def candidate : AuthorizationCandidate Empty Unit :=
  { TwoLinks.candidate with invocationNonMembership := fresh C }

theorem candidate_verified (w : NonMembershipWitness) :
    verifyAuthorizationCandidate TwoLinks.kernel
      { TwoLinks.candidate with invocationNonMembership := w } 60 2 61 92 =
      .ok ⟨TwoLinks.envelope, 93, TwoLinks.child, w⟩ := by
  rfl

def charged : AuthorizationLedger :=
  ⟨commitmentOf C .authorizationInvocation [1], SortedMap.empty.insert 7 ⟨1, 30, 1, 10, 1⟩⟩

theorem candidate_prepared : (gateway C).prepare C TwoLinks.kernel objects (candidate C) =
    .ok (⟨TwoLinks.envelope, 93, TwoLinks.child, fresh C⟩, charged C, (), ()) := by
  have hinsert := @SetCommitment.insert_siblings C .authorizationInvocation [] 1
    TwoLinks.envelope.nonzero.1 not_mem_nil
  rw [if_pos (by decide)] at hinsert
  have hconsume : (AuthorizationLedger.empty C).consume C
      ⟨TwoLinks.envelope, 93, TwoLinks.child, fresh C⟩ = .ok (charged C) := by
    rw [AuthorizationLedger.empty, empty_eq]
    refine consume_siblings rfl not_mem_nil (by decide) ?_
    with_unfolding_all rfl
  have hset : (gateway C).ledger.invocationSet.insert C (candidate C).envelope.invocationId
      (candidate C).invocationNonMembership =
      .ok (commitmentOf C .authorizationInvocation [1]) := by
    rw [gateway, AuthorizationLedger.empty, empty_eq]
    exact hinsert
  simp only [prepare, Except.inversion, hset]
  exact ⟨by simp [gateway], _, rfl, _, rfl, _, rfl, _, rfl, _, candidate_verified _, _, hconsume, _,
    rfl, rfl, rfl⟩

/-- The gateway after it has admitted the candidate. -/
def usedGateway : AuthorizationGateway Unit Unit :=
  { gateway C with
    ledger := charged C
    file := some ((gateway C).snapshot 2 () (charged C) () 93) }

theorem candidate_admitted : [GatewayOp.admitCandidate (candidate C) .written].foldl
      (exec C TwoLinks.kernel objects) ⟨gateway C, [], []⟩ =
    ⟨usedGateway C, [⟨TwoLinks.envelope, 93, TwoLinks.child, fresh C⟩],
      [⟨TwoLinks.envelope, 93, TwoLinks.child, fresh C⟩]⟩ := by
  rw [foldl_cons, foldl_nil, exec, admitCandidate, presented, candidate_prepared]
  rfl

end

theorem used_gateway_changes_epoch : (usedGateway .transparent).EpochChanged 3
    ((usedGateway .transparent).advanceEpoch 3 .written) := by
  refine (advanceEpoch_succeeds_iff new_gateway _ (candidate_admitted .transparent) rfl 3
    (by decide)).2 ⟨_, rfl, ?_⟩
  exact fun h => Crypto.transparent_ne_zero (List.cons_ne_nil _ _) h

end SharedIdentifier

end ActiveChain
