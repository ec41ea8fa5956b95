import ActiveChain.Cash.Conservation

/-!
# What a paymaster spends (`economics`)

A sponsor pays the fees of other senders within the budget of an epoch.  A policy never leaves its
epoch: for the next one the sponsor publishes another policy.

* `PaymasterCall` — the two ways to use a policy: `authorize` alone, and a sponsored transfer.
-/

namespace ActiveChain

open Update Nat CashPaymasterPolicyV1

inductive PaymasterCall
  | authorize (request : CashPaymasterRequestV1) (transfer : Digest384) (fee height : Nat)
  | sponsoredTransfer (request : CashPaymasterRequestV1) (t : CoinTransfer) (height : Nat)

namespace PaymasterCall

def request : PaymasterCall → CashPaymasterRequestV1
  | authorize request _ _ _ => request
  | sponsoredTransfer request _ _ => request

/-- The call on the ledger and the policy; the policy that `authorize` returns takes the place of
the one it was asked on. -/
def action (C : Crypto) : PaymasterCall →
    Update CashTransitionError (CashLedger × CashPaymasterPolicyV1) Unit
  | authorize request transfer fee height => do
    let (ledger, policy) ← get
    let next ← .check ((policy.authorize C request transfer fee height).mapError .economics)
    set (ledger, next)
  | sponsoredTransfer request t height => CashLedger.applySponsoredTransfer C request t height

end PaymasterCall

/-- A paymaster with its past, newest first. -/
structure PaymasterHistory where
  ledger : CashLedger
  policy : CashPaymasterPolicyV1
  accepted : List (CashPaymasterRequestV1 × CashPaymasterPolicyV1)
  renewals : List (CashPaymasterPolicyV1 × CashPaymasterPolicyV1)

namespace PaymasterHistory

def start (ledger : CashLedger) (policy : CashPaymasterPolicyV1) : PaymasterHistory :=
  ⟨ledger, policy, [], []⟩

def after (C : Crypto) (h : PaymasterHistory) (call : PaymasterCall) : PaymasterHistory :=
  match (call.action C).exec (h.ledger, h.policy) with
  | (.ok _, (ledger, policy)) =>
    { h with ledger, policy, accepted := (call.request, h.policy) :: h.accepted }
  | (.error _, (ledger, policy)) => { h with ledger, policy }

/-- A call, or the sponsor's policy for a later epoch. -/
inductive Step (C : Crypto) : PaymasterHistory → PaymasterHistory → Prop
  | call (h : PaymasterHistory) (call : PaymasterCall) : Step C h (h.after C call)
  | newEpoch (h : PaymasterHistory) (next : CashPaymasterPolicyV1)
      (hlater : h.policy.epoch < next.epoch) :
      Step C h { h with policy := next, renewals := (h.policy, next) :: h.renewals }

variable (h : PaymasterHistory) (epoch : Nat)

def acceptedIn : List CashPaymasterRequestV1 :=
  (h.accepted.map Prod.fst).filter fun request => request.epoch == epoch

def spentIn : Nat := ((h.acceptedIn epoch).map CashPaymasterRequestV1.fee).sum

end PaymasterHistory

/-! ## What a call does -/

variable {C : Crypto}

/-- What `authorize` says: the request is for this epoch and nonce, and its fee fits the budget. -/
structure Authorized (p p' : CashPaymasterPolicyV1) (request : CashPaymasterRequestV1) : Prop where
  epoch : request.epoch = p.epoch
  nonce : request.nonce = p.nextNonce
  sameEpoch : p'.epoch = p.epoch
  sameBudget : p'.epochBudget = p.epochBudget
  nextNonce : p'.nextNonce = p.nextNonce + 1
  spent : p'.spent = p.spent + request.fee

theorem authorize_ok {p p' : CashPaymasterPolicyV1} {request : CashPaymasterRequestV1}
    {transfer : Digest384} {fee height : Nat}
    (h : p.authorize C request transfer fee height = .ok p') : Authorized p p' request := by
  simp only [authorize, Except.inversion] at h
  obtain ⟨⟨-, -, -, -, -, he, -, hn, -⟩, spent, ⟨hs, -⟩, h⟩ := h
  split_ifs at h with hb
  simp only [Except.inversion] at h
  obtain ⟨nextNonce, ⟨hne, -⟩, rfl⟩ := h
  exact ⟨he, hn, rfl, rfl, hne, hs⟩

namespace PaymasterCall

theorem action_ok {call : PaymasterCall} {l l' : CashLedger} {p p' : CashPaymasterPolicyV1}
    {u : Unit} (h : (call.action C).exec (l, p) = (.ok u, (l', p'))) :
    Authorized p p' call.request := by
  cases call with
  | authorize request transfer fee height =>
    simp only [action, inversion, existsAndEq, Except.mapError_eq_ok, Prod.mk.injEq] at h
    obtain ⟨hau, -⟩ := h
    exact authorize_ok hau
  | sponsoredTransfer request t height =>
    simp only [action, CashLedger.applySponsoredTransfer, inversion, existsAndEq,
      Except.mapError_eq_ok, Prod.mk.injEq] at h
    obtain ⟨_, -, _, -, next, hau, _, -, -, rfl⟩ := h
    exact authorize_ok hau

/-- **A call that fails at any step leaves the ledger and the policy as they were.** -/
theorem action_transactional (C : Crypto) (call : PaymasterCall) :
    (call.action C).Transactional := by
  cases call with
  | authorize request transfer fee height =>
    exact .bind .get fun _ => .bind (.check _) fun _ => .modified _
  | sponsoredTransfer request t height =>
    exact .bind (.check _) fun _ => .bind (.check _) fun _ => .bind .get fun _ =>
      .bind (.check _) fun _ => .bind (.check _) fun _ => .modified _

end PaymasterCall

/-! ## The invariant -/

namespace PaymasterHistory

/-- One accepted request is before another: by epoch, then by nonce. -/
def Precedes (earlier later : CashPaymasterRequestV1) : Prop :=
  earlier.epoch < later.epoch ∨ earlier.epoch = later.epoch ∧ earlier.nonce < later.nonce

variable (h : PaymasterHistory)

/-- Every policy of a later epoch went on counting where the one before had stopped. -/
def Carried : Prop := ∀ r ∈ h.renewals, r.1.nextNonce ≤ r.2.nextNonce

/-- Spending stays within each budget, and the counters only rise. -/
structure Sound : Prop where
  epochs : ∀ a ∈ h.accepted, a.1.epoch = a.2.epoch
  past : ∀ a ∈ h.accepted, a.1.epoch < h.policy.epoch ∨ a.1.epoch = h.policy.epoch ∧
    a.1.nonce < h.policy.nextNonce ∧ a.2.epochBudget = h.policy.epochBudget
  ordered : h.accepted.Pairwise fun later earlier => Precedes earlier.1 later.1
  spent : h.spentIn h.policy.epoch ≤ h.policy.spent
  budget : ∀ a ∈ h.accepted, h.spentIn a.1.epoch ≤ a.2.epochBudget
  nonces : h.Carried → (∀ a ∈ h.accepted, a.1.nonce < h.policy.nextNonce) ∧
    h.accepted.Pairwise fun later earlier => earlier.1.nonce < later.1.nonce

theorem spentIn_eq_zero {h : PaymasterHistory} {epoch : Nat}
    (hn : ∀ a ∈ h.accepted, a.1.epoch ≠ epoch) : h.spentIn epoch = 0 := by
  have he : h.acceptedIn epoch = [] := by
    simp only [acceptedIn, List.filter_eq_nil_iff, List.mem_map, beq_iff_eq]
    rintro request ⟨a, ha, rfl⟩
    exact hn a ha
  rw [spentIn, he]
  rfl

def accept (ledger : CashLedger) (policy : CashPaymasterPolicyV1)
    (request : CashPaymasterRequestV1) : PaymasterHistory :=
  { h with ledger, policy, accepted := (request, h.policy) :: h.accepted }

theorem spentIn_accept (l : CashLedger) (policy : CashPaymasterPolicyV1)
    (request : CashPaymasterRequestV1) (epoch : Nat) :
    (h.accept l policy request).spentIn epoch =
      h.spentIn epoch + if request.epoch = epoch then request.fee else 0 := by
  simp only [spentIn, acceptedIn, accept, List.map_cons, List.filter_cons, beq_iff_eq]
  split_ifs <;> simp [add_comm]

/-- **An accepted request keeps the invariant.** -/
theorem Sound.accept {h : PaymasterHistory} (hs : h.Sound) (l : CashLedger)
    {policy : CashPaymasterPolicyV1} {request : CashPaymasterRequestV1}
    (ha : Authorized h.policy policy request) : (h.accept l policy request).Sound := by
  have hsp : (h.accept l policy request).spentIn h.policy.epoch ≤ policy.spent := by
    rw [spentIn_accept, if_pos ha.epoch, ha.spent]
    exact Nat.add_le_add_right hs.spent _
  have hw : (h.accept l policy request).spentIn h.policy.epoch ≤ h.policy.epochBudget :=
    hsp.trans (ha.sameBudget ▸ policy.withinBudget)
  -- what was accepted before is behind the counter that the request carries
  have hb : ∀ a ∈ h.accepted, Precedes a.1 request := by
    intro a hmem
    rw [Precedes, ha.epoch, ha.nonce]
    exact (hs.past a hmem).imp id fun hnow => ⟨hnow.1, hnow.2.1⟩
  refine ⟨?_, ?_, List.pairwise_cons.2 ⟨hb, hs.ordered⟩, ?_, ?_, ?_⟩
  · exact List.forall_mem_cons.2 ⟨ha.epoch, hs.epochs⟩
  · refine List.forall_mem_cons.2 ⟨.inr ?_, fun a hmem => ?_⟩
    · refine ⟨ha.epoch.trans ha.sameEpoch.symm, ?_, ha.sameBudget.symm⟩
      show request.nonce < policy.nextNonce
      rw [ha.nonce, ha.nextNonce]
      exact lt_succ_self _
    · show _ < policy.epoch ∨ _ = policy.epoch ∧ _ < policy.nextNonce ∧ _ = policy.epochBudget
      rw [ha.sameEpoch, ha.sameBudget, ha.nextNonce]
      exact (hs.past a hmem).imp id fun hnow => ⟨hnow.1, lt_succ_of_lt hnow.2.1, hnow.2.2⟩
  · exact ha.sameEpoch ▸ hsp
  · refine List.forall_mem_cons.2 ⟨ha.epoch.symm ▸ hw, fun a hmem => ?_⟩
    by_cases he : a.1.epoch = h.policy.epoch
    · rcases hs.past a hmem with hpa | ⟨-, -, hbu⟩
      · exact absurd he hpa.ne
      · rw [he, hbu]
        exact hw
    · rw [spentIn_accept, if_neg (fun heq => he (heq.symm.trans ha.epoch)), Nat.add_zero]
      exact hs.budget a hmem
  · intro hc
    obtain ⟨hl, hp⟩ := hs.nonces hc
    have hn : ∀ a ∈ h.accepted, a.1.nonce < request.nonce := fun a hmem =>
      ha.nonce.symm ▸ hl a hmem
    refine ⟨List.forall_mem_cons.2 ⟨?_, fun a hmem => ?_⟩, List.pairwise_cons.2 ⟨hn, hp⟩⟩
    · show request.nonce < policy.nextNonce
      rw [ha.nonce, ha.nextNonce]
      exact lt_succ_self _
    · show _ < policy.nextNonce
      rw [ha.nextNonce]
      exact lt_succ_of_lt (hl a hmem)

theorem after_cases (call : PaymasterCall) :
    h.after C call = h ∨ ∃ l policy, Authorized h.policy policy call.request ∧
      h.after C call = h.accept l policy call.request := by
  rw [after]
  rcases hexec : (call.action C).exec (h.ledger, h.policy) with ⟨_ | _, l, policy⟩
  · have hs := call.action_transactional C _ _ _ hexec
    cases hs
    exact .inl rfl
  · exact .inr ⟨l, policy, PaymasterCall.action_ok hexec, rfl⟩

/-- **Every step keeps the invariant.** -/
theorem Sound.step {h h' : PaymasterHistory} (hs : h.Sound) (hst : Step C h h') : h'.Sound := by
  cases hst with
  | call call =>
    rcases after_cases (C := C) h call with heq | ⟨l, policy, ha, heq⟩
    · exact heq.symm ▸ hs
    · exact heq.symm ▸ hs.accept l ha
  | newEpoch next hl =>
    have hp : ∀ a ∈ h.accepted, a.1.epoch < next.epoch := fun a hmem =>
      (hs.past a hmem).elim (fun hlt => hlt.trans hl) fun hnow => hnow.1.trans_lt hl
    refine ⟨hs.epochs, fun a hmem => .inl (hp a hmem), hs.ordered, ?_, hs.budget, ?_⟩
    · show h.spentIn next.epoch ≤ next.spent
      rw [spentIn_eq_zero fun a hmem => (hp a hmem).ne]
      exact zero_le _
    · intro hc
      obtain ⟨hk, hr⟩ := List.forall_mem_cons.1 hc
      obtain ⟨hle, hpa⟩ := hs.nonces hr
      exact ⟨fun a hmem => (hle a hmem).trans_le hk, hpa⟩

theorem Precedes.ne {earlier later : CashPaymasterRequestV1} (h : Precedes earlier later) :
    later ≠ earlier := by
  rintro rfl
  rcases h with h | ⟨-, h⟩ <;> exact lt_irrefl _ h

end PaymasterHistory

open PaymasterHistory

/-- **In every history of a paymaster, across epochs: the fees accepted in an epoch are within the
budget of its policy; accepted requests rise by epoch and nonce, so that none is accepted twice, and
by nonce alone when every new policy carries the counter on; and a call that fails leaves the ledger
and the policy as they were.** -/
theorem paymaster_history_sound (C : Crypto) (ledger : CashLedger) (policy : CashPaymasterPolicyV1)
    {h : PaymasterHistory}
    (hreach : Relation.ReflTransGen (PaymasterHistory.Step C) (.start ledger policy) h) :
    (∀ a ∈ h.accepted, a.1.epoch = a.2.epoch ∧ h.spentIn a.1.epoch ≤ a.2.epochBudget) ∧
    (h.accepted.Pairwise fun later earlier => Precedes earlier.1 later.1) ∧
    (h.accepted.map Prod.fst).Nodup ∧
    (h.Carried → h.accepted.Pairwise fun later earlier => earlier.1.nonce < later.1.nonce) ∧
    ∀ (call : PaymasterCall) e s, (call.action C).exec (h.ledger, h.policy) = (.error e, s) →
      s = (h.ledger, h.policy) := by
  have hs : h.Sound := by
    induction hreach with
    | refl => constructor <;> simp [start, spentIn, acceptedIn]
    | tail _ hst ih => exact ih.step hst
  refine ⟨fun a hmem => ⟨hs.epochs a hmem, hs.budget a hmem⟩, hs.ordered, ?_,
    fun hc => (hs.nonces hc).2, fun call => call.action_transactional C _⟩
  exact List.pairwise_map.2 (hs.ordered.imp fun hp => hp.ne)

namespace SmallLedger

/-- The policy of an epoch that pays two fees, after `n` of them. -/
def epochPolicy (epoch n : Nat) (h : n ≤ 2) : CashPaymasterPolicyV1 :=
  { policy with
    epochBudget := 2, spent := n, epoch, nextNonce := n
    limitsChecked := by decide, withinBudget := h }

def feeRequest (p : CashPaymasterPolicyV1) : CashPaymasterRequestV1 where
  sponsor := 1
  sender := 7
  transfer := 5
  policyCommitment := p.commitment .transparent
  approvalCommitment := 1
  fee := 1
  expectedSpent := p.spent
  epoch := p.epoch
  nonce := p.nextNonce
  expiresHeight := 1
  digestsChecked := ⟨by decide, by decide, by decide,
    Crypto.transparent_ne_zero (List.cons_ne_nil _ _), by decide⟩
  limitsChecked := by decide

/-- A fee is paid from that policy. -/
def paid (h : PaymasterHistory) (epoch n : Nat) (hn : n < 2) : PaymasterHistory :=
  h.accept h.ledger (epochPolicy epoch (n + 1) hn) (feeRequest (epochPolicy epoch n hn.le))

theorem step_paid (h : PaymasterHistory) (epoch n : Nat) (hn : n < 2)
    (hp : h.policy = epochPolicy epoch n hn.le) : Step .transparent h (paid h epoch n hn) := by
  let request := feeRequest (epochPolicy epoch n hn.le)
  have hau : (epochPolicy epoch n hn.le).authorize .transparent request 5 1 1 =
      .ok (epochPolicy epoch (n + 1) hn) := by
    have hspent : checkedAdd 128 n 1 = some (n + 1) := checkedAdd_eq_some.2 ⟨rfl, by omega⟩
    have hnonce : checkedAdd 64 n 1 = some (n + 1) := checkedAdd_eq_some.2 ⟨rfl, by omega⟩
    rw [authorize, rejectIf_of_not, Except.ok_bind]
    · simp [epochPolicy, request, feeRequest, hspent, hnonce, okOr, Except.ok_bind,
        Nat.succ_le_of_lt hn]
    · simp [request, feeRequest, epochPolicy, policy]
  have hexec : ((PaymasterCall.authorize request 5 1 1).action .transparent).exec
      (h.ledger, h.policy) = (.ok (), (h.ledger, epochPolicy epoch (n + 1) hn)) := by
    refine exec_bind_eq_ok.2 ⟨_, _, exec_get _, exec_bind_eq_ok.2
      ⟨epochPolicy epoch (n + 1) hn, (h.ledger, h.policy), ?_, rfl⟩⟩
    rw [exec_check, hp, hau]
    rfl
  have hafter : h.after .transparent (.authorize request 5 1 1) = paid h epoch n hn := by
    simp only [after, hexec]
    rfl
  exact hafter ▸ .call h _

/-- Two fees, the policy of the next epoch, which counts from zero again, and a third fee. -/
theorem exists_renewal : ∃ h : PaymasterHistory,
    Relation.ReflTransGen (Step .transparent)
      (.start (ledger .transparent) (epochPolicy 0 0 (by decide))) h ∧
    h.accepted = [epochPolicy 1 0 (by decide), epochPolicy 0 1 (by decide),
      epochPolicy 0 0 (by decide)].map fun p => (feeRequest p, p) := by
  let one := paid (.start (ledger .transparent) (epochPolicy 0 0 (by decide))) 0 0 (by decide)
  let two := paid one 0 1 (by decide)
  let next := epochPolicy 1 0 (by decide)
  let renewed := { two with policy := next, renewals := (two.policy, next) :: two.renewals }
  have hone := step_paid (.start (ledger .transparent) (epochPolicy 0 0 (by decide))) 0 0
    (by decide) rfl
  have htwo : Step .transparent one two := step_paid one 0 1 (by decide) rfl
  have hrenewed : Step .transparent two renewed := .newEpoch two next Nat.one_pos
  exact ⟨_, .tail (.tail (.tail (.single hone) htwo) hrenewed)
    (step_paid renewed 1 0 (by decide) rfl), rfl⟩

theorem fees_within_budgets : ∃ h : PaymasterHistory, h.accepted.length = 3 ∧
    h.spentIn 0 ≤ 2 ∧ h.spentIn 1 ≤ 2 ∧ (h.accepted.map Prod.fst).Nodup := by
  obtain ⟨h, hreach, hacc⟩ := exists_renewal
  obtain ⟨hbudget, -, hnodup, -⟩ := paymaster_history_sound .transparent _ _ hreach
  have hmem : ∀ p ∈ [epochPolicy 1 0 (by decide), epochPolicy 0 1 (by decide),
      epochPolicy 0 0 (by decide)], (feeRequest p, p) ∈ h.accepted :=
    fun p hp => hacc ▸ List.mem_map_of_mem hp
  exact ⟨h, congrArg List.length hacc, (hbudget _ (hmem (epochPolicy 0 0 (by decide)) (by simp))).2,
    (hbudget _ (hmem (epochPolicy 1 0 (by decide)) (by simp))).2, hnodup⟩

/-- The nonces are 0, 1 and then 0 again. -/
theorem nonce_starts_again : ∃ h : PaymasterHistory,
    Relation.ReflTransGen (Step .transparent)
      (.start (ledger .transparent) (epochPolicy 0 0 (by decide))) h ∧
    ¬ h.accepted.Pairwise fun later earlier => earlier.1.nonce < later.1.nonce := by
  obtain ⟨h, hreach, hacc⟩ := exists_renewal
  refine ⟨h, hreach, fun hp => ?_⟩
  rw [hacc] at hp
  exact absurd (List.rel_of_pairwise_cons hp (List.mem_cons_self ..)) (by decide)

end SmallLedger

end ActiveChain
