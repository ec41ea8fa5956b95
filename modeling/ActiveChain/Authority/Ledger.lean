import ActiveChain.Authority.Authorization
import ActiveChain.Lib.SortedMap
import Mathlib.Algebra.Order.BigOperators.Group.List

/-!
# The authorization ledger (`authorization-kernel`)

The replay set and the budget counters that every accepted authorization goes through.

* `AuthorizationLedger.consume`, `rateUsage` — one authorization; `consumeAll`, a batch.
* `guarantees_of_consumeAll` — **no invocation twice, no capability beyond its limits, no rate
  window beyond its maximum**, over any sequence that was consumed.
-/

namespace ActiveChain

open Function Except List SortedMap

/-! ## The ledger -/

structure BudgetUsage where
  uses : Nat
  money : Nat
  compute : Nat
  windowStart : Nat
  windowUses : Nat
deriving DecidableEq

abbrev Budgets := SortedMap CapabilityId BudgetUsage

def BudgetUsage.zero : BudgetUsage := ⟨0, 0, 0, 0, 0⟩

structure AuthorizationLedger where
  invocationSet : SetCommitment
  budgets : Budgets

/-- The first block of the window that `height` lies in. -/
def windowStartOf (windowBlocks height : Nat) : Nat := height - height % windowBlocks

def rateUsage (limit : Option RateLimit) (height : Nat) (usage : BudgetUsage) :
    AuthorityM (Nat × Nat) :=
  match limit with
  | none => .ok (0, 0)
  | some limit => do
    let start := windowStartOf limit.windowBlocks height
    let used ← if usage.windowStart = start then okOr (checkedAdd 64 usage.windowUses 1) .budget
      else .ok 1
    rejectIf (limit.maximumUses < used) .rateLimit
    return (start, used)

namespace VerifiedAuthorization

def grant (a : VerifiedAuthorization) : CapabilityGrantFields := a.leafCapability.fields

end VerifiedAuthorization

def usageIn (budgets : Budgets) (id : CapabilityId) : BudgetUsage :=
  (budgets.get? id).getD BudgetUsage.zero

/-- The part of `consume` after the replay check: the counters of the authorizing capability. -/
def chargeBudget (budgets : Budgets) (a : VerifiedAuthorization) : AuthorityM Budgets := do
  let fields := a.grant
  let usage := usageIn budgets fields.capabilityId
  let uses ← okOr (checkedAdd 64 usage.uses 1) .budget
  let money ← okOr (checkedAdd 128 usage.money a.envelope.value) .budget
  let compute ← okOr (checkedAdd 128 usage.compute a.envelope.compute) .budget
  rejectIf (fields.useLimit.any (fun v => decide (v < uses)) = true ∨
    fields.monetaryLimit.any (fun v => decide (v < money)) = true ∨
    fields.computeLimit.any (fun v => decide (v < compute)) = true) .budget
  let window ← rateUsage fields.rateLimit a.envelope.height usage
  return budgets.insert fields.capabilityId ⟨uses, money, compute, window.1, window.2⟩

namespace AuthorizationLedger

variable (C : Crypto)

def empty : AuthorizationLedger := ⟨SetCommitment.empty C .authorizationInvocation, SortedMap.empty⟩

/-- The callers work on a copy, so a failure leaves nothing behind. -/
def consume (ledger : AuthorizationLedger) (a : VerifiedAuthorization) :
    AuthorityM AuthorizationLedger := do
  let nextInvocationSet ←
    (ledger.invocationSet.insert C a.envelope.invocationId a.invocationNonMembership).mapError
      fun _ => .replay
  let budgets ← chargeBudget ledger.budgets a
  return ⟨nextInvocationSet, budgets⟩

def usage (ledger : AuthorizationLedger) (id : CapabilityId) : BudgetUsage :=
  usageIn ledger.budgets id

def consumeAll (ledger : AuthorizationLedger) :
    List VerifiedAuthorization → AuthorityM AuthorizationLedger
  | [] => .ok ledger
  | a :: rest => do
    let next ← ledger.consume C a
    next.consumeAll rest

end AuthorizationLedger

open AuthorizationLedger

/-! ## One authorization -/

section Consume

variable {C : Crypto} {ledger next : AuthorizationLedger} {a : VerifiedAuthorization}

theorem le_of_not_any_lt {limit : Option Nat} {amount : Nat}
    (h : ¬ limit.any (fun v => decide (v < amount)) = true) : ∀ v ∈ limit, amount ≤ v := by
  rintro v rfl
  simpa using h

/-- What a consumed authorization tells about the ledger before and after. -/
structure Consumed (C : Crypto) (ledger : AuthorizationLedger) (a : VerifiedAuthorization)
    (next : AuthorizationLedger) : Prop where
  inserted : ledger.invocationSet.insert C a.envelope.invocationId a.invocationNonMembership =
    .ok next.invocationSet
  uses : (next.usage a.grant.capabilityId).uses = (ledger.usage a.grant.capabilityId).uses + 1
  money : (next.usage a.grant.capabilityId).money =
    (ledger.usage a.grant.capabilityId).money + a.envelope.value
  compute : (next.usage a.grant.capabilityId).compute =
    (ledger.usage a.grant.capabilityId).compute + a.envelope.compute
  uses_le : ∀ limit ∈ a.grant.useLimit, (next.usage a.grant.capabilityId).uses ≤ limit
  money_le : ∀ limit ∈ a.grant.monetaryLimit, (next.usage a.grant.capabilityId).money ≤ limit
  compute_le : ∀ limit ∈ a.grant.computeLimit, (next.usage a.grant.capabilityId).compute ≤ limit
  rate : rateUsage a.grant.rateLimit a.envelope.height (ledger.usage a.grant.capabilityId) =
    .ok ((next.usage a.grant.capabilityId).windowStart,
      (next.usage a.grant.capabilityId).windowUses)
  frame : ∀ id, id ≠ a.grant.capabilityId → next.usage id = ledger.usage id

theorem consume_ok (h : ledger.consume C a = .ok next) : Consumed C ledger a next := by
  simp only [consume, chargeBudget, inversion] at h
  obtain ⟨set, hset, _, ⟨uses, huse, money, hmo, compute, hco, ⟨hu, hm, hc⟩, window,
    hw, rfl⟩, rfl⟩ := h
  have hus : usage ⟨set, ledger.budgets.insert a.grant.capabilityId
      ⟨uses, money, compute, window.1, window.2⟩⟩ a.grant.capabilityId =
      ⟨uses, money, compute, window.1, window.2⟩ := by
    rw [usage, usageIn, get?_insert_self]
    rfl
  refine ⟨hset, ?_, ?_, ?_, ?_, ?_, ?_, ?_, fun id hid => ?_⟩
  · rw [hus]; exact huse.1
  · rw [hus]; exact hmo.1
  · rw [hus]; exact hco.1
  · rw [hus]; exact le_of_not_any_lt hu
  · rw [hus]; exact le_of_not_any_lt hm
  · rw [hus]; exact le_of_not_any_lt hc
  · rw [hus]; exact hw
  · rw [usage, usageIn, get?_insert_ne _ _ hid]
    rfl

theorem consume_siblings {keys : List AccumulatorKey} {budgets charged : Budgets}
    (hw : a.invocationNonMembership = ⟨a.envelope.invocationId,
      siblingsOf C .authorizationInvocation keys a.envelope.invocationId⟩)
    (hf : a.envelope.invocationId ∉ keys) (hs : keys.length + 1 < 2 ^ 64)
    (hc : chargeBudget budgets a = .ok charged) :
    consume C ⟨commitmentOf C .authorizationInvocation keys, budgets⟩ a =
      .ok ⟨commitmentOf C .authorizationInvocation (a.envelope.invocationId :: keys), charged⟩ := by
  have hi := @SetCommitment.insert_siblings C .authorizationInvocation keys _
    a.envelope.nonzero.1 hf
  rw [length_cons, if_pos hs] at hi
  unfold consume
  rw [hw, hi, Except.mapError, ok_bind, hc]
  rfl

end Consume

/-! ## Totals -/

section Totals

variable {p q : VerifiedAuthorization → Bool} {amount : VerifiedAuthorization → Nat}
  {l l' : List VerifiedAuthorization} {a : VerifiedAuthorization}

/-- The amounts of the authorizations that `p` selects. -/
def spent (p : VerifiedAuthorization → Bool) (amount : VerifiedAuthorization → Nat)
    (l : List VerifiedAuthorization) : Nat :=
  ((l.filter p).map amount).sum

def chargedTo (id : CapabilityId) (a : VerifiedAuthorization) : Bool := a.grant.capabilityId = id

def under (g : CapabilityGrantFields) (a : VerifiedAuthorization) : Bool := a.grant = g

/-- The authorizations of a capability identifier in the window that begins at `start`. -/
def inWindow (id : CapabilityId) (windowBlocks start : Nat) (a : VerifiedAuthorization) : Bool :=
  a.grant.capabilityId = id ∧ windowStartOf windowBlocks a.envelope.height = start

theorem spent_append_of_pos (h : p a = true) :
    spent p amount (l ++ [a]) = spent p amount l + amount a := by
  simp [spent, h]

theorem spent_append_of_neg (h : p a = false) : spent p amount (l ++ [a]) = spent p amount l := by
  simp [spent, h]

theorem spent_le_spent (hpq : ∀ a, p a = true → q a = true) (hl : l.Sublist l') :
    spent p amount l ≤ spent q amount l' := by
  have hf : (l.filter p).Sublist (l'.filter q) :=
    (monotone_filter_right l fun a => hpq a).trans (hl.filter q)
  exact (hf.map amount).sum_le_sum fun _ _ => Nat.zero_le _

end Totals

/-! ## The invariant -/

section Invariant

variable {C : Crypto} {ledger next : AuthorizationLedger} {a : VerifiedAuthorization}
  {done : List VerifiedAuthorization}

/-- The totals under a grant are within its limits. -/
structure WithinLimits (g : CapabilityGrantFields) (l : List VerifiedAuthorization) : Prop where
  uses : ∀ limit ∈ g.useLimit, spent (under g) (fun _ => 1) l ≤ limit
  money : ∀ limit ∈ g.monetaryLimit, spent (under g) (fun a => a.envelope.value) l ≤ limit
  compute : ∀ limit ∈ g.computeLimit, spent (under g) (fun a => a.envelope.compute) l ≤ limit

/-- What the ledger holds after it has consumed the authorizations `done`, oldest first. -/
structure LedgerInv (C : Crypto) (ledger : AuthorizationLedger)
    (done : List VerifiedAuthorization) : Prop where
  invocations : ledger.invocationSet = commitmentOf C .authorizationInvocation
    (done.map fun a => a.envelope.invocationId).reverse
  once : (done.map fun a => a.envelope.invocationId).Nodup
  uses : ∀ id, (ledger.usage id).uses = spent (chargedTo id) (fun _ => 1) done
  money : ∀ id, (ledger.usage id).money = spent (chargedTo id) (fun a => a.envelope.value) done
  compute : ∀ id, (ledger.usage id).compute = spent (chargedTo id)
    (fun a => a.envelope.compute) done
  within : ∀ g, WithinLimits g done

theorem ledgerInv_empty : LedgerInv C (empty C) [] :=
  ⟨empty_eq, nodup_nil, fun _ => rfl, fun _ => rfl, fun _ => rfl,
    fun _ => ⟨fun _ _ => Nat.zero_le _, fun _ _ => Nat.zero_le _, fun _ _ => Nat.zero_le _⟩⟩

variable {g : CapabilityGrantFields}

theorem chargedTo_of_under (b : VerifiedAuthorization) (h : under g b = true) :
    chargedTo g.capabilityId b = true := by
  have hg : b.grant = g := of_decide_eq_true h
  exact decide_eq_true (congrArg _ hg)

variable {amount : VerifiedAuthorization → Nat}

theorem counter_step (counter : AuthorizationLedger → CapabilityId → Nat)
    (hinv : ∀ id, counter ledger id = spent (chargedTo id) amount done)
    (hs : counter next a.grant.capabilityId = counter ledger a.grant.capabilityId + amount a)
    (hf : ∀ id, id ≠ a.grant.capabilityId → counter next id = counter ledger id) (id) :
    counter next id = spent (chargedTo id) amount (done ++ [a]) := by
  by_cases hid : id = a.grant.capabilityId
  · subst hid
    rw [hs, hinv, spent_append_of_pos (decide_eq_true rfl)]
  · rw [hf id hid, hinv, spent_append_of_neg (decide_eq_false (Ne.symm hid))]

theorem limit_step {limit counter : Nat} (hb : spent (under g) amount done ≤ limit)
    (hc : counter = spent (chargedTo a.grant.capabilityId) amount (done ++ [a]))
    (hle : a.grant = g → counter ≤ limit) : spent (under g) amount (done ++ [a]) ≤ limit := by
  by_cases hg : a.grant = g
  · subst hg
    exact (spent_le_spent chargedTo_of_under (List.Sublist.refl _)).trans (hc ▸ hle rfl)
  · rwa [spent_append_of_neg (decide_eq_false hg)]

theorem ledgerInv_consume (hash : Injective C.shake256) (hinv : LedgerInv C ledger done)
    (h : ledger.consume C a = .ok next) : LedgerInv C next (done ++ [a]) := by
  have hc := consume_ok h
  have hi := hc.inserted
  rw [hinv.invocations] at hi
  obtain ⟨-, hf, hset, -⟩ := SetCommitment.insert_ok hash hi
  have hu := counter_step (fun l id => (l.usage id).uses) hinv.uses hc.uses
    fun id hid => by rw [hc.frame id hid]
  have hm := counter_step (fun l id => (l.usage id).money) hinv.money hc.money
    fun id hid => by rw [hc.frame id hid]
  have hco := counter_step (fun l id => (l.usage id).compute) hinv.compute
    hc.compute fun id hid => by rw [hc.frame id hid]
  refine ⟨?_, ?_, hu, hm, hco, fun g => ⟨fun limit hl => ?_, fun limit hl => ?_,
    fun limit hl => ?_⟩⟩
  · rw [hset, map_append, reverse_append]
    rfl
  · rw [map_append, nodup_append_comm]
    exact nodup_cons.2 ⟨fun hmem => hf (mem_reverse.2 hmem), hinv.once⟩
  · exact limit_step ((hinv.within g).uses limit hl) (hu _) fun hg => hc.uses_le limit (hg ▸ hl)
  · exact limit_step ((hinv.within g).money limit hl) (hm _) fun hg => hc.money_le limit (hg ▸ hl)
  · exact limit_step ((hinv.within g).compute limit hl) (hco _)
      fun hg => hc.compute_le limit (hg ▸ hl)

theorem ledgerInv_consumeAll (hash : Injective C.shake256) (batch : List VerifiedAuthorization) :
    ∀ {l next : AuthorizationLedger} {done : List VerifiedAuthorization},
      LedgerInv C l done → l.consumeAll C batch = .ok next →
        LedgerInv C next (done ++ batch) := by
  induction batch with
  | nil =>
    intro l next done hinv h
    obtain rfl : l = next := ok.inj h
    rwa [append_nil]
  | cons a batch ih =>
    intro l next done hinv h
    rw [consumeAll, bind_eq_ok] at h
    obtain ⟨middle, hf, hr⟩ := h
    have hn := ih (ledgerInv_consume hash hinv hf) hr
    rwa [append_assoc] at hn

end Invariant

/-! ## Rate windows -/

section Windows

variable {C : Crypto} {ledger next : AuthorizationLedger} {a : VerifiedAuthorization}
  {done : List VerifiedAuthorization} {id : CapabilityId} {rate : RateLimit}

theorem windowStartOf_mono (w : Nat) {m n : Nat} (h : m ≤ n) :
    windowStartOf w m ≤ windowStartOf w n := by
  have hm : windowStartOf w m = w * (m / w) := by
    have := Nat.div_add_mod m w
    unfold windowStartOf; omega
  have hn : windowStartOf w n = w * (n / w) := by
    have := Nat.div_add_mod n w
    unfold windowStartOf; omega
  rw [hm, hn]
  exact Nat.mul_le_mul_left w (Nat.div_le_div_right h)

/-- The window that a usage record is in is the latest one used, and its count is right. -/
structure WindowInv (id : CapabilityId) (rate : RateLimit) (ledger : AuthorizationLedger)
    (done : List VerifiedAuthorization) : Prop where
  max : ∀ start, spent (inWindow id rate.windowBlocks start) (fun _ => 1) done ≤ rate.maximumUses
  current : spent (inWindow id rate.windowBlocks (ledger.usage id).windowStart) (fun _ => 1) done ≤
    (ledger.usage id).windowUses
  latest : ∀ b ∈ done, b.grant.capabilityId = id →
    windowStartOf rate.windowBlocks b.envelope.height ≤ (ledger.usage id).windowStart ∧
    ∃ c ∈ done, windowStartOf rate.windowBlocks c.envelope.height = (ledger.usage id).windowStart

theorem windowInv_empty : WindowInv id rate (empty C) [] :=
  ⟨fun _ => Nat.zero_le _, Nat.zero_le _, fun _ hb => by cases hb⟩

theorem rateUsage_ok {height start used : Nat} {usage : BudgetUsage}
    (h : rateUsage (some rate) height usage = .ok (start, used)) :
    start = windowStartOf rate.windowBlocks height ∧ used ≤ rate.maximumUses ∧
      (usage.windowStart = start ∧ used = usage.windowUses + 1 ∨
        usage.windowStart ≠ start ∧ used = 1) := by
  simp only [rateUsage] at h
  split at h
  case isTrue hs =>
    simp only [inversion, Prod.mk.injEq] at h
    obtain ⟨used', hu, hmax, rfl, rfl⟩ := h
    exact ⟨rfl, Nat.le_of_not_lt hmax, .inl ⟨hs, hu.1⟩⟩
  case isFalse hnew =>
    simp only [ok_bind, inversion, Prod.mk.injEq] at h
    obtain ⟨hmax, rfl, rfl⟩ := h
    exact ⟨rfl, Nat.le_of_not_lt hmax, .inr ⟨hnew, rfl⟩⟩

theorem windowInv_consume (hinv : WindowInv id rate ledger done) (h : ledger.consume C a = .ok next)
    (hh : ∀ b ∈ done, b.envelope.height ≤ a.envelope.height)
    (hg : a.grant.capabilityId = id → a.grant.rateLimit = some rate) :
    WindowInv id rate next (done ++ [a]) := by
  have hc := consume_ok h
  by_cases hid : a.grant.capabilityId = id
  swap
  · -- another capability: neither the counter nor the selection changes
    have hsk : ∀ start, inWindow id rate.windowBlocks start a = false :=
      fun start => decide_eq_false fun hbo => hid hbo.1
    rw [← Ne.eq_def] at hid
    refine ⟨fun start => ?_, ?_, ?_⟩
    · rw [spent_append_of_neg (hsk start)]
      exact hinv.max start
    · rw [hc.frame id hid.symm, spent_append_of_neg (hsk _)]
      exact hinv.current
    · rw [hc.frame id hid.symm]
      intro b hb hbid
      rcases mem_append.1 hb with hb | hb
      · obtain ⟨hle, c, hcm, hcs⟩ := hinv.latest b hb hbid
        exact ⟨hle, c, mem_append_left _ hcm, hcs⟩
      · rw [mem_singleton.1 hb] at hbid
        exact absurd hbid hid
  subst hid
  have hr := hc.rate
  rw [hg rfl] at hr
  obtain ⟨hs, hmax, hu⟩ := rateUsage_ok hr
  have hse : inWindow a.grant.capabilityId rate.windowBlocks
      (next.usage a.grant.capabilityId).windowStart a = true :=
    decide_eq_true ⟨rfl, hs.symm⟩
  have hcu : spent (inWindow a.grant.capabilityId rate.windowBlocks
      (next.usage a.grant.capabilityId).windowStart) (fun _ => 1) (done ++ [a]) ≤
      (next.usage a.grant.capabilityId).windowUses := by
    rw [spent_append_of_pos hse]
    rcases hu with ⟨hsa, hu⟩ | ⟨hnew, hu⟩
    · rw [hu, ← hsa]
      exact Nat.add_le_add_right hinv.current 1
    · -- a new window: everything consumed before lies in an earlier one
      have hn : ∀ b ∈ done, inWindow a.grant.capabilityId rate.windowBlocks
          (next.usage a.grant.capabilityId).windowStart b = false := by
        refine fun b hb => decide_eq_false fun hbo => hnew ?_
        obtain ⟨hle, c, hcm, hcs⟩ := hinv.latest b hb hbo.1
        have hl := windowStartOf_mono rate.windowBlocks (hh c hcm)
        omega
      have hz : spent (inWindow a.grant.capabilityId rate.windowBlocks
          (next.usage a.grant.capabilityId).windowStart) (fun _ => 1) done = 0 := by
        rw [spent, filter_eq_nil_iff.2 fun b hb => by rw [hn b hb]; decide]
        rfl
      rw [hz, hu]
  refine ⟨fun start => ?_, hcu, fun b hb hbid => ⟨?_, a, ?_, hs.symm⟩⟩
  · by_cases heq : start = (next.usage a.grant.capabilityId).windowStart
    · rw [heq]
      exact hcu.trans hmax
    · rw [spent_append_of_neg (decide_eq_false fun hbo => heq (hs ▸ hbo.2.symm))]
      exact hinv.max start
  · rw [hs]
    rcases mem_append.1 hb with hb | hb
    · exact windowStartOf_mono _ (hh b hb)
    · rw [mem_singleton.1 hb]
  · exact mem_append_right _ (mem_singleton.2 rfl)

theorem windowInv_consumeAll (batch : List VerifiedAuthorization) :
    ∀ {l next : AuthorizationLedger} {done : List VerifiedAuthorization},
      WindowInv id rate l done → l.consumeAll C batch = .ok next →
      (done ++ batch).Pairwise (fun a b => a.envelope.height ≤ b.envelope.height) →
      (∀ a ∈ batch, a.grant.capabilityId = id → a.grant.rateLimit = some rate) →
        WindowInv id rate next (done ++ batch) := by
  induction batch with
  | nil =>
    intro l next done hinv h _ _
    obtain rfl : l = next := ok.inj h
    rwa [append_nil]
  | cons a batch ih =>
    intro l next done hinv h hh hg
    rw [consumeAll, bind_eq_ok] at h
    obtain ⟨middle, hf, hr⟩ := h
    have hbe : ∀ b ∈ done, b.envelope.height ≤ a.envelope.height :=
      fun b hb => (pairwise_append.1 hh).2.2 b hb a mem_cons_self
    have hm := windowInv_consume hinv hf hbe (hg a mem_cons_self)
    have hn := ih hm hr (by rwa [append_assoc])
      fun b hb => hg b (mem_cons_of_mem _ hb)
    rwa [append_assoc] at hn

end Windows

/-! ## Consumed sequences -/

section Consumed

variable {C : Crypto} {ledger : AuthorizationLedger} {done l : List VerifiedAuthorization}

/-- What a ledger guarantees of the authorizations `l`, if `presented` is all that it was shown. -/
structure LedgerGuarantees (l presented : List VerifiedAuthorization) : Prop where
  once : (l.map fun a => a.envelope.invocationId).Nodup
  within : ∀ g, WithinLimits g l
  rate : presented.Pairwise (fun a b => a.envelope.height ≤ b.envelope.height) →
    ∀ g : CapabilityGrantFields,
      (∀ a ∈ presented, a.grant.capabilityId = g.capabilityId → a.grant = g) →
      ∀ limit ∈ g.rateLimit, ∀ start,
        spent (inWindow g.capabilityId limit.windowBlocks start) (fun _ => 1) l ≤ limit.maximumUses

/-- **Whatever part of a consumed sequence was accepted, the guarantees hold of it.** -/
theorem guarantees_of_consumeAll {presented : List VerifiedAuthorization}
    (hash : Injective C.shake256)
    (h : (empty C).consumeAll C done = .ok ledger) (hl : l.Sublist done)
    (hd : done.Sublist presented) : LedgerGuarantees l presented := by
  have hinv : LedgerInv C ledger done := ledgerInv_consumeAll hash done ledgerInv_empty h
  refine ⟨(hl.map _).nodup hinv.once, fun g => ⟨fun limit hli => ?_, fun limit hli => ?_,
    fun limit hli => ?_⟩, ?_⟩
  · exact (spent_le_spent (fun _ => id) hl).trans ((hinv.within g).uses limit hli)
  · exact (spent_le_spent (fun _ => id) hl).trans ((hinv.within g).money limit hli)
  · exact (spent_le_spent (fun _ => id) hl).trans ((hinv.within g).compute limit hli)
  · intro hh g hone limit hli start
    have hg : ∀ a ∈ done, a.grant.capabilityId = g.capabilityId →
        a.grant.rateLimit = some limit := fun a ha hid => hone a (hd.subset ha) hid ▸ hli
    have hw : WindowInv g.capabilityId limit ledger done :=
      windowInv_consumeAll done windowInv_empty h (hh.sublist hd) hg
    exact (spent_le_spent (fun _ => id) hl).trans (hw.max start)

end Consumed

end ActiveChain
