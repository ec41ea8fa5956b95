import ActiveChain.Billboard.Relation
import ActiveChain.Cash.Partitioned
import ActiveChain.Lib.SortedSet

/-!
# The private billboard and its ledger (`private-billboard`)

The billboard knows its permits by commitments.  A post or a withdrawal spends one against a proof,
and the composed ledger pays the value out of the shielded pool in the same step.

* `BillboardState.applyPost`, `applyWithdrawal`, `shield`, `decide` — the billboard alone.
* `NativeBillboardLedger`, `BillboardCall` — the billboard with the cash ledger, and its calls.
* `applyPost_ok` and its fellows — what a call that succeeds leaves.
-/

namespace ActiveChain

open Function Update List BillboardPermit PostPublicInputs SortedSet

def maxPosts : Nat := 4096

def maxDecisions : Nat := 4096

def maxPermits : Nat := 4096

def maxNullifiers : Nat := 4096

structure PublicPost where
  id : Digest384
  content : List Nat
  height : Nat
  dummy : Bool
deriving DecidableEq

structure BillboardState where
  config : BillboardConfig
  anchor : Digest384
  poolBalance : Nat
  feeReserve : Nat
  permits : SortedSet Digest384
  spentNullifiers : SortedSet Digest384
  posts : List PublicPost
  decisions : List ModerationDecision
  withdrawals : List (PrincipalId × Nat)

/-- Code of the billboard: the fields assigned so far stay when it fails. -/
abbrev BillboardM := Update BillboardError BillboardState

def insertUnique (values : SortedSet Digest384) (value : Digest384) (maximum : Nat) :
    Except BillboardError (SortedSet Digest384) := do
  rejectIf (maximum ≤ values.length) .capacityExceeded
  rejectIf (value ∈ values) .nullifierSpent
  return values.insert value

section

variable (C : Crypto)

namespace BillboardState

def new (config : BillboardConfig) : BillboardState where
  config := config
  anchor := Digest384.zero
  poolBalance := 0
  feeReserve := 0
  permits := .empty
  spentNullifiers := .empty
  posts := []
  decisions := []
  withdrawals := []

def stateCommitment (s : BillboardState) : Digest384 :=
  hashParts C "ACTIVECHAIN-BILLBOARD-STATE-V1" [[.u128 s.poolBalance, .u128 s.feeReserve],
    s.permits.elems.map .digest, s.spentNullifiers.elems.map .digest]

def reanchor : BillboardM PUnit := modify fun s => { s with anchor := s.stateCommitment C }

def insertPermit (commitment : Digest384) : BillboardM PUnit := do
  let self ← get
  let permits ← .check (insertUnique self.permits commitment maxPermits)
  modify fun s => { s with permits := permits }

def consume (permit nullifier : Digest384) : BillboardM PUnit := do
  let self ← get
  .check (rejectIf (nullifier ∈ self.spentNullifiers) .nullifierSpent)
  .check (rejectIf (maxNullifiers ≤ self.spentNullifiers.length) .capacityExceeded)
  .check (rejectIf (permit ∉ self.permits) .wrongPermit)
  modify fun s => { s with permits := s.permits.erase permit }
  let spent ← .check (insertUnique self.spentNullifiers nullifier maxNullifiers)
  modify fun s => { s with spentNullifiers := spent }

/-- Take `debit` out of the pool, `fee` of which goes to the reserve. -/
def payOut (debit fee : Nat) : BillboardM PUnit := do
  let self ← get
  let pool ← .check (okOr (checkedSub self.poolBalance debit) .insufficientValue)
  modify fun s => { s with poolBalance := pool }
  let reserve ← .check (okOr (checkedAdd 128 self.feeReserve fee) .arithmeticOverflow)
  modify fun s => { s with feeReserve := reserve }

def publish (inputs : PostPublicInputs) : BillboardM PUnit :=
  if inputs.dummy then pure ⟨⟩
  else do
    let self ← get
    .check (rejectIf (maxPosts ≤ self.posts.length) .capacityExceeded)
    modify fun s => { s with posts := s.posts ++
      [⟨inputs.postId, inputs.content, inputs.height, false⟩] }

def shield (permit : BillboardPermit) : BillboardM PUnit := do
  let self ← get
  .check (verifyContext self.config permit.chainId permit.assetId permit.policyRevision)
  .check (rejectIf (maxPermits ≤ self.permits.length) .capacityExceeded)
  .atomically do
    insertPermit (permit.commitment C)
    let pool ← .check (okOr (checkedAdd 128 self.poolBalance permit.amount) .arithmeticOverflow)
    modify fun s => { s with poolBalance := pool }
    reanchor C

def decide (decision : ModerationDecision) : BillboardM PUnit := do
  let self ← get
  .check (rejectIf (decision.policyRevision ≠ self.config.policyRevision) .wrongPolicy)
  .check (rejectIf (∀ post ∈ self.posts, post.id ≠ decision.postId) .decisionMissing)
  .check (rejectIf (∃ item ∈ self.decisions, item.postId = decision.postId) .alreadyDecided)
  .check (rejectIf (maxDecisions ≤ self.decisions.length) .capacityExceeded)
  modify fun s => { s with decisions := s.decisions ++ [decision] }

def applyPost (inputs : PostPublicInputs) (proof : VerifiedBillboardProof) : BillboardM PUnit :=
  .atomically do
    let next ← get
    .check (rejectIf (inputs.anchor ≠ next.anchor) .invalidProof)
    let commitment ← .check (inputs.commitment C)
    .check (rejectIf (proof.publicInputsCommitment ≠ commitment ∨
      proof.permitCommitment ∉ next.permits) .invalidProof)
    consume proof.permitCommitment inputs.nullifier
    insertPermit inputs.successorCommitment
    payOut inputs.fee inputs.fee
    publish inputs
    reanchor C

def applyWithdrawal (inputs : WithdrawalPublicInputs) (proof : VerifiedBillboardProof) :
    BillboardM PUnit :=
  .atomically do
    let next ← get
    .check (rejectIf (inputs.anchor ≠ next.anchor ∨
      proof.publicInputsCommitment ≠ inputs.commitment C ∨
      proof.permitCommitment ∉ next.permits) .invalidProof)
    consume proof.permitCommitment inputs.nullifier
    let debit ← .check (okOr (checkedAdd 128 inputs.amount inputs.fee) .arithmeticOverflow)
    payOut debit inputs.fee
    modify fun s => { s with withdrawals := s.withdrawals ++ [(inputs.recipient, inputs.amount)] }
    reanchor C

end BillboardState

/-! ## The composed ledger -/

structure NativeBillboardLedger where
  cash : CashLedger
  billboard : BillboardState

def privacyReceipt {α : Type} [CanonicalType α] (C : Crypto) (statement : α) :
    VerifiedPrivacyProof :=
  ⟨commit C .privacyPublicInputs statement, true⟩

/-- A billboard nullifier as a key of the cash ledger's nullifier set, which has 384 bits. -/
def nullifierKeyOf (nullifier : Digest384) : AccumulatorKey := BitVec.ofNat keyBits nullifier

namespace NativeBillboardLedger

abbrev LedgerAction := Update BillboardError NativeBillboardLedger

/-- Code of the cash ledger; its errors become `CashTransition`. -/
def onCash {α : Type} (m : LedgerM α) : LedgerAction α :=
  .onPart cash (fun cash l => { l with cash := cash }) (fun _ => .cashTransition) m

def onBillboard {α : Type} (m : BillboardM α) : LedgerAction α :=
  .onPart billboard (fun billboard l => { l with billboard := billboard }) id m

def new (cash : CashLedger) (config : BillboardConfig) : NativeBillboardLedger :=
  ⟨cash, .new config⟩

def verifyBalances : LedgerAction PUnit := do
  let self ← get
  .check (rejectIf (self.cash.shielded.poolBalance ≠ self.billboard.poolBalance) .cashTransition)

def shield (intent : ShieldIntent) (permit : BillboardPermit) (height : Nat) :
    LedgerAction PUnit := do
  let self ← get
  .check (rejectIf (intent.chainId ≠ self.billboard.config.chainId ∨
    intent.assetId ≠ self.billboard.config.assetId ∨ intent.amount ≠ permit.amount ∨
    permit.commitment C ∉ intent.outputCommitments) .wrongPermit)
  .atomically do
    let _ ← onCash (CashLedger.applyShield C intent (privacyReceipt C intent) height)
    onBillboard (BillboardState.shield C permit)
    verifyBalances

def post (inputs : PostPublicInputs) (proof : VerifiedBillboardProof)
    (feeIntent : UnshieldIntent) : LedgerAction PUnit := do
  let self ← get
  let paid ← .check (okOr (checkedAdd 128 feeIntent.amount feeIntent.fee) .arithmeticOverflow)
  .check (rejectIf (feeIntent.chainId ≠ inputs.chainId ∨ feeIntent.assetId ≠ inputs.assetId ∨
    feeIntent.anchor ≠ self.cash.shielded.anchor ∨
    feeIntent.nullifiers ≠ [nullifierKeyOf inputs.nullifier] ∨
    feeIntent.changeCommitments ≠ [inputs.successorCommitment] ∨ paid ≠ inputs.fee) .invalidProof)
  .atomically do
    let _ ← onCash (CashLedger.applyUnshield C feeIntent (privacyReceipt C feeIntent) inputs.height)
    onBillboard (BillboardState.applyPost C inputs proof)
    verifyBalances

def withdraw (inputs : WithdrawalPublicInputs) (proof : VerifiedBillboardProof)
    (intent : UnshieldIntent) : LedgerAction PUnit := do
  let self ← get
  .check (rejectIf (intent.chainId ≠ inputs.chainId ∨ intent.assetId ≠ inputs.assetId ∨
    intent.anchor ≠ self.cash.shielded.anchor ∨ intent.recipient ≠ inputs.recipient ∨
    intent.amount ≠ inputs.amount ∨ intent.fee ≠ inputs.fee ∨
    intent.nullifiers ≠ [nullifierKeyOf inputs.nullifier] ∨ intent.changeCommitments ≠ [])
    .invalidProof)
  .atomically do
    let _ ← onCash (CashLedger.applyUnshield C intent (privacyReceipt C intent) inputs.height)
    onBillboard (BillboardState.applyWithdrawal C inputs proof)
    verifyBalances

end NativeBillboardLedger

inductive BillboardCall
  | shield (intent : ShieldIntent) (permit : BillboardPermit) (height : Nat)
  | post (inputs : PostPublicInputs) (proof : VerifiedBillboardProof) (feeIntent : UnshieldIntent)
  | withdraw (inputs : WithdrawalPublicInputs) (proof : VerifiedBillboardProof)
      (intent : UnshieldIntent)
  | decide (decision : ModerationDecision)

namespace BillboardCall

def action : BillboardCall → NativeBillboardLedger.LedgerAction PUnit
  | .shield intent permit height => NativeBillboardLedger.shield C intent permit height
  | .post inputs proof feeIntent => NativeBillboardLedger.post C inputs proof feeIntent
  | .withdraw inputs proof intent => NativeBillboardLedger.withdraw C inputs proof intent
  | .decide decision => NativeBillboardLedger.onBillboard (BillboardState.decide decision)

end BillboardCall

def NativeBillboardLedger.run (l : NativeBillboardLedger) (calls : List BillboardCall) :
    NativeBillboardLedger :=
  calls.foldl (fun l call => ((call.action C).exec l).2) l

end

/-! ## What the billboard does -/

namespace BillboardState

variable {C : Crypto} {s s' : BillboardState} {u : PUnit}

theorem insertPermit_ok {c : Digest384} (h : (insertPermit c).exec s = (.ok u, s')) :
    c ∉ s.permits ∧ s' = { s with permits := s.permits.insert c } := by
  simp only [insertPermit, insertUnique, inversion, Except.inversion, existsAndEq] at h
  obtain ⟨⟨-, hf⟩, rfl⟩ := h
  exact ⟨hf, rfl⟩

theorem consume_ok {permit nullifier : Digest384}
    (h : (consume permit nullifier).exec s = (.ok u, s')) :
    permit ∈ s.permits ∧ nullifier ∉ s.spentNullifiers ∧ s' = { s with
      permits := s.permits.erase permit
      spentNullifiers := s.spentNullifiers.insert nullifier } := by
  simp only [consume, insertUnique, inversion, Except.inversion, existsAndEq, not_not] at h
  obtain ⟨hfresh, -, hmem, -, rfl⟩ := h
  exact ⟨hmem, hfresh, rfl⟩

theorem payOut_ok {debit fee : Nat} (h : (payOut debit fee).exec s = (.ok u, s')) :
    debit ≤ s.poolBalance ∧ ∃ reserve,
      s' = { s with poolBalance := s.poolBalance - debit, feeReserve := reserve } := by
  simp only [payOut, inversion, existsAndEq, okOr_eq_ok, checkedSub_eq_some] at h
  obtain ⟨hle, reserve, -, rfl⟩ := h
  exact ⟨hle, reserve, rfl⟩

variable {proof : VerifiedBillboardProof} {inputs : PostPublicInputs}

/-- A post adds itself to the posts, unless it is a dummy. -/
def Published (s s' : BillboardState) (inputs : PostPublicInputs) : Prop :=
  s'.posts = s.posts ∨ inputs.dummy = false ∧ s.posts.length < maxPosts ∧
    s'.posts = s.posts ++ [⟨inputs.postId, inputs.content, inputs.height, false⟩]

theorem publish_ok (h : (publish inputs).exec s = (.ok u, s')) :
    s' = { s with posts := s'.posts } ∧ Published s s' inputs := by
  unfold publish at h
  split at h
  · cases h
    exact ⟨rfl, .inl rfl⟩
  · rename_i hd
    simp only [inversion, existsAndEq, rejectIf_eq_ok, not_le] at h
    obtain ⟨hroom, rfl⟩ := h
    exact ⟨rfl, .inr ⟨Bool.eq_false_of_not_eq_true hd, hroom, rfl⟩⟩

theorem shield_ok {permit : BillboardPermit} (h : (shield C permit).exec s = (.ok u, s')) :
    permit.commitment C ∉ s.permits ∧ s' = { s with
      permits := s.permits.insert (permit.commitment C)
      poolBalance := s.poolBalance + permit.amount
      anchor := s'.anchor } := by
  simp only [shield, reanchor, exec_atomically_eq_ok, inversion, existsAndEq,
    okOr_eq_ok, checkedAdd_eq_some] at h
  obtain ⟨_, -, _, -, _, _, hi, -, rfl⟩ := h
  obtain ⟨hf, rfl⟩ := insertPermit_ok hi
  exact ⟨hf, rfl⟩

theorem decide_ok {decision : ModerationDecision} (h : (decide decision).exec s = (.ok u, s')) :
    decision.postId ∈ s.posts.map PublicPost.id ∧
      decision.postId ∉ s.decisions.map ModerationDecision.postId ∧
      s' = { s with decisions := s.decisions ++ [decision] } := by
  simp only [decide, inversion, existsAndEq, rejectIf_eq_ok] at h
  obtain ⟨-, hp, hn, -, rfl⟩ := h
  exact ⟨by simpa using hp, by simpa using hn, rfl⟩

/-- What a post that succeeds has checked and leaves. -/
structure PostApplied (C : Crypto) (s s' : BillboardState) (inputs : PostPublicInputs)
    (proof : VerifiedBillboardProof) : Prop where
  bound : inputs.commitment C = .ok proof.publicInputsCommitment
  live : proof.permitCommitment ∈ s.permits
  unspent : inputs.nullifier ∉ s.spentNullifiers
  spent : s'.spentNullifiers = s.spentNullifiers.insert inputs.nullifier
  fresh : inputs.successorCommitment ∉ s.permits.erase proof.permitCommitment
  permits : s'.permits =
    (s.permits.erase proof.permitCommitment).insert inputs.successorCommitment
  pool : s'.poolBalance + inputs.fee = s.poolBalance

theorem applyPost_ok (h : (applyPost C inputs proof).exec s = (.ok u, s')) :
    PostApplied C s s' inputs proof ∧ Published s s' inputs ∧ s'.decisions = s.decisions := by
  simp only [applyPost, reanchor, exec_atomically_eq_ok, inversion, existsAndEq,
    rejectIf_eq_ok, not_or, not_not] at h
  obtain ⟨-, hi, hl, _, _, hc, _, _, hin, _, _, hpay, _, _, hp, rfl⟩ := h
  obtain ⟨-, hfresh, rfl⟩ := consume_ok hc
  obtain ⟨hf, rfl⟩ := insertPermit_ok hin
  obtain ⟨hle, reserve, rfl⟩ := payOut_ok hpay
  obtain ⟨he, hpub⟩ := publish_ok hp
  rw [he]
  exact ⟨⟨hi, hl, hfresh, rfl, hf, rfl, Nat.sub_add_cancel hle⟩, hpub, rfl⟩

/-- What a withdrawal that succeeds has checked and leaves. -/
structure WithdrawalApplied (C : Crypto) (s s' : BillboardState) (inputs : WithdrawalPublicInputs)
    (proof : VerifiedBillboardProof) : Prop where
  bound : proof.publicInputsCommitment = inputs.commitment C
  live : proof.permitCommitment ∈ s.permits
  unspent : inputs.nullifier ∉ s.spentNullifiers
  spent : s'.spentNullifiers = s.spentNullifiers.insert inputs.nullifier
  permits : s'.permits = s.permits.erase proof.permitCommitment
  pool : s'.poolBalance + (inputs.amount + inputs.fee) = s.poolBalance

theorem applyWithdrawal_ok {inputs : WithdrawalPublicInputs}
    (h : (applyWithdrawal C inputs proof).exec s = (.ok u, s')) :
    WithdrawalApplied C s s' inputs proof ∧ s'.posts = s.posts ∧ s'.decisions = s.decisions := by
  simp only [applyWithdrawal, reanchor, exec_atomically_eq_ok, inversion, existsAndEq,
    rejectIf_eq_ok, okOr_eq_ok, checkedAdd_eq_some, not_or, not_not] at h
  obtain ⟨⟨-, hi, hl⟩, _, _, hc, -, _, _, hpay, rfl⟩ := h
  obtain ⟨-, hfresh, rfl⟩ := consume_ok hc
  obtain ⟨hle, reserve, rfl⟩ := payOut_ok hpay
  exact ⟨⟨hi, hl, hfresh, rfl, rfl, Nat.sub_add_cancel hle⟩, rfl, rfl⟩

end BillboardState

open BillboardState

/-! ## Proofs and openings -/

/-- A relation proof is sound: it comes from an input of one of the two relations, chosen by whoever
made it. -/
def VerifiedBillboardProof.Sound (C : Crypto) (proof : VerifiedBillboardProof) : Prop :=
  (∃ input, verifyPost C input = .ok proof) ∨ ∃ input, verifyWithdrawal C input = .ok proof

def BillboardCall.Sound (C : Crypto) : BillboardCall → Prop
  | .post _ proof _ => proof.Sound C
  | .withdraw _ proof _ => proof.Sound C
  | .shield _ _ _ => True
  | .decide _ => True

def Opens (C : Crypto) (live : List BillboardPermit) (permits : SortedSet Digest384) : Prop :=
  (live.map (BillboardPermit.commitment C)).Perm permits.elems

section Openings

variable {C : Crypto} {live : List BillboardPermit} {permits : SortedSet Digest384}
  {permit : BillboardPermit} {proof : VerifiedBillboardProof}

theorem Opens.insert (h : Opens C live permits) (hf : permit.commitment C ∉ permits) :
    Opens C (permit :: live) (permits.insert (permit.commitment C)) :=
  (List.Perm.cons _ h).trans (insert_perm hf).symm

variable (hash : Injective C.shake256)
include hash

theorem Opens.mem (h : Opens C live permits) (hl : permit.commitment C ∈ permits) :
    permit ∈ live := by
  obtain ⟨opened, hopened, heq⟩ := mem_map.1 (h.mem_iff.2 hl)
  rwa [← commitment_injective hash heq]

theorem Opens.erase (h : Opens C live permits) :
    Opens C (live.erase permit) (permits.erase (permit.commitment C)) := by
  rw [Opens, map_erase (commitment_injective hash)]
  exact List.Perm.erase _ h

theorem Opens.spend (h : Opens C live permits) (hl : permit.commitment C ∈ permits) :
    Opens C (live.erase permit) (permits.erase (permit.commitment C)) ∧
      (live.map amount).sum = permit.amount + ((live.erase permit).map amount).sum := by
  have hmem := h.mem hash hl
  refine ⟨h.erase hash, ?_⟩
  rw [((perm_cons_erase hmem).map amount).sum_eq, map_cons, sum_cons]

theorem VerifiedBillboardProof.Sound.post {inputs : PostPublicInputs} (h : proof.Sound C)
    (hb : inputs.commitment C = .ok proof.publicInputsCommitment) :
    ∃ input, PostProved C input proof ∧ input.publicInputs = inputs := by
  rcases h with ⟨input, hv⟩ | ⟨input, hv⟩
  · have hp := verifyPost_ok hv
    exact ⟨input, hp, eq_of_commitment hash hp.inputs hb⟩
  · rw [(verifyWithdrawal_ok hv).inputs] at hb
    exact absurd hb (commitment_ne_withdrawal hash)

theorem VerifiedBillboardProof.Sound.withdrawal {inputs : WithdrawalPublicInputs}
    (h : proof.Sound C) (hb : proof.publicInputsCommitment = inputs.commitment C) :
    ∃ input, WithdrawalProved C input proof ∧ input.publicInputs = inputs := by
  rcases h with ⟨input, hv⟩ | ⟨input, hv⟩
  · have hi := (verifyPost_ok hv).inputs
    rw [hb] at hi
    exact absurd hi (commitment_ne_withdrawal hash)
  · have hp := verifyWithdrawal_ok hv
    exact ⟨input, hp, WithdrawalPublicInputs.commitment_injective hash (hp.inputs.symm.trans hb)⟩

end Openings

/-! ## Conservation -/

/-- The live permits hold what the pool holds, on the billboard and in the cash ledger. -/
structure NativeBillboardLedger.Backed (C : Crypto) (l : NativeBillboardLedger) : Prop where
  permits : ∃ live, Opens C live l.billboard.permits ∧
    (live.map BillboardPermit.amount).sum = l.billboard.poolBalance
  pools : l.billboard.poolBalance = l.cash.shielded.poolBalance

def BillboardCall.MovesPermits (C : Crypto) (l l' : NativeBillboardLedger) : BillboardCall → Prop
  | .shield _ permit _ =>
    permit.commitment C ∉ l.billboard.permits ∧
      l'.billboard.permits.elems.Perm (permit.commitment C :: l.billboard.permits.elems)
  | .post inputs proof _ =>
    proof.permitCommitment ∈ l.billboard.permits ∧
      inputs.successorCommitment ∉ l.billboard.permits ∧
      l'.billboard.permits.elems.Perm
        (inputs.successorCommitment :: l.billboard.permits.elems.erase proof.permitCommitment)
  | .withdraw _ proof _ =>
    proof.permitCommitment ∈ l.billboard.permits ∧
      l'.billboard.permits.elems = l.billboard.permits.elems.erase proof.permitCommitment
  | .decide _ => l'.billboard.permits = l.billboard.permits

namespace NativeBillboardLedger

variable {C : Crypto} {l l' : NativeBillboardLedger}

/-- The billboard carries an action out, and the balances agree. -/
def Carries (action : BillboardM PUnit) (l l' : NativeBillboardLedger) : Prop :=
  ∃ v, action.exec l.billboard = (.ok v, l'.billboard) ∧
    l'.billboard.poolBalance = l'.cash.shielded.poolBalance

/-- The common end of `shield`, `post` and `withdraw`. -/
theorem moved_ok {α : Type} {cash : LedgerM α} {billboard : BillboardM PUnit} {u : PUnit}
    (h : (Update.atomically do
      let _ ← onCash cash
      onBillboard billboard
      verifyBalances).exec l = (.ok u, l')) :
    Carries billboard l l' := by
  simp only [onCash, onBillboard, exec_atomically_eq_ok, exec_bind_eq_ok, exec_onPart_eq_ok] at h
  obtain ⟨_, _, ⟨_, -, rfl⟩, v, _, ⟨_, hb, rfl⟩, hv⟩ := h
  simp only [verifyBalances, inversion, existsAndEq, rejectIf_eq_ok, not_not] at hv
  obtain ⟨heq, rfl⟩ := hv
  exact ⟨v, hb, heq.symm⟩

section Calls

variable {inputs : PostPublicInputs} {proof : VerifiedBillboardProof} {intent : UnshieldIntent}
  {u : PUnit}

theorem shield_ok {i : ShieldIntent} {permit : BillboardPermit} {height : Nat}
    (h : (shield C i permit height).exec l = (.ok u, l')) :
    Carries (BillboardState.shield C permit) l l' := by
  simp only [shield, inversion, existsAndEq] at h
  obtain ⟨_, -, hm⟩ := h
  exact moved_ok hm

theorem post_ok (h : (post C inputs proof intent).exec l = (.ok u, l')) :
    Carries (applyPost C inputs proof) l l' := by
  simp only [post, inversion, existsAndEq] at h
  obtain ⟨_, -, _, -, hm⟩ := h
  exact moved_ok hm

theorem withdraw_ok {inputs : WithdrawalPublicInputs}
    (h : (withdraw C inputs proof intent).exec l = (.ok u, l')) :
    Carries (applyWithdrawal C inputs proof) l l' := by
  simp only [withdraw, inversion, existsAndEq] at h
  obtain ⟨_, -, hm⟩ := h
  exact moved_ok hm

end Calls

theorem action_transactional (C : Crypto) (call : BillboardCall) :
    (call.action C).Transactional := by
  cases call with
  | shield i permit height =>
    refine .bind .get fun _ => .bind (.check _) fun _ => .atomically _
  | post inputs proof feeIntent =>
    refine .bind .get fun _ => .bind (.check _) fun _ => .bind (.check _) fun _ => .atomically _
  | withdraw inputs proof i =>
    refine .bind .get fun _ => .bind (.check _) fun _ => .atomically _
  | decide decision =>
    rw [BillboardCall.action, onBillboard]
    refine .onPart (fun _ => rfl) (.bind .get fun _ => .bind (.check _) fun _ =>
      .bind (.check _) fun _ => .bind (.check _) fun _ => .bind (.check _) fun _ => .modified _)

section Steps

variable (hash : Injective C.shake256)
include hash

theorem Backed.action (h : l.Backed C) {call : BillboardCall} (hso : call.Sound C) {u : PUnit}
    (hexec : (call.action C).exec l = (.ok u, l')) : l'.Backed C ∧ call.MovesPermits C l l' := by
  obtain ⟨⟨live, hopens, hsum⟩, hpoo⟩ := h
  cases call with
  | shield i permit height =>
    obtain ⟨_, hb, hp'⟩ := shield_ok hexec
    obtain ⟨hf, haf⟩ := BillboardState.shield_ok hb
    have hp : l'.billboard.permits = l.billboard.permits.insert (permit.commitment C) := by
      rw [haf]
    have hpo : l'.billboard.poolBalance = l.billboard.poolBalance + permit.amount := by
      rw [haf]
    refine ⟨⟨⟨permit :: live, hp ▸ hopens.insert hf, ?_⟩, hp'⟩, hf, hp ▸ insert_perm hf⟩
    rw [hpo, map_cons, sum_cons, hsum, Nat.add_comm]
  | post inputs proof feeIntent =>
    obtain ⟨_, hb, hp'⟩ := post_ok hexec
    have hap := (BillboardState.applyPost_ok hb).1
    obtain ⟨input, hpr, rfl⟩ := VerifiedBillboardProof.Sound.post hash hso hap.bound
    obtain ⟨-, hl, -, -, hf, hp, hpo⟩ := hap
    have hfee := hpr.fee
    have hc := hpr.derived.feeCovered
    have ham := hpr.derived.amount
    rw [BillboardCall.MovesPermits]
    rw [hpr.permit] at hl hf hp ⊢
    rw [← hpr.successor] at hf hp ⊢
    obtain ⟨hr, hv⟩ := hopens.spend hash hl
    refine ⟨⟨⟨input.witness.successor :: live.erase input.witness.prior, hp ▸ hr.insert hf, ?_⟩,
      hp'⟩, hl, fun hold => ?_, hp ▸ insert_perm hf⟩
    · rw [map_cons, sum_cons]
      omega
    · refine hf (mem_erase.2 ⟨fun hsa => ?_, hold⟩)
      -- the successor counts one post more
      have hs := hpr.derived.sequence
      rw [commitment_injective hash hsa] at hs
      exact Nat.succ_ne_self _ hs.symm
  | withdraw inputs proof i =>
    obtain ⟨_, hb, hp'⟩ := withdraw_ok hexec
    have hap := (applyWithdrawal_ok hb).1
    obtain ⟨input, hpr, rfl⟩ := VerifiedBillboardProof.Sound.withdrawal hash hso hap.bound
    obtain ⟨-, hl, -, -, hp, hpo⟩ := hap
    have ham := hpr.amount
    rw [BillboardCall.MovesPermits]
    rw [hpr.permit] at hl hp ⊢
    obtain ⟨hr, hv⟩ := hopens.spend hash hl
    refine ⟨⟨⟨live.erase input.witness.permit, hp ▸ hr, by omega⟩, hp'⟩, hl, ?_⟩
    rw [hp]
    rfl
  | decide decision =>
    simp only [BillboardCall.action, onBillboard, exec_onPart_eq_ok] at hexec
    obtain ⟨_, hb, rfl⟩ := hexec
    rw [(decide_ok hb).2.2]
    exact ⟨⟨⟨live, hopens, hsum⟩, hpoo⟩, rfl⟩

theorem Backed.run (h : l.Backed C) {calls : List BillboardCall}
    (hs : ∀ call ∈ calls, call.Sound C) : (l.run C calls).Backed C := by
  induction calls generalizing l with
  | nil => exact h
  | cons call calls ih =>
    obtain ⟨hca, hc⟩ := forall_mem_cons.1 hs
    have hn : ((call.action C).exec l).2.Backed C := by
      rcases hexec : (call.action C).exec l with ⟨e | ⟨⟩, l'⟩
      · rwa [action_transactional C call l e l' hexec]
      · exact (h.action hash hca hexec).1
    exact ih hn hc

end Steps

end NativeBillboardLedger

open NativeBillboardLedger in
/-- **In every run from an empty pool the live permits hold exactly the balance of the billboard,
which is the cash ledger's shielded balance.** -/
theorem billboard_conserves_value {C : Crypto} (hash : Injective C.shake256)
    {cash : CashLedger} (hempty : cash.shielded.poolBalance = 0) (config : BillboardConfig)
    {calls : List BillboardCall} (hsound : ∀ call ∈ calls, call.Sound C) :
    ((new cash config).run C calls).Backed C ∧
      ∀ (call : BillboardCall) (result : Except BillboardError PUnit) (l' : NativeBillboardLedger),
        call.Sound C →
        (call.action C).exec ((new cash config).run C calls) = (result, l') →
          (∀ e, result = .error e → l' = (new cash config).run C calls) ∧
          (result = .ok ⟨⟩ → call.MovesPermits C ((new cash config).run C calls) l') := by
  have hs : (new cash config).Backed C := ⟨⟨[], List.Perm.refl _, rfl⟩, hempty.symm⟩
  have hb := hs.run hash hsound
  refine ⟨hb, fun call result l' hc hexec => ⟨fun e he => ?_, fun hok => ?_⟩⟩
  · subst he
    exact action_transactional C call _ e l' hexec
  · subst hok
    exact (hb.action hash hc hexec).2

namespace SmallBillboard

open NativeBillboardLedger OutputSpentEarly

/-- Posts cost five units, and a permit of 100 units waits ten blocks between two of them. -/
def config : BillboardConfig :=
  ⟨1, nativeAssetId .transparent SmallLedger.definition, 100, 10, 3, 5, 4, 5,
    1, by decide, by decide⟩

def permit : BillboardPermit :=
  ⟨1, nativeAssetId .transparent SmallLedger.definition, 21, 400, 0, 0, 0, [], 1, 22, by decide⟩

def deposit : ShieldIntent :=
  ⟨1, nativeAssetId .transparent SmallLedger.definition, 7, [cellId 1], cellId 3, 400, 1,
    [permit.commitment .transparent], 10, by decide, by decide, by decide,
    ⟨pairwise_singleton _ _, pairwise_singleton _ _⟩, first.reserveApart⟩

def funded : NativeBillboardLedger :=
  (new ledger config).run .transparent [.shield deposit permit 3]

def otherPermit : BillboardPermit := { permit with blinding := 23 }

def otherDeposit : ShieldIntent :=
  ⟨1, permit.assetId, 8, [cellId 4], cellId 5, 400, 1, [otherPermit.commitment .transparent], 10,
    by decide, by decide, by decide, ⟨pairwise_singleton _ _, pairwise_singleton _ _⟩,
    by decide +kernel⟩

/-- The first permit is withdrawn for `9`. -/
def withdrawal : WithdrawalRelationInput :=
  ⟨config, ⟨1, permit.assetId, 0, permit.nullifier .transparent 41, 9, 399, 1, 5, 1⟩,
    ⟨permit, 41⟩, []⟩

def withdrawalProof : VerifiedBillboardProof :=
  ⟨withdrawal.publicInputs.commitment .transparent, permit.commitment .transparent⟩

/-- For another recipient. -/
def payout : UnshieldIntent :=
  ⟨1, permit.assetId, 0, 8, 399, 1, [6],
    [⟨6, replicate keyBits 0, by decide +kernel, length_replicate⟩], [], 10, by decide, by decide,
    ⟨pairwise_singleton _ _, .nil⟩, rfl⟩

/-- Two deposits, and a withdrawal with a valid proof that the ledger refuses. -/
def calls : List BillboardCall :=
  [.shield deposit permit 3, .shield otherDeposit otherPermit 4,
    .withdraw withdrawal.publicInputs withdrawalProof payout]

theorem deposits_backed : let l := (new ledger config).run .transparent calls
    l.billboard.permits.length = 2 ∧ l.billboard.poolBalance = 800 ∧ l.Backed .transparent := by
  have hproof : withdrawalProof.Sound .transparent := .inr ⟨withdrawal, by decide +kernel⟩
  have hs : ∀ call ∈ calls, call.Sound .transparent := by simp [calls, BillboardCall.Sound, hproof]
  exact ⟨by decide +kernel, by decide +kernel,
    (billboard_conserves_value Crypto.transparent_injective rfl config hs).1⟩

end SmallBillboard

end ActiveChain
