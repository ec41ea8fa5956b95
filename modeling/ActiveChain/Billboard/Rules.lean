import ActiveChain.Billboard.Ledger

/-!
# Whose rules a billboard proof is checked by

The relation takes its configuration and its moderation decisions from the prover.  The ledger
compares the public inputs and the permit with its state, and neither of the two.
-/

namespace ActiveChain

section

variable (s : BillboardState) (inputs : PostPublicInputs) (input : PostRelationInput)

/-- A post meets the rules of the ledger: fee, wait, saved posts, next height and screening. -/
structure PostRulesMet : Prop where
  fee : inputs.fee = s.config.postFee
  waited : input.witness.prior.readyAt s.decisions inputs.height s.config.penaltySlots ≤
    inputs.height
  saved : s.config.saveUp input.witness.prior.amount input.witness.prior.savedPosts
      (input.witness.prior.readyAt s.decisions inputs.height s.config.penaltySlots) inputs.height =
    .ok (input.witness.successor.savedPosts + 1)
  next : ∃ cooldown,
    s.config.cooldown (max input.witness.successor.amount s.config.minimumDeposit) = .ok cooldown ∧
      input.witness.successor.nextAllowedHeight = inputs.height + cooldown
  screened : ∀ p ∈ input.witness.prior.pending, p.eligibleAt ≤ inputs.height →
    ∃ d, decisionFor s.decisions p.postId = some d ∧ decisionFor input.decisions p.postId = some d

/-- The relation was given the ledger's decision about every post of the permit that has matured. -/
def DecisionsAgree : Prop :=
  ∀ p ∈ input.witness.prior.pending, p.eligibleAt ≤ input.publicInputs.height →
    decisionFor s.decisions p.postId = decisionFor input.decisions p.postId

/-- The relation was given the terms of the ledger; the screening window is not among them. -/
structure PostTermsAgree : Prop where
  postFee : s.config.postFee = input.config.postFee
  minimumDeposit : s.config.minimumDeposit = input.config.minimumDeposit
  baseCooldown : s.config.baseCooldown = input.config.baseCooldown
  maximumSaveUp : s.config.maximumSaveUp = input.config.maximumSaveUp
  penaltySlots : s.config.penaltySlots = input.config.penaltySlots
  decisions : DecisionsAgree s input

/-- Other terms, with the same effect on this post. -/
structure PostTermsTie : Prop where
  postFee : s.config.postFee = input.config.postFee
  decisions : DecisionsAgree s input
  wait : input.witness.prior.readyAt s.decisions input.publicInputs.height s.config.penaltySlots ≤
    input.publicInputs.height
  saveUp : s.config.saveUp input.witness.prior.amount input.witness.prior.savedPosts
      (input.witness.prior.readyAt s.decisions input.publicInputs.height s.config.penaltySlots)
      input.publicInputs.height =
    input.config.saveUp input.witness.prior.amount input.witness.prior.savedPosts
      (input.witness.prior.readyAt input.decisions input.publicInputs.height
        input.config.penaltySlots)
      input.publicInputs.height
  cooldown :
    s.config.cooldown (max input.witness.successor.amount s.config.minimumDeposit) =
      input.config.cooldown (max input.witness.successor.amount input.config.minimumDeposit)

/-- A withdrawal meets the rules of the ledger: the posts of the permit have matured, and the
relation used the recorded decisions. -/
structure WithdrawalRulesMet (inputs : WithdrawalPublicInputs) (input : WithdrawalRelationInput) :
    Prop where
  settled : ∀ p ∈ input.witness.permit.pending, p.eligibleAt ≤ inputs.height
  screened : ∀ p ∈ input.witness.permit.pending,
    ∃ d, decisionFor s.decisions p.postId = some d ∧ decisionFor input.decisions p.postId = some d

end

section Rules

variable {C : Crypto} {s : BillboardState} {input : PostRelationInput}
  {proof : VerifiedBillboardProof}

theorem DecisionsAgree.flaggedCount_eq (h : DecisionsAgree s input) :
    flaggedCount s.decisions input.publicInputs.height input.witness.prior.pending =
      flaggedCount input.decisions input.publicInputs.height input.witness.prior.pending := by
  refine List.countP_congr fun p hp => ?_
  by_cases hm : p.eligibleAt ≤ input.publicInputs.height
  · rw [isFlagged, isFlagged, h p hp hm]
  · simp [isFlagged, hm]

theorem PostTermsAgree.tie (h : PostTermsAgree s input) (hp : PostProved C input proof) :
    PostTermsTie s input := by
  have hcool : ∀ amount, s.config.cooldown amount = input.config.cooldown amount := fun amount => by
    rw [BillboardConfig.cooldown, h.minimumDeposit, h.baseCooldown]
    rfl
  have hready : input.witness.prior.readyAt s.decisions input.publicInputs.height
      s.config.penaltySlots = input.witness.prior.readyAt input.decisions input.publicInputs.height
        input.config.penaltySlots := by
    rw [BillboardPermit.readyAt, h.decisions.flaggedCount_eq, h.penaltySlots]
    rfl
  refine ⟨h.postFee, h.decisions, hready ▸ hp.derived.ready, ?_, ?_⟩
  · rw [hready, BillboardConfig.saveUp, hcool, h.maximumSaveUp]
    rfl
  · rw [hcool, h.minimumDeposit]

theorem PostProved.rules_iff (h : PostProved C input proof) :
    PostRulesMet s input.publicInputs input ↔ PostTermsTie s input := by
  have hde := h.derived
  obtain ⟨cooldown', hc', hn'⟩ := hde.next
  constructor
  · rintro ⟨hfee, hw, hsa, ⟨cooldown, hco, hn⟩, hsc⟩
    refine ⟨hfee.symm.trans h.fee, fun p hp hm => ?_, hw, hsa.trans hde.saved.symm, ?_⟩
    · obtain ⟨d, hd, hd'⟩ := hsc p hp hm
      rw [hd, hd']
    · rw [hco, hc', Nat.add_left_cancel (hn.symm.trans hn')]
  · rintro ⟨hfee, hdec, hwa, hsa, hco⟩
    refine ⟨h.fee.trans hfee.symm, hwa, hsa.trans hde.saved, ⟨cooldown', hco.trans hc', hn'⟩,
      fun p hp hm => ?_⟩
    obtain ⟨d, hd, -⟩ := hde.decided p hp hm
    exact ⟨d, (hdec p hp hm).trans hd, hd⟩

theorem WithdrawalProved.rules_iff {input : WithdrawalRelationInput}
    (h : WithdrawalProved C input proof) :
    WithdrawalRulesMet s input.publicInputs input ↔ ∀ p ∈ input.witness.permit.pending,
      decisionFor s.decisions p.postId = decisionFor input.decisions p.postId := by
  constructor
  · rintro ⟨-, hs⟩ p hp
    obtain ⟨d, hd, hd'⟩ := hs p hp
    rw [hd, hd']
  · intro hde
    refine ⟨h.settled, fun p hp => ?_⟩
    obtain ⟨d, hd, -⟩ := h.decided p hp (h.settled p hp)
    exact ⟨d, (hde p hp).trans hd, hd⟩

end Rules

open BillboardState in
/-- **What the billboard accepts meets its rules if the prover's terms are those of the ledger.**
Under other terms a post meets them exactly if they come to the same for it; for a withdrawal only
the decisions count. -/
theorem billboard_rules_met {C : Crypto} (hash : Function.Injective C.shake256)
    (s : BillboardState) :
    (∀ (input : PostRelationInput) (proof : VerifiedBillboardProof) (inputs : PostPublicInputs)
      (s' : BillboardState), verifyPost C input = .ok proof →
        (applyPost C inputs proof).exec s = (.ok ⟨⟩, s') →
          (PostTermsAgree s input → PostRulesMet s inputs input) ∧
          (PostRulesMet s inputs input ↔ PostTermsTie s input)) ∧
    (∀ (input : WithdrawalRelationInput) (proof : VerifiedBillboardProof)
      (inputs : WithdrawalPublicInputs) (s' : BillboardState), verifyWithdrawal C input =
        .ok proof → (applyWithdrawal C inputs proof).exec s = (.ok ⟨⟩, s') →
          (WithdrawalRulesMet s inputs input ↔ ∀ p ∈ input.witness.permit.pending,
            decisionFor s.decisions p.postId = decisionFor input.decisions p.postId)) := by
  constructor
  · intro input proof inputs s' hv hexec
    have hp := verifyPost_ok hv
    obtain rfl := PostPublicInputs.eq_of_commitment hash hp.inputs (applyPost_ok hexec).1.bound
    exact ⟨fun hterms => hp.rules_iff.2 (hterms.tie hp), hp.rules_iff⟩
  · intro input proof inputs s' hv hexec
    have hp := verifyWithdrawal_ok hv
    obtain rfl := WithdrawalPublicInputs.commitment_injective hash
      (hp.inputs.symm.trans (applyWithdrawal_ok hexec).1.bound)
    exact hp.rules_iff

namespace OwnTerms

open BillboardState SmallBillboard

/-- A configuration that charges one unit and hardly waits. -/
def cheapConfig : BillboardConfig :=
  { SmallBillboard.config with postFee := 1, baseCooldown := 1, nonzero := by decide }

/-- The permit after a first post at height 3 that pays `fee`. -/
def successorPaying (fee next saved : Nat) (id : Digest384) : BillboardPermit :=
  { permit with
    amount := 400 - fee, nextAllowedHeight := next, savedPosts := saved, sequence := 1,
    pending := [⟨id, 7⟩], blinding := 23, pendingBounded := Nat.le_succ 1 }

/-- A relation input for a post with one byte of content. -/
def postBy (config : BillboardConfig) (s : BillboardState) (prior successor : BillboardPermit)
    (id : Digest384) (height : Nat) : PostRelationInput where
  config := config
  publicInputs := ⟨1, permit.assetId, s.anchor, prior.nullifier .transparent 41,
    successor.commitment .transparent, id, [72], height, config.postFee, false, 1⟩
  witness := ⟨prior, successor, 41⟩
  decisions := s.decisions

theorem postBy_decisions (config : BillboardConfig) (s : BillboardState)
    (prior successor : BillboardPermit) (id : Digest384) (height : Nat) :
    (postBy config s prior successor id height).decisions = s.decisions :=
  rfl

theorem postBy_terms {config : BillboardConfig} {s : BillboardState}
    {prior successor : BillboardPermit} {id : Digest384} {height : Nat}
    (h : s.config.postFee = config.postFee ∧ s.config.minimumDeposit = config.minimumDeposit ∧
      s.config.baseCooldown = config.baseCooldown ∧ s.config.maximumSaveUp = config.maximumSaveUp ∧
      s.config.penaltySlots = config.penaltySlots) :
    PostTermsAgree s (postBy config s prior successor id height) := by
  obtain ⟨hfee, hdeposit, hcooldown, hsaveUp, hslots⟩ := h
  exact ⟨hfee, hdeposit, hcooldown, hsaveUp, hslots, fun p _ _ => by rw [postBy_decisions]⟩

/-- The first post with the successor that the cheap configuration gives. -/
def cheap : PostRelationInput :=
  postBy cheapConfig funded.billboard permit (successorPaying 1 4 2 31) 31 3

def proofOf (input : PostRelationInput) : VerifiedBillboardProof :=
  ⟨input.publicInputs.digest .transparent, input.witness.prior.commitment .transparent⟩

/-- The ledger asks for five units per post.  It accepts a post that pays one, with a successor that
may post again one block later. -/
theorem cheap_post_accepted :
    verifyPost .transparent cheap = .ok (proofOf cheap) ∧
    (∃ s', (applyPost .transparent cheap.publicInputs (proofOf cheap)).exec funded.billboard =
      (.ok ⟨⟩, s')) ∧
    cheap.publicInputs.fee = 1 ∧ funded.billboard.config.postFee = 5 ∧
    ¬ PostRulesMet funded.billboard cheap.publicInputs cheap := by
  have hc : funded.billboard.config.postFee = 5 := by decide +kernel
  refine ⟨by decide +kernel, Except.exists_snd (by decide +kernel), rfl, hc, fun hr => ?_⟩
  have hfee : (1 : Nat) = 5 := hr.fee.trans hc
  cases hfee

/-- The billboard after the deposit of the permit. -/
def deposited : BillboardState := ((shield .transparent permit).exec (.new SmallBillboard.config)).2

/-- The first post, with the successor that the ledger's configuration gives. -/
def honest (id : Digest384) : PostRelationInput :=
  postBy SmallBillboard.config deposited permit (successorPaying 5 5 1 id) id 3

def posted (id : Digest384) : BillboardState :=
  ((applyPost .transparent (honest id).publicInputs (proofOf (honest id))).exec deposited).2

/-- The first post is flagged. -/
def flagged (id : Digest384) : BillboardState :=
  ((BillboardState.decide ⟨id, 1, true⟩).exec (posted id)).2

/-- The permit after the second post. -/
def second (next : Nat) (pending : List PendingScreen) (h : pending.length ≤ 2) : BillboardPermit :=
  { successorPaying 10 next 1 31 with sequence := 2, pending, blinding := 24, pendingBounded := h }

/-- The ledger's configuration but for the screening window. -/
def windowConfig : BillboardConfig :=
  { SmallBillboard.config with screeningWindow := 1, nonzero := by decide }

/-- The second post waits for the penalty of the first. -/
def penalized (id id' : Digest384) : PostRelationInput :=
  postBy windowConfig (flagged id) (successorPaying 5 5 1 id)
    (second 12 [⟨id', 11⟩] (Nat.le_succ 1)) id' 10

theorem penalized_meets_rules :
    Function.Injective Crypto.transparent.shake256 ∧
    verifyPost .transparent (penalized 31 32) = .ok (proofOf (penalized 31 32)) ∧
    (∃ s', (applyPost .transparent (penalized 31 32).publicInputs
      (proofOf (penalized 31 32))).exec (flagged 31) = (.ok ⟨⟩, s')) ∧
    PostRulesMet (flagged 31) (penalized 31 32).publicInputs (penalized 31 32) := by
  obtain ⟨s', hexec⟩ : ∃ s', (applyPost .transparent (penalized 31 32).publicInputs
      (proofOf (penalized 31 32))).exec (flagged 31) = (.ok ⟨⟩, s') :=
    Except.exists_snd (by decide +kernel)
  have hv : verifyPost .transparent (penalized 31 32) = .ok (proofOf (penalized 31 32)) := by
    decide +kernel
  have hterms : PostTermsAgree (flagged 31) (penalized 31 32) := postBy_terms (by decide +kernel)
  exact ⟨Crypto.transparent_injective, hv, ⟨s', hexec⟩,
    ((billboard_rules_met Crypto.transparent_injective (flagged 31)).1 _ _ _ s' hv hexec).1 hterms⟩

end OwnTerms

end ActiveChain
