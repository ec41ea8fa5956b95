import ActiveChain.Billboard.Rules

/-!
# Runs of the billboard and of a permit (`private-billboard`)

A billboard lives by deposits, posts, withdrawals and decisions; a poster chooses the id of a post.
A permit lives by the posts of its holder.
-/

namespace ActiveChain

open List NativeBillboardLedger

namespace BillboardState

/-- The states of a billboard whose posts satisfy `Q` when they are made, and whose withdrawals use
the recorded decisions. -/
inductive Reached (C : Crypto) (Q : BillboardState → PostRelationInput → Prop) :
    BillboardState → Prop
  | new (config : BillboardConfig) : Reached C Q (.new config)
  | shield {s s' : BillboardState} {permit : BillboardPermit} (h : Reached C Q s)
      (hexec : (shield C permit).exec s = (.ok ⟨⟩, s')) : Reached C Q s'
  | post {s s' : BillboardState} {input : PostRelationInput} {inputs : PostPublicInputs}
      {proof : VerifiedBillboardProof} (h : Reached C Q s) (hv : verifyPost C input = .ok proof)
      (hq : Q s input) (hexec : (applyPost C inputs proof).exec s = (.ok ⟨⟩, s')) : Reached C Q s'
  | withdraw {s s' : BillboardState} {input : WithdrawalRelationInput}
      {inputs : WithdrawalPublicInputs} {proof : VerifiedBillboardProof} (h : Reached C Q s)
      (hv : verifyWithdrawal C input = .ok proof)
      (hd : ∀ p ∈ input.witness.permit.pending,
        decisionFor s.decisions p.postId = decisionFor input.decisions p.postId)
      (hexec : (applyWithdrawal C inputs proof).exec s = (.ok ⟨⟩, s')) : Reached C Q s'
  | decide {s s' : BillboardState} {decision : ModerationDecision} (h : Reached C Q s)
      (hexec : (BillboardState.decide decision).exec s = (.ok ⟨⟩, s')) : Reached C Q s'

theorem Reached.applyPost {C : Crypto} {Q : BillboardState → PostRelationInput → Prop}
    {s : BillboardState} {input : PostRelationInput} {proof : VerifiedBillboardProof}
    (h : Reached C Q s) (hv : verifyPost C input = .ok proof) (hq : Q s input)
    (hok : ((applyPost C input.publicInputs proof).exec s).1 = .ok ⟨⟩) :
    Reached C Q ((BillboardState.applyPost C input.publicInputs proof).exec s).2 :=
  .post h hv hq (Prod.fst_eq_iff.1 hok)

/-- A post by the terms of the ledger whose id is made from its nullifier. -/
structure Derived (name : Digest384 → Digest384) (s : BillboardState) (input : PostRelationInput) :
    Prop where
  terms : PostTermsAgree s input
  id : input.publicInputs.dummy = false →
    input.publicInputs.postId = name input.publicInputs.nullifier

/-- The post has a decision. -/
def Decided (s : BillboardState) (id : Digest384) : Prop := ∃ d ∈ s.decisions, d.postId = id

/-- A live permit waits for the post to be screened. -/
def Awaited (C : Crypto) (s : BillboardState) (id : Digest384) : Prop :=
  ∃ permit : BillboardPermit, permit.commitment C ∈ s.permits ∧ ∃ p ∈ permit.pending, p.postId = id

/-- No two posts have one id, every decision is about a post of its own, and a post with content is
decided or awaits its decision. -/
structure Apart (C : Crypto) (name : Digest384 → Digest384) (s : BillboardState) : Prop where
  posts : (s.posts.map PublicPost.id).Nodup
  named : ∀ post ∈ s.posts, ∃ nullifier ∈ s.spentNullifiers, post.id = name nullifier
  decisions : (s.decisions.map ModerationDecision.postId).Nodup
  decided : s.decisions.map ModerationDecision.postId ⊆ s.posts.map PublicPost.id
  room : s.posts.length ≤ maxPosts
  waiting : ∀ post ∈ s.posts, post.content ≠ [] → s.Decided post.id ∨ s.Awaited C post.id

theorem nodup_snoc {ids : List Digest384} {id : Digest384} (h : ids.Nodup) (hid : id ∉ ids) :
    (ids ++ [id]).Nodup :=
  concat_eq_append ▸ h.concat hid

variable {C : Crypto} {name : Digest384 → Digest384} {s s' : BillboardState}
  {proof : VerifiedBillboardProof}

/-- The posts that the permit waits for, have matured and are flagged. -/
def flaggedPosts (s : BillboardState) (pending : List PendingScreen) (height : Nat) :
    List PublicPost :=
  s.posts.filter fun post =>
    (pending.filter (isFlagged s.decisions height)).any (·.postId == post.id)

theorem Apart.flaggedPosts_le (h : s.Apart C name) (pending : List PendingScreen) (height : Nat) :
    (s.flaggedPosts pending height).length ≤ flaggedCount s.decisions height pending := by
  have hnodup : ((s.flaggedPosts pending height).map PublicPost.id).Nodup :=
    h.posts.sublist (filter_sublist.map _)
  have hsub : (s.flaggedPosts pending height).map PublicPost.id ⊆
      (pending.filter (isFlagged s.decisions height)).map PendingScreen.postId := by
    intro id hid
    obtain ⟨post, hpost, rfl⟩ := mem_map.1 hid
    obtain ⟨p, hp, heq⟩ := any_eq_true.1 (mem_filter.1 hpost).2
    exact mem_map.2 ⟨p, hp, beq_iff_eq.1 heq⟩
  have hle := (subperm_of_subset hnodup hsub).length_le
  rwa [length_map, length_map, ← countP_eq_length_filter] at hle

theorem decided_of_decisionFor {id : Digest384} {d : ModerationDecision}
    (h : decisionFor s.decisions id = some d) : s.Decided id :=
  ⟨d, mem_of_find?_eq_some h, by simpa using find?_some h⟩

section Spending

variable (hash : Function.Injective C.shake256)
include hash

/-- A post awaits its decision as long as only its permit can be spent for a successor that still
waits for it. -/
theorem Awaited.spend (permit : BillboardPermit) {id : Digest384} (h : s.Awaited C id)
    (hkeep : ∀ c ∈ s.permits, c ≠ permit.commitment C → c ∈ s'.permits)
    (hspent : ∀ p ∈ permit.pending, p.postId = id → s'.Decided id ∨ s'.Awaited C id) :
    s'.Decided id ∨ s'.Awaited C id := by
  obtain ⟨other, hlive, p, hp, hid⟩ := h
  by_cases heq : other.commitment C = permit.commitment C
  · obtain rfl := BillboardPermit.commitment_injective hash heq
    exact hspent p hp hid
  · exact .inr ⟨other, hkeep _ hlive heq, p, hp, hid⟩

section Post

variable {input : PostRelationInput} (h : s.Apart C name) (hp : PostProved C input proof)
  (hq : Derived name s input) (ha : PostApplied C s s' input.publicInputs proof)
  (hd : s'.decisions = s.decisions)
include hp ha

omit hash in
theorem mem_permits_post {c : Digest384} : c ∈ s'.permits ↔
    c = input.witness.successor.commitment C ∨
      c ≠ input.witness.prior.commitment C ∧ c ∈ s.permits := by
  rw [ha.permits, SortedSet.mem_insert ha.fresh, SortedSet.mem_erase, hp.permit, hp.successor]

include h hq hd

/-- What was posted before stays decided or awaited. -/
theorem Apart.waiting_post : ∀ post ∈ s.posts, post.content ≠ [] →
    s'.Decided post.id ∨ s'.Awaited C post.id := by
  intro post hpost hc
  rcases h.waiting post hpost hc with hdec | hwait
  · exact .inl (by rwa [Decided, hd])
  refine hwait.spend hash _ (fun c hlive hne => (mem_permits_post hp ha).2 (.inr ⟨hne, hlive⟩))
    fun p hmem hid => ?_
  by_cases hm : p.eligibleAt ≤ input.publicInputs.height
  · obtain ⟨d, hdec, -⟩ := hp.derived.decided p hmem hm
    have hown := (hq.terms.decisions p hmem hm).trans hdec
    rw [hid, ← hd] at hown
    exact .inl (decided_of_decisionFor hown)
  · refine .inr ⟨_, (mem_permits_post hp ha).2 (.inl rfl), p, ?_, hid⟩
    rw [hp.derived.pending]
    exact mem_append_left _ (mem_filter.2 ⟨hmem, by simpa using hm⟩)

theorem Apart.post (hname : Function.Injective name) (hpub : Published s s' input.publicInputs) :
    s'.Apart C name := by
  have hold := h.waiting_post hash hp hq ha hd
  have hspent : ∀ n, n ∈ s'.spentNullifiers ↔ n = input.publicInputs.nullifier ∨
      n ∈ s.spentNullifiers := fun n => by rw [ha.spent, SortedSet.mem_insert ha.unspent]
  have hnamed : ∀ post ∈ s.posts, ∃ n ∈ s'.spentNullifiers, post.id = name n := fun post hpost =>
    let ⟨n, hn, hid⟩ := h.named post hpost
    ⟨n, (hspent n).2 (.inr hn), hid⟩
  rcases hpub with hposts | ⟨hdummy, hroom, hposts⟩
  · exact ⟨hposts ▸ h.posts, hposts ▸ hnamed, hd ▸ h.decisions, hd ▸ hposts ▸ h.decided,
      hposts ▸ h.room, hposts ▸ hold⟩
  have hmap : s'.posts.map PublicPost.id = s.posts.map PublicPost.id ++
    [input.publicInputs.postId] := by
    rw [hposts, map_append]
    rfl
  have hfresh : input.publicInputs.postId ∉ s.posts.map PublicPost.id := by
    intro hmem
    obtain ⟨post, hpost, hid⟩ := mem_map.1 hmem
    obtain ⟨n, hn, hpn⟩ := h.named post hpost
    have heq : name n = name input.publicInputs.nullifier := by rw [← hpn, hid, hq.id hdummy]
    exact ha.unspent (hname heq ▸ hn)
  refine ⟨?_, ?_, hd ▸ h.decisions, ?_, ?_, ?_⟩
  · rw [hmap]
    exact nodup_snoc h.posts hfresh
  · rw [hposts]
    refine forall_mem_append.2 ⟨hnamed, forall_mem_singleton.2 ?_⟩
    exact ⟨_, (hspent _).2 (.inl rfl), hq.id hdummy⟩
  · rw [hmap, hd]
    exact subset_append_of_subset_left _ h.decided
  · rw [hposts, length_append]
    exact hroom
  · rw [hposts]
    refine forall_mem_append.2 ⟨hold, forall_mem_singleton.2 fun hc => .inr ?_⟩
    have hcontent : input.publicInputs.screenedContent ≠ [] := by
      rw [PostPublicInputs.screenedContent, hdummy]
      exact hc
    have hpending := hp.derived.pending
    rw [if_neg hcontent] at hpending
    exact ⟨_, (mem_permits_post hp ha).2 (.inl rfl), _,
      hpending ▸ mem_append_right _ (mem_singleton_self _), rfl⟩

end Post

theorem Reached.apart (hname : Function.Injective name) (h : Reached C (Derived name) s) :
    s.Apart C name := by
  induction h with
  | new config => exact ⟨nodup_nil, nofun, nodup_nil, Subset.refl _, Nat.zero_le _, nofun⟩
  | shield _ hexec ih =>
    obtain ⟨hf, heq⟩ := shield_ok hexec
    rw [heq]
    refine ⟨ih.posts, ih.named, ih.decisions, ih.decided, ih.room, fun post hpost hc => ?_⟩
    refine (ih.waiting post hpost hc).imp id fun ⟨permit, hlive, hp⟩ => ?_
    exact ⟨permit, (SortedSet.mem_insert hf).2 (.inr hlive), hp⟩
  | post _ hv hq hexec ih =>
    obtain ⟨ha, hpub, hd⟩ := applyPost_ok hexec
    have hp := verifyPost_ok hv
    obtain rfl := PostPublicInputs.eq_of_commitment hash hp.inputs ha.bound
    exact ih.post hash hp hq ha hd hname hpub
  | @withdraw s s' input inputs proof _ hv hagree hexec ih =>
    obtain ⟨ha, hposts, hd⟩ := applyWithdrawal_ok hexec
    have hp := verifyWithdrawal_ok hv
    have hspent : ∀ n ∈ s.spentNullifiers, n ∈ s'.spentNullifiers := fun n hn => by
      rw [ha.spent, SortedSet.mem_insert ha.unspent]
      exact .inr hn
    refine ⟨hposts ▸ ih.posts, ?_, hd ▸ ih.decisions, hd ▸ hposts ▸ ih.decided,
      hposts ▸ ih.room, ?_⟩
    · rw [hposts]
      exact fun post hpost => (ih.named post hpost).imp fun n hn => ⟨hspent n hn.1, hn.2⟩
    · rw [hposts]
      intro post hpost hc
      rcases ih.waiting post hpost hc with hdec | hwait
      · exact .inl (by rwa [Decided, hd])
      refine hwait.spend hash input.witness.permit (fun c hlive hne => ?_)
        fun p hmem hid => ?_
      · rw [ha.permits, hp.permit]
        exact SortedSet.mem_erase.2 ⟨hne, hlive⟩
      · -- a withdrawal needs a decision about every pending post
        obtain ⟨d, hdec, -⟩ := hp.decided p hmem (hp.settled p hmem)
        have hown := (hagree p hmem).trans hdec
        rw [hid, ← hd] at hown
        exact .inl (decided_of_decisionFor hown)
  | decide _ hexec ih =>
    obtain ⟨hp, hn, rfl⟩ := decide_ok hexec
    refine ⟨ih.posts, ih.named, ?_, ?_, ih.room, fun post hpost hc => ?_⟩
    · rw [map_append]
      exact nodup_snoc ih.decisions hn
    · rw [map_append]
      exact append_subset.2 ⟨ih.decided, by simpa using hp⟩
    · exact (ih.waiting post hpost hc).imp (fun ⟨d, hd, hid⟩ => ⟨d, mem_append_left _ hd, hid⟩) id

end Spending

/-- There is room for a decision about every post that has none. -/
theorem Apart.room_for (h : s.Apart C name) {post : PublicPost} (hp : post ∈ s.posts)
    (hn : post.id ∉ s.decisions.map ModerationDecision.postId) :
    s.decisions.length < maxDecisions := by
  have hpost : [post.id] ⊆ s.posts.map PublicPost.id := by simpa using ⟨post, hp, rfl⟩
  have hle := (subperm_of_subset (nodup_snoc h.decisions hn)
    (append_subset.2 ⟨h.decided, hpost⟩)).length_le
  simp only [length_append, length_map, length_singleton] at hle
  exact hle.trans h.room

end BillboardState

namespace OwnTerms

open BillboardState SmallBillboard

theorem deposited_reached {Q : BillboardState → PostRelationInput → Prop} :
    Reached .transparent Q deposited :=
  .shield (.new _) (Prod.fst_eq_iff.1 (by decide +kernel))

/-- A second post with the id of the first. -/
def again : PostRelationInput :=
  postBy SmallBillboard.config (posted 31) (successorPaying 5 5 1 31)
    (second 7 [⟨31, 7⟩, ⟨31, 9⟩] Nat.le.refl) 31 5

def firstId : Digest384 := permit.nullifier .transparent 41

def secondId : Digest384 := (successorPaying 5 5 1 firstId).nullifier .transparent 41

theorem flagged_reached : Reached .transparent (Derived id) (flagged firstId) := by
  have hv : verifyPost .transparent (honest firstId) = .ok (proofOf (honest firstId)) := by
    decide +kernel
  have hterms : PostTermsAgree deposited (honest firstId) := postBy_terms (by decide +kernel)
  have hfirst : Reached .transparent (Derived id) (posted firstId) :=
    deposited_reached.applyPost hv ⟨hterms, fun _ => rfl⟩ (by decide +kernel)
  exact hfirst.decide (Prod.fst_eq_iff.1 (by decide +kernel))

def late : PostRelationInput := penalized firstId secondId

end OwnTerms

/-! ## The rate of a permit -/

/-- The holder of a permit posts at these heights, one after the other. -/
inductive PostsAt (config : BillboardConfig) : BillboardPermit → List Nat → Prop
  | done (permit : BillboardPermit) : PostsAt config permit []
  | post {permit successor : BillboardPermit} {content heights : List Nat} {height : Nat}
      {postId blinding : Digest384} {decisions : List ModerationDecision}
      (h : derivePostSuccessor config permit content postId height blinding decisions =
        .ok successor)
      (rest : PostsAt config successor heights) : PostsAt config permit (height :: heights)

section Rate

variable {config : BillboardConfig} {permit successor : BillboardPermit} {heights : List Nat}
  {amount amount' height c c' : Nat} {decisions : List ModerationDecision}

theorem BillboardConfig.cooldown_eq_ok (h : config.cooldown amount = .ok c) :
    config.minimumDeposit ≤ amount ∧
      c = max (config.baseCooldown * config.minimumDeposit / amount) 1 := by
  simp only [cooldown, Except.inversion, checkedMul_eq_some, fitsIn_eq_some, not_lt] at h
  obtain ⟨hm, _, ⟨rfl, -⟩, rfl, -⟩ := h
  exact ⟨hm, rfl⟩

/-- A smaller deposit waits longer. -/
theorem BillboardConfig.cooldown_mono (h : config.cooldown amount = .ok c)
    (h' : config.cooldown amount' = .ok c') (hle : amount' ≤ amount) : c ≤ c' := by
  obtain ⟨-, rfl⟩ := cooldown_eq_ok h
  obtain ⟨hm, rfl⟩ := cooldown_eq_ok h'
  have hpos : 0 < amount' := (Nat.pos_of_ne_zero config.nonzero.1).trans_le hm
  exact max_le_max (Nat.div_le_div_left hle hpos) le_rfl

theorem PostsAt.spaced (h : PostsAt config permit heights)
    (hc : ∀ a ≤ permit.amount, ∀ c', config.cooldown a = .ok c' → c ≤ c') :
    heights.Pairwise (fun x y => x + c ≤ y) ∧ ∀ x ∈ heights, permit.nextAllowedHeight ≤ x := by
  induction h with
  | done => exact ⟨.nil, by simp⟩
  | @post permit successor _ heights height _ _ _ h _ ih =>
    have hs := derivePostSuccessor_eq_ok.1 h
    obtain ⟨-, _, hcool⟩ := config.saveUp_ok hs.saved
    obtain ⟨c', hc', hnext⟩ := hs.next
    have hle : successor.amount ≤ permit.amount := hs.amount ▸ Nat.sub_le _ _
    have hm : max successor.amount config.minimumDeposit ≤ permit.amount :=
      max_le hle (BillboardConfig.cooldown_eq_ok hcool).1
    obtain ⟨hp, hlow⟩ := ih fun a ha => hc a (ha.trans hle)
    have hready : permit.nextAllowedHeight ≤ height := (Nat.le_add_right _ _).trans hs.ready
    have hfirst : ∀ x ∈ heights, height + c ≤ x := fun x hx =>
      (Nat.add_le_add_left (hc _ hm c' hc') height).trans (hnext ▸ hlow x hx)
    refine ⟨pairwise_cons.2 ⟨hfirst, hp⟩, forall_mem_cons.2 ⟨hready, fun x hx => ?_⟩⟩
    exact hready.trans ((Nat.le_add_right _ c).trans (hfirst x hx))

theorem length_le_of_spaced {l : List Nat} {first last : Nat} (hpos : 0 < c)
    (h : l.Pairwise fun x y => x + c ≤ y) (hin : ∀ x ∈ l, first ≤ x ∧ x ≤ last) :
    l.length ≤ (last - first) / c + 1 := by
  induction l generalizing first with
  | nil => simp
  | cons x l ih =>
    obtain ⟨hx, hl⟩ := pairwise_cons.1 h
    obtain ⟨⟨hf, -⟩, hin⟩ := forall_mem_cons.1 hin
    have hr := ih hl fun z hz => ⟨hx z hz, (hin z hz).2⟩
    rcases l with _ | ⟨y, l⟩
    · simp
    · have hy := hx y mem_cons_self
      have hla := (hin y mem_cons_self).2
      rw [Nat.div_eq_sub_div hpos (by omega)]
      exact Nat.succ_le_succ (hr.trans (Nat.succ_le_succ (Nat.div_le_div_right (by omega))))

/-- The permit has waited, pays for a post, and no counter overflows. -/
structure BillboardPermit.CanPost (permit : BillboardPermit) (config : BillboardConfig)
    (height : Nat) : Prop where
  waited : permit.nextAllowedHeight ≤ height
  screened : permit.pending = []
  fee : config.postFee ≤ permit.amount
  sequence : permit.sequence + 1 < 2 ^ 64
  saveUp : ∃ stock, config.saveUp permit.amount permit.savedPosts permit.nextAllowedHeight height =
    .ok stock
  next : ∃ c, config.cooldown (max (permit.amount - config.postFee) config.minimumDeposit) = .ok c ∧
    height + c < 2 ^ 64

theorem BillboardPermit.CanPost.posts (h : permit.CanPost config height) :
    PostsAt config permit [height] := by
  obtain ⟨hw, hp, hfee, hseq, ⟨stock, hst⟩, c, hc, hfits⟩ := h
  have hready : permit.readyAt [] height config.penaltySlots = permit.nextAllowedHeight := by
    simp [readyAt, flaggedCount, hp]
  have hpost : derivePostSuccessor config permit [] 0 height 0 [] = .ok { permit with
      amount := permit.amount - config.postFee, savedPosts := stock - 1,
      sequence := permit.sequence + 1, nextAllowedHeight := height + c, blinding := 0 } := by
    refine derivePostSuccessor_eq_ok.2 ⟨by simp [AllDecided, hp], hready ▸ hw, ?_, hfee, rfl, rfl,
      hseq, ⟨c, hc, rfl⟩, hfits, by simp [retained, hp], .inl rfl, ⟨rfl, rfl, rfl, rfl⟩, rfl⟩
    rw [hready, hst, Nat.sub_add_cancel (Nat.one_le_iff_ne_zero.2 (config.saveUp_ok hst).1)]
  exact .post hpost (.done _)

end Rate

/-- **A permit that has waited makes one post at a height and no second one, whatever it has saved
up; and over any heights it makes at most one post for each cooldown and as many as it may save
up.** -/
theorem permit_posting_rate {config : BillboardConfig} {permit : BillboardPermit} {c : Nat}
    (hc : config.cooldown permit.amount = .ok c) :
    (∀ k height, permit.CanPost config height →
      (PostsAt config permit (replicate k height) ↔ k ≤ 1)) ∧
    ∀ heights, PostsAt config permit heights → ∀ first last,
      (heights.filter fun h => first ≤ h ∧ h ≤ last).length ≤
        (last - first) / c + config.maximumSaveUp := by
  have hlow : ∀ a ≤ permit.amount, ∀ c', config.cooldown a = .ok c' → c ≤ c' :=
    fun a ha c' hc' => BillboardConfig.cooldown_mono hc hc' ha
  have hpos : 0 < c := by
    rw [(BillboardConfig.cooldown_eq_ok hc).2]
    exact lt_max_of_lt_right Nat.one_pos
  refine ⟨fun k height hcan => ?_, fun heights h first last => ?_⟩
  · rcases k with _ | _ | k
    · exact iff_of_true (.done _) (Nat.zero_le 1)
    · exact iff_of_true hcan.posts le_rfl
    · refine iff_of_false (fun h => ?_) (by omega)
      have := (pairwise_cons.1 (h.spaced hlow).1).1 height mem_cons_self
      omega
  · have hs := (h.spaced hlow).1.sublist (filter_sublist (p := fun h => first ≤ h ∧ h ≤ last))
    have hin : ∀ x ∈ heights.filter fun h => first ≤ h ∧ h ≤ last, first ≤ x ∧ x ≤ last := by
      simp
    have hle := length_le_of_spaced hpos hs hin
    have hm := config.nonzero.2.2.1
    omega

namespace SmallBillboard

theorem small_permit_rate : config.cooldown permit.amount = .ok 2 ∧ permit.CanPost config 30 ∧
    ∀ k, PostsAt config permit (replicate k 30) ↔ k ≤ 1 := by
  have hcan : permit.CanPost config 30 :=
    ⟨by decide, rfl, by decide, by decide, ⟨3, by decide⟩, 2, by decide, by decide⟩
  have hc : config.cooldown permit.amount = .ok 2 := by decide
  exact ⟨hc, hcan, fun k => (permit_posting_rate hc).1 k 30 hcan⟩

/-- The permit has waited for fifteen cooldowns and may save up three posts.  It makes one. -/
theorem second_post_waits : config.maximumSaveUp = 3 ∧ ∃ successor,
    derivePostSuccessor config permit [] 31 30 23 [] = .ok successor ∧ successor.savedPosts = 2 ∧
      derivePostSuccessor config successor [] 32 30 24 [] = .error .cooldown :=
  ⟨rfl, { permit with
    amount := 395, savedPosts := 2, sequence := 1, nextAllowedHeight := 32, blinding := 23 },
    by decide +kernel, rfl, by decide +kernel⟩

end SmallBillboard

end ActiveChain
