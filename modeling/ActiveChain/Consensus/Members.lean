import ActiveChain.Lib.QuorumVoting
import ActiveChain.Consensus.Anchor
import ActiveChain.Consensus.Transcripts
import Mathlib.Data.List.Nodup

/-!
# Members, stakes and keys

A verified certificate is a quorum of the manifest behind the validator-set root, each member of
which signed under its own key.

* `quorumOf_of_verified` — what a verified vote list amounts to.
-/

namespace ActiveChain

open QuorumVoting Function List ValidatorGenesisEntry ConsensusState

/-! ## Manifests -/

section Manifest

variable {g : ValidatorGenesis} {set : ValidatorSet}

theorem ValidatorGenesis.entry_unique {e entry' : ValidatorGenesisEntry}
    (h : e ∈ g.entries) (h' : entry' ∈ g.entries) (heq : e.validator = entry'.validator) :
    e = entry' := by
  have hn : (g.entries.map validator).Nodup := g.ordered.imp fun hlt => hlt.ne
  exact inj_on_of_nodup_map hn h h' heq

theorem ValidatorGenesis.validatorSet_validators (h : g.validatorSet = .ok set) :
    set.validators = g.entries.map fun e => ⟨e.validator, e.stake⟩ := by
  unfold validatorSet ValidatorSet.new at h
  split at h
  · split at h
    · split at h
      · cases h
      · split at h
        · cases h
          rfl
        · cases h
    · cases h
  · cases h

variable {v : PrincipalId}

theorem ValidatorGenesis.stakeOf_eq_some (h : g.validatorSet = .ok set) {stake : Nat} :
    set.stakeOf v = some stake ↔
      ∃ entry ∈ g.entries, entry.validator = v ∧ entry.stake = stake := by
  unfold ValidatorSet.stakeOf
  rw [validatorSet_validators h, find?_map, Option.map_map, Option.map_eq_some_iff]
  constructor
  · rintro ⟨entry, hf, rfl⟩
    have hv := find?_some hf
    simp only [comp_apply, decide_eq_true_eq] at hv
    exact ⟨entry, mem_of_find?_eq_some hf, hv, rfl⟩
  · rintro ⟨entry, hmem, rfl, rfl⟩
    cases hf : g.entries.find? ((fun w : ValidatorWeight => decide (w.validator =
        entry.validator)) ∘ fun e => ⟨e.validator, e.stake⟩) with
    | none =>
      have := find?_eq_none.1 hf entry hmem
      simp at this
    | some entry' =>
      have hv := find?_some hf
      simp only [comp_apply, decide_eq_true_eq] at hv
      rw [entry_unique (mem_of_find?_eq_some hf) hmem hv]
      exact ⟨entry, rfl, rfl⟩

theorem manifestKeys_get {key : PublicKey}
    (h : (ValidatorEngine.manifestKeys g).get? v = some key) :
    ∃ e ∈ g.entries, e.validator = v ∧ e.publicKey = key := by
  have hf : ∀ (es : List ValidatorGenesisEntry) (m : PublicKeys),
      (es.foldl (fun m e => m.insert e.validator e.publicKey) m).get? v =
        some key → m.get? v = some key ∨
        ∃ e ∈ es, e.validator = v ∧ e.publicKey = key := by
    intro es
    induction es with
    | nil => exact fun m h => .inl h
    | cons e rest ih =>
      intro m h
      rcases ih _ h with h | ⟨entry', hmem, heq⟩
      · rw [SortedMap.get?_insert] at h
        split at h
        · rename_i heq
          exact .inr ⟨e, mem_cons_self, heq.symm, Option.some.inj h⟩
        · exact .inl h
      · exact .inr ⟨entry', mem_cons_of_mem e hmem, heq⟩
  exact (hf g.entries SortedMap.empty h).resolve_left (by simp)

end Manifest

open ValidatorGenesis

/-! ## Stake sums -/

section Stakes

variable {g : ValidatorGenesis} {set : ValidatorSet}

variable {vs : List PrincipalId} {total : Nat}

theorem stakeFrom_eq {acc : Nat} (h : stakeFrom set acc vs = some total) :
    total = acc + (vs.map fun v => (set.stakeOf v).getD 0).sum ∧
      ∀ v ∈ vs, ∃ stake, set.stakeOf v = some stake := by
  induction vs generalizing acc with
  | nil =>
    simp only [stakeFrom, foldlM_nil, pure, Option.some.injEq] at h
    simp [h]
  | cons v rest ih =>
    obtain ⟨next, hn, hr⟩ := Option.bind_eq_some_iff.1 h
    obtain ⟨stake, hs, hadd⟩ := Option.bind_eq_some_iff.1 hn
    obtain ⟨hsum, hm⟩ := ih hr
    have hn := eq_add_of_checkedAdd hadd
    refine ⟨?_, forall_mem_cons.2 ⟨⟨stake, hs⟩, hm⟩⟩
    simp only [map_cons, sum_cons, hs, Option.getD_some]
    omega

theorem sumStake_eq {vs : List ValidatorWeight} (h : sumStake vs = some total) :
    total = (vs.map ValidatorWeight.stake).sum := by
  have hf : ∀ (vs : List ValidatorWeight) (acc total : Nat),
      vs.foldlM (fun total v => checkedAdd 128 total v.stake) acc = some total →
      total = acc + (vs.map ValidatorWeight.stake).sum := by
    intro vs
    induction vs with
    | nil =>
      intro acc total h
      simp only [foldlM_nil, pure, Option.some.injEq] at h
      simp [h]
    | cons v rest ih =>
      intro acc total h
      obtain ⟨next, hn, hr⟩ := Option.bind_eq_some_iff.1 h
      have hsum := ih next total hr
      have hn := eq_add_of_checkedAdd hn
      simp only [map_cons, sum_cons]
      omega
  simpa using hf vs 0 total h

theorem totalStake_eq (h : g.validatorSet = .ok set) :
    set.totalStake = weightOf stake g.entries (fun _ => True) := by
  rw [sumStake_eq set.total, validatorSet_validators h, weightOf, map_map]
  simp [comp_def]

/-- **The stake of distinct signers is the weight of the members that signed.** -/
theorem signerStake_eq (h : g.validatorSet = .ok set) (ho : vs.Pairwise (· < ·))
    (hsta : stakeFrom set 0 vs = some total) :
    total = weightOf stake g.entries (fun e => e.validator ∈ vs) := by
  obtain ⟨hsum, hm⟩ := stakeFrom_eq hsta
  -- the signers are the identifiers of the entries that signed, up to order
  have hp : List.Perm vs ((g.entries.filter fun e => e.validator ∈ vs).map validator) := by
    refine (perm_ext_iff_of_nodup (ho.imp fun hlt => hlt.ne) ?_).2 fun v => ?_
    · have hn : (g.entries.map validator).Nodup := g.ordered.imp fun hlt => hlt.ne
      exact hn.sublist (filter_sublist.map _)
    · simp only [mem_map, mem_filter, decide_eq_true_eq]
      constructor
      · intro hv
        obtain ⟨stake, hs⟩ := hm v hv
        obtain ⟨e, hmem, rfl, -⟩ := (stakeOf_eq_some h).1 hs
        exact ⟨e, ⟨hmem, hv⟩, rfl⟩
      · rintro ⟨e, ⟨-, hv⟩, rfl⟩
        exact hv
  have hst : ∀ e ∈ g.entries.filter fun e => e.validator ∈ vs,
      (set.stakeOf e.validator).getD 0 = e.stake := by
    intro e he
    rw [(stakeOf_eq_some h).2 ⟨e, (mem_filter.1 he).1, rfl, rfl⟩]
    rfl
  rw [hsum, Nat.zero_add, (hp.map _).sum_eq, map_map]
  congr 1
  exact map_congr_left hst

end Stakes

/-! ## Quorums of a manifest -/

/-- The votes come from a quorum of the manifest, each signed under the member's own key. -/
structure QuorumOf (C : Crypto) (g : ValidatorGenesis) (votes : List ValidatorVote) : Prop where
  quorum : IsQuorum ValidatorGenesisEntry.stake g.entries
    (fun entry => entry.validator ∈ votes.map ValidatorVote.validator)
  signed : ∀ entry ∈ g.entries, ∀ vote ∈ votes, vote.validator = entry.validator →
    verifyValidatorVote C entry.publicKey vote = .ok ()

theorem quorumOf_of_verified {C : Crypto} {g : ValidatorGenesis} {set : ValidatorSet}
    {cert : QuorumCertificate} {keyed : List KeyedVote} (hset : g.validatorSet = .ok set)
    (hk : ∀ e ∈ keyed, ∃ member ∈ g.entries, member.validator = e.2.validator ∧
      member.publicKey = e.1)
    (h : VotesVerified C cert set keyed) : QuorumOf C g (keyed.map Prod.snd) := by
  have hs : (keyed.map Prod.snd).map ValidatorVote.validator = signers keyed := by
    simp [signers]
  constructor
  · unfold IsQuorum
    simp only [hs]
    rw [← totalStake_eq hset, ← signerStake_eq hset h.ordered h.stake, h.total]
    exact quorumReached_true cert.quorum
  · intro e he vote hvo heq
    obtain ⟨⟨key, vote⟩, hmem, rfl⟩ := mem_map.1 hvo
    obtain ⟨member, hm, hv, rfl⟩ := hk _ hmem
    rw [entry_unique he hm (heq.symm.trans hv.symm)]
    exact h.signatures _ hmem

namespace ValidatorEngine

variable {C : Crypto} {e e' : ValidatorEngine}

theorem keyedVotes_ok {votes : List ValidatorVote} {outOfDomain unknown : ValidatorEngineError}
    {keyed : List KeyedVote} (h : e.keyedVotes votes outOfDomain unknown = .ok keyed) :
    keyed.map Prod.snd = votes ∧ ∀ entry ∈ keyed, e.publicKeys.get? entry.2.validator =
      some entry.1 := by
  unfold keyedVotes at h
  induction votes generalizing keyed with
  | nil =>
    cases h
    simp
  | cons vote rest ih =>
    rw [mapM_cons] at h
    simp only [Except.inversion] at h
    obtain ⟨_, ⟨-, key, hkey, rfl⟩, keyed', hr, hk⟩ := h
    cases hk
    obtain ⟨hmap, hke⟩ := ih hr
    exact ⟨by rw [map_cons, hmap], forall_mem_cons.2 ⟨hkey, hke⟩⟩

/-- The engine's members and keys are those of a manifest with its root. -/
def MembersOf (C : Crypto) (e : ValidatorEngine) (g : ValidatorGenesis) : Prop :=
  e.state.validatorSetRoot = g.validatorSetRoot C ∧ g.validatorSet = .ok e.validatorSet ∧
    e.publicKeys = manifestKeys g

variable {g : ValidatorGenesis}

/-- **What an engine verified is a quorum of its manifest.** -/
theorem QuorumVerified.quorumOf (hm : MembersOf C e g) {cb : CertifiedBlock C}
    (h : QuorumVerified C e cb) : QuorumOf C g cb.votes := by
  obtain ⟨-, hset, hke⟩ := hm
  obtain ⟨keyed, hk, hv⟩ := h
  obtain ⟨hmap, hget⟩ := keyedVotes_ok hk
  rw [← hmap]
  refine quorumOf_of_verified hset (fun entry he => ?_) ((CryptoProvider.verify_ok_iff C).1 hv).1
  have hkey := hget entry he
  rw [hke] at hkey
  exact manifestKeys_get hkey

/-- **Every act leaves the members of some manifest**, with the old root or newly activated. -/
theorem MembersOf.step (inv : AnchorInv C e.snapshot) (h : MembersOf C e g) {act : EngineAct C}
    (hste : EngineStep C e act e') :
    ∃ g', MembersOf C e' g' ∧ (g'.validatorSetRoot C = e.state.validatorSetRoot ∨
      ∃ a proof, act = .validatorSet a proof g') := by
  obtain ⟨hg, hset, hke⟩ := h
  have hsa : e'.validatorSet = e.validatorSet → e'.publicKeys = e.publicKeys →
      e'.state.validatorSetRoot = e.state.validatorSetRoot →
      ∃ g', MembersOf C e' g' ∧ (g'.validatorSetRoot C = e.state.validatorSetRoot ∨
        ∃ a proof, act = .validatorSet a proof g') :=
    fun hs hk hr => ⟨g, ⟨hr.trans hg, hs ▸ hset, hk.trans hke⟩, .inl hg.symm⟩
  cases hste with
  | message m =>
    have hf := process_frame inv m
    exact hsa hf.members.1 hf.members.2 hf.context.2.1
  | vote hp =>
    obtain ⟨_, _, _, -, -, -, -, rfl⟩ := prepareCurrentVote_cases hp
    exact hsa rfl rfl rfl
  | timeout hp =>
    obtain ⟨_, _, -, -, -, -, rfl⟩ := prepareTimeoutVote_cases hp
    exact hsa rfl rfl rfl
  | validatorSet hac =>
    obtain ⟨s, set, handoff, -, hu, hset, hr, rfl⟩ := activateValidatorSet_cases hac
    have hst := (applyUpgrade_spec hu).2.2.2.2.2.2.2.2.1
    exact ⟨_, ⟨hst.trans hr, hset, rfl⟩, .inr ⟨_, _, rfl⟩⟩
  | protocol hac =>
    obtain ⟨s, handoff, -, hu, hun, rfl⟩ := activateProtocolUpgrade_cases hac
    refine hsa rfl rfl ?_
    have hst := (applyUpgrade_spec hu).2.2.2.2.2.2.2.2.1
    simp only [applyUpgradeAfterCertifiedBlock, Except.inversion] at hu
    show s.validatorSetRoot = e.state.validatorSetRoot
    rw [hst, ← not_not.1 hun, hu.1.2.1]
  | restart hre =>
    obtain ⟨hr, hset', hk', -⟩ := restoreEngine_members hre
    have hold : e'.state.validatorSetRoot = e.state.validatorSetRoot :=
      congrArg (fun p => p.consensus.validatorSetRoot) (restoreEngine_snapshot hre)
    exact ⟨_, ⟨hr, hset', hk'⟩, .inl (hr.symm.trans hold)⟩

end ValidatorEngine

end ActiveChain
