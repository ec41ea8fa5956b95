import ActiveChain.WorkProof.Inclusion

/-!
# Chains of trust bundles

What the checks of one bundle after another say about the whole chain, and what a threshold of
signatures says about the keys behind it.

* `Twins` — two signers with one key, and a chain that takes its checkpoint and its revisions back.
-/

namespace ActiveChain

open Except List

section Chains

variable (sha3 : HashFn) (verify : SignatureCheck)

/-- The bundle carries a valid signature of the signer, who may sign at its sequence. -/
def SignedTrustBundle.SignedBy (bundle : SignedTrustBundle) (signer : TrustSigner) : Prop :=
  signer.validFromSequence ≤ bundle.body.bundleSequence ∧
    bundle.body.bundleSequence ≤ signer.validUntilSequence ∧
    ∃ s ∈ bundle.signatures, s.signerId = signer.signerId ∧
      verify signer.algorithm signer.publicKey bundle.bundleId s.signature = true

/-- At least a threshold of different signers of the set have signed the bundle. -/
def Approved (bundle : SignedTrustBundle) (set : TrustSignerSet) : Prop :=
  ∃ signers : List TrustSigner, signers ⊆ set.signers ∧
    (signers.map TrustSigner.signerId).Nodup ∧ set.threshold ≤ signers.length ∧
    ∀ signer ∈ signers, bundle.SignedBy verify signer

/-- The check accepted the bundle, and the signer set took part in it. -/
inductive AcceptedUnder (bundle : SignedTrustBundle) : TrustSignerSet → Prop
  | bootstrap {set : TrustSignerSet} {nowMs : Nat} :
    verifyTrustBundleBootstrap sha3 verify bundle set nowMs = .ok () → AcceptedUnder bundle set
  | current {previous : SignedTrustBundle} {set : TrustSignerSet}
    {activated : Option TrustSignerSet}
    {nowMs : Nat} : verifyTrustBundleTransition sha3 verify previous bundle set activated nowMs =
      .ok () → AcceptedUnder bundle set
  | activated {previous : SignedTrustBundle} {current set : TrustSignerSet} {nowMs : Nat} :
    verifyTrustBundleTransition sha3 verify previous bundle current (some set) nowMs = .ok () →
      AcceptedUnder bundle set

/-- A chain of accepted bundles, the newest first. -/
inductive AcceptedChain : List SignedTrustBundle → Prop
  | bootstrap {bundle : SignedTrustBundle} {set : TrustSignerSet} {nowMs : Nat} :
    verifyTrustBundleBootstrap sha3 verify bundle set nowMs = .ok () → AcceptedChain [bundle]
  | transition {previous next : SignedTrustBundle} {chain : List SignedTrustBundle}
    {current : TrustSignerSet} {activated : Option TrustSignerSet} {nowMs : Nat} :
    AcceptedChain (previous :: chain) →
    verifyTrustBundleTransition sha3 verify previous next current activated nowMs = .ok () →
    AcceptedChain (next :: previous :: chain)

variable (b : ActumVerifierTrustBundle) (set : TrustSignerSet)

/-- The bundle names the signer set as its own. -/
def ActumVerifierTrustBundle.Names : Prop :=
  set.signerSetId sha3 = .ok b.signerSetId ∧ b.signerSetRevision = set.revision ∧
    b.signerThreshold = set.threshold

/-- The bundle announces the signer set for its successor. -/
def ActumVerifierTrustBundle.NamesNext : Prop :=
  set.signerSetId sha3 = .ok b.nextSignerSetId ∧ b.nextSignerSetRevision = set.revision ∧
    b.nextSignerThreshold = set.threshold

/-- The signers of the previous bundle approve the next one.  It names the same signers, or the
announced ones, who approve it as well. -/
def SignersFollow (previous next : SignedTrustBundle) : Prop :=
  ∃ current, previous.body.Names sha3 current ∧ Approved verify next current ∧
    if previous.body.Announces then ∃ new, previous.body.NamesNext sha3 new ∧
      next.body.Names sha3 new ∧ Approved verify next new
    else next.body.Names sha3 current

end Chains

/-- One bundle of a chain is above another, whatever lies between them. -/
def SignedTrustBundle.Later (newer older : SignedTrustBundle) : Prop :=
  newer.body.chainId = older.body.chainId ∧
    newer.body.genesisCommitment = older.body.genesisCommitment ∧
    older.body.checkpointHeight ≤ newer.body.checkpointHeight

open SignedTrustBundle

section Accepted

variable {sha3 : HashFn} {verify : SignatureCheck}
  {bundle previous next : SignedTrustBundle} {set current : TrustSignerSet}
  {activated : Option TrustSignerSet} {nowMs : Nat}

theorem countSignatures_ok {signatures : List TrustBundleSignature} {accepted total : Nat}
    (hmem : signatures ⊆ bundle.signatures)
    (h : signatures.foldlM (countSignature verify bundle set) accepted = .ok total) :
    ∃ signers : List TrustSigner, signers ⊆ set.signers ∧
      signers.map TrustSigner.signerId = signatures.map TrustBundleSignature.signerId ∧
      total = accepted + signers.length ∧ ∀ signer ∈ signers, bundle.SignedBy verify signer := by
  induction signatures generalizing accepted with
  | nil =>
    obtain rfl : accepted = total := Except.ok.inj h
    exact ⟨[], by simp⟩
  | cons s signatures ih =>
    obtain ⟨hs, hmem⟩ := cons_subset.1 hmem
    obtain ⟨one, hone, h⟩ := bind_eq_ok.1 h
    simp only [countSignature, inversion, not_lt, Bool.not_eq_false] at hone
    obtain ⟨signer, hfind, ⟨-, hfrom, huntil, hver⟩, rfl⟩ := hone
    obtain ⟨signers, hsub, hids, htotal, hall⟩ := ih hmem h
    have hid : signer.signerId = s.signerId := by simpa using find?_some hfind
    refine ⟨signer :: signers, cons_subset.2 ⟨mem_of_find?_eq_some hfind, hsub⟩, ?_, ?_, ?_⟩
    · rw [map_cons, map_cons, hid, hids]
    · rw [htotal, length_cons]
      omega
    · exact forall_mem_cons.2 ⟨⟨hfrom, huntil, s, hs, hid.symm, hver⟩, hall⟩

theorem SignedTrustBundle.signatures_ordered (h : bundle.validate sha3 = .ok ()) :
    bundle.signatures.Pairwise TrustBundleSignature.Before := by
  simp only [validate, inversion] at h
  obtain ⟨-, -, -, -, -, ho, -⟩ := h
  exact ho

theorem verifyThreshold_approved (hv : bundle.validate sha3 = .ok ())
    (h : verifyThreshold sha3 verify bundle set = .ok ()) : Approved verify bundle set := by
  simp only [verifyThreshold, inversion, not_lt] at h
  obtain ⟨setId, -, total, hcount, hle⟩ := h
  obtain ⟨signers, hsub, hids, htotal, hall⟩ := countSignatures_ok (filter_subset_self _) hcount
  refine ⟨signers, hsub, ?_, by omega, hall⟩
  -- signatures of one set are ordered by their signers
  rw [hids]
  refine pairwise_map.2 (((signatures_ordered hv).filter _).imp_of_mem ?_)
  intro a b ha hb hlt heq
  have hset : a.signerSetId = b.signerSetId :=
    (beq_iff_eq.1 (mem_filter.1 ha).2).trans (beq_iff_eq.1 (mem_filter.1 hb).2).symm
  rcases hlt with hlt | ⟨-, hlt⟩
  · exact hlt.ne hset
  · exact hlt.ne heq

theorem verifyTimeAndSet_names {body : ActumVerifierTrustBundle}
    (h : verifyTimeAndSet sha3 body set nowMs = .ok ()) : body.Names sha3 set := by
  simp only [verifyTimeAndSet, inversion] at h
  obtain ⟨setId, hid, -, -, hset, hrev, hthr⟩ := h
  exact ⟨hset ▸ hid, hrev, hthr⟩

theorem SignedTrustBundle.activation (h : bundle.validate sha3 = .ok ())
    (ha : bundle.body.Announces) :
    bundle.body.nextSignerActivationSequence = bundle.body.bundleSequence + 1 := by
  simp only [validate, ActumVerifierTrustBundle.bundleId, ActumVerifierTrustBundle.validate,
    if_pos ha, ActumVerifierTrustBundle.checkAnnounced, inversion] at h
  obtain ⟨_, ⟨⟨-, -, n, hn, heq⟩, -⟩, -⟩ := h
  exact heq.trans (nextSequence_eq_ok hn)

/-- What one accepted transition says. -/
structure Follows (sha3 : HashFn) (verify : SignatureCheck)
    (previous next : SignedTrustBundle) (current : TrustSignerSet)
    (activated : Option TrustSignerSet) : Prop where
  sequence : next.body.bundleSequence = previous.body.bundleSequence + 1
  later : next.Later previous
  names : previous.body.Names sha3 current
  approved : Approved verify next current
  newApproved : ∀ new ∈ activated, Approved verify next new
  signers : if previous.body.Announces then ∃ new ∈ activated, previous.body.NamesNext sha3 new ∧
      next.body.Names sha3 new else next.body.Names sha3 current

theorem verifyTrustBundleTransition_follows
    (h : verifyTrustBundleTransition sha3 verify previous next current activated nowMs = .ok ()) :
    Follows sha3 verify previous next current activated := by
  simp only [verifyTrustBundleTransition, inversion, not_lt] at h
  obtain ⟨hp, hn, -, n, hs, id, hid, ⟨hseq, -, hc, hg, hh, hset, hrev, hthr⟩, h⟩ := h
  have hseq := hseq.trans (nextSequence_eq_ok hs)
  have hnames : previous.body.Names sha3 current := ⟨hset ▸ hid, hrev, hthr⟩
  by_cases ha : previous.body.Announces
  · rw [if_pos ⟨ha, (activation hp ha).trans hseq.symm⟩] at h
    simp only [verifyRotation, inversion] at h
    obtain ⟨new, rfl, -, newId, hnew, ⟨hi, hr, ht⟩, htime, _, -, -, happ, happ'⟩ := h
    refine ⟨hseq, ⟨hc, hg, hh⟩, hnames, verifyThreshold_approved hn happ, ?_, ?_⟩
    · rintro _ ⟨⟩
      exact verifyThreshold_approved hn happ'
    · rw [if_pos ha]
      exact ⟨new, rfl, ⟨hi ▸ hnew, hr, ht⟩, verifyTimeAndSet_names htime⟩
  · rw [if_neg fun hrot => ha hrot.1] at h
    simp only [verifySameSigners, inversion, Bool.not_eq_true, Option.isSome_eq_false_iff,
      Option.isNone_iff_eq_none] at h
    obtain ⟨rfl, htime, _, -, -, happ⟩ := h
    refine ⟨hseq, ⟨hc, hg, hh⟩, hnames, verifyThreshold_approved hn happ, nofun, ?_⟩
    rw [if_neg ha]
    exact verifyTimeAndSet_names htime

theorem verifyTrustBundleBootstrap_ok
    (h : verifyTrustBundleBootstrap sha3 verify bundle set nowMs = .ok ()) :
    bundle.body.bundleSequence = 1 ∧ Approved verify bundle set := by
  simp only [verifyTrustBundleBootstrap, inversion] at h
  obtain ⟨hv, -, ⟨hone, -⟩, -, _, -, -, happ⟩ := h
  exact ⟨hone, verifyThreshold_approved hv happ⟩

/-- **A bundle that a check accepts carries valid signatures of at least the threshold number of
different signers of every signer set of the check; they are under different public keys if the keys
of the set are different.** -/
theorem accepted_approved (h : AcceptedUnder sha3 verify bundle set) :
    ∃ signers : List TrustSigner, signers ⊆ set.signers ∧
      (signers.map TrustSigner.signerId).Nodup ∧ set.threshold ≤ signers.length ∧
      (∀ signer ∈ signers, bundle.SignedBy verify signer) ∧
      ((set.signers.map TrustSigner.publicKey).Nodup →
        (signers.map TrustSigner.publicKey).Nodup) := by
  have happ : Approved verify bundle set := by
    cases h with
    | bootstrap h => exact (verifyTrustBundleBootstrap_ok h).2
    | current h => exact (verifyTrustBundleTransition_follows h).approved
    | activated h => exact (verifyTrustBundleTransition_follows h).newApproved _ rfl
  obtain ⟨signers, hsub, hids, hle, hall⟩ := happ
  refine ⟨signers, hsub, hids, hle, hall, fun hkeys => ?_⟩
  refine hids.of_map _ |>.map_on fun a ha b hb heq => ?_
  exact inj_on_of_nodup_map hkeys (hsub ha) (hsub hb) heq

theorem AcceptedChain.isChain {chain : List SignedTrustBundle}
    (h : AcceptedChain sha3 verify chain) :
    chain.map (·.body.bundleSequence) = (range' 1 chain.length).reverse ∧
      chain.IsChain Later ∧
      chain.IsChain fun next previous => SignersFollow sha3 verify previous next := by
  induction h with
  | bootstrap h => simp [(verifyTrustBundleBootstrap_ok h).1]
  | @transition previous next chain current activated nowMs _ h ih =>
    have hf := verifyTrustBundleTransition_follows h
    obtain ⟨hseq, hlater, hsigners⟩ := ih
    refine ⟨?_, isChain_cons_cons.2 ⟨hf.later, hlater⟩, isChain_cons_cons.2 ⟨?_, hsigners⟩⟩
    · have hcount (n : Nat) : (range' 1 (n + 1)).reverse = (n + 1) :: (range' 1 n).reverse := by
        simp [range'_concat, Nat.add_comm]
      have hhead := hseq
      rw [map_cons, length_cons, hcount] at hhead
      rw [map_cons, hseq, hf.sequence, (cons.inj hhead).1]
      exact (hcount _).symm
    · refine ⟨current, hf.names, hf.approved, ?_⟩
      have hs := hf.signers
      split_ifs at hs ⊢
      · obtain ⟨new, hnew, hn, hn'⟩ := hs
        exact ⟨new, hn, hn', hf.newApproved new hnew⟩
      · exact hs

/-- **Along a chain of accepted bundles the sequences are consecutive, the chain and the genesis
stay, checkpoint heights never decrease, and the signers change only to the announced ones, with the
approval of both sets.** -/
theorem trust_chain_sound {chain : List SignedTrustBundle} (h : AcceptedChain sha3 verify chain) :
    chain.map (·.body.bundleSequence) = (range' 1 chain.length).reverse ∧
      chain.Pairwise SignedTrustBundle.Later ∧
      chain.IsChain fun next previous => SignersFollow sha3 verify previous next := by
  have : IsTrans SignedTrustBundle Later :=
    ⟨fun a b c hab hbc => ⟨hab.1.trans hbc.1, hab.2.1.trans hbc.2.1, hbc.2.2.trans hab.2.2⟩⟩
  exact ⟨h.isChain.1, isChain_iff_pairwise.1 h.isChain.2.1, h.isChain.2.2⟩

end Accepted

/-! ## Two signers with one key -/

namespace Twins

def signer (id : Digest384) : TrustSigner :=
  ⟨id, .mlDsa44, replicate maxTrustPublicKeyBytes 7, 1, 10⟩

def signers : TrustSignerSet := ⟨1, [signer 1, signer 2], 2⟩

def verify (_ : TrustSignatureAlgorithm) (key : List Nat) (_ : Digest384) (signature : List Nat) :
    Bool :=
  key.head? == signature.head?

abbrev crypto : Crypto := Crypto.transparent

def setId : Digest384 := (signers.signerSetId crypto.shake256).toOption.getD 0

def signature (id : Digest384) : TrustBundleSignature :=
  ⟨setId, id, .mlDsa44, replicate maxTrustSignatureBytes 7⟩

def signed (body : ActumVerifierTrustBundle) : SignedTrustBundle :=
  ⟨body, (body.bundleId crypto.shake256).toOption.getD 0, [signature 1, signature 2]⟩

def first : ActumVerifierTrustBundle :=
  { (TwoSecrets.bundle crypto crypto.shake256).body with
    proofProfileId := 46, policyId := 47, signerSetId := setId, signerThreshold := 2
    protocolRevision := 2, verifierRevision := 2 }

/-- The same height with another block, and older revisions. -/
def second : ActumVerifierTrustBundle :=
  { first with
    bundleSequence := 2, previousBundleId := (signed first).bundleId
    checkpointBlockId := 50, protocolRevision := 1, verifierRevision := 1, policyRevision := 1 }

theorem first_accepted :
    verifyTrustBundleBootstrap crypto.shake256 verify (signed first) signers 0 = .ok () := by
  decide +kernel

theorem second_accepted : verifyTrustBundleTransition crypto.shake256 verify (signed first)
    (signed second) signers none 0 = .ok () := by
  decide +kernel

/-- **Two signatures under one key pass a threshold of two.** -/
theorem one_key_accepted : AcceptedUnder crypto.shake256 verify (signed first) signers ∧
    signers.threshold = 2 ∧
      ∀ keys ⊆ signers.signers.map TrustSigner.publicKey, keys.Nodup → keys.length ≤ 1 := by
  refine ⟨.bootstrap first_accepted, rfl, ?_⟩
  intro keys hsub hnodup
  have hsub : keys ⊆ [replicate maxTrustPublicKeyBytes 7] := fun key hkey => by
    simpa [signers, signer] using hsub hkey
  exact (subperm_of_subset hnodup hsub).length_le

theorem two_signers_approve : ∃ approving : List TrustSigner, approving ⊆ signers.signers ∧
    (approving.map TrustSigner.signerId).Nodup ∧ 2 ≤ approving.length := by
  obtain ⟨approving, hsub, hids, hle, -⟩ := accepted_approved (.bootstrap first_accepted)
  exact ⟨approving, hsub, hids, hle⟩

/-- **A chain whose second bundle names another block at the height of the first, and takes the
protocol, the verifier and the policy back to older revisions.** -/
theorem checkpoint_replaced : AcceptedChain crypto.shake256 verify [signed second, signed first] ∧
    second.checkpointHeight = first.checkpointHeight ∧
    second.checkpointBlockId ≠ first.checkpointBlockId ∧
    second.protocolRevision < first.protocolRevision ∧
    second.verifierRevision < first.verifierRevision ∧
    second.policyRevision < first.policyRevision := by
  refine ⟨.transition (.bootstrap first_accepted) second_accepted, rfl, ?_⟩
  simp [second, first, TwoSecrets.bundle]

theorem heights_of_two : [signed second, signed first].Pairwise SignedTrustBundle.Later :=
  (trust_chain_sound (.transition (.bootstrap first_accepted) second_accepted)).2.1

end Twins

end ActiveChain
