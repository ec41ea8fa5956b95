import ActiveChain.LightClient.Following

/-!
# Replaced validator sets

A light client remembers the last eight validator sets it has replaced and refuses to go back to
them.  What it replaced before that it has forgotten.
-/

namespace ActiveChain

open Except List

/-- The part of the history that a client keeps. -/
def lastReplaced (replaced : List Digest384) : List Digest384 :=
  replaced.drop (replaced.length - maxRetiredValidatorSets)

theorem lastReplaced_of_le {replaced : List Digest384}
    (h : replaced.length ≤ maxRetiredValidatorSets) : lastReplaced replaced = replaced := by
  rw [lastReplaced, Nat.sub_eq_zero_of_le h, drop_zero]

theorem lastReplaced_concat (replaced : List Digest384) (root : Digest384) :
    lastReplaced (replaced ++ [root]) =
      (if (lastReplaced replaced).length = maxRetiredValidatorSets then
        (lastReplaced replaced).drop 1 else lastReplaced replaced) ++ [root] := by
  unfold lastReplaced maxRetiredValidatorSets
  have hl : (replaced ++ [root]).length = replaced.length + 1 := by simp
  rw [hl, drop_append_of_le_length (by omega), length_drop, drop_drop]
  split_ifs <;> congr 2 <;> omega

section Run

variable (C : Crypto)

/-- The root in force. -/
def LightClientState.activeRoot (s : LightClientState) : Digest384 :=
  s.activeGenesis.validatorSetRoot C

/-- Accepted calls from a state, with the roots replaced so far. -/
inductive ClientRun (s₀ : LightClientState) : List Digest384 → LightClientState → Prop
  | start : ClientRun s₀ s₀.retiredValidatorSetRoots s₀
  | ingest {replaced : List Digest384} {s s' : LightClientState}
      {bundle : FinalityCertificateBundle} {observed : Nat} (before : ClientRun s₀ replaced s)
      (h : s.ingestFinality C bundle observed = .ok s') :
      ClientRun s₀ (replaced ++ if s'.activeRoot C = s.activeRoot C then [] else
        [s.activeRoot C]) s'
  | authorize {replaced : List Digest384} {s s' : LightClientState}
      {bundle : UpgradeCertificateBundle} (before : ClientRun s₀ replaced s)
      (h : s.authorizeUpgrade C bundle = .ok s') : ClientRun s₀ replaced s'

/-- The history is the end of the full one; neither the root in force nor the next one is in it. -/
structure Remembers (replaced : List Digest384) (s : LightClientState) : Prop where
  history : s.retiredValidatorSetRoots = lastReplaced replaced
  active : s.activeRoot C ∉ s.retiredValidatorSetRoots
  pending : ∀ upgrade ∈ s.pendingUpgrade,
    upgrade.authorization.previousValidatorSetRoot = s.activeRoot C ∧
      upgrade.authorization.nextValidatorSetRoot = upgrade.nextGenesis.validatorSetRoot C ∧
      upgrade.authorization.nextValidatorSetRoot ∉ s.retiredValidatorSetRoots

variable {C} {s s' s₀ : LightClientState} {replaced : List Digest384}

open LightClientState

theorem Remembers.authorize {bundle : UpgradeCertificateBundle}
    (hr : s.retiredValidatorSetRoots = lastReplaced replaced)
    (ha : s.activeRoot C ∉ s.retiredValidatorSetRoots)
    (h : s.authorizeUpgrade C bundle = .ok s') : Remembers C replaced s' := by
  simp only [authorizeUpgrade, inversion] at h
  obtain ⟨-, ⟨-, -, -, hp, -, -, -, hn, -⟩, hm, -, -, rfl⟩ := h
  refine ⟨hr, ha, fun upgrade hu => ?_⟩
  cases hu
  exact ⟨hp, hn, hm⟩

theorem Remembers.ingest {bundle : FinalityCertificateBundle} {observed : Nat}
    (hs : Remembers C replaced s) (h : s.ingestFinality C bundle observed = .ok s') :
    Remembers C (replaced ++ if s'.activeRoot C = s.activeRoot C then [] else [s.activeRoot C])
      s' := by
  simp only [ingestFinality, inversion, Prod.exists] at h
  obtain ⟨-, expected, activating, he, -, -, -, -, _, -, -, -, until_, -, rfl⟩ := h
  rcases expectedGenesis_ok he with ⟨-, rfl⟩ | ⟨upgrade, hu, -, rfl⟩
  · simpa [activeRoot] using ⟨hs.history, hs.active, hs.pending⟩
  · obtain ⟨hp, hn, hm⟩ := hs.pending upgrade hu
    unfold activate retire
    unfold activeRoot at *
    by_cases hc : upgrade.authorization.changesValidatorSet
    · have hne : upgrade.nextGenesis.validatorSetRoot C ≠ s.activeGenesis.validatorSetRoot C := by
        rw [← hn, ← hp]
        exact Ne.symm hc
      simp only [if_pos hc, if_neg hne]
      refine ⟨?_, ?_, fun _ h => by cases h⟩
      · rw [lastReplaced_concat, ← hs.history]
      · show upgrade.nextGenesis.validatorSetRoot C ∉ _ ++ _
        rw [← hn, mem_append, mem_singleton, not_or]
        refine ⟨fun hmem => hm ?_, hn ▸ hne⟩
        split_ifs at hmem
        · exact mem_of_mem_drop hmem
        · exact hmem
    · have heq : upgrade.nextGenesis.validatorSetRoot C = s.activeGenesis.validatorSetRoot C := by
        rw [← hn, ← hp]
        exact (not_not.1 hc).symm
      simp only [if_neg hc, if_pos heq, append_nil]
      exact ⟨hs.history, by rw [activeRoot, heq]; exact hs.active, fun _ h => by cases h⟩

/-- **In every run of a client that was bootstrapped or restored, its history is the last eight
replaced roots, none of them is in force or accepted as the next one; so as long as at most eight
were replaced, none of them is active again.** -/
theorem replaced_root_inactive (h₀ : (∃ chain genesis checkpoint period,
      LightClientState.bootstrap C chain genesis checkpoint period = .ok s₀) ∨
      ∃ saved : LightClientState, saved.restore C = .ok s₀) (h : ClientRun C s₀ replaced s) :
    s.retiredValidatorSetRoots = lastReplaced replaced ∧ s.activeRoot C ∉ lastReplaced replaced ∧
      (∀ bundle s', s.authorizeUpgrade C bundle = .ok s' →
        bundle.nextGenesis.validatorSetRoot C ∉ lastReplaced replaced) ∧
      (replaced.length ≤ maxRetiredValidatorSets → s.activeRoot C ∉ replaced) := by
  have hrem : Remembers C replaced s := by
    induction h with
    | start =>
      rcases h₀ with ⟨_, _, _, _, h₀⟩ | ⟨_, h₀⟩
      · simp only [bootstrap, inversion] at h₀
        obtain ⟨-, -, -, _, -, rfl⟩ := h₀
        exact ⟨rfl, not_mem_nil, fun _ h => by cases h⟩
      · cases restore_ok h₀
        simp only [restore, inversion] at h₀
        obtain ⟨-, hw, _, -, ⟨-, -, -, -, -, -, -, ha, -⟩, hp⟩ := h₀
        have hl := (lastReplaced_of_le hw.1).symm
        split at hp
        · rename_i hn
          exact ⟨hl, ha, by simp [hn]⟩
        · exact .authorize (s := { s₀ with pendingUpgrade := none }) hl ha
            (mapError_eq_ok.1 hp)
    | ingest before h ih => exact ih.ingest h
    | authorize before h ih => exact .authorize ih.history ih.active h
  have ha := hrem.active
  rw [hrem.history] at ha
  refine ⟨hrem.history, ha, fun bundle s' hb => ?_, fun hle => ?_⟩
  · have hne := Remembers.authorize hrem.history hrem.active hb
    obtain ⟨-, hn, hm⟩ := hne.pending bundle (by rw [(authorizeUpgrade_ok hb).2.2]; rfl)
    rwa [← hn, ← hne.history]
  · rwa [lastReplaced_of_le hle] at ha

end Run

/-! ## A root that comes back -/

namespace Rotating

open SoloChain (crypto)

/-- One validator with the given key, from a height on. -/
def manifest (key epoch : Nat) : ValidatorGenesis :=
  ⟨epoch, epoch + 1, 1, [⟨1, 1, key, Nat.one_ne_zero⟩], by simp [maxValidatorsPerEpoch],
    SoloChain.manifest.revision, by simp⟩

def root (key : Nat) : Digest384 := (manifest key 0).validatorSetRoot crypto

/-- The vote of the only validator, and its certificate. -/
def certify (key epoch height : Nat) (digest : Digest384) :
    Option (QuorumCertificate × List ValidatorVote) := do
  let context ← (ConsensusVoteContext.newWithRevision 5 epoch (root key) 1).toOption
  let vote ← (ValidatorVote.new 1 context height 0 digest 17 ⟨.mlDsa44, key⟩).toOption
  let qc ← (QuorumCertificate.new context height 0 digest 17
    (crypto.shake256 (.tag "ACTIVECHAIN-VOTE-SET-V1" :: voteSetEntry (key, vote))) 1 1).toOption
  return (qc, [vote])

/-- The upgrade from one key to the next at the height after `epoch + 1`. -/
def upgradeTo (key next epoch : Nat) : Option UpgradeCertificateBundle := do
  let a ← (ConsensusUpgradeAuthorization.new (epoch + 1) (epoch + 2) epoch (epoch + 1) (root key)
    (root next) 1 1).toOption
  let (qc, votes) ← certify key epoch (epoch + 1) (a.commitment crypto)
  if h : votes ≠ [] ∧ votes.length ≤ maxValidatorsPerEpoch then
    return ⟨a, qc, votes, manifest next (epoch + 1), h⟩
  else none

def header (key epoch : Nat) (parent : Digest384) : FinalizedBlockHeader :=
  ⟨⟨9, epoch, epoch + 1, 1, root key, parent, ⟨10, 0⟩, 11, 12, 13, 0, 0, 0, 0, 0, 18, 19, 18,
    ⟨14, 0⟩, 15, 16⟩, 17⟩

def headerBy (key epoch : Nat) (parent : Digest384) : Option FinalityCertificateBundle := do
  let header := header key epoch parent
  let (qc, votes) ← certify key epoch (epoch + 1) (header.digest crypto)
  if h : votes ≠ [] ∧ votes.length ≤ maxValidatorsPerEpoch then
    return ⟨header, manifest key epoch, qc, votes, h⟩
  else none

/-- A client that has replaced some sets. -/
def client (replaced : List Digest384) : LightClientState :=
  ⟨9, 5, manifest 7 0, header 7 0 3, 10, 11, replaced, none⟩

theorem client_restored {replaced : List Digest384}
    (h : ∃ s ∈ ((client replaced).restore crypto).toOption, True) :
    (client replaced).restore crypto = .ok (client replaced) := by
  obtain ⟨s, hs, -⟩ := h
  have hs := mem_toOption.1 hs
  rwa [LightClientState.restore_ok hs] at hs

/-- The first of the eight sets that a client has replaced is the one with key 20.  The client
changes to key 8 and then back to key 20. -/
theorem replaced_root_active :
    (client (root 20 :: List.range' 101 7)).restore crypto =
      .ok (client (root 20 :: List.range' 101 7)) ∧
    ∃ a ∈ upgradeTo 7 8 0,
    ∃ s₁ ∈ ((client (root 20 :: List.range' 101 7)).authorizeUpgrade crypto a).toOption,
    ∃ b ∈ headerBy 8 1 (s₁.finalizedHeader.digest crypto),
    ∃ s₂ ∈ (s₁.ingestFinality crypto b 2).toOption, ∃ c ∈ upgradeTo 8 20 1,
    ∃ s₃ ∈ (s₂.authorizeUpgrade crypto c).toOption,
    ∃ d ∈ headerBy 20 2 (s₃.finalizedHeader.digest crypto),
    ∃ s₄ ∈ (s₃.ingestFinality crypto d 3).toOption,
    s₄.activeRoot crypto ∈ root 20 :: List.range' 101 7 := by
  refine ⟨client_restored (by decide +kernel), ?_⟩
  set_option synthInstance.maxSize 512 in decide +kernel

/-- A client that has replaced seven sets changes to key 8. -/
theorem rotation_remembered :
    ∃ s, ClientRun crypto (client (List.range' 101 7)) (List.range' 101 7 ++ [root 7]) s ∧
      s.activeRoot crypto = root 8 ∧ root 8 ∉ List.range' 101 7 ++ [root 7] := by
  have hrun : ∃ a ∈ upgradeTo 7 8 0,
      ∃ s₁ ∈ ((client (List.range' 101 7)).authorizeUpgrade crypto a).toOption,
      ∃ b ∈ headerBy 8 1 (s₁.finalizedHeader.digest crypto),
      ∃ s₂ ∈ (s₁.ingestFinality crypto b 2).toOption,
      s₁.activeRoot crypto = root 7 ∧ s₂.activeRoot crypto = root 8 ∧ root 8 ≠ root 7 := by
    set_option synthInstance.maxSize 512 in decide +kernel
  obtain ⟨_, -, s₁, h₁, _, -, s₂, h₂, hroot₁, hroot₂, hne⟩ := hrun
  have run := ClientRun.ingest (.authorize .start (mem_toOption.1 h₁)) (mem_toOption.1 h₂)
  rw [hroot₁, hroot₂, if_neg hne] at run
  have hinactive := (replaced_root_inactive
    (.inr ⟨_, client_restored (by decide +kernel)⟩) run).2.2.2 (by decide)
  rw [hroot₂] at hinactive
  exact ⟨s₂, run, hroot₂, hinactive⟩

end Rotating

end ActiveChain
