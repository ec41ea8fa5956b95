import ActiveChain.Accumulator.SetCommitment
import Mathlib.Data.List.Nodup

/-!
# The accumulator against the explicit set

The one-digest set and the explicit set agree: whatever witnesses are offered, the accepted keys are
distinct, and the commitment is that of the explicit set of accepted keys.

* `subtreeOf` — the digest of the subtree below a path.
* `ReferenceSet.nonMembershipWitness_eq` — the witnesses are the tree's own siblings.
* `insertAttempts` — a run of insertions with arbitrary keys and witnesses.
-/

namespace ActiveChain

open Function BitVec Except List Nat SparseMerkle

/-! ## Prefixes -/

section Prefixes

variable {key key' : AccumulatorKey} {d : Nat}

def prefixPath (key : AccumulatorKey) (d : Nat) : List Bool := (List.range d).map (keyBit key)

theorem length_prefixPath : (prefixPath key d).length = d := by
  rw [prefixPath, length_map, length_range]

theorem prefixPath_succ : prefixPath key (d + 1) = prefixPath key d ++ [keyBit key d] := by
  rw [prefixPath, range_succ, map_append]
  rfl

theorem take_keyPath (hd : d ≤ keyBits) : (keyPath key).take d = prefixPath key d := by
  rw [keyPath, ← map_take, take_range, min_eq_left hd]
  rfl

theorem prefixPath_congr (h : ∀ i, i < d → keyBit key i = keyBit key' i) :
    prefixPath key d = prefixPath key' d :=
  map_congr_left fun i hi => h i (mem_range.1 hi)

theorem keyBit_of_prefixPath (h : prefixPath key d = prefixPath key' d) {i : Nat} (hi : i < d) :
    keyBit key i = keyBit key' i := by
  have hbit := congrArg (fun p => p[i]?) h
  simpa [prefixPath, hi] using hbit

theorem keyPrefix_eq_iff (hd : d ≤ keyBits) :
    keyPrefix key d = keyPrefix key' d ↔ prefixPath key d = prefixPath key' d := by
  constructor
  · intro h
    refine prefixPath_congr fun i hi => ?_
    have hbit := congrArg (fun k => keyBit k i) h
    simpa [keyBit_keyPrefix (show i < keyBits by omega), hi] using hbit
  · intro h
    refine eq_of_getMsbD_eq fun i hi => ?_
    change keyBit (keyPrefix key d) i = keyBit (keyPrefix key' d) i
    rw [keyBit_keyPrefix hi, keyBit_keyPrefix hi]
    by_cases hlt : i < d
    · rw [keyBit_of_prefixPath h hlt]
    · simp [hlt]

theorem keyPrefix_full : keyPrefix key keyBits = key := by
  refine eq_of_getMsbD_eq fun i hi => ?_
  change keyBit (keyPrefix key keyBits) i = keyBit key i
  rw [keyBit_keyPrefix hi, decide_eq_true hi, Bool.true_and]

theorem prefixPath_left (hd : d < keyBits) :
    prefixPath (keyPrefix key d) (d + 1) = prefixPath key d ++ [false] := by
  rw [prefixPath_succ, keyBit_keyPrefix hd, decide_eq_false (lt_irrefl d), Bool.false_and]
  congr 1
  refine prefixPath_congr fun i hi => ?_
  rw [keyBit_keyPrefix (by omega), decide_eq_true hi, Bool.true_and]

theorem prefixPath_right (hd : d < keyBits) :
    prefixPath (setKeyBit (keyPrefix key d) d) (d + 1) = prefixPath key d ++ [true] := by
  rw [prefixPath_succ, keyBit_setKeyBit hd, decide_eq_true rfl, Bool.or_true]
  congr 1
  refine prefixPath_congr fun i hi => ?_
  rw [keyBit_setKeyBit hd, keyBit_keyPrefix (by omega), decide_eq_true hi,
    decide_eq_false (Nat.ne_of_lt hi), Bool.true_and, Bool.or_false]

theorem prefixPath_toggle (hd : d < keyBits) :
    prefixPath (toggleKeyBit key d) (d + 1) = prefixPath key d ++ [!keyBit key d] := by
  rw [prefixPath_succ, keyBit_toggle hd, decide_eq_true rfl, Bool.xor_true]
  congr 1
  refine prefixPath_congr fun i hi => ?_
  rw [keyBit_toggle hd, decide_eq_false (Nat.ne_of_lt hi), Bool.xor_false]

end Prefixes

/-! ## Subtrees -/

section Subtrees

variable {C : Crypto} {domain : AccumulatorDomain}

variable (C domain) in
def subtreeOf (keys : List AccumulatorKey) (path : List Bool) : Digest384 :=
  SparseMerkle.root (setNode C domain) (keyBits - path.length) path.length
    fun p => leafOf C domain keys (path ++ p)

theorem subtreeOf_leaf (keys : List AccumulatorKey) (key : AccumulatorKey) :
    subtreeOf C domain keys (prefixPath key keyBits) = leafOf C domain keys (keyPath key) := by
  rw [subtreeOf, length_prefixPath, Nat.sub_self, root, append_nil]
  rfl

variable {keys : List AccumulatorKey} {path : List Bool}

theorem subtreeOf_split (h : path.length < keyBits) :
    subtreeOf C domain keys path = setNode C domain path.length
      (subtreeOf C domain keys (path ++ [false])) (subtreeOf C domain keys (path ++ [true])) :=
  subtree_split h

theorem subtreeOf_empty (h : path.length ≤ keyBits) :
    subtreeOf C domain [] path = setEmptyHash C domain path.length := by
  rw [setEmptyHash_eq (Nat.add_sub_cancel' h)]
  rfl

theorem subtreeOf_cons_of_ne {key key' : AccumulatorKey} {d : Nat} (hd : d ≤ keyBits)
    (h : prefixPath key' d ≠ prefixPath key d) :
    subtreeOf C domain (key :: keys) (prefixPath key' d) =
      subtreeOf C domain keys (prefixPath key' d) := by
  refine root_congr fun p _ => ?_
  rw [leafOf_cons]
  refine Function.update_of_ne (fun heq => h ?_) _ _
  have ht := congrArg (take d) heq
  have hp : (keyPath key).take d = prefixPath key d := take_keyPath hd
  have hl : (prefixPath key' d ++ p).take d = prefixPath key' d := take_left' length_prefixPath
  rwa [hp, hl] at ht

end Subtrees

/-! ## The node table -/

namespace ReferenceSet

variable {C : Crypto} {domain : AccumulatorDomain}

/-- The table holds the digest of every subtree. -/
def Represents (C : Crypto) (domain : AccumulatorDomain)
    (nodes : Nat → AccumulatorKey → Option Digest384) (keys : List AccumulatorKey) : Prop :=
  ∀ d ≤ keyBits, ∀ key,
    lookup C domain nodes d (keyPrefix key d) = subtreeOf C domain keys (prefixPath key d)

theorem represents_new : Represents C domain (fun _ _ => none) [] := by
  intro d hd key
  rw [subtreeOf_empty (by rwa [length_prefixPath]), length_prefixPath]
  rfl

variable {nodes : Nat → AccumulatorKey → Option Digest384} {keys : List AccumulatorKey}
  {key : AccumulatorKey}

variable {digest : Digest384} {d : Nat}

theorem lookup_insertNode_self :
    lookup C domain (insertNode nodes d key digest) d key = digest := by
  simp [lookup, insertNode]

theorem lookup_insertNode_of_ne {d' : Nat} {key' : AccumulatorKey} (h : ¬ (d' = d ∧ key' = key)) :
    lookup C domain (insertNode nodes d key digest) d' key' = lookup C domain nodes d' key' := by
  rw [lookup, insertNode, if_neg h, lookup]

/-- The table on its way from one set to the next: the depths from `d` on are done. -/
def RepresentsFrom (C : Crypto) (domain : AccumulatorDomain) (d : Nat)
    (nodes : Nat → AccumulatorKey → Option Digest384) (keys : List AccumulatorKey)
    (key : AccumulatorKey) : Prop :=
  ∀ e ≤ keyBits, ∀ k, lookup C domain nodes e (keyPrefix k e) =
    subtreeOf C domain (if d ≤ e then key :: keys else keys) (prefixPath k e)

theorem representsFrom_leaf (key : AccumulatorKey) (h : Represents C domain nodes keys) :
    RepresentsFrom C domain keyBits (insertNode nodes keyBits key (setLeaf C domain key)) keys
      key := by
  intro e he k
  by_cases hl : keyBits ≤ e
  · obtain rfl : e = keyBits := le_antisymm he hl
    rw [if_pos (le_refl _), keyPrefix_full]
    by_cases hkey : k = key
    · subst hkey
      rw [lookup_insertNode_self, subtreeOf_leaf, leafOf_of_mem mem_cons_self]
    · have hp : prefixPath k keyBits ≠ prefixPath key keyBits :=
        fun heq => hkey (keyPath_injective heq)
      rw [lookup_insertNode_of_ne (fun heq => hkey heq.2), subtreeOf_cons_of_ne he hp,
        ← h keyBits he, keyPrefix_full]
  · rw [if_neg hl, lookup_insertNode_of_ne (fun heq => hl (le_of_eq heq.1.symm)), h e he]

theorem representsFrom_round (hd : d < keyBits)
    (h : RepresentsFrom C domain (d + 1) nodes keys key) :
    RepresentsFrom C domain d (insertRound C domain key d nodes) keys key := by
  intro e he k
  by_cases hn : e = d ∧ keyPrefix k e = keyPrefix key d
  · obtain ⟨rfl, hpr⟩ := hn
    have hpa : prefixPath k e = prefixPath key e := (keyPrefix_eq_iff he).1 hpr
    -- both children are one depth further down, where the table is already that of the new set
    have hl := h (e + 1) hd (keyPrefix key e)
    have hr := h (e + 1) hd (setKeyBit (keyPrefix key e) e)
    rw [if_pos (le_refl _), prefixPath_left hd] at hl
    rw [if_pos (le_refl _), prefixPath_right hd] at hr
    have hle : (prefixPath key e).length < keyBits := by rwa [length_prefixPath]
    have hs := @subtreeOf_split C domain (key :: keys) _ hle
    rw [length_prefixPath] at hs
    rw [if_pos (le_refl _), hpr, hpa, insertRound, lookup_insertNode_self, hl, hr, hs]
  · rw [insertRound, lookup_insertNode_of_ne hn, h e he k]
    by_cases hlt : d + 1 ≤ e
    · rw [if_pos hlt, if_pos (by omega)]
    · rw [if_neg hlt]
      by_cases heq : d ≤ e
      · obtain rfl : e = d := by omega
        have hpa : prefixPath k e ≠ prefixPath key e :=
          fun hp => hn ⟨rfl, (keyPrefix_eq_iff he).2 hp⟩
        rw [if_pos heq, subtreeOf_cons_of_ne he hpa]
      · rw [if_neg heq]

theorem representsFrom_rounds (n : Nat) :
    ∀ nodes, n ≤ keyBits → RepresentsFrom C domain n nodes keys key →
      RepresentsFrom C domain 0 ((range n).foldr (insertRound C domain key) nodes) keys key := by
  induction n with
  | zero =>
    intro nodes _ h
    exact h
  | succ n ih =>
    intro nodes hn h
    rw [range_succ, foldr_append]
    exact ih _ (by omega) (representsFrom_round hn h)

theorem represents_insert (key : AccumulatorKey) (h : Represents C domain nodes keys) :
    Represents C domain ((range keyBits).foldr (insertRound C domain key)
      (insertNode nodes keyBits key (setLeaf C domain key))) (key :: keys) := by
  intro d hd k
  have hall := representsFrom_rounds keyBits _ (le_refl _) (representsFrom_leaf key h) d hd k
  rwa [if_pos (zero_le d)] at hall

/-- A set built by insertions: its table is that of its keys, its commitment theirs. -/
structure WellFormed (C : Crypto) (s : ReferenceSet) : Prop where
  nodes : Represents C s.domain s.nodes s.keys
  commitment : s.commitment = commitmentOf C s.domain s.keys

theorem wellFormed_new : (new C domain).WellFormed C := ⟨represents_new, empty_eq⟩

variable {s : ReferenceSet}

theorem wellFormed_insert {s' : ReferenceSet} (hs : s.WellFormed C) (h : s.insert C key = .ok s') :
    s'.WellFormed C ∧ s'.domain = s.domain ∧ s'.keys = key :: s.keys := by
  simp only [insert, inversion] at h
  obtain ⟨-, -, rfl⟩ := h
  have hn := represents_insert key hs.nodes
  refine ⟨⟨hn, ?_⟩, rfl, rfl⟩
  have hr := hn 0 (zero_le _) 0
  exact congrArg (fun tree => (⟨s.domain, setCommitmentRoot C s.domain (key :: s.keys).length tree,
    (key :: s.keys).length⟩ : SetCommitment)) hr

theorem insert_eq_ok (hz : key ≠ 0) (hf : key ∉ s.keys) (hs : (key :: s.keys).length < 2 ^ 64) :
    ∃ s', s.insert C key = .ok s' := by
  have hg : ¬ (key = 0 ∨ key ∈ s.keys) := not_or.2 ⟨hz, hf⟩
  unfold insert
  dsimp only
  rw [rejectIf_of_not hg, ok_bind, rejectIf_of_not (not_le.2 hs)]
  exact ⟨_, rfl⟩

theorem nonMembershipWitness_eq (hs : s.WellFormed C) (hz : key ≠ 0) (hf : key ∉ s.keys) :
    s.nonMembershipWitness C key = .ok ⟨key, siblingsOf C s.domain s.keys key⟩ := by
  have hg : ¬ (key = 0 ∨ key ∈ s.keys) := not_or.2 ⟨hz, hf⟩
  unfold nonMembershipWitness
  rw [rejectIf_of_not hg, ok_bind, siblingsOf, siblings_eq_map _ _ _ _ (length_keyPath key)]
  refine congrArg (fun siblings => Except.ok (⟨key, siblings⟩ : NonMembershipWitness)) ?_
  refine map_congr_left fun d hd => ?_
  have hd : d < keyBits := mem_range.1 hd
  have hp : (keyPath key).take d = prefixPath key d := take_keyPath (Nat.le_of_lt hd)
  have hbit : (keyPath key).getD d false = keyBit key d := by
    simp [keyPath, hd]
  rw [hs.nodes (d + 1) hd, prefixPath_toggle hd, subtreeOf, length_append, length_prefixPath, hp,
    hbit, length_singleton, Nat.zero_add, Nat.add_comm 1 d, Nat.sub_sub, Nat.add_comm 1 d]
  simp

/-- The set with the given keys, newest first, inserted one after the other. -/
def ofKeys (C : Crypto) (domain : AccumulatorDomain) :
    List AccumulatorKey → AccumulatorM ReferenceSet
  | [] => .ok (new C domain)
  | key :: keys => do
    let s ← ofKeys C domain keys
    s.insert C key

theorem ofKeys_ok (hz : ∀ key ∈ keys, key ≠ 0) (hn : keys.Nodup) (hsm : keys.length < 2 ^ 64) :
    ∃ s, ofKeys C domain keys = .ok s ∧ s.WellFormed C ∧ s.domain = domain ∧ s.keys = keys := by
  induction keys with
  | nil => exact ⟨new C domain, rfl, wellFormed_new, rfl, rfl⟩
  | cons key keys ih =>
    obtain ⟨hf, hn⟩ := nodup_cons.1 hn
    obtain ⟨s, hs, hwf, hd, hke⟩ := ih (fun k hk => hz k (mem_cons_of_mem _ hk))
      hn (lt_of_succ_lt hsm)
    obtain ⟨s', hs'⟩ : ∃ s', s.insert C key = .ok s' :=
      insert_eq_ok (hz key mem_cons_self) (hke ▸ hf) (hke ▸ hsm)
    obtain ⟨hwf', hd', hk'⟩ := wellFormed_insert hwf hs'
    refine ⟨s', ?_, hwf', hd'.trans hd, by rw [hk', hke]⟩
    rw [ofKeys, hs]
    exact hs'

end ReferenceSet

open ReferenceSet

/-! ## Runs -/

section Runs

variable {C : Crypto} {domain : AccumulatorDomain}

/-- One attempt: a rejected one leaves the commitment as it was.  The accepted keys are collected,
newest first. -/
def insertAttempt (C : Crypto) (run : SetCommitment × List AccumulatorKey)
    (attempt : AccumulatorKey × NonMembershipWitness) : SetCommitment × List AccumulatorKey :=
  match run.1.insert C attempt.1 attempt.2 with
  | .ok next => (next, attempt.1 :: run.2)
  | .error _ => run

abbrev Attempts := List (AccumulatorKey × NonMembershipWitness)

variable (C domain) in
def insertAttempts (attempts : Attempts) :
    SetCommitment × List AccumulatorKey :=
  attempts.foldl (insertAttempt C) (SetCommitment.empty C domain, [])

/-- What holds of the commitment and the accepted keys throughout a run. -/
structure InsertInv (C : Crypto) (domain : AccumulatorDomain)
    (run : SetCommitment × List AccumulatorKey) : Prop where
  commitment : run.1 = commitmentOf C domain run.2
  nonzero : ∀ key ∈ run.2, key ≠ 0
  nodup : run.2.Nodup
  small : run.2.length < 2 ^ 64

theorem insertInv_attempt (hash : Injective C.shake256)
    {run : SetCommitment × List AccumulatorKey} (h : InsertInv C domain run)
    (attempt : AccumulatorKey × NonMembershipWitness) :
    InsertInv C domain (insertAttempt C run attempt) := by
  unfold insertAttempt
  cases hn : run.1.insert C attempt.1 attempt.2 with
  | error e => exact h
  | ok next =>
    rw [h.commitment] at hn
    obtain ⟨hz, hf, hc, hs⟩ := SetCommitment.insert_ok hash hn
    exact ⟨hc, forall_mem_cons.2 ⟨hz, h.nonzero⟩, nodup_cons.2 ⟨hf, h.nodup⟩, hs⟩

theorem insertInv_attempts (hash : Injective C.shake256) (attempts : Attempts) :
    InsertInv C domain (insertAttempts C domain attempts) := by
  have hf : ∀ run, InsertInv C domain run →
      InsertInv C domain (attempts.foldl (insertAttempt C) run) := by
    induction attempts with
    | nil =>
      intro run h
      exact h
    | cons attempt attempts ih =>
      intro run h
      exact ih _ (insertInv_attempt hash h attempt)
  refine hf _ ⟨empty_eq, ?_, nodup_nil, Nat.two_pow_pos 64⟩
  intro key hkey
  cases hkey

theorem exists_insertAttempts {keys : List AccumulatorKey} (hz : ∀ key ∈ keys, key ≠ 0)
    (hn : keys.Nodup) (hs : keys.length < 2 ^ 64) :
    ∃ attempts, insertAttempts C domain attempts = (commitmentOf C domain keys, keys) := by
  induction keys with
  | nil => exact ⟨[], by rw [insertAttempts, foldl_nil, empty_eq]⟩
  | cons key keys ih =>
    obtain ⟨hf, hn⟩ := nodup_cons.1 hn
    obtain ⟨attempts, hrun⟩ := ih (fun k hk => hz k (mem_cons_of_mem _ hk)) hn (lt_of_succ_lt hs)
    refine ⟨attempts ++ [(key, ⟨key, siblingsOf C domain keys key⟩)], ?_⟩
    have hne := @SetCommitment.insert_siblings C domain keys key (hz key mem_cons_self) hf
    rw [if_pos hs] at hne
    have hfo : attempts.foldl (insertAttempt C) (SetCommitment.empty C domain, []) =
        (commitmentOf C domain keys, keys) := hrun
    rw [insertAttempts, foldl_append, hfo, foldl_cons, foldl_nil, insertAttempt, hne]

theorem commitmentOf_perm {keys keys' : List AccumulatorKey} (h : keys.Perm keys') :
    commitmentOf C domain keys = commitmentOf C domain keys' := by
  have hle : leafOf C domain keys = leafOf C domain keys' := by
    funext path
    by_cases hp : ∃ key ∈ keys, keyPath key = path
    · obtain ⟨key, hkey, rfl⟩ := hp
      rw [leafOf_of_mem hkey, leafOf_of_mem (h.mem_iff.1 hkey)]
    · have hn : ∀ l : List AccumulatorKey, l.Perm keys →
          l.find? (fun k => decide (keyPath k = path)) = none := by
        intro l hl
        rw [find?_eq_none]
        exact fun k hk heq => hp ⟨k, hl.mem_iff.1 hk, of_decide_eq_true heq⟩
      rw [leafOf, leafOf, hn keys (Perm.refl _), hn keys' h.symm]
  rw [commitmentOf, commitmentOf, treeRootOf, treeRootOf, hle, h.length_eq]

/-- **The accumulator is the explicit set.**  After any attempts the accepted keys are nonzero and
distinct, the commitment and the count are those of the explicit set of these keys however it was
filled, no witness inserts an accepted key again, and the explicit set's witness of any other
nonzero key is accepted as long as the count fits in 64 bits. -/
theorem accumulator_refines_reference (hash : Injective C.shake256) (attempts : Attempts)
    {commitment : SetCommitment} {accepted : List AccumulatorKey}
    (hrun : insertAttempts C domain attempts = (commitment, accepted)) :
    (∀ key ∈ accepted, key ≠ 0) ∧ accepted.Nodup ∧
    (∀ key ∈ accepted, ∀ witness next, commitment.insert C key witness ≠ .ok next) ∧
    ∀ order, order.Perm accepted →
      ∃ reference, ReferenceSet.ofKeys C domain order = .ok reference ∧
        reference.commitment = commitment ∧ commitment.count = accepted.length ∧
        ∀ key, key ≠ 0 → key ∉ accepted →
          ∃ witness, reference.nonMembershipWitness C key = .ok witness ∧
            commitment.insert C key witness =
              if accepted.length + 1 < 2 ^ 64 then .ok (commitmentOf C domain (key :: accepted))
              else .error .overflow := by
  have hinv : InsertInv C domain (commitment, accepted) := hrun ▸ insertInv_attempts hash attempts
  obtain rfl : commitment = commitmentOf C domain accepted := hinv.commitment
  refine ⟨hinv.nonzero, hinv.nodup, ?_, ?_⟩
  · intro key hkey witness next hn
    exact (SetCommitment.insert_ok hash hn).2.1 hkey
  · intro order ho
    obtain ⟨reference, href, hwf, hd, hk⟩ := @ReferenceSet.ofKeys_ok C domain order
      (fun key hkey => hinv.nonzero key (ho.mem_iff.1 hkey))
      (ho.nodup_iff.2 hinv.nodup) (ho.length_eq ▸ hinv.small)
    have hs : commitmentOf C domain order = commitmentOf C domain accepted := commitmentOf_perm ho
    refine ⟨reference, href, ?_, rfl, ?_⟩
    · rw [hwf.commitment, hd, hk, hs]
    · intro key hz hf
      have hor : key ∉ order := fun hmem => hf (ho.mem_iff.1 hmem)
      refine ⟨_, nonMembershipWitness_eq hwf hz (hk ▸ hor), ?_⟩
      have hn := @SetCommitment.insert_siblings C domain order key hz hor
      rw [hs, commitmentOf_perm (ho.cons key), length_cons, ho.length_eq] at hn
      rw [hd, hk]
      exact hn

theorem exists_insertAttempts_two {key key' : AccumulatorKey} (hz : key ≠ 0) (hz' : key' ≠ 0)
    (hne : key ≠ key') : ∃ attempts,
      insertAttempts C domain attempts = (commitmentOf C domain [key, key'], [key, key']) :=
  exists_insertAttempts (forall_mem_cons.2 ⟨hz, forall_mem_singleton.2 hz'⟩) (by simp [hne])
    (by decide : 2 < 2 ^ 64)

theorem accumulator_refines_reference_two : ∃ attempts reference,
    insertAttempts .transparent .nullifier attempts =
      (commitmentOf .transparent .nullifier [1, 2], [1, 2]) ∧
    (∀ key ∈ [1, 2], ∀ witness next,
      (commitmentOf .transparent .nullifier [1, 2]).insert .transparent key witness ≠ .ok next) ∧
    ReferenceSet.ofKeys .transparent .nullifier [2, 1] = .ok reference ∧
    reference.commitment = commitmentOf .transparent .nullifier [1, 2] := by
  obtain ⟨attempts, hrun⟩ := @exists_insertAttempts_two .transparent .nullifier 1 2
    (by decide +kernel) (by decide +kernel) (by decide +kernel)
  have hall := accumulator_refines_reference Crypto.transparent_injective _ hrun
  obtain ⟨reference, href, hc, -⟩ := hall.2.2.2 [2, 1] (.swap ..)
  exact ⟨attempts, reference, hrun, hall.2.2.1, href, hc⟩

/-- **The commitment determines the set**: two runs that end in one commitment have accepted the
same keys, in the same domain. -/
theorem commitment_determines_keys (hash : Injective C.shake256) {domain' : AccumulatorDomain}
    {attempts attempts' : Attempts}
    (h : (insertAttempts C domain attempts).1 = (insertAttempts C domain' attempts').1) :
    domain = domain' ∧
      (insertAttempts C domain attempts).2.Perm (insertAttempts C domain' attempts').2 := by
  have hi : InsertInv C domain _ := insertInv_attempts hash attempts
  have hi' : InsertInv C domain' _ := insertInv_attempts hash attempts'
  rw [hi.commitment, hi'.commitment, commitmentOf, commitmentOf, SetCommitment.mk.injEq] at h
  obtain ⟨rfl, hroot, -⟩ := h
  have hmem (keys : List AccumulatorKey) (key : AccumulatorKey) :
      key ∈ keys ↔ leafOf C domain keys (keyPath key) = setLeaf C domain key := by
    refine ⟨leafOf_of_mem, fun h => by_contra fun hn => ?_⟩
    exact setLeaf_ne_empty hash key (h.symm.trans (leafOf_of_not_mem hn))
  refine ⟨rfl, (perm_ext_iff_of_nodup hi.nodup hi'.nodup).2 fun key => ?_⟩
  -- the siblings of the key in the first tree lead to the root of the second
  have hp := length_keyPath key
  have hl := (fold_eq_root (setNode_injective hash) hp (length_siblings _ 0 _ _ hp)
    ((fold_siblings_self hp).trans (setCommitmentRoot_inj hash hroot).2)).1
  rw [hmem, hmem, hl]

theorem either_order_same_keys : ∃ attempts attempts',
    (insertAttempts .transparent .nullifier attempts).2 = [1, 2] ∧
    (insertAttempts .transparent .nullifier attempts').2 = [2, 1] ∧
    (insertAttempts .transparent .nullifier attempts).2.Perm
      (insertAttempts .transparent .nullifier attempts').2 := by
  obtain ⟨attempts, hrun⟩ := @exists_insertAttempts_two .transparent .nullifier 1 2
    (by decide +kernel) (by decide +kernel) (by decide +kernel)
  obtain ⟨attempts', hrun'⟩ := @exists_insertAttempts_two .transparent .nullifier 2 1
    (by decide +kernel) (by decide +kernel) (by decide +kernel)
  have hc : (insertAttempts .transparent .nullifier attempts).1 =
      (insertAttempts .transparent .nullifier attempts').1 := by
    rw [hrun, hrun']
    exact commitmentOf_perm (.swap ..)
  exact ⟨attempts, attempts', by rw [hrun], by rw [hrun'],
    (commitment_determines_keys Crypto.transparent_injective hc).2⟩

end Runs

/-! ## The last key -/

def firstKeys (n : Nat) : List AccumulatorKey :=
  (List.range n).map fun i => BitVec.ofNat keyBits (i + 1)

variable {m n : Nat}

theorem ofNat_key_inj (hm : m < 2 ^ keyBits) (hn : n < 2 ^ keyBits)
    (h : BitVec.ofNat keyBits m = BitVec.ofNat keyBits n) : m = n := by
  have ht := congrArg BitVec.toNat h
  rwa [toNat_ofNat, toNat_ofNat, mod_eq_of_lt hm, mod_eq_of_lt hn] at ht

theorem key_not_mem_firstKeys (hn : n < 2 ^ keyBits) (hm : m < 2 ^ keyBits) (h : m = 0 ∨ n < m) :
    BitVec.ofNat keyBits m ∉ firstKeys n := by
  intro hmem
  obtain ⟨i, hi, heq⟩ := mem_map.1 hmem
  have hi : i < n := mem_range.1 hi
  have := ofNat_key_inj (by omega) hm heq
  omega

theorem nodup_firstKeys (hn : n < 2 ^ keyBits) : (firstKeys n).Nodup := by
  refine Nodup.map_on ?_ nodup_range
  intro i hi j hj heq
  have hi : i < n := mem_range.1 hi
  have hj : j < n := mem_range.1 hj
  exact succ.inj (ofNat_key_inj (by omega) (by omega) heq)

/-- After `2 ^ 64 - 1` insertions the explicit set still makes a witness for the next key, and the
accumulator refuses it. -/
theorem exists_overflow (C : Crypto) (domain : AccumulatorDomain) :
    ∃ attempts c accepted ref key w,
      insertAttempts C domain attempts = (c, accepted) ∧
      ofKeys C domain accepted = .ok ref ∧ key ∉ accepted ∧ key ≠ 0 ∧
      ref.nonMembershipWitness C key = .ok w ∧
      c.insert C key w = .error .overflow := by
  have hl : 2 ^ 64 < 2 ^ keyBits := Nat.pow_lt_pow_right (by decide) (by decide)
  -- the list of accepted keys stays symbolic: only its length matters
  obtain ⟨keys, hk⟩ : ∃ keys, firstKeys (2 ^ 64 - 1) = keys := ⟨_, rfl⟩
  have hle : keys.length = 2 ^ 64 - 1 := by simp [← hk, firstKeys]
  have hn : keys.Nodup := hk ▸ nodup_firstKeys (by omega)
  have hz : ∀ key ∈ keys, key ≠ 0 := by
    rintro key hkey rfl
    exact key_not_mem_firstKeys (by omega) (by omega) (.inl rfl) (hk ▸ hkey)
  have hf : BitVec.ofNat keyBits (2 ^ 64) ∉ keys :=
    hk ▸ key_not_mem_firstKeys (by omega) hl (.inr (by omega))
  have hne : BitVec.ofNat keyBits (2 ^ 64) ≠ BitVec.ofNat keyBits 0 := fun h =>
    absurd (ofNat_key_inj hl (Nat.two_pow_pos _) h) (by decide)
  have hs : keys.length < 2 ^ 64 := by omega
  obtain ⟨attempts, hrun⟩ := @exists_insertAttempts C domain keys hz hn hs
  obtain ⟨ref, href, hwf, hd, hr⟩ := @ReferenceSet.ofKeys_ok C domain keys hz hn hs
  have hw := nonMembershipWitness_eq hwf hne (hr ▸ hf)
  refine ⟨attempts, _, keys, ref, _, _, hrun, href, hf, hne, hw, ?_⟩
  have hnex := @SetCommitment.insert_siblings C domain keys _ hne hf
  rw [if_neg (by rw [length_cons]; omega)] at hnex
  rw [hd, hr]
  exact hnex

theorem accumulator_refuses_last_key :
    ∃ attempts commitment accepted reference key witness,
      insertAttempts .transparent .nullifier attempts = (commitment, accepted) ∧
      ReferenceSet.ofKeys .transparent .nullifier accepted = .ok reference ∧
      key ∉ accepted ∧ key ≠ 0 ∧
      reference.nonMembershipWitness .transparent key = .ok witness ∧
      commitment.insert .transparent key witness = .error .overflow :=
  exists_overflow .transparent .nullifier

end ActiveChain
