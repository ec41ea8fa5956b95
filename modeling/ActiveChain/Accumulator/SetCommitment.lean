import ActiveChain.Lib.SparseMerkle
import ActiveChain.Primitives

/-!
# The witnessed set accumulator (`accumulator`)

One digest and a count stand for a set of keys.  An insertion is accepted with a sibling path that
shows the key absent; the digest after it is computed from the same path.

* `SetCommitment`, `SetCommitment.insert` — the constant-size set.
* `leafOf`, `commitmentOf` — the commitment of an explicit list of keys, as a sparse Merkle tree.
* `SetCommitment.insert_ok`, `insert_siblings` — exactly absent keys can be inserted.
-/

namespace ActiveChain

open Except Function List SparseMerkle

/-! ## Keys and hashes -/

inductive AccumulatorError
  | bounds
  | duplicate
  | wrongRoot
  | wrongKey
  | overflow
deriving DecidableEq, Repr

abbrev AccumulatorM := Except AccumulatorError

inductive AccumulatorDomain
  | nullifier
  | spentInput
  | revocation
  | retiredValidatorSet
  | authorizationInvocation
deriving DecidableEq, Repr

def AccumulatorDomain.code : AccumulatorDomain → Nat
  | .nullifier => 1
  | .spentInput => 2
  | .revocation => 3
  | .retiredValidatorSet => 4
  | .authorizationInvocation => 5

def keyBits : Nat := 384

/-- A key: 48 bytes, most significant bit first. -/
abbrev AccumulatorKey := BitVec keyBits

section

variable (key : AccumulatorKey) (depth : Nat)

def keyBit : Bool := key.getMsbD depth

/-- The first `depth` bits, the others zero. -/
def keyPrefix : AccumulatorKey := key &&& ~~~(BitVec.allOnes keyBits >>> depth)

def toggleKeyBit : AccumulatorKey := key ^^^ BitVec.twoPow keyBits (keyBits - 1 - depth)

/-- `set_key_bit(key, depth, true)`. -/
def setKeyBit : AccumulatorKey := key ||| BitVec.twoPow keyBits (keyBits - 1 - depth)

end

section Bits

variable {key : AccumulatorKey} {d i : Nat}

theorem keyBit_keyPrefix (hi : i < keyBits) :
    keyBit (keyPrefix key d) i = (decide (i < d) && keyBit key i) := by
  unfold keyBit keyPrefix
  have hsub : i - d < keyBits := by omega
  by_cases h : i < d <;> simp [h, hi, hsub]

theorem keyBit_toggle (hd : d < keyBits) :
    keyBit (toggleKeyBit key d) i = (keyBit key i ^^ decide (i = d)) := by
  unfold keyBit toggleKeyBit
  have hin : keyBits - 1 - d < keyBits := by omega
  have hpos : (i = keyBits - (keyBits - 1 - d) - 1) ↔ i = d := by omega
  simp [hin, hpos]

theorem keyBit_setKeyBit (hd : d < keyBits) :
    keyBit (setKeyBit key d) i = (keyBit key i || decide (i = d)) := by
  unfold keyBit setKeyBit
  have hin : keyBits - 1 - d < keyBits := by omega
  have hpos : (i = keyBits - (keyBits - 1 - d) - 1) ↔ i = d := by omega
  simp [hin, hpos]

end Bits

section Hashes

variable (C : Crypto) (domain : AccumulatorDomain)

def emptySetLeaf : Digest384 := C.shake256 [.tag "ACTIVECHAIN-SPARSE-SET-EMPTY-V1", .u8 domain.code]

def setLeaf (key : AccumulatorKey) : Digest384 :=
  C.shake256 [.tag "ACTIVECHAIN-SPARSE-SET-LEAF-V1", .u8 domain.code, .digest key.toNat]

def setNode (depth : Nat) (left right : Digest384) : Digest384 :=
  C.shake256 [.tag "ACTIVECHAIN-SPARSE-SET-NODE-V1", .u8 domain.code, .u16 depth, .digest left,
    .digest right]

def setCommitmentRoot (count : Nat) (treeRoot : Digest384) : Digest384 :=
  C.shake256 [.tag "ACTIVECHAIN-SPARSE-SET-ROOT-V1", .u8 domain.code, .u64 count, .digest treeRoot]

/-- `set_empty_hashes`: the digest of an empty subtree at `depth`. -/
def setEmptyHash (depth : Nat) : Digest384 :=
  (List.range' depth (keyBits - depth)).foldr (fun d child => setNode C domain d child child)
    (emptySetLeaf C domain)

/-- From the leaf upwards, with siblings in root-to-leaf order. -/
def foldKey (key : AccumulatorKey) (leaf : Digest384) (siblings : List Digest384) : Digest384 :=
  siblings.zipIdx.foldr (fun (sibling, depth) child =>
    if keyBit key depth then setNode C domain depth sibling child
    else setNode C domain depth child sibling) leaf

end Hashes

/-! ## The constant-size set -/

structure SetCommitment where
  domain : AccumulatorDomain
  root : Digest384
  count : Nat
deriving DecidableEq

structure NonMembershipWitness where
  key : AccumulatorKey
  siblings : List Digest384
deriving DecidableEq

namespace SetCommitment

variable (C : Crypto)

def empty (domain : AccumulatorDomain) : SetCommitment :=
  ⟨domain, setCommitmentRoot C domain 0 (setEmptyHash C domain 0), 0⟩

def insert (s : SetCommitment) (key : AccumulatorKey) (witness : NonMembershipWitness) :
    AccumulatorM SetCommitment := do
  rejectIf (key = 0 ∨ witness.key ≠ key ∨ witness.siblings.length ≠ keyBits) .wrongKey
  let emptyTreeRoot := foldKey C s.domain key (emptySetLeaf C s.domain) witness.siblings
  rejectIf (setCommitmentRoot C s.domain s.count emptyTreeRoot ≠ s.root) .wrongRoot
  let count ← okOr (checkedAdd 64 s.count 1) .overflow
  let treeRoot := foldKey C s.domain key (setLeaf C s.domain key) witness.siblings
  return ⟨s.domain, setCommitmentRoot C s.domain count treeRoot, count⟩

end SetCommitment

/-! ## The explicit set -/

/-- The keys, newest first, and the digest of every nonempty subtree, by depth and key prefix. -/
structure ReferenceSet where
  domain : AccumulatorDomain
  keys : List AccumulatorKey
  nodes : Nat → AccumulatorKey → Option Digest384
  commitment : SetCommitment

namespace ReferenceSet

variable (C : Crypto)

def new (domain : AccumulatorDomain) : ReferenceSet :=
  ⟨domain, [], fun _ _ => none, SetCommitment.empty C domain⟩

def lookup (domain : AccumulatorDomain) (nodes : Nat → AccumulatorKey → Option Digest384)
    (depth : Nat) (key : AccumulatorKey) : Digest384 :=
  (nodes depth key).getD (setEmptyHash C domain depth)

def insertNode (nodes : Nat → AccumulatorKey → Option Digest384) (depth : Nat)
    (key : AccumulatorKey) (digest : Digest384) : Nat → AccumulatorKey → Option Digest384 :=
  fun d k => if d = depth ∧ k = key then some digest else nodes d k

def nonMembershipWitness (s : ReferenceSet) (key : AccumulatorKey) :
    AccumulatorM NonMembershipWitness := do
  rejectIf (key = 0 ∨ key ∈ s.keys) .duplicate
  return ⟨key, (List.range keyBits).map fun depth =>
    lookup C s.domain s.nodes (depth + 1) (keyPrefix (toggleKeyBit key depth) (depth + 1))⟩

/-- One round of the loop in `insert`: hash the node above the key at `depth`. -/
def insertRound (domain : AccumulatorDomain) (key : AccumulatorKey) (depth : Nat)
    (nodes : Nat → AccumulatorKey → Option Digest384) : Nat → AccumulatorKey → Option Digest384 :=
  let parent := keyPrefix key depth
  let left := keyPrefix parent (depth + 1)
  let right := keyPrefix (setKeyBit parent depth) (depth + 1)
  insertNode nodes depth parent (setNode C domain depth (lookup C domain nodes (depth + 1) left)
    (lookup C domain nodes (depth + 1) right))

def insert (s : ReferenceSet) (key : AccumulatorKey) : AccumulatorM ReferenceSet := do
  rejectIf (key = 0 ∨ key ∈ s.keys) .duplicate
  let keys := key :: s.keys
  let leaves := insertNode s.nodes keyBits key (setLeaf C s.domain key)
  let nodes := (List.range keyBits).foldr (insertRound C s.domain key) leaves
  rejectIf (2 ^ 64 ≤ keys.length) .overflow
  let treeRoot := lookup C s.domain nodes 0 0
  return ⟨s.domain, keys, nodes,
    ⟨s.domain, setCommitmentRoot C s.domain keys.length treeRoot, keys.length⟩⟩

end ReferenceSet

/-! ## The tree of a list of keys -/

def keyPath (key : AccumulatorKey) : List Bool := (List.range keyBits).map (keyBit key)

theorem length_keyPath (key : AccumulatorKey) : (keyPath key).length = keyBits := by
  rw [keyPath, length_map, length_range]

theorem keyPath_injective : Injective keyPath := by
  intro k k' h
  refine BitVec.eq_of_getMsbD_eq fun i hi => ?_
  have hbit := congrArg (fun p => p[i]?) h
  simpa [keyPath, hi, keyBit] using hbit

section Tree

variable (C : Crypto) (domain : AccumulatorDomain)

variable (keys : List AccumulatorKey)

def leafOf (path : List Bool) : Digest384 :=
  match keys.find? fun key => keyPath key = path with
  | some key => setLeaf C domain key
  | none => emptySetLeaf C domain

def treeRootOf : Digest384 := SparseMerkle.root (setNode C domain) keyBits 0 (leafOf C domain keys)

def commitmentOf : SetCommitment :=
  ⟨domain, setCommitmentRoot C domain keys.length (treeRootOf C domain keys), keys.length⟩

def siblingsOf (key : AccumulatorKey) : List Digest384 :=
  SparseMerkle.siblings (setNode C domain) keyBits 0 (leafOf C domain keys) (keyPath key)

end Tree

section Tree

variable {C : Crypto} {domain : AccumulatorDomain}

variable {key : AccumulatorKey} {keys : List AccumulatorKey}

theorem leafOf_of_not_mem (h : key ∉ keys) :
    leafOf C domain keys (keyPath key) = emptySetLeaf C domain := by
  have hn : keys.find? (fun k => decide (keyPath k = keyPath key)) = none := by
    rw [find?_eq_none]
    intro k hk heq
    exact h (keyPath_injective (of_decide_eq_true heq) ▸ hk)
  rw [leafOf, hn]

theorem leafOf_of_mem (h : key ∈ keys) :
    leafOf C domain keys (keyPath key) = setLeaf C domain key := by
  cases hf : keys.find? (fun k => decide (keyPath k = keyPath key)) with
  | none =>
    rw [find?_eq_none] at hf
    exact absurd (decide_eq_true rfl) (hf key h)
  | some k =>
    have hk := find?_some hf
    rw [leafOf, hf, keyPath_injective (of_decide_eq_true hk)]

theorem leafOf_cons (keys : List AccumulatorKey) (key : AccumulatorKey) :
    leafOf C domain (key :: keys) =
      update (leafOf C domain keys) (keyPath key) (setLeaf C domain key) := by
  funext path
  by_cases h : path = keyPath key
  · subst h
    rw [update_self, leafOf_of_mem mem_cons_self]
  · rw [update_of_ne h, leafOf, leafOf, find?_cons_of_neg]
    exact fun heq => h (of_decide_eq_true heq).symm

theorem foldKey_eq {siblings : List Digest384} (h : siblings.length = keyBits) (leaf : Digest384) :
    foldKey C domain key leaf siblings = fold (setNode C domain) 0 (keyPath key) siblings leaf := by
  rw [foldKey, foldr_zipIdx, h, keyPath, range_eq_range']

theorem setEmptyHash_eq {n d : Nat} (h : d + n = keyBits) :
    setEmptyHash C domain d = root (setNode C domain) n d fun _ => emptySetLeaf C domain := by
  rw [root_const, setEmptyHash, show keyBits - d = n by omega]

theorem empty_eq : SetCommitment.empty C domain = commitmentOf C domain [] := by
  rw [SetCommitment.empty, setEmptyHash_eq (Nat.zero_add keyBits)]
  rfl

end Tree

/-! ## Insertions -/

section Insert

variable {C : Crypto} {domain : AccumulatorDomain} (hash : Function.Injective C.shake256)
include hash

theorem setNode_injective : NodeInjective (setNode C domain) := by
  intro d l r l' r' h
  have h := hash h
  simp only [Transcript.inversion] at h
  exact h

theorem setCommitmentRoot_inj {count count' : Nat} {tree tree' : Digest384}
    (h : setCommitmentRoot C domain count tree = setCommitmentRoot C domain count' tree') :
    count = count' ∧ tree = tree' := by
  have h := hash h
  simp only [Transcript.inversion] at h
  exact h

theorem setLeaf_ne_empty (key : AccumulatorKey) : setLeaf C domain key ≠ emptySetLeaf C domain := by
  intro h
  have htag := congrArg List.head? (hash h)
  simp at htag

/-- **An accepted insertion is of a fresh nonzero key, and leads to the commitment with it.** -/
theorem SetCommitment.insert_ok {keys : List AccumulatorKey} {key : AccumulatorKey}
    {w : NonMembershipWitness} {next : SetCommitment}
    (h : (commitmentOf C domain keys).insert C key w = .ok next) :
    key ≠ 0 ∧ key ∉ keys ∧ next = commitmentOf C domain (key :: keys) ∧
      (key :: keys).length < 2 ^ 64 := by
  simp only [SetCommitment.insert, inversion] at h
  obtain ⟨⟨hz, -, hl⟩, hr, count, ⟨rfl, hsm⟩, rfl⟩ := h
  -- the path to the empty leaf reaches the root: it is the tree's own path
  have hf : foldKey C domain key (emptySetLeaf C domain) w.siblings =
      treeRootOf C domain keys := (setCommitmentRoot_inj hash hr).2
  rw [foldKey_eq hl] at hf
  obtain ⟨hle, hs⟩ := fold_eq_root (setNode_injective hash) (length_keyPath key) hl hf
  have hfr : key ∉ keys := by
    intro hmem
    rw [leafOf_of_mem hmem] at hle
    exact setLeaf_ne_empty hash key hle.symm
  have hn : foldKey C domain key (setLeaf C domain key) w.siblings =
      treeRootOf C domain (key :: keys) := by
    rw [foldKey_eq hl, hs, fold_siblings _ (length_keyPath key), ← leafOf_cons]
    rfl
  refine ⟨hz, hfr, ?_, hsm⟩
  exact congrArg (fun tree => (⟨domain, setCommitmentRoot C domain (keys.length + 1) tree,
    keys.length + 1⟩ : SetCommitment)) hn

omit hash in
/-- **The tree's own siblings are accepted for every absent nonzero key**, while the count fits. -/
theorem SetCommitment.insert_siblings {keys : List AccumulatorKey} {key : AccumulatorKey}
    (hz : key ≠ 0) (hf : key ∉ keys) :
    (commitmentOf C domain keys).insert C key ⟨key, siblingsOf C domain keys key⟩ =
      if (key :: keys).length < 2 ^ 64 then .ok (commitmentOf C domain (key :: keys))
      else .error .overflow := by
  have hl : (siblingsOf C domain keys key).length = keyBits :=
    length_siblings _ _ _ _ (length_keyPath key)
  have he : foldKey C domain key (emptySetLeaf C domain) (siblingsOf C domain keys key) =
      treeRootOf C domain keys := by
    rw [foldKey_eq hl, ← leafOf_of_not_mem hf]
    exact fold_siblings_self (length_keyPath key)
  have hfu : foldKey C domain key (setLeaf C domain key) (siblingsOf C domain keys key) =
      treeRootOf C domain (key :: keys) := by
    rw [foldKey_eq hl, siblingsOf, fold_siblings _ (length_keyPath key), ← leafOf_cons]
    rfl
  have hg : ¬ (key = 0 ∨ key ≠ key ∨ (siblingsOf C domain keys key).length ≠ keyBits) :=
    fun h => h.elim hz fun h => h.elim (fun h => h rfl) fun h => h hl
  have hr : ¬ (setCommitmentRoot C domain keys.length
      (foldKey C domain key (emptySetLeaf C domain) (siblingsOf C domain keys key)) ≠
      setCommitmentRoot C domain keys.length (treeRootOf C domain keys)) := by
    rw [he]
    exact not_not.2 rfl
  unfold SetCommitment.insert commitmentOf
  dsimp only
  rw [rejectIf_of_not hg, rejectIf_of_not hr, ok_bind, ok_bind, hfu, checkedAdd, length_cons]
  split <;> rfl

end Insert

end ActiveChain
