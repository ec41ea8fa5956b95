import ActiveChain.Cash.Intents
import ActiveChain.Lib.BitPath
import ActiveChain.Lib.Fault

/-!
# The tree behind the authenticated coin cells (`cash-kernel::authenticated`)

The cells of a set hang at the leaves of a binary tree with one level per bit of their identifiers;
the authenticated root hashes the number of cells over the tree's root.  The builder keeps the
nonempty nodes of one level at a time.

* `leafAt`, `treeOf`, `rootOf`, `cellSiblings` — the tree as a function of the cells.
* `buildTree_eq` — **the builder computes the tree and the siblings.**
* `reconstructTree_eq` — the reconstruction is the fold of the sparse tree.

Identifiers are numbers here; that they have 48 bytes is `CoinCellSet.IdsFit`.
-/

namespace ActiveChain

open BitPath Except List SortedMap SparseMerkle

/-- Kept folded: unfolding a tree of this depth does not end. -/
@[irreducible] def authenticatedCashDepth : Nat := 384

/-- The encoder's bound always holds, so `Encoding` does not occur. -/
inductive CoinCellMutationError
  | invalidShape
  | wrongRoot
  | wrongRecord
  | capacity
deriving DecidableEq, Repr

abbrev MutationM : Type → Type := Except (Fault CoinCellMutationError)

/-! ## Hashes -/

section Hashes

variable (C : Crypto)

/-- `transcript_prefix`. -/
def cellTranscript (kind : Nat) (body : Transcript) : Transcript :=
  [.tag "ACTIVECHAIN-AUTHENTICATED-COIN-CELLS", .u16 1, .u8 kind] ++ body

variable (record : CoinCellRecord)

def recordBody : Transcript :=
  [.digest record.1, .digest record.2.origin.transitionId, .u16 record.2.origin.outputIndex,
    .digest record.2.owner, .u128 record.2.amount, .u64 record.2.creationHeight]

/-- `CoinCellRecord::MAX_ENCODED_LEN`, the length of every encoded record. -/
def recordLength : Nat := 170

def recordHasCanonicalId : Prop :=
  coinCellId C record.2.origin = record.1
deriving Decidable

def leafDigest : Digest384 :=
  C.shake256 (cellTranscript 0 ([.digest record.1, .u32 recordLength] ++ recordBody record))

/-- `authenticated_empty_coin_cell_leaf_hash`, also `empty_leaf`. -/
def emptyLeaf : Digest384 := C.shake256 (cellTranscript 1 [])

variable (depth : Nat) (left right : Digest384)

def nodeDigest : Digest384 :=
  C.shake256 (cellTranscript 2 [.u16 depth, .digest left, .digest right])

variable (count : Nat) (tree : Digest384)

def rootDigest : Digest384 := C.shake256 (cellTranscript 3 [.u32 count, .digest tree])

def authenticatedCoinCellLeafHash : Except CoinCellMutationError Digest384 := do
  rejectIf (¬ recordHasCanonicalId C record) .wrongRecord
  return leafDigest C record

def authenticatedCoinCellNodeHash : Except CoinCellMutationError Digest384 := do
  rejectIf (authenticatedCashDepth ≤ depth) .invalidShape
  return nodeDigest C depth left right

def authenticatedCoinCellCountRootHash : Except CoinCellMutationError Digest384 := do
  rejectIf (maxCoinCells < count) .capacity
  return rootDigest C count tree

def hashLeaf : MutationM Digest384 :=
  (authenticatedCoinCellLeafHash C record).mapError .error

def hashNode : MutationM Digest384 :=
  expectOk (authenticatedCoinCellNodeHash C depth left right)
    "internal authenticated cash depth is bounded"

def hashRoot : MutationM Digest384 :=
  expectOk (authenticatedCoinCellCountRootHash C count tree)
    "internal authenticated cash count is bounded"

/-- The digest of an empty subtree at every depth, from the root down. -/
def emptyHashes : MutationM (List Digest384) :=
  (List.range authenticatedCashDepth).foldrM (fun depth hashes => do
    let child := hashes.headD Digest384.zero
    return (← hashNode C depth child child) :: hashes) [emptyLeaf C]

end Hashes

/-! ## Paths and levels -/

section Trees

variable (C : Crypto)

def bit (key depth : Nat) : Bool := BitPath.bit authenticatedCashDepth key depth

def toggleBit (key depth : Nat) : Nat := BitPath.toggle authenticatedCashDepth key depth

def clearBit (key depth : Nat) : Nat := BitPath.clear authenticatedCashDepth key depth

def setBit (key depth : Nat) : Nat := BitPath.set authenticatedCashDepth key depth

/-- One sibling of `reconstruct_tree`, `offset` levels above the leaf. -/
def pathRound (id : CoinCellId) (current : Digest384) (sibling : Digest384 × Nat) :
    MutationM Digest384 :=
  let depth := authenticatedCashDepth - 1 - sibling.2
  if bit id depth then hashNode C depth sibling.1 current else hashNode C depth current sibling.1

/-- Siblings from the leaf upwards. -/
def reconstructTree (id : CoinCellId) (leaf : Option Digest384) (siblings : List Digest384) :
    MutationM Digest384 := do
  rejectIf (siblings.length ≠ authenticatedCashDepth) (.error .invalidShape)
  siblings.zipIdx.foldlM (pathRound C id) (leaf.getD (emptyLeaf C))

/-- The nonempty nodes of one level, by key. -/
abbrev TreeLevel := SortedMap Nat Digest384

variable (level : TreeLevel) (empty : Digest384)

/-- The digest of a node, empty if the level has none. -/
def TreeLevel.lookup (key : Nat) : Digest384 := (level.get? key).getD empty

def leafRound (record : CoinCellRecord) : MutationM TreeLevel := do
  rejectIf (¬ recordHasCanonicalId C record) (.error .wrongRecord)
  let leaf ← hashLeaf C record
  rejectIf (level.contains record.1) (.error .wrongRecord)
  return level.insert record.1 leaf

def leafLevel (records : List CoinCellRecord) : MutationM TreeLevel :=
  records.foldlM (leafRound C) SortedMap.empty

/-- One key of a level: hash its parent at `depth`, unless that has been done. -/
def parentRound (depth : Nat) (parents : TreeLevel) (key : Nat) : MutationM TreeLevel := do
  let parent := clearBit key depth
  if parents.contains parent then return parents
  let right := setBit parent depth
  return parents.insert parent
    (← hashNode C depth (level.lookup empty parent) (level.lookup empty right))

/-- The level above, at `depth`. -/
def parentLevel (depth : Nat) : MutationM TreeLevel :=
  level.keys.foldlM (parentRound C level empty depth) SortedMap.empty

/-- The loop of `build_tree`, with the siblings found so far. -/
def buildLevels (empty : List Digest384) : Nat → TreeLevel → Option Nat → List Digest384 →
    MutationM (TreeLevel × List Digest384)
  | 0, level, _, siblings => .ok (level, siblings)
  | depth + 1, level, target, siblings => do
    let empty' := empty.getD (depth + 1) Digest384.zero
    let sibling := target.toList.map fun key => level.lookup empty' (toggleBit key depth)
    let parents ← parentLevel C level empty' depth
    buildLevels empty depth parents (target.map (clearBit · depth)) (siblings ++ sibling)

/-- The root of the tree, and the siblings of `proofId` from the leaf upwards. -/
def buildTree (cells : CoinCellSet) (proofId : Option CoinCellId) :
    MutationM (Digest384 × List Digest384) := do
  let empty ← emptyHashes C
  let level ← leafLevel C cells.cells.entries
  let (level, siblings) ← buildLevels C empty authenticatedCashDepth level proofId []
  return (level.values.headD (empty.getD 0 Digest384.zero), siblings)

def authenticatedCoinCellRoot (cells : CoinCellSet) : MutationM Digest384 := do
  let (tree, _) ← buildTree C cells none
  hashRoot C cells.cells.length tree

end Trees

section Hashes

variable {C : Crypto}

@[simp] theorem hashNode_of_lt {d : Nat} {left right : Digest384} (h : d < authenticatedCashDepth) :
    hashNode C d left right = .ok (nodeDigest C d left right) := by
  rw [hashNode, expectOk_eq_ok, authenticatedCoinCellNodeHash, rejectIf_of_not (Nat.not_le_of_lt h)]
  rfl

variable {tree : Digest384} {count : Nat}

theorem hashRoot_of_le (h : count ≤ maxCoinCells) :
    hashRoot C count tree = .ok (rootDigest C count tree) := by
  rw [hashRoot, expectOk_eq_ok, authenticatedCoinCellCountRootHash,
    rejectIf_of_not (Nat.not_lt_of_le h)]
  rfl

theorem hashRoot_of_lt (h : maxCoinCells < count) :
    hashRoot C count tree = .error (.panic "internal authenticated cash count is bounded") := by
  rw [hashRoot, authenticatedCoinCellCountRootHash, rejectIf, if_pos h]
  rfl

theorem hashLeaf_eq_ok {r : CoinCellRecord} {leaf : Digest384} :
    hashLeaf C r = .ok leaf ↔ recordHasCanonicalId C r ∧ leafDigest C r = leaf := by
  simp only [hashLeaf, inversion, authenticatedCoinCellLeafHash]

end Hashes

/-! ## The tree as a function of its leaves -/

section Levels

variable {C : Crypto} {leaf : List Bool → Digest384}

def emptyDigest (C : Crypto) (depth : Nat) : Digest384 :=
  root (nodeDigest C) (authenticatedCashDepth - depth) depth fun _ => emptyLeaf C

variable {d : Nat}

theorem emptyDigest_succ (h : d < authenticatedCashDepth) :
    emptyDigest C d =
      nodeDigest C d (emptyDigest C (d + 1)) (emptyDigest C (d + 1)) := by
  rw [emptyDigest, show authenticatedCashDepth - d = authenticatedCashDepth - (d + 1) + 1
    by omega, root, emptyDigest]

theorem emptyHashes_from (n : Nat) : ∀ d, d + n = authenticatedCashDepth →
    (range' d n).foldrM (fun d hashes => do
      let child := hashes.headD Digest384.zero
      return (← hashNode C d child child) :: hashes) [emptyLeaf C] =
    .ok ((range' d (n + 1)).map (emptyDigest C)) := by
  induction n with
  | zero =>
    intro d hd
    have hl : emptyDigest C d = emptyLeaf C := by
      rw [emptyDigest, show authenticatedCashDepth - d = 0 by omega, root]
    simp [hl, pure, Except.pure]
  | succ n ih =>
    intro d hd
    have hc : ((range' (d + 1) (n + 1)).map (emptyDigest C)).headD Digest384.zero =
        emptyDigest C (d + 1) := rfl
    rw [range'_succ, foldrM_cons, ih (d + 1) (by omega), ok_bind, hc]
    dsimp only
    rw [hashNode_of_lt (by omega), ← emptyDigest_succ (by omega)]
    rfl

theorem emptyHashes_eq :
    emptyHashes C = .ok ((range (authenticatedCashDepth + 1)).map (emptyDigest C)) := by
  rw [emptyHashes, range_eq_range', range_eq_range',
    emptyHashes_from authenticatedCashDepth 0 (by omega)]

variable {depth : Nat}

theorem getD_emptyHashes (h : depth ≤ authenticatedCashDepth) :
    ((range (authenticatedCashDepth + 1)).map (emptyDigest C)).getD depth Digest384.zero =
      emptyDigest C depth := by
  simp [Nat.lt_succ_of_le h]

/-- The level holds the digest of every nonempty subtree at a depth. -/
structure LevelOf (C : Crypto) (leaf : List Bool → Digest384) (depth : Nat) (level : TreeLevel) :
    Prop where
  aligned : ∀ key digest, level.get? key = some digest → Aligned authenticatedCashDepth depth key
  digest : ∀ key, Aligned authenticatedCashDepth depth key →
    level.lookup (emptyDigest C depth) key =
      subtree (nodeDigest C) authenticatedCashDepth leaf (pathTo authenticatedCashDepth key depth)

theorem parentRounds (level : TreeLevel) (empty : Digest384) (hd : d < authenticatedCashDepth) :
    ∀ (keys : List Nat) (ps : TreeLevel),
      (∀ key digest, ps.get? key = some digest → digest =
        nodeDigest C d (level.lookup empty key) (level.lookup empty (setBit key d))) →
      ∃ parents', keys.foldlM (parentRound C level empty d) ps = .ok parents' ∧
        ∀ key, parents'.get? key = if key ∈ keys.map (clearBit · d) then
          some (nodeDigest C d (level.lookup empty key) (level.lookup empty (setBit key d)))
        else ps.get? key
  | [], ps, _ => ⟨ps, rfl, fun _ => rfl⟩
  | key :: rest, ps, hp => by
    -- the parent of the first key is there after its round, whoever put it there
    obtain ⟨next, hr, hn⟩ : ∃ next, parentRound C level empty d ps key = .ok next ∧
        ∀ k, next.get? k = if k = clearBit key d then
          some (nodeDigest C d (level.lookup empty k) (level.lookup empty (setBit k d)))
        else ps.get? k := by
      unfold parentRound
      dsimp only
      split_ifs with hdo
      · refine ⟨ps, rfl, fun k => ?_⟩
        obtain ⟨digest, hget⟩ := Option.isSome_iff_exists.1 hdo
        split_ifs with hk
        · rw [hk, hget, hp _ _ hget]
        · rfl
      · rw [hashNode_of_lt hd]
        refine ⟨_, rfl, fun k => ?_⟩
        rw [get?_insert]
        split_ifs with hk
        · rw [hk]
        · rfl
    obtain ⟨parents', hrun, hget⟩ := parentRounds level empty hd rest next fun k digest hk => by
      rw [hn] at hk
      split_ifs at hk with heq
      · exact (Option.some.inj hk).symm
      · exact hp k digest hk
    refine ⟨parents', ?_, fun k => ?_⟩
    · rw [foldlM_cons, hr, ok_bind, hrun]
    · rw [hget, hn, map_cons]
      by_cases hf : k = clearBit key d <;>
        by_cases hl : k ∈ rest.map (clearBit · d) <;> simp [hf, hl]

/-- **The parents of a level are the level above.** -/
theorem LevelOf.parentLevel {level : TreeLevel} (h : LevelOf C leaf (d + 1) level)
    (hd : d < authenticatedCashDepth) : ∃ parents,
      parentLevel C level (emptyDigest C (d + 1)) d = .ok parents ∧
        LevelOf C leaf d parents := by
  obtain ⟨parents, hrun, hget⟩ := parentRounds (C := C) level (emptyDigest C (d + 1)) hd
    level.keys empty fun _ _ hn => by simp at hn
  have hkey : ∀ {key : Nat}, key ∈ level.keys → Aligned authenticatedCashDepth (d + 1) key := by
    intro key hmem
    obtain ⟨⟨k, digest⟩, he, rfl⟩ := mem_map.1 hmem
    exact h.aligned k digest (mem_entries.1 he)
  have hno : ∀ key, Aligned authenticatedCashDepth d key →
      nodeDigest C d (level.lookup (emptyDigest C (d + 1)) key)
        (level.lookup (emptyDigest C (d + 1)) (setBit key d)) =
      subtree (nodeDigest C) authenticatedCashDepth leaf
        (pathTo authenticatedCashDepth key d) := by
    intro key hal
    have hl : (pathTo authenticatedCashDepth key d).length < authenticatedCashDepth := by
      rwa [length_pathTo]
    rw [h.digest key hal.succ, setBit, h.digest _ (hal.set hd), pathTo_left hd hal, pathTo_set hd,
      subtree_split hl, length_pathTo]
  refine ⟨parents, hrun, ?_, ?_⟩
  · intro key digest hs
    rw [hget] at hs
    split_ifs at hs with hmem
    · obtain ⟨child, hc, rfl⟩ := mem_map.1 hmem
      exact (hkey hc).clear hd
    · simp at hs
  · intro key hal
    rw [← hno key hal, TreeLevel.lookup, hget]
    split_ifs with hmem
    · rfl
    · -- no child: both subtrees are empty, and so is the node
      have hab : ∀ child, clearBit child d = key → level.get? child = none := by
        intro child hc
        by_contra hs
        obtain ⟨digest, hdi⟩ := Option.ne_none_iff_exists'.1 hs
        refine hmem (mem_map.2 ⟨child, ?_, hc⟩)
        exact mem_map.2 ⟨(child, digest), mem_entries.2 hdi, rfl⟩
      rw [TreeLevel.lookup, TreeLevel.lookup, hab key (clear_of_aligned hd hal),
        hab (setBit key d) (clear_set hd hal)]
      exact emptyDigest_succ hd

/-- The siblings that the loop collects from a depth to the root. -/
def siblingsAbove (C : Crypto) (leaf : List Bool → Digest384) (key depth : Nat) : List Digest384 :=
  (List.range depth).reverse.map fun d => subtree (nodeDigest C) authenticatedCashDepth leaf
    (pathTo authenticatedCashDepth key d ++ [!bit key d])

variable {key : Nat}

theorem siblingsAbove_succ : siblingsAbove C leaf key (depth + 1) =
    subtree (nodeDigest C) authenticatedCashDepth leaf
      (pathTo authenticatedCashDepth key depth ++ [!bit key depth]) ::
    siblingsAbove C leaf key depth := by
  simp [siblingsAbove, range_succ]

theorem siblingsAbove_clearBit (hde : depth < authenticatedCashDepth) :
    siblingsAbove C leaf (clearBit key depth) depth = siblingsAbove C leaf key depth := by
  have hbit : ∀ i < depth, bit (clearBit key depth) i = bit key i := by
    intro i hi
    rw [bit, clearBit, bit_clear hde (by omega)]
    simp [bit, show i ≠ depth by omega]
  refine map_congr_left fun d hd => ?_
  have hd : d < depth := by simpa using hd
  have hp : pathTo authenticatedCashDepth (clearBit key depth) d =
      pathTo authenticatedCashDepth key d :=
    pathTo_congr fun i hi => hbit i (by omega)
  rw [hbit d hd, hp]

/-- **The loop climbs to the root and collects the siblings of the target.** -/
theorem LevelOf.buildLevels (d : Nat) : ∀ (level : TreeLevel) (target : Option Nat)
    (siblings : List Digest384), d ≤ authenticatedCashDepth → LevelOf C leaf d level →
      (∀ key ∈ target, Aligned authenticatedCashDepth d key) → ∃ top,
        buildLevels C ((range (authenticatedCashDepth + 1)).map (emptyDigest C)) d level
          target siblings =
            .ok (top, siblings ++ target.elim [] fun key => siblingsAbove C leaf key d) ∧
        LevelOf C leaf 0 top := by
  induction d with
  | zero =>
    intro level target siblings _ hl _
    refine ⟨level, ?_, hl⟩
    cases target <;> simp [ActiveChain.buildLevels, siblingsAbove]
  | succ d ih =>
    intro level target siblings hd hl ht
    have hlt : d < authenticatedCashDepth := hd
    obtain ⟨ps, hp, hab⟩ := hl.parentLevel hlt
    obtain ⟨top, hrun, htop⟩ := ih ps (target.map (clearBit · d))
      (siblings ++ target.toList.map fun key =>
        level.lookup (emptyDigest C (d + 1)) (toggleBit key d)) hlt.le hab
      fun key hkey => by
        obtain ⟨child, hc, rfl⟩ := Option.mem_map.1 hkey
        exact (ht child hc).clear hlt
    refine ⟨top, ?_, htop⟩
    rw [ActiveChain.buildLevels, getD_emptyHashes hd, hp, ok_bind, hrun]
    cases target with
    | none => simp
    | some key =>
      have hkey := ht key rfl
      have hs : level.lookup (emptyDigest C (d + 1)) (toggleBit key d) =
          subtree (nodeDigest C) authenticatedCashDepth leaf
            (pathTo authenticatedCashDepth key d ++ [!bit key d]) := by
        rw [toggleBit, hl.digest _ (hkey.toggle hlt), pathTo_toggle hlt]
        rfl
      simp [hs, siblingsAbove_succ, siblingsAbove_clearBit hlt]

theorem LevelOf.headD {top : TreeLevel} (h : LevelOf C leaf 0 top) :
    top.values.headD (emptyDigest C 0) =
      root (nodeDigest C) authenticatedCashDepth 0 leaf := by
  rw [← subtree_nil, ← pathTo_zero, ← h.digest 0 Aligned.zero]
  unfold TreeLevel.lookup
  have hk : ∀ e ∈ top.entries, e.1 = 0 := fun e he =>
    (h.aligned e.1 e.2 (mem_entries.1 he)).eq_zero
  obtain ⟨es, sorted⟩ := top
  cases es with
  | nil => rfl
  | cons e rest =>
    have hz : e.1 = 0 := hk e mem_cons_self
    simp [values, get?, lookupEntry, hz]

end Levels

/-! ## The tree of a set of cells -/

section Cells

/-- Every identifier has 48 bytes. -/
def CoinCellSet.IdsFit (cells : CoinCellSet) : Prop :=
  ∀ id cell, cells.cells.get? id = some cell → BitPath.Fits authenticatedCashDepth id

/-- Every identifier is the one of its cell's origin. -/
def CoinCellSet.Canonical (C : Crypto) (cells : CoinCellSet) : Prop :=
  ∀ id cell, cells.cells.get? id = some cell → recordHasCanonicalId C (id, cell)

variable (C : Crypto)

/-- The leaf of an identifier that may hold a cell. -/
def slotDigest (id : CoinCellId) (slot : Option CoinCell) : Digest384 :=
  slot.elim (emptyLeaf C) fun cell => leafDigest C (id, cell)

section

variable (cells : CoinCellSet)

def leafAt (path : List Bool) : Digest384 :=
  slotDigest C (ofPath authenticatedCashDepth path)
    (cells.cells.get? (ofPath authenticatedCashDepth path))

def idPath (id : CoinCellId) : List Bool := pathTo authenticatedCashDepth id authenticatedCashDepth

def treeOf : Digest384 := root (nodeDigest C) authenticatedCashDepth 0 (leafAt C cells)

/-- The number of cells hashed over their tree. -/
def rootOf : Digest384 := rootDigest C cells.cells.length (treeOf C cells)

/-- The siblings of an identifier, from the root. -/
def cellSiblings (id : CoinCellId) : List Digest384 :=
  SparseMerkle.siblings (nodeDigest C) authenticatedCashDepth 0 (leafAt C cells) (idPath id)

end

variable {C} {cells cells' : CoinCellSet} {id : CoinCellId}

@[simp] theorem length_idPath : (idPath id).length = authenticatedCashDepth := length_pathTo

@[simp] theorem length_cellSiblings : (cellSiblings C cells id).length = authenticatedCashDepth :=
  length_siblings _ _ _ _ length_idPath

theorem leafAt_idPath (hid : Fits authenticatedCashDepth id) :
    leafAt C cells (idPath id) = slotDigest C id (cells.cells.get? id) := by
  rw [leafAt, idPath, ofPath_pathTo hid]

theorem hashRoot_treeOf (cs : CoinCellSet) :
    hashRoot C cs.cells.length (treeOf C cs) = .ok (rootOf C cs) :=
  hashRoot_of_le cs.bounded

theorem leafLevel_rounds : ∀ (rs : List CoinCellRecord) (level : TreeLevel),
    rs.Pairwise (fun a b => a.1 < b.1) → (∀ r ∈ rs, level.get? r.1 = none) →
    (∀ r ∈ rs, recordHasCanonicalId C r) → ∃ leaves,
      rs.foldlM (leafRound C) level = .ok leaves ∧
      ∀ id, leaves.get? id = (SortedMap.lookupEntry id rs).elim (level.get? id)
        fun cell => some (leafDigest C (id, cell))
  | [], level, _, _, _ => ⟨level, rfl, fun _ => rfl⟩
  | (id, cell) :: rs, level, hs, hf, hc => by
    obtain ⟨hfi, hr⟩ := pairwise_cons.1 hs
    have hce := hc _ mem_cons_self
    have hab : ¬ level.contains id = true := by
      rw [SortedMap.contains, hf _ mem_cons_self]
      simp
    obtain ⟨leaves, hrun, hget⟩ := leafLevel_rounds rs (level.insert id
      (leafDigest C (id, cell))) hr
      (fun r hmem => by
        rw [get?_insert_ne _ _ (hfi r hmem).ne']
        exact hf r (mem_cons_of_mem _ hmem))
      fun r hmem => hc r (mem_cons_of_mem _ hmem)
    refine ⟨leaves, ?_, fun id' => ?_⟩
    · rw [foldlM_cons, leafRound, rejectIf_of_not (not_not.2 hce), ok_bind,
        hashLeaf_eq_ok.2 ⟨hce, rfl⟩, ok_bind, rejectIf_of_not hab, ok_bind]
      exact hrun
    · rw [hget, SortedMap.lookupEntry]
      split_ifs with hid
      · have hg : SortedMap.lookupEntry id' rs = none := by
          by_contra hso
          obtain ⟨cell', hc'⟩ := Option.ne_none_iff_exists'.1 hso
          exact (hfi _ (mem_of_lookupEntry hc')).ne hid.symm
        rw [hg, hid]
        exact get?_insert_self _ _ _
      · cases SortedMap.lookupEntry id' rs with
        | none => exact get?_insert_ne _ _ hid
        | some _ => rfl

theorem leafLevel_eq (hc : cells.Canonical C) (hfit : cells.IdsFit) : ∃ leaves,
    leafLevel C cells.cells.entries = .ok leaves ∧
      LevelOf C (leafAt C cells) authenticatedCashDepth leaves := by
  obtain ⟨leaves, hrun, hget⟩ := leafLevel_rounds (C := C) cells.cells.entries empty
    cells.cells.sorted (fun _ _ => rfl) fun r hmem =>
      hc r.1 r.2 (mem_entries.1 hmem)
  have hs : ∀ id, leaves.get? id =
      (cells.cells.get? id).map fun cell => leafDigest C (id, cell) := by
    intro id
    rw [hget, show lookupEntry id cells.cells.entries = cells.cells.get? id from rfl]
    cases cells.cells.get? id <;> rfl
  refine ⟨leaves, hrun, ?_, ?_⟩
  · intro id digest hso
    rw [hs, Option.map_eq_some_iff] at hso
    obtain ⟨cell, hce, -⟩ := hso
    exact .full (hfit id cell hce)
  · intro id hal
    rw [subtree_full length_pathTo, TreeLevel.lookup, hs]
    refine Eq.trans ?_ (leafAt_idPath hal.1).symm
    rw [slotDigest, emptyDigest, Nat.sub_self, root]
    cases cells.cells.get? id <;> rfl

theorem canonical_of_leafLevel {leaves : TreeLevel}
    (h : leafLevel C cells.cells.entries = .ok leaves) : cells.Canonical C := by
  have hall : ∀ (rs : List CoinCellRecord) (level : TreeLevel),
      rs.foldlM (leafRound C) level = .ok leaves →
      ∀ record ∈ rs, recordHasCanonicalId C record := by
    intro rs
    induction rs with
    | nil =>
      intro _ _ record hmem
      cases hmem
    | cons first rs ih =>
      intro level hrun record hmem
      simp only [foldlM_cons, leafRound, inversion] at hrun
      obtain ⟨next, ⟨hf, -⟩, hr⟩ := hrun
      rcases mem_cons.1 hmem with rfl | hmem
      · exact hf
      · exact ih next hr record hmem
  intro id cell hc
  exact hall _ _ h (id, cell) (mem_entries.2 hc)

theorem siblingsAbove_eq : siblingsAbove C (leafAt C cells) id authenticatedCashDepth =
    (cellSiblings C cells id).reverse := by
  rw [siblingsAbove, cellSiblings, siblings_eq_subtrees length_idPath, map_reverse]
  refine congrArg reverse (map_congr_left fun i hi => ?_)
  have hi : i < authenticatedCashDepth := mem_range.1 hi
  rw [idPath, take_pathTo hi.le, getD_pathTo hi]
  rfl

variable {proofId : Option CoinCellId}

theorem buildTree_eq (hc : cells.Canonical C) (hfit : cells.IdsFit)
    (hid : ∀ id ∈ proofId, Fits authenticatedCashDepth id) :
    buildTree C cells proofId =
      .ok (treeOf C cells, proofId.elim [] fun id => (cellSiblings C cells id).reverse) := by
  obtain ⟨leaves, hl, hb⟩ := leafLevel_eq hc hfit
  obtain ⟨top, hrun, htop⟩ := hb.buildLevels authenticatedCashDepth leaves proofId [] le_rfl
    fun id hmem => .full (hid id hmem)
  rw [buildTree, emptyHashes_eq, ok_bind, hl, ok_bind, hrun, ok_bind,
    getD_emptyHashes (Nat.zero_le _)]
  simp only [htop.headD, siblingsAbove_eq, nil_append]
  rfl

/-- **The authenticated root hashes the count over the tree; every canonical set has one.** -/
theorem authenticatedCoinCellRoot_eq_ok (hfit : cells.IdsFit) {digest : Digest384} :
    authenticatedCoinCellRoot C cells = .ok digest ↔
      cells.Canonical C ∧ digest = rootOf C cells := by
  have hr : cells.Canonical C → authenticatedCoinCellRoot C cells = .ok (rootOf C cells) := by
    intro hc
    rw [authenticatedCoinCellRoot, buildTree_eq hc hfit (by simp), ok_bind]
    exact hashRoot_treeOf cells
  constructor
  · intro h
    have hc : cells.Canonical C := by
      simp only [authenticatedCoinCellRoot, buildTree, bind_eq_ok] at h
      obtain ⟨_, ⟨_, -, leaves, hl, -⟩, -⟩ := h
      exact canonical_of_leafLevel hl
    rw [hr hc] at h
    exact ⟨hc, (ok.inj h).symm⟩
  · rintro ⟨hc, rfl⟩
    exact hr hc

theorem foldlM_siblings (n : Nat) : ∀ (siblings : List Digest384) (offset : Nat) (x : Digest384),
    siblings.length = n → offset + n = authenticatedCashDepth →
    (siblings.zipIdx offset).foldlM (pathRound C id) x =
    .ok (fold (nodeDigest C) 0 (pathTo authenticatedCashDepth id n) siblings.reverse x) := by
  induction n with
  | zero =>
    intro siblings offset x hl _
    cases length_eq_zero_iff.1 hl
    rfl
  | succ n ih =>
    intro siblings offset x hl ho
    cases siblings with
    | nil => cases hl
    | cons sibling siblings =>
      have hl : siblings.length = n := Nat.succ.inj hl
      have hr : pathRound C id x (sibling, offset) = .ok (if bit id n then
          nodeDigest C n sibling x else nodeDigest C n x sibling) := by
        simp only [pathRound, show authenticatedCashDepth - 1 - offset = n by omega]
        split_ifs <;> exact hashNode_of_lt (by omega)
      have hf : siblings.reverse.length = (pathTo authenticatedCashDepth id n).length := by
        rw [length_reverse, hl, length_pathTo]
      rw [zipIdx_cons, foldlM_cons, hr, ok_bind,
        ih siblings (offset + 1) _ hl (by omega), pathTo_succ, reverse_cons,
        fold_concat hf, length_pathTo, Nat.zero_add]
      rfl

theorem reconstructTree_eq {leaf : Option Digest384} {siblings : List Digest384}
    (h : siblings.length = authenticatedCashDepth) :
    reconstructTree C id leaf siblings = .ok (fold (nodeDigest C) 0 (idPath id)
      siblings.reverse (leaf.getD (emptyLeaf C))) := by
  rw [reconstructTree, rejectIf_of_not (not_not.2 h), ok_bind,
    foldlM_siblings authenticatedCashDepth siblings 0 _ h (Nat.zero_add _), idPath]

end Cells

end ActiveChain
