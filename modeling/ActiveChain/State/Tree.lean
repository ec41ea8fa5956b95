import ActiveChain.Lib.DigitRuns
import ActiveChain.Lib.WideMerkle
import ActiveChain.Object

/-!
# The sparse state tree (`state-tree`)

Objects hang at the leaves of a complete tree of 96 levels and 16 children, one level for each
nibble of an identifier; subtrees without objects have default digests.

* `commitObjects`, `subtreeHash` — the commitment, by recursion over slices of the sorted objects.
* `StateProofLevel`, `StateProof` — compressed proofs; the checks of `new` are fields.
* `proveObject` — the proof for one identifier, level by level from the root.
* `reconstructTreeRoot`, `verifyMembership`, `verifyNonMembership`, `applySingleKeyUpdate` — the
  verifier and the update it carries.
* `subtreeHash_eq` — **the recursion over slices computes the complete tree.**
-/

namespace ActiveChain

open Except List Nat DigitRuns WideMerkle

@[ext] structure StateCommitment where
  root : Digest384
  objectCount : Nat
deriving DecidableEq, Repr

namespace StateTree

def stateTreeDepth : Nat := 96

def stateTreeArity : Nat := 16

def maxReferenceStateObjects : Nat := 64

def pathNibbleAt (objectId : ObjectId) (depth : Nat) : Nat :=
  let byte := byteAt objectId (depth / 2)
  if depth % 2 = 0 then (byte >>> 4).toNat else (byte &&& 0x0f).toNat

/-! ## Transcripts -/

/-- `transcript`. -/
def stateTranscript (kind : Nat) : Transcript := [.tag "ACTIVECHAIN-STATE-TREE", .u16 1, .u8 kind]

section

variable (C : Crypto) (objects : List Object)

/-- An object always encodes. -/
def hashLeaf (object : Object) : Digest384 :=
  C.shake256 (stateTranscript 0 ++ [.digest object.objectId.toNat,
    .u32 object.envelopeLength] ++ envelope object)

def hashEmptyLeaf : Digest384 := C.shake256 (stateTranscript 1)

def hashNode (depth : Nat) (children : List Digest384) : Digest384 :=
  C.shake256 (stateTranscript 2 ++ [.u8 depth] ++ children.map .digest)

def hashStateRoot (objectCount : Nat) (treeRoot : Digest384) : Digest384 :=
  C.shake256 (stateTranscript 3 ++ [.u64 objectCount, .digest treeRoot])

/-- `empty_hashes`, by the height above the leaves: the entry at depth `d` is the one of height
`stateTreeDepth - d`. -/
def emptyHash (C : Crypto) : Nat → Digest384
  | 0 => hashEmptyLeaf C
  | height + 1 => hashNode C (stateTreeDepth - (height + 1))
      (List.replicate stateTreeArity (emptyHash C height))

def leafOfOption : Option Object → Digest384
  | some object => hashLeaf C object
  | none => emptyHash C 0

/-! ## Commitments -/

inductive StateProofValidationError
  | wrongLevelCount (actual expected : Nat)
  | tooManySiblings (actual : Nat)
  | siblingCountMismatch (expected actual : Nat)
  | pathChildEncoded (depth : Nat)
  | defaultSiblingEncoded (depth : Nat)
deriving DecidableEq, Repr

/-- Without the failures of the encoder. -/
inductive StateTreeError
  | tooManyObjects (actual maximum : Nat)
  | objectsNotStrictlyIncreasing
  | objectCountOverflow
  | invalidLeafMultiplicity
  | invalidGeneratedProof (error : StateProofValidationError)
deriving DecidableEq, Repr

def StrictlyIncreasing : Prop :=
  objects.Pairwise fun a b => a.objectId < b.objectId
deriving Decidable

def validateObjects : Except StateTreeError Unit := do
  rejectIf (maxReferenceStateObjects < objects.length)
    (.tooManyObjects objects.length maxReferenceStateObjects)
  rejectIf (¬ StrictlyIncreasing objects) .objectsNotStrictlyIncreasing

/-- The slice of each child in turn, from where the last one ended. -/
def childRanges (depth : Nat) : List (List Object) :=
  DigitRuns.runs (fun object => pathNibbleAt object.objectId depth) (List.range stateTreeArity)
    objects

/-- By the height above the leaves. -/
def subtreeHash (C : Crypto) : Nat → List Object → Except StateTreeError Digest384
  | 0, objects =>
    match objects with
    | [] => .ok (emptyHash C 0)
    | [object] => .ok (hashLeaf C object)
    | _ => .error .invalidLeafMultiplicity
  | height + 1, objects => do
    if objects.isEmpty then return emptyHash C (height + 1)
    let depth := stateTreeDepth - (height + 1)
    let children ← (childRanges objects depth).mapM fun slice =>
      if slice.isEmpty then pure (emptyHash C height) else subtreeHash C height slice
    return hashNode C depth children

def commitObjects : Except StateTreeError StateCommitment := do
  validateObjects objects
  let treeRoot ← subtreeHash C stateTreeDepth objects
  rejectIf (2 ^ 64 ≤ objects.length) .objectCountOverflow
  return ⟨hashStateRoot C objects.length treeRoot, objects.length⟩

/-! ## Proofs -/

inductive StateProofKind
  | membership
  | nonMembership
deriving DecidableEq, Repr

/-- The bit of a child is set: `sibling_bitmap & (1 << child) != 0`. -/
def siblingBit (bitmap : BitVec 16) (child : Nat) : Bool := bitmap &&& (1#16 <<< child) != 0#16

def countOnes (bitmap : BitVec 16) : Nat :=
  ((List.range stateTreeArity).filter (siblingBit bitmap)).length

@[ext] structure StateProofLevel where
  siblingBitmap : BitVec 16
  siblings : List Digest384
  onesBounded : countOnes siblingBitmap ≤ stateTreeArity - 1
  siblingCount : siblings.length = countOnes siblingBitmap

def StateProofLevel.new (bitmap : BitVec 16) (siblings : List Digest384) :
    Except StateProofValidationError StateProofLevel :=
  if bounded : countOnes bitmap ≤ stateTreeArity - 1 then
    if count : siblings.length = countOnes bitmap then .ok ⟨bitmap, siblings, bounded, count⟩
    else .error (.siblingCountMismatch (countOnes bitmap) siblings.length)
  else .error (.tooManySiblings (countOnes bitmap))

section

variable (objectId : ObjectId) (depth : Nat) (level : StateProofLevel)

/-- The level at a depth names neither the path child nor a default digest. -/
def StateProofLevel.Canonical : Prop :=
  siblingBit level.siblingBitmap (pathNibbleAt objectId depth) = false ∧
    emptyHash C (stateTreeDepth - (depth + 1)) ∉ level.siblings

@[ext] structure StateProof (C : Crypto) where
  kind : StateProofKind
  objectId : ObjectId
  levels : List StateProofLevel
  levelCount : levels.length = stateTreeDepth
  canonical : ∀ entry ∈ levels.zipIdx, entry.1.Canonical C objectId entry.2

/-- The loop of `StateProof::new` over the levels.  Each level already has as many siblings as set
bits. -/
def validateLevels (C : Crypto) (objectId : ObjectId) :
    List (StateProofLevel × Nat) → Except StateProofValidationError Unit
  | [] => .ok ()
  | (level, depth) :: rest => do
    rejectIf (siblingBit level.siblingBitmap (pathNibbleAt objectId depth) = true)
      (.pathChildEncoded depth)
    rejectIf (level.siblings.length ≠ countOnes level.siblingBitmap)
      (.siblingCountMismatch (countOnes level.siblingBitmap) level.siblings.length)
    rejectIf (emptyHash C (stateTreeDepth - (depth + 1)) ∈ level.siblings)
      (.defaultSiblingEncoded depth)
    validateLevels C objectId rest

theorem validateLevels_eq_ok {C : Crypto} {objectId : ObjectId}
    {es : List (StateProofLevel × Nat)} : validateLevels C objectId es = .ok () ↔
      ∀ e ∈ es, e.1.Canonical C objectId e.2 := by
  induction es with
  | nil => simp [validateLevels]
  | cons e rest ih =>
    simp [validateLevels, inversion, ih, StateProofLevel.Canonical, e.1.siblingCount, and_assoc]

def StateProof.new (kind : StateProofKind) (objectId : ObjectId) (levels : List StateProofLevel) :
    Except StateProofValidationError (StateProof C) :=
  if hcount : levels.length = stateTreeDepth then
    match hlevels : validateLevels C objectId levels.zipIdx with
    | .ok () => .ok ⟨kind, objectId, levels, hcount, validateLevels_eq_ok.1 hlevels⟩
    | .error e => .error e
  else .error (.wrongLevelCount levels.length stateTreeDepth)

theorem StateProof.new_of_canonical {C : Crypto} {objectId : ObjectId}
    {levels : List StateProofLevel} (kind : StateProofKind) (hco : levels.length = stateTreeDepth)
    (hc : ∀ entry ∈ levels.zipIdx, entry.1.Canonical C objectId entry.2) :
    StateProof.new C kind objectId levels = .ok ⟨kind, objectId, levels, hco, hc⟩ := by
  rw [StateProof.new, dif_pos hco]
  split
  · rfl
  · next e h =>
      rw [validateLevels_eq_ok.2 hc] at h
      cases h

/-- The inner loop of `prove_object`: the bitmap and the digests of the nonempty slices beside the
path. -/
def collectSiblings (C : Crypto) (height pathChild : Nat) : List (List Object × Nat) →
    BitVec 16 → List Digest384 → Except StateTreeError (BitVec 16 × List Digest384)
  | [], bitmap, siblings => .ok (bitmap, siblings)
  | (slice, child) :: rest, bitmap, siblings =>
    if child = pathChild ∨ slice.isEmpty then collectSiblings C height pathChild rest
      bitmap siblings
    else do
      let sibling ← subtreeHash C height slice
      if sibling ≠ emptyHash C height then
        collectSiblings C height pathChild rest (bitmap ||| (1#16 <<< child))
          (siblings ++ [sibling])
      else collectSiblings C height pathChild rest bitmap siblings

/-- The loop of `prove_object` over the depths: the levels and the objects left at the leaf. -/
def proveLevels (C : Crypto) (objectId : ObjectId) : Nat → List Object →
    Except StateTreeError (List StateProofLevel × List Object)
  | 0, current => .ok ([], current)
  | height + 1, current => do
    let depth := stateTreeDepth - (height + 1)
    let ranges := childRanges current depth
    let pathChild := pathNibbleAt objectId depth
    let (bitmap, siblings) ← collectSiblings C height pathChild ranges.zipIdx 0 []
    let level ← (StateProofLevel.new bitmap siblings).mapError .invalidGeneratedProof
    let (rest, last) ← proveLevels C objectId height (ranges.getD pathChild [])
    return (level :: rest, last)

def proveObject : Except StateTreeError (StateProof C) := do
  validateObjects objects
  let (levels, current) ← proveLevels C objectId stateTreeDepth objects
  let kind : StateProofKind := match current with
    | [object] => if object.objectId = objectId then .membership else .nonMembership
    | _ => .nonMembership
  (StateProof.new C kind objectId levels).mapError .invalidGeneratedProof

/-! ## Verification -/

/-- Without the failures of the encoder. -/
inductive StateProofVerificationError
  | wrongProofKind
  | objectIdMismatch
  | rootMismatch
deriving DecidableEq, Repr

/-- Without the failures of the encoder. -/
inductive StateProofUpdateError
  | invalidPreState (error : StateProofVerificationError)
  | afterObjectIdMismatch
  | objectCountOverflow
  | objectCountUnderflow
deriving DecidableEq, Repr

/-- The row of children a level stands for, before the path child is set. -/
def StateProofLevel.children : List Digest384 :=
  WideMerkle.expand (siblingBit level.siblingBitmap) (emptyHash C (stateTreeDepth - (depth + 1)))
    (List.range stateTreeArity) level.siblings

end

/-- The levels from the leaf upwards. -/
def reconstructTreeRoot (proof : StateProof C) (leaf : Digest384) : Digest384 :=
  proof.levels.zipIdx.foldr (fun (level, depth) accumulator =>
    hashNode C depth ((level.children C depth).set (pathNibbleAt proof.objectId depth) accumulator))
    leaf

variable (commitment : StateCommitment) (proof : StateProof C)

def verifyFold (leaf : Digest384) : Except StateProofVerificationError Unit :=
  rejectIf (hashStateRoot C commitment.objectCount (reconstructTreeRoot C proof leaf) ≠
    commitment.root) .rootMismatch

def verifyMembership (object : Object) (proof : StateProof C) :
    Except StateProofVerificationError Unit := do
  rejectIf (proof.kind ≠ .membership) .wrongProofKind
  rejectIf (proof.objectId ≠ object.objectId) .objectIdMismatch
  verifyFold C commitment proof (hashLeaf C object)

def verifyNonMembership (objectId : ObjectId) (proof : StateProof C) :
    Except StateProofVerificationError Unit := do
  rejectIf (proof.kind ≠ .nonMembership) .wrongProofKind
  rejectIf (proof.objectId ≠ objectId) .objectIdMismatch
  verifyFold C commitment proof (emptyHash C 0)

/-- The leaf before the update, checked against the commitment. -/
def verifyBefore :
    Option Object → Except StateProofVerificationError Unit
  | some object => verifyMembership C commitment object proof
  | none => verifyNonMembership C commitment proof.objectId proof

/-- The object count after the update: it changes when a leaf appears or disappears. -/
def updatedObjectCount (objectCount : Nat) : (before after : Bool) →
    Except StateProofUpdateError Nat
  | false, true => okOr (checkedAdd 64 objectCount 1) .objectCountOverflow
  | true, false => okOr (checkedSub objectCount 1) .objectCountUnderflow
  | false, false => .ok objectCount
  | true, true => .ok objectCount

def applySingleKeyUpdate (before after : Option Object) :
    Except StateProofUpdateError StateCommitment := do
  (verifyBefore C commitment proof before).mapError .invalidPreState
  rejectIf (∃ object ∈ after, object.objectId ≠ proof.objectId) .afterObjectIdMismatch
  let objectCount ← updatedObjectCount commitment.objectCount before.isSome after.isSome
  let treeRoot := reconstructTreeRoot C proof (leafOfOption C after)
  return ⟨hashStateRoot C objectCount treeRoot, objectCount⟩

/-! ## The complete tree -/

/-- The path of an identifier: its nibbles, high to low. -/
def pathOf (objectId : ObjectId) : List Nat :=
  (List.range stateTreeDepth).map (pathNibbleAt objectId)

/-- The leaf digest at the end of a path below `depth`. -/
def leafAt (depth : Nat) (objects : List Object) (path : List Nat) : Digest384 :=
  leafOfOption C (objects.find? fun object => (pathOf object.objectId).drop depth == path)

end

/-- The objects below one node: sorted, with the nibbles above it in common. -/
structure Slice (height : Nat) (objects : List Object) : Prop where
  increasing : StrictlyIncreasing objects
  shared : ∀ a ∈ objects, ∀ b ∈ objects,
    DigitRuns.Shared stateTreeArity height a.objectId.toNat b.objectId.toNat

section Paths

variable {id id' : ObjectId} {depth height : Nat}

theorem pathNibbleAt_eq (hh : height < stateTreeDepth) :
    pathNibbleAt id (stateTreeDepth - (height + 1)) = digit stateTreeArity height id.toNat := by
  unfold stateTreeDepth at *
  have hpow : ∀ n, stateTreeArity ^ n = 2 ^ (4 * n) := fun n => (Nat.pow_mul 2 4 n).symm
  have hb : ∀ i, (byteAt id i).toNat = id.toNat / 2 ^ (8 * (47 - i)) % 256 := by
    intro i
    rw [byteAt, BitVec.extractLsb'_toNat, shiftRight_eq_div_pow]
    rfl
  have hs : id.toNat / 2 ^ (8 * (47 - (96 - (height + 1)) / 2) + 4) =
      id.toNat / 2 ^ (8 * (47 - (96 - (height + 1)) / 2)) / 16 := by
    rw [Nat.pow_add, ← Nat.div_div_eq_div_mul]
  rw [pathNibbleAt, digit, hpow]
  simp only [stateTreeArity]
  split_ifs with he
  · -- the high nibble
    have hexp : 4 * height = 8 * (47 - (96 - (height + 1)) / 2) + 4 := by omega
    rw [hexp, hs, BitVec.toNat_ushiftRight, hb, shiftRight_eq_div_pow]
    omega
  · -- the low nibble
    have hexp : 4 * height = 8 * (47 - (96 - (height + 1)) / 2) := by omega
    have hm : ∀ n, n &&& 15 = n % 16 := fun n => and_two_pow_sub_one_eq_mod n 4
    rw [hexp, BitVec.toNat_and, hb]
    refine (hm _).trans ?_
    omega

theorem pathNibbleAt_lt : pathNibbleAt id depth < stateTreeArity := by
  rw [pathNibbleAt, stateTreeArity]
  split_ifs
  · rw [BitVec.toNat_ushiftRight, shiftRight_eq_div_pow]
    omega
  · exact lt_of_le_of_lt and_le_right (by decide)

theorem isPath_pathOf : WideMerkle.IsPath stateTreeArity stateTreeDepth (pathOf id) := by
  refine ⟨by rw [pathOf, length_map, length_range], fun i hi => ?_⟩
  obtain ⟨d, -, rfl⟩ := mem_map.1 hi
  exact pathNibbleAt_lt

theorem drop_pathOf (hh : height < stateTreeDepth) :
    (pathOf id).drop (stateTreeDepth - (height + 1)) =
      pathNibbleAt id (stateTreeDepth - (height + 1)) ::
        (pathOf id).drop (stateTreeDepth - height) := by
  have hd : stateTreeDepth - height = stateTreeDepth - (height + 1) + 1 := by omega
  have hlt : stateTreeDepth - (height + 1) < (pathOf id).length := by
    rw [isPath_pathOf.1]
    omega
  rw [hd, drop_eq_getElem_cons hlt]
  simp [pathOf]

theorem shared_of_drop_pathOf : height ≤ stateTreeDepth →
    (pathOf id).drop (stateTreeDepth - height) = (pathOf id').drop (stateTreeDepth - height) →
    Shared stateTreeArity height id.toNat id'.toNat → id = id' := by
  induction height with
  | zero => exact fun _ _ hs => BitVec.eq_of_toNat_eq (shared_zero.1 hs)
  | succ height ih =>
    intro hh hp hs
    rw [drop_pathOf hh, drop_pathOf hh, cons.injEq, pathNibbleAt_eq hh, pathNibbleAt_eq hh] at hp
    exact ih (by omega) hp.2 (shared_iff_succ.2 ⟨hs, hp.1⟩)

theorem shared_top (id id' : ObjectId) :
    Shared stateTreeArity stateTreeDepth id.toNat id'.toNat := by
  have hw : keyBits = 4 * stateTreeDepth := rfl
  have har : stateTreeArity = 2 ^ 4 := rfl
  have hb : 2 ^ keyBits = stateTreeArity ^ stateTreeDepth := by
    rw [hw, har, pow_mul]
  have hlt : ∀ id : ObjectId, id.toNat < stateTreeArity ^ stateTreeDepth := by
    intro id
    exact hb ▸ id.isLt
  exact shared_of_lt (hlt id) (hlt id')

theorem pathOf_injective : Function.Injective pathOf := by
  intro id id' h
  refine shared_of_drop_pathOf (le_refl stateTreeDepth) ?_ (shared_top id id')
  rw [h]

end Paths

section Subtrees

variable {C : Crypto} {objects : List Object} {height : Nat}

theorem Slice.child (hh : height < stateTreeDepth) (h : Slice (height + 1) objects) (c : Nat) :
    Slice height (objects.filter fun o =>
      pathNibbleAt o.objectId (stateTreeDepth - (height + 1)) == c) := by
  refine ⟨h.increasing.filter _, fun a ha b hb => ?_⟩
  simp only [mem_filter, beq_iff_eq] at ha hb
  refine shared_iff_succ.2 ⟨h.shared a ha.1 b hb.1, ?_⟩
  rw [← pathNibbleAt_eq hh, ← pathNibbleAt_eq hh, ha.2, hb.2]

theorem Slice.top (h : StrictlyIncreasing objects) : Slice stateTreeDepth objects :=
  ⟨h, fun a _ b _ => shared_top a.objectId b.objectId⟩

theorem Slice.length_le_one (h : Slice 0 objects) : objects.length ≤ 1 := by
  match objects, h with
  | [], _ => exact zero_le 1
  | [_], _ => exact le_refl 1
  | a :: b :: rest, h =>
    have hlt : a.objectId < b.objectId := (pairwise_cons.1 h.increasing).1 b (by simp)
    have heq := shared_zero.1 (h.shared a (by simp) b (by simp))
    rw [BitVec.eq_of_toNat_eq heq] at hlt
    exact absurd hlt (BitVec.lt_irrefl _)

theorem childRanges_eq (hh : height < stateTreeDepth) (h : Slice (height + 1) objects) :
    childRanges objects (stateTreeDepth - (height + 1)) =
      (range stateTreeArity).map fun c => objects.filter fun o =>
        pathNibbleAt o.objectId (stateTreeDepth - (height + 1)) == c := by
  refine runs_eq_filter stateTreeArity ?_ fun _ _ => zero_le _
  refine Pairwise.imp_of_mem ?_ h.increasing
  intro a b ha hb hlt
  rw [pathNibbleAt_eq hh, pathNibbleAt_eq hh]
  exact digit_le_digit (h.shared a ha b hb) (le_of_lt hlt)

theorem depth_below (hh : height < stateTreeDepth) :
    stateTreeDepth - (height + 1) + 1 = stateTreeDepth - height := by
  omega

theorem emptyHash_eq : height ≤ stateTreeDepth → emptyHash C height =
    root stateTreeArity (hashNode C) height (stateTreeDepth - height)
      fun _ => emptyHash C 0 := by
  induction height with
  | zero => exact fun _ => rfl
  | succ height ih =>
    intro hh
    have hd := depth_below hh
    conv_lhs => rw [emptyHash]
    rw [root, hd, ← ih (by omega), map_const', length_range]

theorem leafAt_cons (hh : height < stateTreeDepth) (c : Nat) (path : List Nat) :
    leafAt C (stateTreeDepth - (height + 1)) objects (c :: path) =
      leafAt C (stateTreeDepth - height) (objects.filter fun o =>
        pathNibbleAt o.objectId (stateTreeDepth - (height + 1)) == c) path := by
  rw [leafAt, leafAt, find?_filter]
  congr 2
  funext o
  rw [drop_pathOf hh, Bool.eq_iff_iff]
  simp

theorem subtreeHash_eq : ∀ {objects : List Object}, height ≤ stateTreeDepth →
    Slice height objects → subtreeHash C height objects =
      .ok (root stateTreeArity (hashNode C) height (stateTreeDepth - height)
        (leafAt C (stateTreeDepth - height) objects)) := by
  induction height with
  | zero =>
    intro objects _ h
    match objects, h.length_le_one with
    | [], _ => rfl
    | [object], _ =>
      rfl
  | succ height ih =>
    intro objects hh h
    have hd := depth_below hh
    by_cases he : objects = []
    · subst he
      exact congrArg ok (emptyHash_eq hh)
    · have hc : (childRanges objects (stateTreeDepth - (height + 1))).mapM (fun slice =>
          if slice.isEmpty then pure (emptyHash C height) else subtreeHash C height slice) =
          .ok ((range stateTreeArity).map fun c =>
            root stateTreeArity (hashNode C) height (stateTreeDepth - height)
              fun path => leafAt C (stateTreeDepth - (height + 1)) objects (c :: path)) := by
        rw [childRanges_eq hh h, mapM_eq_ok, forall₂_map_left_iff,
          forall₂_map_right_iff, forall₂_same]
        intro c _
        simp only [leafAt_cons hh]
        split_ifs with hs
        · rw [isEmpty_iff.1 hs]
          exact congrArg ok (emptyHash_eq (by omega))
        · exact ih (by omega) (h.child hh c)
      rw [subtreeHash, if_neg (by simpa using he)]
      simp only [hc, ok_bind, root, hd]
      rfl

end Subtrees

end StateTree

end ActiveChain
