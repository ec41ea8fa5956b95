import ActiveChain.Lib.Splice
import ActiveChain.State.Tree

/-!
# State proofs are complete, sound and unique

* `proveLevels_spec` — the generated levels are canonical and, beside the path, the tree's rows.
* `levels_unique` — canonical levels with the same rows beside the path are equal.
-/

namespace ActiveChain

open Except Function List WideMerkle Splice

namespace StateTree

/-! ## Bitmaps and levels -/

section Levels

variable {C : Crypto} {bitmap bitmap' : BitVec 16} {c child depth height : Nat} {id : ObjectId}
  {level level' : StateProofLevel} {objects : List Object}

theorem siblingBit_eq (hc : c < stateTreeArity) : siblingBit bitmap c = bitmap.getLsbD c := by
  have htwo : BitVec.twoPow 16 c ≠ 0#16 := by
    intro h
    have hbit := congrArg (BitVec.getLsbD · c) h
    simp [show c < 16 from hc] at hbit
  rw [siblingBit, ← BitVec.twoPow_eq, BitVec.and_twoPow]
  cases bitmap.getLsbD c <;> simp [htwo]

theorem siblingBit_set (hc : c < stateTreeArity) (hch : child < stateTreeArity) :
    siblingBit (bitmap ||| (1#16 <<< child)) c = (siblingBit bitmap c || decide (c = child)) := by
  have hlt : child < 16 := hch
  rw [siblingBit_eq hc, siblingBit_eq hc, BitVec.getLsbD_or, ← BitVec.twoPow_eq,
    BitVec.getLsbD_twoPow]
  simp [hlt, eq_comm]

theorem bitmap_ext (h : ∀ c < stateTreeArity, siblingBit bitmap c = siblingBit bitmap' c) :
    bitmap = bitmap' := by
  refine BitVec.eq_of_getLsbD_eq fun c hc => ?_
  rw [← siblingBit_eq hc, ← siblingBit_eq hc, h c hc]

theorem children_path (h : level.Canonical C id depth) :
    (level.children C depth)[pathNibbleAt id depth]? =
      some (emptyHash C (stateTreeDepth - (depth + 1))) := by
  exact expand_get_of_not_encoded h.1 stateTreeArity 0 level.siblings (Nat.zero_le _)
    (by simpa using pathNibbleAt_lt)

/-- **A canonical level is determined by its row beside the path.** -/
theorem level_unique (h : level.Canonical C id depth) (h' : level'.Canonical C id depth)
    (hrow : ∀ x, (level.children C depth).set (pathNibbleAt id depth) x =
      (level'.children C depth).set (pathNibbleAt id depth) x) : level = level' := by
  have hse : ∀ {l : StateProofLevel}, l.Canonical C id depth →
      (l.children C depth).set (pathNibbleAt id depth)
        (emptyHash C (stateTreeDepth - (depth + 1))) = l.children C depth := by
    intro l hl
    obtain ⟨hlt, hget⟩ := List.getElem?_eq_some_iff.1 (children_path hl)
    rw [← hget, set_getElem_self]
  have hch : level.children C depth = level'.children C depth := by
    rw [← hse h, ← hse h', hrow]
  have hne : ∀ {l : StateProofLevel}, l.Canonical C id depth →
      ∀ x ∈ l.siblings, x ≠ emptyHash C (stateTreeDepth - (depth + 1)) := by
    rintro l hl x hx rfl
    exact hl.2 hx
  obtain ⟨hb, hs⟩ := expand_injective level.siblingCount level'.siblingCount (hne h) (hne h') hch
  exact StateProofLevel.ext (bitmap_ext fun c hc => hb c (mem_range.2 hc)) hs

end Levels

/-! ## Rows -/

section Rows

variable {C : Crypto} {id : ObjectId} {height : Nat}

/-- The rows of children of levels that start at `depth`. -/
def rowsOf (C : Crypto) (depth : Nat) (levels : List StateProofLevel) : List (List Digest384) :=
  (levels.zipIdx depth).map fun entry => entry.1.children C entry.2

theorem rowsOf_cons (d : Nat) (level : StateProofLevel) (levels : List StateProofLevel) :
    rowsOf C d (level :: levels) = level.children C d :: rowsOf C (d + 1) levels := by
  rw [rowsOf, zipIdx_cons, map_cons, rowsOf]

theorem length_row {d : Nat} {levels : List StateProofLevel} :
    ∀ row ∈ rowsOf C d levels, row.length = stateTreeArity := by
  intro row hrow
  obtain ⟨e, -, rfl⟩ := mem_map.1 hrow
  rw [StateProofLevel.children, length_expand, length_range]

theorem foldr_levels (C : Crypto) (id : ObjectId) (leaf : Digest384) :
    ∀ {levels : List StateProofLevel}, levels.length = height → height ≤ stateTreeDepth →
    (levels.zipIdx (stateTreeDepth - height)).foldr (fun (level, depth) accumulator =>
      hashNode C depth ((level.children C depth).set (pathNibbleAt id depth) accumulator)) leaf =
    fold (hashNode C) (stateTreeDepth - height)
      ((pathOf id).drop (stateTreeDepth - height)) (rowsOf C (stateTreeDepth - height) levels)
      leaf := by
  induction height with
  | zero =>
    intro levels hl _
    cases length_eq_zero_iff.1 hl
    rw [rowsOf, zipIdx_nil, map_nil, fold]
    · rfl
    · intro _ _ _ _ _ h
      cases h
  | succ height ih =>
    intro levels hl hh
    cases levels with
    | nil => cases hl
    | cons level levels =>
      have hd := depth_below hh
      rw [zipIdx_cons, foldr_cons, rowsOf_cons, drop_pathOf hh, fold,
        hd, ih (Nat.succ.inj hl) (by omega)]

theorem reconstructTreeRoot_eq (proof : StateProof C) (leaf : Digest384) :
    reconstructTreeRoot C proof leaf =
      fold (hashNode C) 0 (pathOf proof.objectId) (rowsOf C 0 proof.levels) leaf := by
  exact foldr_levels C proof.objectId leaf proof.levelCount (Nat.le_refl _)

theorem levels_unique (C : Crypto) (id : ObjectId) :
    ∀ {levels levels' : List StateProofLevel}, levels.length = height →
    levels'.length = height → height ≤ stateTreeDepth →
    (∀ e ∈ levels.zipIdx (stateTreeDepth - height), e.1.Canonical C id e.2) →
    (∀ e ∈ levels'.zipIdx (stateTreeDepth - height), e.1.Canonical C id e.2) →
    Beside ((pathOf id).drop (stateTreeDepth - height))
      (rowsOf C (stateTreeDepth - height) levels) (rowsOf C (stateTreeDepth - height) levels') →
    levels = levels' := by
  induction height with
  | zero =>
    intro levels levels' hl hl' _ _ _ _
    rw [length_eq_zero_iff.1 hl, length_eq_zero_iff.1 hl']
  | succ height ih =>
    intro levels levels' hl hl' hh hc hc' hb
    cases levels with
    | nil => cases hl
    | cons level levels =>
      cases levels' with
      | nil => cases hl'
      | cons level' levels' =>
        have hd := depth_below hh
        rw [zipIdx_cons, hd] at hc hc'
        rw [rowsOf_cons, rowsOf_cons, drop_pathOf hh, hd] at hb
        obtain ⟨hf, hr⟩ := forall_mem_cons.1 hc
        obtain ⟨hf', hr'⟩ := forall_mem_cons.1 hc'
        have hle : level = level' := level_unique hf hf' hb.1
        rw [hle, ih (Nat.succ.inj hl) (Nat.succ.inj hl') (by omega) hr hr'
          hb.2]

end Rows

/-! ## Generated proofs -/

section Generated

variable {C : Crypto} {id : ObjectId} {objects : List Object} {height : Nat}

theorem subtreeHash_nil : subtreeHash C height [] = .ok (emptyHash C height) := by
  cases height <;> rfl

theorem collectSiblings_eq (C : Crypto) (height pathChild : Nat) (digest : Nat → Digest384) :
    ∀ (es : List (List Object × Nat)) (bitmap : BitVec 16) (siblings : List Digest384),
    (∀ e ∈ es, subtreeHash C height e.1 = .ok (digest e.2)) →
    (∀ e ∈ es, e.2 < stateTreeArity) →
    let collected := (es.map Prod.snd).filter fun c =>
      decide (c ≠ pathChild ∧ digest c ≠ emptyHash C height)
    ∃ bitmap', collectSiblings C height pathChild es bitmap siblings =
        .ok (bitmap', siblings ++ collected.map digest) ∧
      ∀ c < stateTreeArity, siblingBit bitmap' c =
      (siblingBit bitmap c || decide (c ∈ collected)) := by
  intro es
  induction es with
  | nil =>
    intro bitmap siblings _ _
    exact ⟨bitmap, by simp [collectSiblings], by simp⟩
  | cons e rest ih =>
    intro bitmap siblings hs hlt
    obtain ⟨slice, child⟩ := e
    obtain ⟨hsl, hs⟩ := forall_mem_cons.1 hs
    obtain ⟨hch, hlt⟩ := forall_mem_cons.1 hlt
    rw [collectSiblings, map_cons]
    by_cases he : child ≠ pathChild ∧ digest child ≠ emptyHash C height
    · have hn : ¬ (child = pathChild ∨ slice.isEmpty = true) := by
        rintro (heq | hem)
        · exact he.1 heq
        · rw [isEmpty_iff.1 hem, subtreeHash_nil] at hsl
          exact he.2 (ok.inj hsl).symm
      obtain ⟨bitmap', hrun, hb⟩ := ih (bitmap ||| (1#16 <<< child)) (siblings ++ [digest child])
        hs hlt
      rw [filter_cons_of_pos (by simpa using he)]
      refine ⟨bitmap', ?_, fun c hc => ?_⟩
      · rw [if_neg hn, hsl, ok_bind, if_pos he.2, hrun, append_assoc]
        rfl
      · rw [hb c hc, siblingBit_set hc hch, Bool.or_assoc]
        simp only [mem_cons, Bool.decide_or]
    · obtain ⟨bitmap', hrun, hb⟩ := ih bitmap siblings hs hlt
      rw [filter_cons_of_neg (by simpa using he)]
      refine ⟨bitmap', ?_, hb⟩
      split_ifs with hem
      · exact hrun
      · rw [hsl, ok_bind, if_neg fun hne => he ⟨fun h => hem (.inl h), hne⟩]
        exact hrun

def childDigest (C : Crypto) (height : Nat) (objects : List Object) (c : Nat) : Digest384 :=
  WideMerkle.root stateTreeArity (hashNode C) height (stateTreeDepth - height) fun path =>
    leafAt C (stateTreeDepth - (height + 1)) objects (c :: path)

def childSlice (height : Nat) (objects : List Object) (c : Nat) : List Object :=
  objects.filter fun object =>
    pathNibbleAt object.objectId (stateTreeDepth - (height + 1)) == c

section

variable (hh : height < stateTreeDepth) (h : Slice (height + 1) objects)
include hh h

theorem subtreeHash_childSlice (c : Nat) : subtreeHash C height (childSlice height objects c) =
      .ok (childDigest C height objects c) := by
  rw [childSlice, subtreeHash_eq (by omega) (h.child hh c), childDigest]
  simp only [leafAt_cons hh]

theorem zipIdx_childRanges :
    (childRanges objects (stateTreeDepth - (height + 1))).zipIdx =
      (range stateTreeArity).map fun c => (childSlice height objects c, c) := by
  rw [childRanges_eq hh h]
  refine ext_getElem (by simp) fun i hi hi' => ?_
  simp [childSlice]

/-- **One generated level is canonical and stands for the tree's row beside the path.** -/
theorem generatedLevel_spec (C : Crypto) (id : ObjectId) :
    ∃ bitmap siblings level, collectSiblings C height
        (pathNibbleAt id (stateTreeDepth - (height + 1)))
        (childRanges objects (stateTreeDepth - (height + 1))).zipIdx 0 [] = .ok (bitmap, siblings) ∧
      StateProofLevel.new bitmap siblings = .ok level ∧
      level.Canonical C id (stateTreeDepth - (height + 1)) ∧
      ∀ x, (level.children C (stateTreeDepth - (height + 1))).set
          (pathNibbleAt id (stateTreeDepth - (height + 1))) x =
        ((range stateTreeArity).map (childDigest C height objects)).set
          (pathNibbleAt id (stateTreeDepth - (height + 1))) x := by
  set pathChild := pathNibbleAt id (stateTreeDepth - (height + 1)) with hpa
  have hde : stateTreeDepth - (stateTreeDepth - (height + 1) + 1) = height := by omega
  have hp : pathChild < stateTreeArity := pathNibbleAt_lt
  obtain ⟨bitmap, hrun, hbi⟩ := collectSiblings_eq C height pathChild
    (childDigest C height objects) (childRanges objects (stateTreeDepth - (height + 1))).zipIdx 0 []
    (by
      rw [zipIdx_childRanges hh h]
      simp [subtreeHash_childSlice hh h])
    (by
      rw [zipIdx_childRanges hh h]
      simp)
  have hch : (childRanges objects (stateTreeDepth - (height + 1))).zipIdx.map Prod.snd =
      range stateTreeArity := by
    rw [zipIdx_childRanges hh h, map_map]
    exact map_id _
  rw [hch] at hrun hbi
  -- the bits that are set are those of the children that are collected
  have he : ∀ c ∈ range stateTreeArity, siblingBit bitmap c =
      decide (c ≠ pathChild ∧ childDigest C height objects c ≠ emptyHash C height) := by
    intro c hc
    rw [hbi c (mem_range.1 hc)]
    simp [siblingBit, mem_range.1 hc]
  have hf : (range stateTreeArity).filter (siblingBit bitmap) =
      (range stateTreeArity).filter fun c =>
        decide (c ≠ pathChild ∧ childDigest C height objects c ≠ emptyHash C height) :=
    filter_congr he
  rw [nil_append, ← hf] at hrun
  have hco : (((range stateTreeArity).filter (siblingBit bitmap)).map
      (childDigest C height objects)).length = countOnes bitmap := length_map _
  have hu : siblingBit bitmap pathChild = false := by
    rw [he pathChild (mem_range.2 hp)]
    simp
  have hb : countOnes bitmap ≤ stateTreeArity - 1 := by
    have hlt : countOnes bitmap < (range stateTreeArity).length :=
      length_filter_lt_length_iff_exists.2 ⟨pathChild, mem_range.2 hp, by simp [hu]⟩
    rw [length_range] at hlt
    omega
  refine ⟨bitmap, _, ⟨bitmap, _, hb, hco⟩, hrun, ?_, ⟨hu, ?_⟩, fun x => ?_⟩
  · rw [StateProofLevel.new, dif_pos hb, dif_pos hco]
  · rw [hde]
    intro hmem
    obtain ⟨c, hc, heq⟩ := mem_map.1 hmem
    rw [hf] at hc
    have hne := (mem_filter.1 hc).2
    simp only [decide_eq_true_eq] at hne
    exact hne.2 heq
  · rw [StateProofLevel.children, hde, expand_filter, map_range_set, map_range_set]
    refine map_congr_left fun c hc => ?_
    by_cases heq : c = pathChild
    · rw [heq, update_self, update_self]
    · rw [update_of_ne heq, update_of_ne heq, he c hc]
      by_cases hd : childDigest C height objects c = emptyHash C height
      · simp [hd]
      · simp [heq, hd]

end

def belowPath (height : Nat) (id : ObjectId) (objects : List Object) : List Object :=
  objects.filter fun object => (pathOf object.objectId).drop (stateTreeDepth - height) ==
    (pathOf id).drop (stateTreeDepth - height)

theorem belowPath_childSlice (hh : height < stateTreeDepth) :
    belowPath height id
        (childSlice height objects (pathNibbleAt id (stateTreeDepth - (height + 1)))) =
      belowPath (height + 1) id objects := by
  rw [belowPath, belowPath, childSlice, filter_filter]
  refine filter_congr fun o _ => ?_
  rw [drop_pathOf hh, drop_pathOf hh, Bool.eq_iff_iff]
  simp [and_comm]

theorem proveLevels_spec (C : Crypto) (id : ObjectId) : ∀ {objects : List Object},
    height ≤ stateTreeDepth → Slice height objects →
    ∃ levels, proveLevels C id height objects = .ok (levels, belowPath height id objects) ∧
      levels.length = height ∧
      (∀ e ∈ levels.zipIdx (stateTreeDepth - height), e.1.Canonical C id e.2) ∧
      WideMerkle.Beside ((pathOf id).drop (stateTreeDepth - height))
        (rowsOf C (stateTreeDepth - height) levels)
        (WideMerkle.levels stateTreeArity (hashNode C) height (stateTreeDepth - height)
          (leafAt C (stateTreeDepth - height) objects)
          ((pathOf id).drop (stateTreeDepth - height))) := by
  induction height with
  | zero =>
    intro objects _ h
    have hdr : ∀ id, (pathOf id).drop (stateTreeDepth - 0) = [] := fun id =>
      drop_eq_nil_of_le (Nat.le_of_eq isPath_pathOf.1)
    refine ⟨[], ?_, rfl, by simp, ?_⟩
    · simp only [proveLevels, belowPath, hdr, beq_self_eq_true, filter_true]
    · exact trivial
  | succ height ih =>
    intro objects hh h
    have hd := depth_below hh
    obtain ⟨bitmap, siblings, level, hco, hnew, hc, hrow⟩ := generatedLevel_spec hh h C id
    obtain ⟨levels, hrun, hl, hr, hb⟩ := ih (by omega)
      (h.child hh (pathNibbleAt id (stateTreeDepth - (height + 1))))
    have hs : (childRanges objects (stateTreeDepth - (height + 1))).getD
        (pathNibbleAt id (stateTreeDepth - (height + 1))) [] =
        childSlice height objects (pathNibbleAt id (stateTreeDepth - (height + 1))) := by
      rw [childRanges_eq hh h]
      simp [pathNibbleAt_lt, childSlice]
    refine ⟨level :: levels, ?_, congrArg Nat.succ hl, ?_, ?_⟩
    · rw [proveLevels]
      simp only [hco, hnew, ok_bind, Except.mapError, hs]
      rw [childSlice, hrun, ← belowPath_childSlice hh]
      rfl
    · rw [zipIdx_cons, hd]
      exact forall_mem_cons.2 ⟨hc, hr⟩
    · rw [rowsOf_cons, drop_pathOf hh, WideMerkle.levels, hd]
      refine ⟨fun x => ?_, ?_⟩
      · rw [hrow x, WideMerkle.children, hd]
        rfl
      · simp only [leafAt_cons hh]
        exact hb

end Generated

/-! ## The committed objects -/

section Committed

variable {C : Crypto} {id : ObjectId} {objects : List Object}

def treeRoot (C : Crypto) (objects : List Object) : Digest384 :=
  WideMerkle.root stateTreeArity (hashNode C) stateTreeDepth 0 (leafAt C 0 objects)

def objectAt (objects : List Object) (id : ObjectId) : Option Object :=
  objects.find? fun object => object.objectId == id

/-- The sorted objects with the one of an identifier inserted, replaced or deleted. -/
def withObject (objects : List Object) (id : ObjectId) (after : Option Object) : List Object :=
  Splice.splice (fun object => object.objectId.toNat) id.toNat after objects

variable {proof : StateProof C} {after : Option Object} {commitment : StateCommitment}
  {object : Object}

theorem objectAt_eq :
    objectAt objects id = objects.find? fun o => o.objectId.toNat == id.toNat := by
  rw [objectAt]
  congr 1
  funext o
  rw [Bool.eq_iff_iff, beq_iff_eq, beq_iff_eq, BitVec.toNat_inj]

theorem objectAt_eq_none : objectAt objects id = none ↔ ∀ o ∈ objects, o.objectId ≠ id := by
  simp [objectAt]

theorem commitObjects_eq_ok :
    commitObjects C objects = .ok commitment ↔ objects.length ≤ maxReferenceStateObjects ∧
      StrictlyIncreasing objects ∧
      commitment = ⟨hashStateRoot C objects.length (treeRoot C objects), objects.length⟩ := by
  have hb : maxReferenceStateObjects < 2 ^ 64 := by decide
  simp only [commitObjects, validateObjects, inversion, not_lt, and_assoc]
  refine and_congr_right fun hle => and_congr_right fun hs => ?_
  have ht : subtreeHash C stateTreeDepth objects = .ok (treeRoot C objects) := by
    rw [subtreeHash_eq (Nat.le_refl _) (Slice.top hs), Nat.sub_self]
    rfl
  rw [ht]
  constructor
  · rintro ⟨root, hr, -, rfl⟩
    rw [ok.inj hr]
  · rintro rfl
    exact ⟨_, rfl, by omega, rfl⟩

theorem leafAt_pathOf : leafAt C 0 objects (pathOf id) = leafOfOption C (objectAt objects id) := by
  rw [leafAt, objectAt]
  congr 2
  funext object
  rw [Bool.eq_iff_iff, drop_zero, beq_iff_eq, beq_iff_eq, pathOf_injective.eq_iff]

/-- The levels of the proof are, beside the path of its identifier, those of the tree. -/
def Follows (objects : List Object) (proof : StateProof C) : Prop :=
  WideMerkle.Beside (pathOf proof.objectId) (rowsOf C 0 proof.levels)
    (WideMerkle.levels stateTreeArity (hashNode C) stateTreeDepth 0 (leafAt C 0 objects)
      (pathOf proof.objectId))

/-- The kind of the proof of a leaf. -/
def kindOf (slot : Option Object) : StateProofKind :=
  if slot.isSome then .membership else .nonMembership

theorem Follows.reconstruct (h : Follows objects proof) (leaf : Digest384) :
    reconstructTreeRoot C proof leaf = root stateTreeArity (hashNode C) stateTreeDepth 0
      (update (leafAt C 0 objects) (pathOf proof.objectId) leaf) := by
  rw [reconstructTreeRoot_eq, fold_congr leaf h, fold_levels leaf isPath_pathOf.1]

theorem verifyBefore_eq_ok {slot : Option Object} :
    verifyBefore C commitment proof slot = .ok () ↔ proof.kind = kindOf slot ∧
      (∀ o ∈ slot, proof.objectId = o.objectId) ∧
      hashStateRoot C commitment.objectCount (reconstructTreeRoot C proof (leafOfOption C slot)) =
        commitment.root := by
  cases slot <;> simp only [verifyBefore, verifyMembership, verifyNonMembership, verifyFold,
    inversion, leafOfOption] <;> simp [kindOf]

theorem verifyNonMembership_eq_ok : verifyNonMembership C commitment id proof = .ok () ↔
    proof.objectId = id ∧ verifyBefore C commitment proof none = .ok () := by
  simp only [verifyBefore, verifyNonMembership, inversion, true_and]
  tauto

def commitmentOf (C : Crypto) (objects : List Object) : StateCommitment :=
  ⟨hashStateRoot C objects.length (treeRoot C objects), objects.length⟩

section

variable (hs : StrictlyIncreasing objects)
include hs

theorem StrictlyIncreasing.keys : objects.Pairwise fun a b => a.objectId.toNat < b.objectId.toNat :=
  hs.imp fun h => BitVec.lt_def.1 h

theorem objectAt_eq_some :
    objectAt objects id = some object ↔ object ∈ objects ∧ object.objectId = id := by
  rw [objectAt_eq, find?_key_eq_some_iff hs.keys, BitVec.toNat_inj]

theorem find?_path_eq_some {path : List Nat} :
    objects.find? (fun o => (pathOf o.objectId).drop 0 == path) = some object ↔
      object ∈ objects ∧ pathOf object.objectId = path := by
  rw [find?_eq_some_iff hs.keys, drop_zero, beq_iff_eq]
  intro a b ha hb
  rw [drop_zero, beq_iff_eq] at ha hb
  rw [pathOf_injective (ha.trans hb.symm)]

theorem withObject_sorted (haf : ∀ o ∈ after, o.objectId = id) :
    StrictlyIncreasing (withObject objects id after) := by
  have hso := splice_sorted hs.keys fun o ho =>
    congrArg BitVec.toNat (haf o ho)
  exact hso.imp fun h => BitVec.lt_def.2 h

theorem leafAt_withObject (haf : ∀ obj ∈ after, obj.objectId = id) :
    leafAt C 0 (withObject objects id after) =
      update (leafAt C 0 objects) (pathOf id) (leafOfOption C after) := by
  have hf : ∀ path obj,
      (withObject objects id after).find? (fun o => (pathOf o.objectId).drop 0 == path) =
        some obj ↔ (obj ∈ after ∨ obj ∈ objects ∧ obj.objectId.toNat ≠ id.toNat) ∧
          pathOf obj.objectId = path := by
    intro path obj
    rw [find?_path_eq_some (withObject_sorted hs haf), withObject, mem_splice]
  funext path
  rw [leafAt]
  by_cases hp : path = pathOf id
  · subst hp
    rw [update_self]
    congr 1
    refine Option.ext fun obj => ?_
    rw [hf, pathOf_injective.eq_iff]
    constructor
    · rintro ⟨hmem | ⟨-, hne⟩, heq⟩
      · exact hmem
      · exact absurd (congrArg BitVec.toNat heq) hne
    · exact fun hmem => ⟨.inl hmem, haf obj hmem⟩
  · rw [update_of_ne hp, leafAt]
    congr 1
    refine Option.ext fun obj => ?_
    rw [hf, find?_path_eq_some hs]
    constructor
    · rintro ⟨hmem | ⟨hmem, -⟩, heq⟩
      · exact absurd (heq ▸ congrArg pathOf (haf obj hmem)) hp
      · exact ⟨hmem, heq⟩
    · rintro ⟨hmem, heq⟩
      refine ⟨.inr ⟨hmem, fun h => hp ?_⟩, heq⟩
      rw [← heq, BitVec.eq_of_toNat_eq h]

theorem proveObject_spec (C : Crypto) (id : ObjectId)
    (hle : objects.length ≤ maxReferenceStateObjects) :
    ∃ proof, proveObject C objects id = .ok proof ∧ proof.objectId = id ∧
      proof.kind = kindOf (objectAt objects id) ∧ Follows objects proof := by
  obtain ⟨levels, hrun, hl, hc, hbe⟩ := proveLevels_spec C id (Nat.le_refl _) (Slice.top hs)
  have hlef : belowPath stateTreeDepth id objects = (objectAt objects id).toList := by
    have hp : (fun o : Object => (pathOf o.objectId).drop (stateTreeDepth -
        stateTreeDepth) == (pathOf id).drop (stateTreeDepth - stateTreeDepth)) =
        fun o => o.objectId.toNat == id.toNat := by
      funext o
      rw [Bool.eq_iff_iff, Nat.sub_self, drop_zero, drop_zero, beq_iff_eq, beq_iff_eq,
        pathOf_injective.eq_iff, BitVec.toNat_inj]
    rw [belowPath, hp, objectAt_eq]
    refine filter_eq_toList_find? hs.keys fun a b ha hb => ?_
    rw [beq_iff_eq.1 ha, beq_iff_eq.1 hb]
  rw [hlef] at hrun
  refine ⟨⟨kindOf (objectAt objects id), id, levels, hl, hc⟩, ?_, rfl, rfl, hbe⟩
  rw [proveObject, validateObjects, rejectIf_of_not (not_lt.2 hle), ok_bind,
    rejectIf_of_not (not_not.2 hs), ok_bind, hrun, ok_bind]
  cases ho : objectAt objects id with
  | none =>
    simp [StateProof.new_of_canonical _ hl hc, kindOf]
  | some o =>
    have hid := ((objectAt_eq_some hs).1 ho).2
    simp [StateProof.new_of_canonical _ hl hc, hid, kindOf]

theorem generated_verifies (hf : Follows objects proof)
    (hk : proof.kind = kindOf (objectAt objects proof.objectId)) :
    verifyBefore C (commitmentOf C objects) proof (objectAt objects proof.objectId) = .ok () := by
  refine verifyBefore_eq_ok.2 ⟨hk, fun _ h => ((objectAt_eq_some hs).1 h).2.symm, ?_⟩
  rw [hf.reconstruct, ← leafAt_pathOf, update_eq_self, commitmentOf, treeRoot]

theorem updatedCount_eq (hle : (withObject objects id after).length ≤ maxReferenceStateObjects) :
    updatedObjectCount objects.length (objectAt objects id).isSome after.isSome =
      .ok (withObject objects id after).length := by
  have hbo : maxReferenceStateObjects < 2 ^ 64 := by decide
  have hl := length_splice (x := after) (k := id.toNat) hs.keys
  rw [← objectAt_eq] at hl
  change (withObject objects id after).length + _ = _ at hl
  cases hb : objectAt objects id <;> cases after <;>
    simp only [hb, Option.toList, length_nil, length_singleton, Nat.add_zero,
      Option.isSome, updatedObjectCount] at hl ⊢
  · rw [hl]
  · rw [okOr_eq_ok, checkedAdd, if_pos (by omega), hl]
  · rw [okOr_eq_ok, checkedSub, if_pos (by omega), ← hl]
    rfl
  · rw [Nat.add_right_cancel hl]

end

/-- **Generated proofs are complete.**  For objects in order the generated proof verifies against
their commitment, as membership exactly when the identifier is present and as absence exactly when
it is not; and the update it carries ends at the commitment of the updated objects. -/
theorem proveObject_complete (C : Crypto) {objects : List Object}
    (hle : objects.length ≤ maxReferenceStateObjects) (hs : StrictlyIncreasing objects)
    (id : ObjectId) :
    ∃ commitment proof, commitObjects C objects = .ok commitment ∧
      proveObject C objects id = .ok proof ∧
      (∀ object ∈ objects, object.objectId = id →
        verifyMembership C commitment object proof = .ok ()) ∧
      ((∃ object, verifyMembership C commitment object proof = .ok ()) ↔
        ∃ object ∈ objects, object.objectId = id) ∧
      (verifyNonMembership C commitment id proof = .ok () ↔
        ∀ object ∈ objects, object.objectId ≠ id) ∧
      ∀ after : Option Object, (∀ object ∈ after, object.objectId = id) →
        (withObject objects id after).length ≤ maxReferenceStateObjects →
        ∃ updated, commitObjects C (withObject objects id after) = .ok updated ∧
          applySingleKeyUpdate C commitment proof (objectAt objects id) after = .ok updated := by
  obtain ⟨proof, hpr, hid, hki, hf⟩ := proveObject_spec hs C id hle
  subst hid
  have hb := generated_verifies hs hf hki
  have hm : ∀ object ∈ objects, object.objectId = proof.objectId →
      verifyMembership C (commitmentOf C objects) object proof = .ok () := by
    intro object hmem heq
    rwa [(objectAt_eq_some hs).2 ⟨hmem, heq⟩] at hb
  have hp : ∀ slot, verifyBefore C (commitmentOf C objects) proof slot = .ok () →
      slot.isSome = (objectAt objects proof.objectId).isSome := by
    intro slot hv
    have hk := (verifyBefore_eq_ok.1 hv).1.symm.trans hki
    unfold kindOf at hk
    split_ifs at hk <;> simp_all
  refine ⟨commitmentOf C objects, proof, commitObjects_eq_ok.2 ⟨hle, hs, rfl⟩, hpr, hm,
    ⟨?_, ?_⟩, ?_, fun after haf hl => ⟨commitmentOf C _,
      commitObjects_eq_ok.2 ⟨hl, withObject_sorted hs haf, rfl⟩, ?_⟩⟩
  · rintro ⟨object, hv⟩
    obtain ⟨present, ho⟩ := Option.isSome_iff_exists.1 (hp (some object) hv).symm
    exact ⟨present, (objectAt_eq_some hs).1 ho⟩
  · rintro ⟨object, hmem, heq⟩
    exact ⟨object, hm object hmem heq⟩
  · rw [verifyNonMembership_eq_ok, ← objectAt_eq_none]
    refine ⟨fun ⟨_, hv⟩ => ?_, fun hn => ⟨rfl, hn ▸ hb⟩⟩
    exact Option.isNone_iff_eq_none.1 (Option.isSome_eq_false_iff.1 (hp _ hv).symm)
  · have hsa : ¬ ∃ object ∈ after, object.objectId ≠ proof.objectId := by
      rintro ⟨object, hmem, hne⟩
      exact hne (haf object hmem)
    have hc := updatedCount_eq hs hl
    rw [applySingleKeyUpdate, mapError_eq_ok.2 hb, ok_bind, rejectIf_of_not hsa, ok_bind]
    simp only [commitmentOf, hc, ok_bind, hf.reconstruct, treeRoot, leafAt_withObject hs haf]
    rfl

def sampleObject (id : ObjectId) : Object where
  objectId := id
  objectVersion := 1
  typeId := 2
  owner := .shared
  controlPolicyHash := 0
  usePolicyHash := 0
  disclosurePolicyHash := 0
  upgradePolicyHash := 0
  packageId := none
  valueRoot := 0
  publicValue := some []
  leaseExpiryEpoch := 9
  storageDeposit := 0
  flags := .none
  publicBounded := by simp
  immutableFixed := by simp

theorem samples_increasing : StrictlyIncreasing [sampleObject 1, sampleObject 2] := by decide

theorem third_object_inserted : ∃ commitment proof updated,
    commitObjects .transparent [sampleObject 1, sampleObject 2] = .ok commitment ∧
      proveObject .transparent [sampleObject 1, sampleObject 2] 3 = .ok proof ∧
      verifyNonMembership .transparent commitment 3 proof = .ok () ∧
      commitObjects .transparent [sampleObject 1, sampleObject 2, sampleObject 3] =
        .ok updated ∧
      applySingleKeyUpdate .transparent commitment proof none (some (sampleObject 3)) =
        .ok updated := by
  obtain ⟨commitment, proof, hc, hp, -, -, hab, hu⟩ :=
    proveObject_complete .transparent (by decide) samples_increasing 3
  obtain ⟨updated, haf, hap⟩ := hu (some (sampleObject 3)) (by rintro object ⟨⟩; rfl) (by decide)
  exact ⟨commitment, proof, updated, hc, hp, hab.2 (by decide), haf, hap⟩

end Committed

/-! ## Verified proofs -/

section Verified

variable {C : Crypto} {objects : List Object} {proof proof' : StateProof C}

/-- **A proof that follows the tree is determined by its kind and identifier.** -/
theorem Follows.unique (h : Follows objects proof) (h' : Follows objects proof')
    (hk : proof.kind = proof'.kind) (hid : proof.objectId = proof'.objectId) : proof = proof' := by
  obtain ⟨kind, id, levels, hl, hc⟩ := proof
  obtain ⟨kind', id', levels', hl', hc'⟩ := proof'
  subst hk hid
  have hu := levels_unique C id hl hl' (Nat.le_refl _)
  exact StateProof.ext rfl rfl (hu hc hc' (Beside.of_common h h'))

variable (hash : Function.Injective C.shake256)
include hash

theorem hashNode_injective (d : Nat) : Injective (hashNode C d) := by
  intro children children' h
  have h := append_cancel_left (hash h)
  exact (map_injective_iff.2 fun _ _ => Chunk.digest.inj) h

theorem hashLeaf_injective : Injective (hashLeaf C) := by
  intro o object' h
  have h := hash h
  simp only [stateTranscript, cons_append, nil_append, cons.injEq] at h
  exact Object.body_injective (body_of_envelope h.2.2.2.2.2)

theorem hashLeaf_ne_empty (o : Object) : hashLeaf C o ≠ emptyHash C 0 := by
  intro h
  have h := hash h
  simp [stateTranscript] at h

theorem leafOfOption_injective : Injective (leafOfOption C) := by
  intro a b h
  cases a with
  | none =>
    cases b with
    | none => rfl
    | some o => exact absurd h.symm (hashLeaf_ne_empty hash o)
  | some o =>
    cases b with
    | none => exact absurd h (hashLeaf_ne_empty hash o)
    | some object' => exact congrArg some (hashLeaf_injective hash h)

theorem follows_of_root (leaf : Option Object)
    (h : hashStateRoot C (commitmentOf C objects).objectCount
      (reconstructTreeRoot C proof (leafOfOption C leaf)) = (commitmentOf C objects).root) :
    leaf = objectAt objects proof.objectId ∧ Follows objects proof := by
  have hr : reconstructTreeRoot C proof (leafOfOption C leaf) = treeRoot C objects := by
    have h := append_cancel_left (hash h)
    simpa [commitmentOf] using h
  rw [reconstructTreeRoot_eq] at hr
  obtain ⟨hl, hf⟩ := fold_eq_root (hashNode_injective hash) isPath_pathOf
    (by simp [rowsOf, proof.levelCount]) length_row hr
  rw [leafAt_pathOf] at hl
  exact ⟨leafOfOption_injective hash hl, hf⟩

/-- **Verified proofs are sound and unique.**  Under an injective hash, a proof that verifies
against the commitment of the objects states the truth about them, and is the proof that is
generated. -/
theorem verified_proof_generated {commitment : StateCommitment}
    (hcommit : commitObjects C objects = .ok commitment) (proof : StateProof C) :
    (∀ object, verifyMembership C commitment object proof = .ok () →
      object ∈ objects ∧ proveObject C objects object.objectId = .ok proof) ∧
    ∀ id, verifyNonMembership C commitment id proof = .ok () →
      (∀ object ∈ objects, object.objectId ≠ id) ∧ proveObject C objects id = .ok proof := by
  obtain ⟨hle, hs, rfl⟩ := commitObjects_eq_ok.1 hcommit
  -- the generated proof has the same kind and follows the same tree
  have hg : ∀ slot, verifyBefore C (commitmentOf C objects) proof slot = .ok () →
      objectAt objects proof.objectId = slot ∧ proveObject C objects proof.objectId =
      .ok proof := by
    intro slot hv
    obtain ⟨hk, -, hr⟩ := verifyBefore_eq_ok.1 hv
    obtain ⟨rfl, hf⟩ := follows_of_root hash slot hr
    obtain ⟨proof', hp, hid, hk', hf'⟩ := proveObject_spec hs C proof.objectId hle
    exact ⟨rfl, by rw [hp, hf'.unique hf (hk'.trans hk.symm) hid]⟩
  constructor
  · intro object hv
    obtain ⟨ho, hp⟩ := hg (some object) hv
    obtain ⟨hmem, heq⟩ := (objectAt_eq_some hs).1 ho
    exact ⟨hmem, heq ▸ hp⟩
  · intro id hv
    obtain ⟨rfl, hv⟩ := verifyNonMembership_eq_ok.1 hv
    obtain ⟨ho, hp⟩ := hg none hv
    exact ⟨objectAt_eq_none.1 ho, hp⟩

end Verified

theorem second_object_proved : ∃ commitment proof,
    commitObjects .transparent [sampleObject 1, sampleObject 2] = .ok commitment ∧
      verifyMembership .transparent commitment (sampleObject 2) proof = .ok () ∧
      sampleObject 2 ∈ [sampleObject 1, sampleObject 2] ∧
      proveObject .transparent [sampleObject 1, sampleObject 2] 2 = .ok proof := by
  obtain ⟨proof, -, hid, hk, hf⟩ :=
    proveObject_spec samples_increasing .transparent 2 (by decide)
  have hc := commitObjects_eq_ok (C := Crypto.transparent).2 ⟨by decide, samples_increasing, rfl⟩
  have hp : objectAt [sampleObject 1, sampleObject 2] proof.objectId =
      some (sampleObject 2) := by
    rw [hid]
    decide
  have hv := generated_verifies samples_increasing hf (hid ▸ hk)
  rw [hp] at hv
  exact ⟨_, proof, hc, hv, (verified_proof_generated Crypto.transparent_injective hc proof).1 _ hv⟩

end StateTree

end ActiveChain
