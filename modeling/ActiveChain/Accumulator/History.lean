import ActiveChain.Accumulator.SetCommitment
import ActiveChain.Lib.BitPath
import ActiveChain.Lib.DigitRuns

/-!
# The header history (`accumulator`)

One digest and a count stand for a list of header digests.  A header is appended with a sibling path
that shows its place empty; a header is proved with a path that shows it at its index.

* `HistoryCommitment` — the constant-size history, with `append` and `verify`.
* `ReferenceHistory` — the full list, which makes the commitment and the paths.
* `historyCommitmentOf` — the commitment of a list, as a sparse Merkle tree over 32-bit indexes.
* `historySubtree_eq`, `historyProof_eq` — the recursive builder computes subtrees of that tree.
* `HistoryCommitment.append_ok`, `append_absence` — exactly the next header can be appended.
-/

namespace ActiveChain

open BitPath Except Function List SparseMerkle

/-! ## Hashes -/

def historyBits : Nat := 32

def asU32 (n : Nat) : Nat := n % 2 ^ 32

def indexBit (index depth : Nat) : Bool := BitPath.bit historyBits index depth

section Hashes

variable (C : Crypto)

def emptyHistoryLeaf : Digest384 := C.shake256 [.tag "ACTIVECHAIN-HISTORY-EMPTY-V1"]

def historyLeaf (index : Nat) (header : Digest384) : Digest384 :=
  C.shake256 [.tag "ACTIVECHAIN-HISTORY-LEAF-V1", .u32 index, .digest header]

def historyNode (depth : Nat) (left right : Digest384) : Digest384 :=
  C.shake256 [.tag "ACTIVECHAIN-HISTORY-NODE-V1", .u16 depth, .digest left, .digest right]

def historyCommitmentRoot (count : Nat) (treeRoot : Digest384) : Digest384 :=
  C.shake256 [.tag "ACTIVECHAIN-HISTORY-ROOT-V1", .u32 count, .digest treeRoot]

/-- `history_empty_hashes`: the digest of an empty subtree at `depth`. -/
def historyEmptyHash (depth : Nat) : Digest384 :=
  (List.range' depth (historyBits - depth)).foldr (fun d child => historyNode C d child child)
    (emptyHistoryLeaf C)

/-- From the leaf upwards, with siblings in root-to-leaf order. -/
def foldHistory (index : Nat) (leaf : Digest384) (siblings : List Digest384) : Digest384 :=
  siblings.zipIdx.foldr (fun (sibling, depth) child =>
    if indexBit index depth then historyNode C depth sibling child
    else historyNode C depth child sibling) leaf

/-- The source's `partition_point` is where the run of clear bits ends: the entries are in index
order and share the bits above `depth`. -/
def historySubtree (entries : List (Nat × Digest384)) (depth : Nat) : Digest384 :=
  match entries with
  | [] => historyEmptyHash C depth
  | (index, header) :: rest =>
    if depth < historyBits then
      let left := fun entry : Nat × Digest384 => !indexBit (asU32 entry.1) depth
      historyNode C depth
        (historySubtree (((index, header) :: rest).takeWhile left) (depth + 1))
        (historySubtree (((index, header) :: rest).dropWhile left) (depth + 1))
    else historyLeaf C (asU32 index) header
termination_by historyBits - depth

end Hashes

/-! ## The constant-size history -/

@[ext] structure HistoryCommitment where
  root : Digest384
  count : Nat

structure HistoryProof where
  index : Nat
  headerDigest : Digest384
  siblings : List Digest384

namespace HistoryCommitment

variable (C : Crypto)

variable (c : HistoryCommitment) (headerDigest : Digest384)

def append (absenceWitness : HistoryProof) : AccumulatorM HistoryCommitment := do
  rejectIf (headerDigest = 0 ∨ absenceWitness.index ≠ c.count ∨ absenceWitness.headerDigest ≠ 0 ∨
    absenceWitness.siblings.length ≠ historyBits) .bounds
  let emptyTree := foldHistory C c.count (emptyHistoryLeaf C) absenceWitness.siblings
  rejectIf (historyCommitmentRoot C c.count emptyTree ≠ c.root) .wrongRoot
  let count ← okOr (checkedAdd 32 c.count 1) .overflow
  let tree := foldHistory C c.count (historyLeaf C c.count headerDigest) absenceWitness.siblings
  return ⟨historyCommitmentRoot C count tree, count⟩

def verify (proof : HistoryProof) : AccumulatorM Unit := do
  rejectIf (c.count ≤ proof.index ∨ proof.headerDigest = 0 ∨
    proof.siblings.length ≠ historyBits) .bounds
  let tree := foldHistory C proof.index (historyLeaf C proof.index proof.headerDigest)
    proof.siblings
  rejectIf (historyCommitmentRoot C c.count tree ≠ c.root) .wrongRoot

def appendAll (appends : List (Digest384 × HistoryProof)) :
    AccumulatorM HistoryCommitment :=
  appends.foldlM (fun c entry => c.append C entry.1 entry.2) c

end HistoryCommitment

/-! ## The full list -/

/-- `iter().copied().enumerate()`. -/
def enumerateHeaders (headers : List Digest384) : List (Nat × Digest384) :=
  headers.zipIdx.map Prod.swap

/-- One round of the loop in `history_proof`: the candidates that share the index's bits so far, and
the siblings found. -/
def proofRound (C : Crypto) (index : Nat) (state : List (Nat × Digest384) × List Digest384)
    (depth : Nat) : List (Nat × Digest384) × List Digest384 :=
  let (candidates, siblings) := state
  let left := candidates.filter fun entry => !indexBit (asU32 entry.1) depth
  let right := candidates.filter fun entry => indexBit (asU32 entry.1) depth
  if indexBit index depth then (right, siblings ++ [historySubtree C left (depth + 1)])
  else (left, siblings ++ [historySubtree C right (depth + 1)])

def historyProof (C : Crypto) (headers : List Digest384) (index : Nat) (headerDigest : Digest384) :
    HistoryProof :=
  ⟨index, headerDigest,
    ((List.range historyBits).foldl (proofRound C index) (enumerateHeaders headers, [])).2⟩

structure ReferenceHistory where
  headers : List Digest384

namespace ReferenceHistory

variable (C : Crypto)

/-- `ReferenceHistory::default`. -/
def empty : ReferenceHistory := ⟨[]⟩

variable (history : ReferenceHistory)

def commitment : HistoryCommitment :=
  let tree := historySubtree C (enumerateHeaders history.headers) 0
  ⟨historyCommitmentRoot C (asU32 history.headers.length) tree, asU32 history.headers.length⟩

def absenceWitness : AccumulatorM HistoryProof := do
  rejectIf (2 ^ 32 ≤ history.headers.length) .overflow
  return historyProof C history.headers history.headers.length 0

def proof (index : Nat) : AccumulatorM HistoryProof := do
  let digest ← okOr history.headers[index]? .bounds
  return historyProof C history.headers index digest

def append (headerDigest : Digest384) : AccumulatorM ReferenceHistory := do
  rejectIf (headerDigest = 0 ∨ history.headers.length = 2 ^ 32 - 1) .bounds
  return ⟨history.headers ++ [headerDigest]⟩

def appendAll (headers : List Digest384) : AccumulatorM ReferenceHistory :=
  headers.foldlM append history

/-- An append to both, with the witness that the full list makes. -/
def appendWitnessed (both : ReferenceHistory × HistoryCommitment) (headerDigest : Digest384) :
    AccumulatorM (ReferenceHistory × HistoryCommitment) := do
  let witness ← both.1.absenceWitness C
  let commitment ← both.2.append C headerDigest witness
  let history ← both.1.append headerDigest
  return (history, commitment)

end ReferenceHistory

/-! ## The tree of a list of headers -/

def indexPath (index : Nat) : List Bool := BitPath.pathTo historyBits index historyBits

section Tree

variable (C : Crypto) (headers : List Digest384)

/-- The leaf of an index that may hold a header. -/
def placeDigest (index : Nat) (place : Option Digest384) : Digest384 :=
  place.elim (emptyHistoryLeaf C) (historyLeaf C index)

def historyLeafAt (path : List Bool) : Digest384 :=
  placeDigest C (BitPath.ofPath historyBits path) headers[BitPath.ofPath historyBits path]?

def historyTreeOf : Digest384 :=
  SparseMerkle.root (historyNode C) historyBits 0 (historyLeafAt C headers)

def historyCommitmentOf : HistoryCommitment :=
  ⟨historyCommitmentRoot C headers.length (historyTreeOf C headers), headers.length⟩

def historySiblingsOf (index : Nat) : List Digest384 :=
  SparseMerkle.siblings (historyNode C) historyBits 0 (historyLeafAt C headers) (indexPath index)

def entriesBelow (path : List Bool) : List (Nat × Digest384) :=
  (enumerateHeaders headers).filter fun entry =>
    BitPath.pathTo historyBits entry.1 path.length = path

end Tree

open ReferenceHistory

section Tree

variable {C : Crypto} {headers : List Digest384} {path : List Bool} {index : Nat}

@[simp] theorem length_indexPath : (indexPath index).length = historyBits := length_pathTo

theorem mem_enumerateHeaders {e : Nat × Digest384} :
    e ∈ enumerateHeaders headers ↔ headers[e.1]? = some e.2 := by
  rw [enumerateHeaders, mem_map]
  constructor
  · rintro ⟨pair, hmem, rfl⟩
    exact mem_zipIdx_iff_getElem?.1 hmem
  · intro hget
    exact ⟨(e.2, e.1), mem_zipIdx_iff_getElem?.2 hget, rfl⟩

theorem enumerateHeaders_sorted : (enumerateHeaders headers).Pairwise (·.1 < ·.1) := by
  have hi : (headers.zipIdx.map Prod.snd).Pairwise (· < ·) := by
    rw [zipIdx_map_snd]
    exact pairwise_lt_range'
  rw [enumerateHeaders, pairwise_map]
  exact pairwise_map.1 hi

theorem asU32_of_lt (h : index < 2 ^ 32) : asU32 index = index := Nat.mod_eq_of_lt h

theorem fits_of_lt (h : index < 2 ^ 32) : Fits historyBits index := h

theorem entriesBelow_nil : entriesBelow headers [] = enumerateHeaders headers := by
  refine filter_eq_self.2 fun e _ => ?_
  rfl

theorem mem_entriesBelow {e : Nat × Digest384} : e ∈ entriesBelow headers path ↔
    headers[e.1]? = some e.2 ∧ pathTo historyBits e.1 path.length = path := by
  rw [entriesBelow, mem_filter, mem_enumerateHeaders, decide_eq_true_eq]

section Fits

variable (hfit : headers.length ≤ 2 ^ 32)
include hfit

theorem lt_of_mem_entriesBelow {e : Nat × Digest384} (h : e ∈ entriesBelow headers path) :
    e.1 < 2 ^ 32 :=
  Nat.lt_of_lt_of_le (List.getElem?_eq_some_iff.1 (mem_entriesBelow.1 h).1).1 hfit

theorem filter_entriesBelow (b : Bool) :
    (entriesBelow headers path).filter (fun e => indexBit (asU32 e.1) path.length == b) =
      entriesBelow headers (path ++ [b]) := by
  have hsi : (entriesBelow headers path).filter (fun e => indexBit (asU32 e.1) path.length == b) =
      (entriesBelow headers path).filter fun e => indexBit e.1 path.length == b := by
    refine filter_congr fun e hmem => ?_
    rw [asU32_of_lt (lt_of_mem_entriesBelow hfit hmem)]
  rw [hsi, entriesBelow, entriesBelow, filter_filter]
  refine filter_congr fun e _ => ?_
  rw [length_append, length_singleton, pathTo_succ, Bool.eq_iff_iff]
  have hs : pathTo historyBits e.1 path.length ++
      [bit historyBits e.1 path.length] = path ++ [b] ↔
      pathTo historyBits e.1 path.length = path ∧ bit historyBits e.1 path.length = b := by
    rw [append_eq_append_iff_of_size_eq_left length_pathTo, singleton_inj]
  rw [decide_eq_true_eq, hs, Bool.and_eq_true, beq_iff_eq, decide_eq_true_eq, indexBit]
  exact and_comm

theorem scan_entriesBelow (hp : path.length < historyBits) :
    (entriesBelow headers path).takeWhile (fun e => !indexBit (asU32 e.1) path.length) =
        entriesBelow headers (path ++ [false]) ∧
      (entriesBelow headers path).dropWhile (fun e => !indexBit (asU32 e.1) path.length) =
        entriesBelow headers (path ++ [true]) := by
  have hf : (entriesBelow headers path).Pairwise fun e entry' =>
      (!indexBit (asU32 entry'.1) path.length) = true →
        (!indexBit (asU32 e.1) path.length) = true := by
    have hs : (entriesBelow headers path).Pairwise (·.1 < ·.1) := enumerateHeaders_sorted.filter _
    refine hs.imp_of_mem fun {e entry'} hmem hmem' hlt hc => ?_
    have hb := lt_of_mem_entriesBelow hfit hmem
    have hb' := lt_of_mem_entriesBelow hfit hmem'
    have hsh := (mem_entriesBelow.1 hmem).2.trans (mem_entriesBelow.1 hmem').2.symm
    rw [asU32_of_lt hb'] at hc
    rw [asU32_of_lt hb]
    by_contra hset
    have hbit := bit_of_lt hp (fits_of_lt hb) (fits_of_lt hb') hsh hlt
      (by simpa [indexBit] using hset)
    simp [indexBit, hbit] at hc
  obtain ⟨ht, hd⟩ := DigitRuns.scan_eq_filter hf
  rw [ht, hd, ← filter_entriesBelow hfit, ← filter_entriesBelow hfit]
  simp

omit hfit in
theorem subtree_of_entriesBelow_nil (hpa : path.length ≤ historyBits)
    (hn : entriesBelow headers path = []) :
    subtree (historyNode C) historyBits (historyLeafAt C headers) path =
      historyEmptyHash C path.length := by
  have hl : ∀ q : List Bool, q.length = historyBits - path.length →
      historyLeafAt C headers (path ++ q) = emptyHistoryLeaf C := by
    intro q hq
    have hle : (path ++ q).length = historyBits := by
      rw [length_append]
      omega
    have hp : headers[ofPath historyBits (path ++ q)]? = none := by
      by_contra hs
      obtain ⟨header, hh⟩ := Option.ne_none_iff_exists'.1 hs
      have hmem : (ofPath historyBits (path ++ q), header) ∈ entriesBelow headers path := by
        refine mem_entriesBelow.2 ⟨hh, ?_⟩
        rw [← take_pathTo hpa, pathTo_ofPath hle, take_left]
      rw [hn] at hmem
      cases hmem
    rw [historyLeafAt, hp]
    rfl
  rw [subtree, root_congr hl, root_const, historyEmptyHash]

theorem historySubtree_eq (n : Nat) : ∀ path : List Bool, path.length + n = historyBits →
    historySubtree C (entriesBelow headers path) path.length =
      subtree (historyNode C) historyBits (historyLeafAt C headers) path := by
  induction n with
  | zero =>
    intro path hp
    cases he : entriesBelow headers path with
    | nil =>
      rw [historySubtree, subtree_of_entriesBelow_nil (by omega) he]
    | cons e rest =>
      -- the one entry at the end of the path is the leaf
      have hmem : e ∈ entriesBelow headers path := by
        rw [he]
        exact mem_cons_self
      have hbo := lt_of_mem_entriesBelow hfit hmem
      obtain ⟨hget, hown⟩ := mem_entriesBelow.1 hmem
      have hi : ofPath historyBits path = e.1 := by
        rw [← hown, show path.length = historyBits by omega,
          ofPath_pathTo (fits_of_lt hbo)]
      rw [historySubtree, if_neg (by omega), subtree_full (by omega),
        historyLeafAt, hi, hget, asU32_of_lt hbo]
      rfl
  | succ n ih =>
    intro path hp
    cases he : entriesBelow headers path with
    | nil => rw [historySubtree, subtree_of_entriesBelow_nil (by omega) he]
    | cons e rest =>
      have hb : path.length < historyBits := by omega
      obtain ⟨hl, hr⟩ := scan_entriesBelow hfit hb
      have hc : ∀ b, historySubtree C (entriesBelow headers (path ++ [b]))
          (path.length + 1) = subtree (historyNode C) historyBits
            (historyLeafAt C headers) (path ++ [b]) := by
        intro b
        have h := ih (path ++ [b]) (by rw [length_append, length_singleton]; omega)
        rwa [length_append, length_singleton] at h
      rw [historySubtree, if_pos hb, subtree_split hb]
      dsimp only
      rw [← he, hl, hr, hc, hc]

theorem proofRound_eq {d : Nat} (hd : d < historyBits) (siblings : List Digest384) :
    proofRound C index (entriesBelow headers (pathTo historyBits index d), siblings) d =
      (entriesBelow headers (pathTo historyBits index (d + 1)),
        siblings ++ [subtree (historyNode C) historyBits (historyLeafAt C headers)
          (pathTo historyBits index d ++ [!bit historyBits index d])]) := by
  have hl : (pathTo historyBits index d).length = d := length_pathTo
  have hsi : ∀ b, (entriesBelow headers (pathTo historyBits index d)).filter
      (fun e => indexBit (asU32 e.1) d == b) =
      entriesBelow headers (pathTo historyBits index d ++ [b]) := by
    intro b
    rw [← filter_entriesBelow hfit, hl]
  have hs : ∀ b, historySubtree C
      (entriesBelow headers (pathTo historyBits index d ++ [b])) (d + 1) =
      subtree (historyNode C) historyBits (historyLeafAt C headers)
        (pathTo historyBits index d ++ [b]) := by
    intro b
    have hl' : (pathTo historyBits index d ++ [b]).length = d + 1 := by
      rw [length_append, length_singleton, hl]
    have h := historySubtree_eq (C := C) hfit (historyBits - (d + 1))
      (pathTo historyBits index d ++ [b]) (by omega)
    rwa [hl'] at h
  have hle := hsi false
  have hr := hsi true
  simp only [beq_false, beq_true] at hle hr
  rw [pathTo_succ, proofRound, hle, hr, hs, hs, indexBit]
  cases bit historyBits index d <;> rfl

theorem historyProof_eq (header : Digest384) :
    historyProof C headers index header = ⟨index, header, historySiblingsOf C headers index⟩ := by
  have hr : ∀ d, d ≤ historyBits →
      (range d).foldl (proofRound C index) (enumerateHeaders headers, []) =
        (entriesBelow headers (pathTo historyBits index d), (range d).map fun i =>
          subtree (historyNode C) historyBits (historyLeafAt C headers)
            (pathTo historyBits index i ++ [!bit historyBits index i])) := by
    intro d
    induction d with
    | zero =>
      intro _
      rw [pathTo_zero, entriesBelow_nil]
      rfl
    | succ d ih =>
      intro hd
      rw [range_succ, foldl_append, ih (by omega), foldl_cons, foldl_nil,
        proofRound_eq hfit (by omega), map_append]
      rfl
  rw [historyProof, hr historyBits le_rfl, historySiblingsOf, siblings_eq_subtrees length_indexPath]
  refine congrArg (HistoryProof.mk index header) (map_congr_left fun i hi => ?_)
  have hi : i < historyBits := mem_range.1 hi
  rw [indexPath, take_pathTo hi.le, getD_pathTo hi]

omit hfit in
theorem ReferenceHistory.commitment_eq (hl : headers.length < 2 ^ 32) :
    (mk headers).commitment C = historyCommitmentOf C headers := by
  rw [commitment, historyCommitmentOf, asU32_of_lt hl, historyTreeOf, ← subtree_nil,
    ← historySubtree_eq hl.le historyBits [] (Nat.zero_add _), entriesBelow_nil]
  rfl

end Fits

end Tree

/-! ## Appends and proofs -/

section Append

variable {C : Crypto} {headers : List Digest384} {header : Digest384} {index : Nat}

theorem foldHistory_eq {siblings : List Digest384} (h : siblings.length = historyBits)
    (leaf : Digest384) : foldHistory C index leaf siblings =
      fold (historyNode C) 0 (indexPath index) siblings leaf := by
  rw [foldHistory, foldr_zipIdx, h, indexPath, pathTo, range_eq_range']
  rfl

theorem length_historySiblingsOf : (historySiblingsOf C headers index).length = historyBits :=
  length_siblings _ _ _ _ length_indexPath

theorem historyLeafAt_indexPath (h : index < 2 ^ 32) :
    historyLeafAt C headers (indexPath index) = placeDigest C index headers[index]? := by
  rw [historyLeafAt, indexPath, ofPath_pathTo (fits_of_lt h)]

theorem historyTreeOf_append (hl : headers.length < 2 ^ 32) :
    historyTreeOf C (headers ++ [header]) = foldHistory C headers.length
      (historyLeaf C headers.length header) (historySiblingsOf C headers headers.length) := by
  rw [foldHistory_eq length_historySiblingsOf, historySiblingsOf, fold_siblings _ length_indexPath]
  refine root_congr fun path hp => ?_
  by_cases heq : path = indexPath headers.length
  · rw [heq, update_self, historyLeafAt_indexPath hl, getElem?_append_right le_rfl, Nat.sub_self]
    rfl
  · have hi : ofPath historyBits path ≠ headers.length := by
      intro h
      refine heq ?_
      rw [indexPath, ← h, pathTo_ofPath hp]
    rw [update_of_ne heq, historyLeafAt, historyLeafAt]
    rcases Nat.lt_or_gt_of_ne hi with hlt | hgt
    · rw [getElem?_append_left hlt]
    · rw [getElem?_eq_none hgt.le, getElem?_eq_none]
      rw [length_append, length_singleton]
      exact hgt

theorem foldHistory_empty (hl : headers.length < 2 ^ 32) :
    foldHistory C headers.length (emptyHistoryLeaf C)
      (historySiblingsOf C headers headers.length) = historyTreeOf C headers := by
  have he : historyLeafAt C headers (indexPath headers.length) = emptyHistoryLeaf C := by
    rw [historyLeafAt_indexPath hl, getElem?_eq_none le_rfl]
    rfl
  rw [foldHistory_eq length_historySiblingsOf, ← he]
  exact fold_siblings_self length_indexPath

theorem HistoryCommitment.append_absence (hz : header ≠ 0) (hl : headers.length + 1 < 2 ^ 32) :
    (historyCommitmentOf C headers).append C header
        ⟨headers.length, 0, historySiblingsOf C headers headers.length⟩ =
      .ok (historyCommitmentOf C (headers ++ [header])) := by
  have hf : headers.length < 2 ^ 32 := by omega
  have hc : checkedAdd 32 headers.length 1 = some (headers.length + 1) := if_pos hl
  unfold HistoryCommitment.append historyCommitmentOf
  dsimp only
  rw [rejectIf_of_not (by simp [hz, length_historySiblingsOf]), ok_bind,
    foldHistory_empty hf, rejectIf_of_not (not_not.2 rfl), ok_bind, hc,
    ← historyTreeOf_append hf, length_append]
  rfl

/-- **The headers of the list have proofs.** -/
theorem HistoryCommitment.verify_siblings (hl : headers.length < 2 ^ 32)
    (hget : headers[index]? = some header) (hz : header ≠ 0) :
    (historyCommitmentOf C headers).verify C ⟨index, header, historySiblingsOf C headers index⟩ =
      .ok () := by
  have hi : index < headers.length := (List.getElem?_eq_some_iff.1 hget).1
  have hle : historyLeafAt C headers (indexPath index) = historyLeaf C index header := by
    rw [historyLeafAt_indexPath (hi.trans hl), hget]
    rfl
  have ht : foldHistory C index (historyLeaf C index header) (historySiblingsOf C headers index) =
      historyTreeOf C headers := by
    rw [foldHistory_eq length_historySiblingsOf, ← hle]
    exact fold_siblings_self length_indexPath
  unfold HistoryCommitment.verify historyCommitmentOf
  rw [rejectIf_of_not (by simp [hz, hi, length_historySiblingsOf]), ok_bind, ht,
    rejectIf_of_not (not_not.2 rfl)]

section Injective

variable (hash : Injective C.shake256)
include hash

theorem historyNode_injective : NodeInjective (historyNode C) := by
  intro d l r l' r' h
  have h := hash h
  simp only [Transcript.inversion] at h
  exact h

theorem historyCommitmentRoot_inj {count : Nat} {tree tree' : Digest384}
    (h : historyCommitmentRoot C count tree = historyCommitmentRoot C count tree') :
    tree = tree' := by
  have h := hash h
  simpa using h

theorem historyLeaf_inj {header' : Digest384}
    (h : historyLeaf C index header = historyLeaf C index header') : header = header' := by
  have h := hash h
  simpa using h

theorem HistoryCommitment.append_ok {w : HistoryProof} {next : HistoryCommitment}
    (h : (historyCommitmentOf C headers).append C header w = .ok next) :
    header ≠ 0 ∧ headers.length + 1 < 2 ^ 32 ∧
      next = historyCommitmentOf C (headers ++ [header]) := by
  simp only [HistoryCommitment.append, inversion] at h
  obtain ⟨⟨hz, -, -, hl⟩, hr, count, ⟨rfl, hs⟩, rfl⟩ := h
  have hfi : headers.length < 2 ^ 32 := Nat.lt_of_succ_lt hs
  -- the path to the empty leaf reaches the root: it is the tree's own path
  have hf : foldHistory C headers.length (emptyHistoryLeaf C) w.siblings =
      historyTreeOf C headers := historyCommitmentRoot_inj hash hr
  rw [foldHistory_eq hl] at hf
  obtain ⟨-, hsi⟩ := fold_eq_root (historyNode_injective hash) length_indexPath hl hf
  refine ⟨hz, hs, ?_⟩
  unfold historyCommitmentOf
  rw [historyTreeOf_append hfi, length_append, hsi]
  rfl

/-- **Only the headers of the list have proofs.** -/
theorem HistoryCommitment.verify_ok {proof : HistoryProof} (hle : headers.length < 2 ^ 32)
    (h : (historyCommitmentOf C headers).verify C proof = .ok ()) :
    headers[proof.index]? = some proof.headerDigest := by
  simp only [HistoryCommitment.verify, inversion, not_le] at h
  obtain ⟨⟨hi, -, hs⟩, hr⟩ := h
  have hf : foldHistory C proof.index (historyLeaf C proof.index proof.headerDigest)
      proof.siblings = historyTreeOf C headers := historyCommitmentRoot_inj hash hr
  rw [foldHistory_eq hs] at hf
  obtain ⟨hl, -⟩ := fold_eq_root (historyNode_injective hash) length_indexPath hs hf
  rw [historyLeafAt_indexPath (hi.trans hle), getElem?_eq_getElem hi] at hl
  rw [getElem?_eq_getElem hi, historyLeaf_inj hash hl]

end Injective

end Append

/-! ## Runs of appends -/

section Runs

variable {C : Crypto} {headers : List Digest384}

theorem ReferenceHistory.appendAll_ok : ∀ {history history' : ReferenceHistory},
    history.headers.length < 2 ^ 32 → history.appendAll headers = .ok history' →
    history'.headers = history.headers ++ headers ∧ history'.headers.length < 2 ^ 32 ∧
      ∀ header ∈ headers, header ≠ 0 := by
  induction headers with
  | nil =>
    intro history history' hl h
    cases h
    exact ⟨(append_nil _).symm, hl, by simp⟩
  | cons header headers ih =>
    intro history history' hl h
    simp only [appendAll, foldlM_cons, bind_eq_ok] at h
    obtain ⟨next, hn, hr⟩ := h
    simp only [append, inversion] at hn
    obtain ⟨⟨hz, hro⟩, rfl⟩ := hn
    have hn : (history.headers ++ [header]).length < 2 ^ 32 := by
      rw [length_append, length_singleton]
      omega
    obtain ⟨hh, hf, hno⟩ := ih hn hr
    refine ⟨?_, hf, forall_mem_cons.2 ⟨hz, hno⟩⟩
    rw [hh, append_assoc]
    rfl

theorem ReferenceHistory.appendWitnessed_eq {header : Digest384} (hz : header ≠ 0)
    (hl : headers.length + 1 < 2 ^ 32) :
    appendWitnessed C (⟨headers⟩, historyCommitmentOf C headers) header =
      .ok (⟨headers ++ [header]⟩, historyCommitmentOf C (headers ++ [header])) := by
  have hfit : headers.length ≤ 2 ^ 32 := by omega
  have hr : ¬ (header = 0 ∨ headers.length = 2 ^ 32 - 1) := by
    rintro (h | h)
    · exact hz h
    · omega
  rw [appendWitnessed, absenceWitness, rejectIf_of_not (by simpa using by omega), ok_bind,
    historyProof_eq hfit]
  simp only [pure, Except.pure, ok_bind]
  rw [HistoryCommitment.append_absence hz hl, ok_bind, append, rejectIf_of_not hr]
  rfl

theorem ReferenceHistory.appendWitnessed_run : ∀ {done : List Digest384},
    (∀ header ∈ headers, header ≠ 0) → (done ++ headers).length < 2 ^ 32 →
    headers.foldlM (appendWitnessed C) (⟨done⟩, historyCommitmentOf C done) =
      .ok (⟨done ++ headers⟩, historyCommitmentOf C (done ++ headers)) := by
  induction headers with
  | nil =>
    intro done _ _
    rw [append_nil]
    rfl
  | cons header headers ih =>
    intro done hn hl
    obtain ⟨hz, hn⟩ := forall_mem_cons.1 hn
    have has : done ++ header :: headers = (done ++ [header]) ++ headers := by simp
    have hr : done.length + 1 < 2 ^ 32 := by
      rw [length_append, length_cons] at hl
      omega
    rw [foldlM_cons, appendWitnessed_eq hz hr, ok_bind, has]
    exact ih hn (has ▸ hl)

theorem HistoryCommitment.appendAll_ok (hash : Injective C.shake256)
    {final : HistoryCommitment} (appends : List (Digest384 × HistoryProof)) :
    ∀ {done : List Digest384}, (historyCommitmentOf C done).appendAll C appends = .ok final →
      final = historyCommitmentOf C (done ++ appends.map Prod.fst) := by
  induction appends with
  | nil =>
    intro done h
    cases h
    rw [map_nil, append_nil]
  | cons e appends ih =>
    intro done h
    simp only [appendAll, foldlM_cons, bind_eq_ok] at h
    obtain ⟨next, hn, hr⟩ := h
    obtain ⟨-, -, rfl⟩ := append_ok hash hn
    rw [ih hr, append_assoc]
    rfl

/-- **The constant-size history is the full list's.** For every list of headers that the full
list accepts: appending them gives the list's commitment, with the list's own witnesses or any
others that are accepted, and a proof is accepted exactly for the header at its index. -/
theorem history_sound (hash : Injective C.shake256) {history : ReferenceHistory}
    (h : ReferenceHistory.empty.appendAll headers = .ok history) :
    headers.foldlM (ReferenceHistory.appendWitnessed C)
        (ReferenceHistory.empty, ReferenceHistory.empty.commitment C) =
      .ok (history, history.commitment C) ∧
    (∀ appends final, appends.map Prod.fst = headers →
      (ReferenceHistory.empty.commitment C).appendAll C appends = .ok final →
      final = history.commitment C) ∧
    (∀ index < headers.length, ∃ proof, history.proof C index = .ok proof ∧
      (history.commitment C).verify C proof = .ok ()) ∧
    ∀ proof, (history.commitment C).verify C proof = .ok () →
      headers[proof.index]? = some proof.headerDigest := by
  obtain ⟨hh, hl, hn⟩ := appendAll_ok (by decide) h
  obtain rfl : history = ⟨headers⟩ := congrArg mk hh
  have hs : empty.commitment C = historyCommitmentOf C [] := commitment_eq (by decide)
  rw [hs, commitment_eq hl]
  refine ⟨appendWitnessed_run hn hl, ?_, ?_, ?_⟩
  · rintro appends final rfl hrun
    exact HistoryCommitment.appendAll_ok hash appends hrun
  · intro index hi
    have hget := getElem?_eq_getElem hi
    refine ⟨_, ?_, HistoryCommitment.verify_siblings hl hget (hn _ (getElem_mem hi))⟩
    rw [proof, hget]
    exact congrArg ok (historyProof_eq hl.le _)
  · exact fun proof => HistoryCommitment.verify_ok hash hl

theorem history_sound_two : [1, 2].foldlM (ReferenceHistory.appendWitnessed .transparent)
        (ReferenceHistory.empty, ReferenceHistory.empty.commitment .transparent) =
      .ok (⟨[1, 2]⟩, (ReferenceHistory.mk [1, 2]).commitment .transparent) ∧
    ∀ proof, ((ReferenceHistory.mk [1, 2]).commitment .transparent).verify
        Crypto.transparent proof = .ok () → [1, 2][proof.index]? = some proof.headerDigest := by
  have hs := history_sound Crypto.transparent_injective
    (show empty.appendAll [1, 2] = .ok ⟨[1, 2]⟩ from rfl)
  exact ⟨hs.1, hs.2.2.2⟩

end Runs

end ActiveChain
