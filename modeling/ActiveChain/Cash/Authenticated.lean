import ActiveChain.Cash.AuthenticatedTree

/-!
# Authenticated changes of the coin cells (`cash-kernel::authenticated`)

A mutation witness shows one change of a committed set of cells: the record that stands at an
identifier before, the one after, and the siblings that lead from both to the two roots.  A
transition witness chains mutations.

* `verifyCoinCellMutation`, `verifyCoinCellTransition` — the verifiers.
* `verifyCoinCellMutation_eq_ok` — what an accepted mutation satisfies.
* `CoinCellSet.put` — the set with one identifier changed; `treeOf_put` folds its tree.
* `mutationWitness`, `verify_mutationWitness` — the witness of a change, and that it is accepted.
* `mutation_sound`, `chain_sound` — one step and a whole run of steps: under an injective hash the
  accepted records are the ones of the committed set.
-/

namespace ActiveChain

open Except Function List Option SortedMap SparseMerkle BitPath Prod

def maxAuthenticatedCashMutations : Nat := maxTransferInputs + 4

structure CoinCellMutationWitness where
  preRoot : Digest384
  postRoot : Digest384
  preCount : Nat
  postCount : Nat
  id : CoinCellId
  previous : Option CoinCellRecord
  next : Option CoinCellRecord
  siblings : List Digest384
deriving DecidableEq

structure CoinCellTransitionWitness where
  preRoot : Digest384
  postRoot : Digest384
  mutations : List CoinCellMutationWitness
deriving DecidableEq

/-! ## Verifiers -/

/-- In `u32`. -/
def CoinCellMutationWitness.expectedPostCount (w : CoinCellMutationWitness) : Option Nat :=
  match w.previous, w.next with
  | none, some _ => checkedAdd 32 w.preCount 1
  | some _, none => checkedSub w.preCount 1
  | some _, some _ => some w.preCount
  | none, none => none

section Verifiers

variable (C : Crypto)

/-- The second root is hashed only when the first one matches. -/
def verifyCoinCellMutation (w : CoinCellMutationWitness) : MutationM Unit := do
  rejectIf (w.siblings.length ≠ authenticatedCashDepth ∨ w.previous = w.next ∨
    w.previous.any (·.1 ≠ w.id) ∨ w.next.any (·.1 ≠ w.id)) (.error .invalidShape)
  rejectIf (w.previous.any (¬ recordHasCanonicalId C ·) ∨ w.next.any (¬ recordHasCanonicalId C ·))
    (.error .wrongRecord)
  rejectIf (w.expectedPostCount ≠ some w.postCount ∨ maxCoinCells < w.postCount) (.error .capacity)
  let preTree ← reconstructTree C w.id (← w.previous.mapM (hashLeaf C)) w.siblings
  let postTree ← reconstructTree C w.id (← w.next.mapM (hashLeaf C)) w.siblings
  rejectIf ((← hashRoot C w.preCount preTree) ≠ w.preRoot) (.error .wrongRoot)
  rejectIf ((← hashRoot C w.postCount postTree) ≠ w.postRoot) (.error .wrongRoot)

/-- The loop of `verify_coin_cell_transition`, with the post-root of the mutation before. -/
def verifyChain : Option Digest384 → List CoinCellMutationWitness →
    MutationM Unit
  | _, [] => .ok ()
  | before, mutation :: mutations => do
    verifyCoinCellMutation C mutation
    rejectIf (before.any (· ≠ mutation.preRoot)) (.error .wrongRoot)
    verifyChain (some mutation.postRoot) mutations

/-- The checks in front of the loop of `verify_coin_cell_transition`. -/
def CoinCellTransitionWitness.Shaped (w : CoinCellTransitionWitness) : Prop :=
  w.mutations ≠ [] ∧ w.mutations.length ≤ maxAuthenticatedCashMutations ∧
    (w.mutations.Pairwise fun a b => a.id < b.id) ∧
    w.mutations.head?.map (·.preRoot) = some w.preRoot ∧
    w.mutations.getLast?.map (·.postRoot) = some w.postRoot
deriving Decidable

def verifyCoinCellTransition (w : CoinCellTransitionWitness) : MutationM Unit := do
  rejectIf (¬ w.Shaped) (.error .invalidShape)
  verifyChain C none w.mutations

end Verifiers

/-! ## What the verifier checks -/

section Mutation

variable {C : Crypto} {w : CoinCellMutationWitness}

/-- A record that the witness may carry: at its identifier, and named by its origin. -/
def CoinCellMutationWitness.Names (C : Crypto) (w : CoinCellMutationWitness)
    (slot : Option CoinCellRecord) : Prop :=
  ∀ record ∈ slot, record.1 = w.id ∧ recordHasCanonicalId C record

/-- The root of the path with the given record, hashed over a count. -/
def CoinCellMutationWitness.rootWith (C : Crypto) (w : CoinCellMutationWitness) (count : Nat)
    (slot : Option CoinCellRecord) : Digest384 :=
  rootDigest C count (SparseMerkle.fold (nodeDigest C) 0 (idPath w.id) w.siblings.reverse
    (slotDigest C w.id (slot.map Prod.snd)))

variable {slot : Option CoinCellRecord}

theorem mapM_hashLeaf (h : w.Names C slot) :
    slot.mapM (hashLeaf C) = .ok (slot.map (leafDigest C)) := by
  cases slot with
  | none => rfl
  | some r =>
    have hl := hashLeaf_eq_ok.2 ⟨(h r rfl).2, rfl⟩
    simp [hl]

theorem reconstructTree_names (h : w.Names C slot)
    (hl : w.siblings.length = authenticatedCashDepth) :
    reconstructTree C w.id (slot.map (leafDigest C)) w.siblings =
      .ok (fold (nodeDigest C) 0 (idPath w.id) w.siblings.reverse
        (slotDigest C w.id (slot.map snd))) := by
  rw [reconstructTree_eq hl]
  cases slot with
  | none => rfl
  | some r =>
    obtain ⟨id, cell⟩ := r
    obtain rfl : id = w.id := (h _ rfl).1
    rfl

/-- The shape, record and count checks in front of the hashing. -/
structure CoinCellMutationWitness.Checked (C : Crypto) (w : CoinCellMutationWitness) : Prop where
  length : w.siblings.length = authenticatedCashDepth
  changes : w.previous ≠ w.next
  previous : w.Names C w.previous
  next : w.Names C w.next
  counted : w.expectedPostCount = some w.postCount
  bounded : w.postCount ≤ maxCoinCells

theorem checked_iff : w.Checked C ↔
    ¬ (w.siblings.length ≠ authenticatedCashDepth ∨ w.previous = w.next ∨
      w.previous.any (·.1 ≠ w.id) ∨ w.next.any (·.1 ≠ w.id)) ∧
    ¬ (w.previous.any (¬ recordHasCanonicalId C ·) ∨ w.next.any (¬ recordHasCanonicalId C ·)) ∧
    ¬ (w.expectedPostCount ≠ some w.postCount ∨ maxCoinCells < w.postCount) := by
  have hn : ∀ slot, w.Names C slot ↔ ¬ slot.any (·.1 ≠ w.id) ∧
      ¬ slot.any (¬ recordHasCanonicalId C ·) := by
    intro slot
    cases slot <;> simp [CoinCellMutationWitness.Names]
  constructor
  · intro h
    have hp := (hn _).1 h.previous
    have hne := (hn _).1 h.next
    refine ⟨?_, ?_, ?_⟩
    · rintro (hl | hsa | hid | hid)
      · exact hl h.length
      · exact h.changes hsa
      · exact hp.1 hid
      · exact hne.1 hid
    · rintro (hre | hre)
      · exact hp.2 hre
      · exact hne.2 hre
    · rintro (hc | hf)
      · exact hc h.counted
      · exact absurd h.bounded (Nat.not_le_of_lt hf)
  · rintro ⟨hs, hr, hc⟩
    simp only [not_or, not_not, Nat.not_lt] at hs hr hc
    obtain ⟨hl, hch, hp, hne⟩ := hs
    exact ⟨hl, hch, (hn _).2 ⟨hp, hr.1⟩, (hn _).2 ⟨hne, hr.2⟩, hc.1, hc.2⟩

theorem verifyCoinCellMutation_of_checked (h : w.Checked C) :
    verifyCoinCellMutation C w = (do
      rejectIf ((← hashRoot C w.preCount (fold (nodeDigest C) 0 (idPath w.id)
        w.siblings.reverse (slotDigest C w.id (w.previous.map snd)))) ≠ w.preRoot)
        (.error .wrongRoot)
      rejectIf (w.rootWith C w.postCount w.next ≠ w.postRoot) (.error .wrongRoot)) := by
  obtain ⟨hs, hr, hc⟩ := checked_iff.1 h
  rw [verifyCoinCellMutation, rejectIf_of_not hs, rejectIf_of_not hr, rejectIf_of_not hc]
  simp only [ok_bind, mapM_hashLeaf h.previous, mapM_hashLeaf h.next,
    reconstructTree_names h.previous h.length, reconstructTree_names h.next h.length,
    hashRoot_of_le h.bounded]
  rfl

theorem verifyCoinCellMutation_eq_ok : verifyCoinCellMutation C w = .ok () ↔
    w.Checked C ∧ w.preCount ≤ maxCoinCells ∧ w.rootWith C w.preCount w.previous = w.preRoot ∧
      w.rootWith C w.postCount w.next = w.postRoot := by
  constructor
  · intro h
    have hch : w.Checked C := by
      simp only [verifyCoinCellMutation, bind_eq_ok, exists_unit, rejectIf_eq_ok] at h
      obtain ⟨hs, hr, hc, -⟩ := h
      exact checked_iff.2 ⟨hs, hr, hc⟩
    rw [verifyCoinCellMutation_of_checked hch] at h
    by_cases hc : w.preCount ≤ maxCoinCells
    · simp only [hashRoot_of_le hc, inversion, exists_eq_left'] at h
      exact ⟨hch, hc, h⟩
    · rw [hashRoot_of_lt (Nat.lt_of_not_le hc)] at h
      cases h
  · rintro ⟨hch, hc, hpre, hp⟩
    rw [verifyCoinCellMutation_of_checked hch]
    simp only [hashRoot_of_le hc, inversion, exists_eq_left']
    exact ⟨hpre, hp⟩

end Mutation

/-! ## Changing one identifier -/

section Put

variable {C : Crypto} {cells cells' : CoinCellSet} {id : CoinCellId}

def CoinCellSet.put (cells : CoinCellSet) (id : CoinCellId) (slot : Option CoinCell)
    (h : (cells.cells.put id slot).length ≤ maxCoinCells) : CoinCellSet :=
  ⟨cells.cells.put id slot, h⟩

variable {slot : Option CoinCell}

variable (h : (cells.cells.put id slot).length ≤ maxCoinCells)
include h

theorem treeOf_put (hid : Fits authenticatedCashDepth id) :
    treeOf C (cells.put id slot h) =
      fold (nodeDigest C) 0 (idPath id) (cellSiblings C cells id) (slotDigest C id slot) := by
  rw [cellSiblings, fold_siblings _ length_idPath, treeOf]
  refine root_congr fun path hp => ?_
  have hn : idPath (ofPath authenticatedCashDepth path) = path := pathTo_ofPath hp
  by_cases heq : path = idPath id
  · rw [heq, update_self, leafAt_idPath hid, CoinCellSet.put, get?_put, if_pos rfl]
  · have hne : ofPath authenticatedCashDepth path ≠ id := by
      rintro rfl
      exact heq hn.symm
    rw [update_of_ne heq, leafAt, leafAt, CoinCellSet.put, get?_put, if_neg hne]

theorem CoinCellSet.IdsFit.put (hfit : cells.IdsFit) (hid : Fits authenticatedCashDepth id) :
    (cells.put id slot h).IdsFit := by
  intro id' cell hget
  rw [CoinCellSet.put, get?_put] at hget
  split_ifs at hget with heq
  · exact heq ▸ hid
  · exact hfit id' cell hget

theorem CoinCellSet.Canonical.put (hc : cells.Canonical C)
    (hs : ∀ cell ∈ slot, recordHasCanonicalId C (id, cell)) :
    (cells.put id slot h).Canonical C := by
  intro id' cell hget
  rw [CoinCellSet.put, get?_put] at hget
  split_ifs at hget with heq
  · exact heq ▸ hs cell hget
  · exact hc id' cell hget

end Put

open CoinCellMutationWitness

/-! ## The witness of a change -/

section Complete

variable {C : Crypto} {cells : CoinCellSet} {id : CoinCellId} {next : Option CoinCellRecord}

/-- A record that may be put at the identifier. -/
def Placeable (C : Crypto) (id : CoinCellId) (next : Option CoinCellRecord) : Prop :=
  ∀ record ∈ next, record.1 = id ∧ recordHasCanonicalId C record

theorem Placeable.slot (h : Placeable C id next) :
    ∀ cell ∈ next.map snd, recordHasCanonicalId C (id, cell) := by
  intro cell hc
  obtain ⟨r, hr, rfl⟩ := mem_map.1 hc
  obtain ⟨rfl, hown⟩ := h r hr
  exact hown

def mutationWitness (C : Crypto) (cells : CoinCellSet) (id : CoinCellId)
    (next : Option CoinCellRecord)
    (h : (cells.cells.put id (next.map Prod.snd)).length ≤ maxCoinCells) :
    CoinCellMutationWitness where
  preRoot := rootOf C cells
  postRoot := rootOf C (cells.put id (next.map Prod.snd) h)
  preCount := cells.cells.length
  postCount := (cells.cells.put id (next.map Prod.snd)).length
  id := id
  previous := (cells.cells.get? id).map fun cell => (id, cell)
  next := next
  siblings := (cellSiblings C cells id).reverse

section Witness

variable (h : (cells.cells.put id (next.map Prod.snd)).length ≤ maxCoinCells)

@[simp] theorem mutationWitness_preRoot : (mutationWitness C cells id next h).preRoot =
    rootOf C cells := rfl

@[simp] theorem mutationWitness_postRoot : (mutationWitness C cells id next h).postRoot =
    rootOf C (cells.put id (next.map snd) h) := rfl

@[simp] theorem mutationWitness_id : (mutationWitness C cells id next h).id = id := rfl

end Witness

theorem fold_cellSiblings (hid : Fits authenticatedCashDepth id) :
    fold (nodeDigest C) 0 (idPath id) (cellSiblings C cells id)
      (slotDigest C id (cells.cells.get? id)) = treeOf C cells := by
  rw [← leafAt_idPath hid]
  exact fold_siblings_self length_idPath

/-- **The witness of a change is accepted.** -/
theorem verify_mutationWitness (hc : cells.Canonical C)
    (hid : Fits authenticatedCashDepth id) (hn : Placeable C id next)
    (hne : (cells.cells.get? id).map (fun cell => (id, cell)) ≠ next)
    (h : (cells.cells.put id (next.map snd)).length ≤ maxCoinCells) :
    verifyCoinCellMutation C (mutationWitness C cells id next h) = .ok () := by
  have hs : ((cells.cells.get? id).map fun cell => (id, cell)).map snd =
      cells.cells.get? id := by
    cases cells.cells.get? id <;> rfl
  rw [verifyCoinCellMutation_eq_ok]
  refine ⟨⟨?_, hne, ?_, hn, ?_, h⟩, cells.bounded, ?_, ?_⟩
  · rw [mutationWitness, length_reverse, length_cellSiblings]
  · intro record hr
    obtain ⟨cell, hce, rfl⟩ := mem_map.1 hr
    exact ⟨rfl, hc id cell hce⟩
  · -- the count follows the entry that is exchanged
    have hput := cells.cells.length_put id (next.map snd)
    have hb := cells.bounded
    have hmax : maxCoinCells < 2 ^ 32 - 1 := by decide
    unfold expectedPostCount mutationWitness
    have hpos := fun cell => length_pos_of_get? (v := cell) (m := cells.cells) (k := id)
    rcases hce : cells.cells.get? id with _ | cell <;> rcases next with _ | record <;>
      simp [hce, checkedAdd_eq_some, checkedSub_eq_some] at hput hne hpos ⊢ <;> omega
  · rw [rootWith, mutationWitness, reverse_reverse, hs, fold_cellSiblings hid, rootOf]
  · rw [mutationWitness_postRoot, rootOf, treeOf_put h hid, rootWith,
      mutationWitness, reverse_reverse, CoinCellSet.put]

end Complete

/-! ## Soundness -/

section Sound

variable {C : Crypto} (hash : Injective C.shake256)
include hash

theorem nodeDigest_injective : NodeInjective (nodeDigest C) := by
  intro d l r l' r' h
  have h := hash h
  simp only [cellTranscript, Transcript.inversion] at h
  exact h

theorem rootDigest_inj {count count' : Nat} {tree tree' : Digest384}
    (h : rootDigest C count tree = rootDigest C count' tree') : count = count' ∧ tree = tree' := by
  have h := hash h
  simp only [cellTranscript, Transcript.inversion] at h
  exact h

theorem slotDigest_inj {id : CoinCellId} {slot slot' : Option CoinCell}
    (h : slotDigest C id slot = slotDigest C id slot') : slot = slot' := by
  have hk : ∀ cell, leafDigest C (id, cell) ≠ emptyLeaf C := by
    intro cell heq
    have heq := hash heq
    simp [cellTranscript] at heq
  cases slot with
  | none =>
    cases slot' with
    | none => rfl
    | some cell => exact absurd h.symm (hk cell)
  | some cell =>
    cases slot' with
    | none => exact absurd h (hk cell)
    | some cell' =>
      have h := hash h
      simp only [cellTranscript, recordBody, Transcript.inversion] at h
      obtain ⟨ht, hi, ho, ham, hh⟩ := h
      exact congrArg some (CoinCell.ext (CoinCellOrigin.ext ht hi) ho ham hh)

theorem mutation_sound {w : CoinCellMutationWitness} {cs : CoinCellSet} (hfit : cs.IdsFit)
    (hid : Fits authenticatedCashDepth w.id) (hro : authenticatedCoinCellRoot C cs = .ok w.preRoot)
    (h : verifyCoinCellMutation C w = .ok ()) :
    w.previous = (cs.cells.get? w.id).map (fun cell => (w.id, cell)) ∧
      ∃ hb, authenticatedCoinCellRoot C (cs.put w.id (w.next.map snd) hb) =
          .ok w.postRoot ∧
        w.postCount = (cs.put w.id (w.next.map snd) hb).cells.length := by
  obtain ⟨hc, -, hpre, hpo⟩ := verifyCoinCellMutation_eq_ok.1 h
  obtain ⟨hca, hd⟩ := (authenticatedCoinCellRoot_eq_ok hfit).1 hro
  obtain ⟨hco, ht⟩ := rootDigest_inj hash (hpre.trans hd)
  -- the path reaches the tree's root: it carries the tree's leaf and the tree's siblings
  have hle : w.siblings.reverse.length = authenticatedCashDepth := by
    rw [length_reverse, hc.length]
  obtain ⟨hl, hs⟩ := fold_eq_root (nodeDigest_injective hash) length_idPath hle ht
  rw [leafAt_idPath hid] at hl
  have hsl : w.previous.map snd = cs.cells.get? w.id := slotDigest_inj hash hl
  have hpr : w.previous = (cs.cells.get? w.id).map fun cell => (w.id, cell) := by
    rw [← hsl, Option.map_map]
    cases hr : w.previous with
    | none => rfl
    | some r =>
      exact congrArg some (Prod.ext (hc.previous r hr).1 rfl)
  have haf : (cs.cells.put w.id (w.next.map snd)).length = w.postCount := by
    have hput := cs.cells.length_put w.id (w.next.map snd)
    have hexpected := hc.counted
    rw [← hsl, ← show w.preCount = cs.cells.length from hco] at hput
    unfold expectedPostCount at hexpected
    generalize (cs.cells.put w.id (w.next.map snd)).length = after at hput ⊢
    cases hp : w.previous <;> cases hn : w.next <;>
      simp only [hp, hn, map_none, map_some, toList_none, toList_some,
        length_nil, length_singleton, checkedAdd_eq_some, checkedSub_eq_some,
        Option.some.injEq, reduceCtorEq] at hput hexpected <;> omega
  have hb : (cs.cells.put w.id (w.next.map snd)).length ≤ maxCoinCells := haf ▸ hc.bounded
  refine ⟨hpr, hb, ?_, haf.symm⟩
  refine (authenticatedCoinCellRoot_eq_ok (hfit.put hb hid)).2 ⟨?_, ?_⟩
  · refine hca.put hb fun cell hce => ?_
    obtain ⟨r, hr, rfl⟩ := Option.mem_map.1 hce
    obtain ⟨hrid, hna⟩ := hc.next r hr
    exact hrid ▸ hna
  · rw [rootOf, treeOf_put hb hid, cellSiblings, ← hs, ← hpo]
    exact congrArg (fun count => rootDigest C count _) haf.symm

end Sound

/-- The second set is the first one with exactly the mutations applied. -/
def CoinCellSet.MutatedBy (cells : CoinCellSet) (mutations : List CoinCellMutationWitness)
    (cells' : CoinCellSet) : Prop :=
  ∀ id, cells'.cells.get? id =
    match mutations.find? fun mutation => mutation.id = id with
    | some mutation => mutation.next.map Prod.snd
    | none => cells.cells.get? id

/-- The mutations are a change of the set to one with the given root. -/
structure ChangeOf (C : Crypto) (cells : CoinCellSet) (mutations : List CoinCellMutationWitness)
    (postRoot : Digest384) : Prop where
  distinct : (mutations.map (·.id)).Nodup
  previous : ∀ mutation ∈ mutations,
    mutation.previous = (cells.cells.get? mutation.id).map fun cell => (mutation.id, cell)
  result : ∃ cells' : CoinCellSet, cells.MutatedBy mutations cells' ∧
    authenticatedCoinCellRoot C cells' = .ok postRoot ∧
    ∀ mutation ∈ mutations.getLast?, mutation.postCount = cells'.cells.length

section Sound

variable {C : Crypto} (hash : Injective C.shake256)
include hash

theorem mutation_change {w : CoinCellMutationWitness} {cs : CoinCellSet} (hfit : cs.IdsFit)
    (hid : Fits authenticatedCashDepth w.id) (hr : authenticatedCoinCellRoot C cs = .ok w.preRoot)
    (h : verifyCoinCellMutation C w = .ok ()) : ChangeOf C cs [w] w.postRoot := by
  obtain ⟨hp, hb, hpo, hc⟩ := mutation_sound hash hfit hid hr h
  refine ⟨nodup_singleton _, ?_, _, ?_, hpo, ?_⟩
  · intro m hmem
    rw [mem_singleton.1 hmem]
    exact hp
  · intro id
    rw [CoinCellSet.put, get?_put]
    by_cases heq : id = w.id <;> simp [heq, eq_comm]
  · intro m hmem
    cases hmem
    exact hc

theorem chain_sound (ms : List CoinCellMutationWitness) : ∀ {cs : CoinCellSet}
    {root : Digest384}, cs.IdsFit →
      (∀ m ∈ ms, Fits authenticatedCashDepth m.id) →
      (ms.Pairwise fun a b => a.id < b.id) → authenticatedCoinCellRoot C cs = .ok root →
      verifyChain C (some root) ms = .ok () →
      ChangeOf C cs ms ((ms.getLast?.map (·.postRoot)).getD root) := by
  induction ms with
  | nil =>
    intro cs root _ _ _ hr _
    exact ⟨nodup_nil, fun _ hmem => absurd hmem not_mem_nil, cs, fun _ => rfl, hr,
      fun _ hmem => by simp at hmem⟩
  | cons first ms ih =>
    intro cs root hfit hids hs hr h
    simp only [verifyChain, inversion, any_some, decide_eq_true_eq] at h
    obtain ⟨hfi, rfl, hre⟩ := h
    obtain ⟨hsm, hs⟩ := pairwise_cons.1 hs
    have hid := hids first mem_cons_self
    obtain ⟨hp, hb, hpo, hc⟩ := mutation_sound hash hfit hid hr hfi
    have hrun := ih (hfit.put hb hid) (fun m hmem => hids m (mem_cons_of_mem _ hmem)) hs hpo hre
    obtain ⟨cells', hmu, hf, hl⟩ := hrun.result
    have hap : ∀ m ∈ ms, m.id ≠ first.id := fun m hmem =>
      (hsm m hmem).ne'
    refine ⟨?_, ?_, cells', ?_, ?_, ?_⟩
    · refine nodup_cons.2 ⟨fun hmem => ?_, hrun.distinct⟩
      obtain ⟨m, hm, heq⟩ := List.mem_map.1 hmem
      exact hap m hm heq
    · intro m hmem
      rcases mem_cons.1 hmem with rfl | hmem
      · exact hp
      · -- a later mutation reads an identifier that the first one left alone
        rw [hrun.previous m hmem, CoinCellSet.put, get?_put, if_neg (hap m hmem)]
    · intro id
      rw [hmu id, find?_cons, CoinCellSet.put, get?_put]
      by_cases heq : first.id = id
      · have hn : ms.find? (fun m => m.id = id) = none :=
          find?_eq_none.2 fun m hmem hm =>
            hap m hmem ((of_decide_eq_true hm).trans heq.symm)
        simp [hn, heq]
      · simp only [decide_eq_false heq, if_neg (Ne.symm heq)]
    · cases ms with
      | nil => exact hf
      | cons second rest =>
        rw [getLast?_cons_cons]
        cases hend : (second :: rest).getLast? with
        | none => simp at hend
        | some m =>
          rw [hend] at hf
          exact hf
    · cases ms with
      | nil =>
        intro m hmem
        cases hmem
        have heq : cells'.cells = cs.cells.put first.id (first.next.map snd) := eq_of_get?_eq hmu
        rw [heq]
        exact hc
      | cons second rest =>
        exact hl

/-- **An accepted witness over the authenticated root of a set is a change of that set**, for one
mutation and for a transition. -/
theorem authenticated_witness_sound {cells : CoinCellSet} (hfit : cells.IdsFit) :
    (∀ w : CoinCellMutationWitness, BitPath.Fits authenticatedCashDepth w.id →
      authenticatedCoinCellRoot C cells = .ok w.preRoot → verifyCoinCellMutation C w = .ok () →
      ChangeOf C cells [w] w.postRoot) ∧
    ∀ w : CoinCellTransitionWitness,
      (∀ mutation ∈ w.mutations, BitPath.Fits authenticatedCashDepth mutation.id) →
      authenticatedCoinCellRoot C cells = .ok w.preRoot → verifyCoinCellTransition C w = .ok () →
      ChangeOf C cells w.mutations w.postRoot := by
  refine ⟨fun w hid hr h => mutation_change hash hfit hid hr h, fun w hids hr h => ?_⟩
  simp only [verifyCoinCellTransition, inversion] at h
  obtain ⟨⟨-, -, hs, hh, hl⟩, hc⟩ := h
  have hc : verifyChain C (some w.preRoot) w.mutations = .ok () := by
    cases hm : w.mutations with
    | nil => rfl
    | cons first rest =>
      rw [hm] at hc hh
      simpa [verifyChain, some.inj hh] using hc
  have hch := chain_sound hash w.mutations hfit hids hs hr hc
  rwa [hl] at hch

end Sound

/-! ## A hash with short identifiers -/

namespace Numbered

def origin (k : Nat) : CoinCellOrigin := ⟨k, 0⟩

def originTranscript (k : Nat) : Transcript :=
  commitmentTranscript .coinCellId (CanonicalType.typeTag CoinCellOrigin)
    (CanonicalType.schemaVersion CoinCellOrigin) (CanonicalType.body (origin k))

def number? (t : Transcript) : Option Nat :=
  match t[6]? with
  | some (Chunk.digest k) => if t = originTranscript k then some k else none
  | _ => none

/-- A number, or else a digest, told apart by the last bit. -/
def join (number : Option Nat) (digest : Nat) : Nat := number.elim (2 * digest + 1) (2 * ·)

/-- An injective hash that gives the numbered origins identifiers of 48 bytes. -/
def C : Crypto where
  shake256 t := join (number? t) (Crypto.transparent.shake256 t)
  sign := Crypto.transparent.sign
  verifyMlDsa44 := Crypto.transparent.verifyMlDsa44

theorem number?_eq_some {t : Transcript} {k : Nat} :
    number? t = some k ↔ t = originTranscript k := by
  constructor
  · intro h
    unfold number? at h
    split at h
    · split_ifs at h with heq
      cases h
      exact heq
    · cases h
  · rintro rfl
    exact if_pos rfl

theorem join_inj {number number' : Option Nat} {digest digest' : Nat}
    (h : join number digest = join number' digest') :
    number = number' ∧ (number = none → digest = digest') := by
  cases number <;> cases number' <;> simp [join] at h ⊢ <;> omega

theorem hash_injective : Injective C.shake256 := by
  intro t t' h
  obtain ⟨hn, hd⟩ := join_inj h
  cases hk : number? t with
  | some k =>
    rw [hk] at hn
    exact (number?_eq_some.1 hk).trans (number?_eq_some.1 hn.symm).symm
  | none => exact Crypto.transparent_injective (hd hk)

theorem coinCellId_origin (k : Nat) : coinCellId C (origin k) = 2 * k := by
  have hk : number? (originTranscript k) = some k := number?_eq_some.2 rfl
  show join (number? (originTranscript k)) _ = _
  rw [hk]
  rfl

theorem fits {id : Nat} (h : id < 2 ^ 64) : Fits authenticatedCashDepth id := by
  have hpow : 2 ^ 64 ≤ 2 ^ authenticatedCashDepth :=
    Nat.pow_le_pow_right (by decide) (by unfold authenticatedCashDepth; decide)
  exact Nat.lt_of_lt_of_le h hpow

def cell (k : Nat) : CoinCell := ⟨origin k, 1, 1, 0, by decide, by decide⟩

theorem cell_canonical (k : Nat) : recordHasCanonicalId C (2 * k, cell k) := coinCellId_origin k

def cellsFrom (start n : Nat) (h : n ≤ maxCoinCells) : CoinCellSet :=
  ⟨⟨(List.range' start n).map fun k => (2 * k, cell k), by
      refine pairwise_map.2 (List.Pairwise.imp (fun hlt => ?_) pairwise_lt_range')
      exact Nat.mul_lt_mul_of_pos_left hlt (by decide)⟩,
    by simpa [SortedMap.length] using h⟩

variable {n start : Nat}

theorem get?_cellsFrom {h : n ≤ maxCoinCells} {id : CoinCellId} {c : CoinCell} :
    (cellsFrom start n h).cells.get? id = some c ↔
      ∃ k, start ≤ k ∧ k < start + n ∧ id = 2 * k ∧ c = cell k := by
  rw [← mem_entries]
  simp only [cellsFrom, List.mem_map, mem_range'_1, Prod.mk.injEq, and_assoc, eq_comm]

theorem cellsFrom_canonical {h : n ≤ maxCoinCells} : (cellsFrom start n h).Canonical C := by
  intro id c hget
  obtain ⟨k, -, -, rfl, rfl⟩ := get?_cellsFrom.1 hget
  exact cell_canonical k

theorem cellsFrom_idsFit {h : n ≤ maxCoinCells} (hs : start ≤ 1) :
    (cellsFrom start n h).IdsFit := by
  intro id c hget
  obtain ⟨k, -, hk, rfl, -⟩ := get?_cellsFrom.1 hget
  have hmax : maxCoinCells = 4096 := rfl
  exact fits (by omega)

theorem cells_le (n : Fin 3) : n.val ≤ maxCoinCells := n.is_le.trans (by decide)

theorem insertion_fits : ∀ n : Fin 3,
    ((cellsFrom 0 n (cells_le n)).cells.put (2 * n) (some (cell n))).length ≤ maxCoinCells := by
  decide +kernel

/-- The first cells get the next one. -/
def insertion (n : Fin 3) : CoinCellMutationWitness :=
  mutationWitness C (cellsFrom 0 n (cells_le n)) (2 * n) (some (2 * n, cell n)) (insertion_fits n)

theorem verify_insertion (n : Fin 3) : verifyCoinCellMutation C (insertion n) = .ok () := by
  refine verify_mutationWitness cellsFrom_canonical (fits (by omega)) ?_ ?_ _
  · intro r hr
    cases hr
    exact ⟨rfl, cell_canonical n⟩
  · revert n
    decide +kernel

def insertions : CoinCellTransitionWitness :=
  ⟨(insertion 1).preRoot, (insertion 2).postRoot, [insertion 1, insertion 2]⟩

theorem verify_insertions : verifyCoinCellTransition C insertions = .ok () := by
  have hsh : insertions.Shaped :=
    ⟨cons_ne_nil _ _, Nat.le_of_ble_eq_true rfl, by simp [insertions, insertion], rfl, rfl⟩
  have hput : (cellsFrom 0 1 (cells_le 1)).put 2 (some (cell 1)) (insertion_fits 1) =
      cellsFrom 0 2 (cells_le 2) := rfl
  have hroot : (insertion 1).postRoot = (insertion 2).preRoot := congrArg (rootOf C) hput
  have hnext {root root' : Digest384} (h : root = root') : ¬ (some root).any (· ≠ root') := by
    simp [h]
  rw [verifyCoinCellTransition, rejectIf_of_not (not_not.2 hsh), ok_bind, insertions, verifyChain,
    verify_insertion, ok_bind, rejectIf_of_not (by simp), ok_bind, verifyChain, verify_insertion,
    ok_bind, rejectIf_of_not (hnext hroot), ok_bind, verifyChain]

theorem insertions_are_change :
    ChangeOf C (cellsFrom 0 1 (cells_le 1)) [insertion 1] (insertion 1).postRoot ∧
    ChangeOf C (cellsFrom 0 1 (cells_le 1)) insertions.mutations insertions.postRoot := by
  have hfit : (cellsFrom 0 1 (cells_le 1)).IdsFit := cellsFrom_idsFit (by decide)
  have hr : authenticatedCoinCellRoot C (cellsFrom 0 1 (cells_le 1)) = .ok (insertion 1).preRoot :=
    (authenticatedCoinCellRoot_eq_ok hfit).2 ⟨cellsFrom_canonical, mutationWitness_preRoot _⟩
  have hid (n : Fin 3) : Fits authenticatedCashDepth (insertion n).id :=
    fits (show 2 * n.val < 2 ^ 64 by omega)
  have hs := authenticated_witness_sound hash_injective hfit
  refine ⟨hs.1 _ (hid 1) hr (verify_insertion 1), hs.2 insertions ?_ ?_ verify_insertions⟩
  · simp [insertions, hid]
  · rw [insertions, hr]

end Numbered

end ActiveChain
