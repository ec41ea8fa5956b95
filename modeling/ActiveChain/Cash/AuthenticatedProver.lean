import ActiveChain.Cash.Authenticated
import Mathlib.Data.Finset.Card

/-!
# Proving changes of the coin cells (`cash-kernel::authenticated`)

The prover walks the difference of two sets in identifier order and proves one mutation at a time,
each over the set that the mutations before it have left.

* `proveCoinCellMutation`, `proveCoinCellTransition` — the provers.
* `proveCoinCellMutation_eq` — one step: the witness, unless the changed set is too large.
* `changesLoop_walks` — the walk finds the difference, in order.
* `proveChanges_eq` — the run over the difference.
* `mixedCount`, `putsFit_iff` — the sizes of the sets in between.
-/

namespace ActiveChain

open Except List Option SortedMap Prod

/-! ## Provers -/

def toU32 (n : Nat) : Option Nat := if n < 2 ^ 32 then some n else none

def postCountOf (count : Nat) : Option CoinCellRecord → Option CoinCellRecord →
    MutationM Nat
  | none, some _ => okOr ((checkedAdd 64 count 1).filter (· ≤ maxCoinCells)) (.error .capacity)
  | some _, none => .ok (count - 1)
  | some _, some _ => .ok count
  | none, none => .error (.error .invalidShape)

section Provers

variable (C : Crypto)

variable (cells : CoinCellSet) (id : CoinCellId) (next : Option CoinCellRecord)

def proveCoinCellMutation : MutationM CoinCellMutationWitness := do
  let previous := (cells.cells.get? id).map fun cell => (id, cell)
  rejectIf (previous = next ∨ previous.any (·.1 ≠ id) ∨ next.any (·.1 ≠ id)) (.error .invalidShape)
  let postCount ← postCountOf cells.cells.length previous next
  let (preTree, siblings) ← buildTree C cells (some id)
  let preCount ← okOr (toU32 cells.cells.length) (.error .capacity)
  let postCount ← okOr (toU32 postCount) (.error .capacity)
  let preRoot ← hashRoot C preCount preTree
  let postTree ← reconstructTree C id (← next.mapM (hashLeaf C)) siblings
  let postRoot ← hashRoot C postCount postTree
  let witness := ⟨preRoot, postRoot, preCount, postCount, id, previous, next, siblings⟩
  verifyCoinCellMutation C witness
  return witness

/-- The records below the identifier, the new one, and the records above. -/
def applyMutation : MutationM CoinCellSet := do
  let below := cells.cells.entries.takeWhile fun record => record.1 < id
  let rest := cells.cells.entries.dropWhile fun record => record.1 < id
  let records ← if rest.head?.any (·.1 = id) then .ok (below ++ next.toList ++ rest.tail)
    else do
      let record ← okOr next (.error .wrongRecord)
      .ok (below ++ record :: rest)
  (CoinCellSet.new records).mapError fun _ => .error .wrongRecord

abbrev SlotChange := CoinCellId × Option CoinCellRecord

/-- The walk over two sets in `prove_coin_cell_transition`. -/
def changesLoop : List CoinCellRecord → List CoinCellRecord → List SlotChange
  | before :: pre, after :: post =>
    if before.1 = after.1 then
      (if before ≠ after then [(before.1, some after)] else []) ++ changesLoop pre post
    else if before.1 < after.1 then (before.1, none) :: changesLoop pre (after :: post)
    else (after.1, some after) :: changesLoop (before :: pre) post
  | before :: pre, [] => (before.1, none) :: changesLoop pre []
  | [], after :: post => (after.1, some after) :: changesLoop [] post
  | [], [] => []
termination_by pre post => pre.length + post.length

/-- The loop over the changes, with the set that they lead to. -/
def proveChanges : CoinCellSet → List SlotChange →
    MutationM (List CoinCellMutationWitness × CoinCellSet)
  | current, [] => .ok ([], current)
  | current, (id, next) :: changes => do
    let mutation ← proveCoinCellMutation C current id next
    let current ← applyMutation current id next
    let (mutations, final) ← proveChanges current changes
    return (mutation :: mutations, final)

abbrev cellChanges (pre post : CoinCellSet) : List SlotChange :=
  changesLoop pre.cells.entries post.cells.entries

def proveCoinCellTransition (pre post : CoinCellSet) : MutationM CoinCellTransitionWitness := do
  let changes := cellChanges pre post
  rejectIf (changes = [] ∨ maxAuthenticatedCashMutations < changes.length) (.error .invalidShape)
  let changes := SortedMap.sortEntries changes
  let preRoot ← authenticatedCoinCellRoot C pre
  let (mutations, current) ← proveChanges C pre changes
  rejectIf (current ≠ post) (.error .wrongRecord)
  let postRoot ← authenticatedCoinCellRoot C post
  let witness := ⟨preRoot, postRoot, mutations⟩
  verifyCoinCellTransition C witness
  return witness

end Provers

/-! ## One mutation -/

section Mutation

variable {C : Crypto} {cells : CoinCellSet} {id : CoinCellId} {next : Option CoinCellRecord}

theorem toU32_of_le {n : Nat} (h : n ≤ maxCoinCells) : toU32 n = some n := by
  have hmax : maxCoinCells < 2 ^ 32 := by decide
  exact if_pos (by omega)

section

variable (hne : (cells.cells.get? id).map (fun cell => (id, cell)) ≠ next)
include hne

theorem postCountOf_eq :
    postCountOf cells.cells.length ((cells.cells.get? id).map fun cell => (id, cell)) next =
      if (cells.cells.put id (next.map snd)).length ≤ maxCoinCells then
        .ok (cells.cells.put id (next.map snd)).length
      else .error (.error .capacity) := by
  have hput := cells.cells.length_put id (next.map snd)
  have hb := cells.bounded
  have hmax : maxCoinCells < 2 ^ 64 - 1 := by decide
  generalize (cells.cells.put id (next.map snd)).length = after at hput ⊢
  have hpos := fun cell => length_pos_of_get? (v := cell) (m := cells.cells) (k := id)
  rcases hc : cells.cells.get? id with _ | cell <;> rcases next with _ | record <;>
    simp [hc, postCountOf] at hput hne hpos ⊢
  · rw [show checkedAdd 64 cells.cells.length 1 = some after from checkedAdd_eq_some.2 (by omega)]
    simp only [filter_some, decide_eq_true_eq]
    split_ifs <;> rfl
  · rw [if_pos (by omega), show after = cells.cells.length - 1 by omega]
  · rw [if_pos (by omega), hput]

theorem proveCoinCellMutation_eq (hc : cells.Canonical C) (hfit : cells.IdsFit)
    (hid : BitPath.Fits authenticatedCashDepth id) (hn : Placeable C id next) :
    proveCoinCellMutation C cells id next =
      if h : (cells.cells.put id (next.map snd)).length ≤ maxCoinCells then
        .ok (mutationWitness C cells id next h)
      else .error (.error .capacity) := by
  have hs : ¬ ((cells.cells.get? id).map (fun cell => (id, cell)) = next ∨
      ((cells.cells.get? id).map fun cell => (id, cell)).any (·.1 ≠ id) ∨
      next.any (·.1 ≠ id)) := by
    rintro (hsa | hp | ho)
    · exact hne hsa
    · cases hce : cells.cells.get? id <;> simp [hce] at hp
    · cases next with
      | none => simp at ho
      | some r => simp [(hn r rfl).1] at ho
  rw [proveCoinCellMutation]
  rw [rejectIf_of_not hs, ok_bind, postCountOf_eq hne]
  split_ifs with h
  · have hv := verify_mutationWitness hc hid hn hne h
    have hna : (mutationWitness C cells id next h).Names C next := hn
    have hl : (cellSiblings C cells id).reverse.length = authenticatedCashDepth := by
      rw [length_reverse, length_cellSiblings]
    have hpa : reconstructTree C id (next.map (leafDigest C)) (cellSiblings C cells id).reverse =
        .ok (treeOf C (cells.put id (next.map snd) h)) := by
      refine (reconstructTree_names hna hl).trans ?_
      rw [treeOf_put h hid, mutationWitness, reverse_reverse]
    have hpo : hashRoot C (cells.cells.put id (next.map snd)).length
        (treeOf C (cells.put id (next.map snd) h)) =
        .ok (rootOf C (cells.put id (next.map snd) h)) :=
      hashRoot_treeOf (cells.put id (next.map snd) h)
    rw [ok_bind, buildTree_eq hc hfit (by simpa using hid), ok_bind,
      toU32_of_le cells.bounded, toU32_of_le h, mapM_hashLeaf hna]
    simp only [okOr, ok_bind, hashRoot_treeOf, hpo, elim_some, hpa]
    rw [show (⟨_, _, _, _, _, _, _, _⟩ : CoinCellMutationWitness) =
      mutationWitness C cells id next h from rfl, hv]
    rfl
  · rfl

theorem applyMutation_eq (hn : ∀ r ∈ next, r.1 = id)
    (h : (cells.cells.put id (next.map snd)).length ≤ maxCoinCells) :
    applyMutation cells id next = .ok (cells.put id (next.map snd) h) := by
  have hr : (next.map snd).toList.map (fun cell => (id, cell)) = next.toList := by
    cases next with
    | none => rfl
    | some r => exact congrArg (· :: []) (Prod.ext (hn r rfl).symm rfl)
  have he := cells.cells.entries_put id (next.map snd)
  rw [hr] at he
  rw [applyMutation]
  rw [head_dropWhile cells.cells.sorted,
    show lookupEntry id cells.cells.entries = cells.cells.get? id from rfl]
  cases hc : cells.cells.get? id with
  | some cell =>
    rw [hc] at he
    simp only [isSome_some, if_true, ok_bind, mapError_eq_ok, CoinCellSet.new_eq_ok]
    exact he
  | none =>
    cases next with
    | none => exact absurd (by rw [hc]; rfl) hne
    | some r =>
      rw [hc] at he
      simp only [isSome_none, Bool.false_eq_true, if_false, okOr, ok_bind,
        mapError_eq_ok, CoinCellSet.new_eq_ok]
      simpa [CoinCellSet.put] using he

end

/-- **Below capacity every change of one record is proved, and the roots in the proof are those of
the set before the change and of the changed set.** -/
theorem mutation_provable (hcanonical : cells.Canonical C) (hfit : cells.IdsFit)
    (hroom : cells.cells.length < maxCoinCells) (hid : BitPath.Fits authenticatedCashDepth id)
    (hnext : Placeable C id next)
    (hne : (cells.cells.get? id).map (fun cell => (id, cell)) ≠ next) :
    ∃ w post, proveCoinCellMutation C cells id next = .ok w ∧
      verifyCoinCellMutation C w = .ok () ∧ applyMutation cells id next = .ok post ∧
      (∀ id', post.cells.get? id' = if id' = id then next.map Prod.snd else cells.cells.get? id') ∧
      authenticatedCoinCellRoot C cells = .ok w.preRoot ∧
      authenticatedCoinCellRoot C post = .ok w.postRoot := by
  have h : (cells.cells.put id (next.map snd)).length ≤ maxCoinCells := by
    have hput := cells.cells.length_put id (next.map snd)
    cases next <;> simp at hput ⊢ <;> omega
  refine ⟨mutationWitness C cells id next h, cells.put id (next.map snd) h, ?_,
    verify_mutationWitness hcanonical hid hnext hne h,
    applyMutation_eq hne (fun record hr => (hnext record hr).1) h,
    fun id' => cells.cells.get?_put id id' _, ?_, ?_⟩
  · rw [proveCoinCellMutation_eq hne hcanonical hfit hid hnext, dif_pos h]
  · exact (authenticatedCoinCellRoot_eq_ok hfit).2 ⟨hcanonical, mutationWitness_preRoot h⟩
  · exact (authenticatedCoinCellRoot_eq_ok (hfit.put h hid)).2
      ⟨hcanonical.put h hnext.slot, mutationWitness_postRoot h⟩

end Mutation

namespace Numbered

theorem insertion_mutation_provable : ∃ w post,
    proveCoinCellMutation C (cellsFrom 0 1 (by decide)) 2 (some (2, cell 1)) = .ok w ∧
    verifyCoinCellMutation C w = .ok () ∧
    applyMutation (cellsFrom 0 1 (by decide)) 2 (some (2, cell 1)) = .ok post ∧
    (∀ id', post.cells.get? id' =
      if id' = 2 then some (cell 1) else (cellsFrom 0 1 (by decide)).cells.get? id') ∧
    authenticatedCoinCellRoot C (cellsFrom 0 1 (by decide)) = .ok w.preRoot ∧
    authenticatedCoinCellRoot C post = .ok w.postRoot := by
  refine mutation_provable cellsFrom_canonical (cellsFrom_idsFit (by decide)) (by decide)
    (fits (by decide)) ?_ (by decide +kernel)
  intro record hr
  cases hr
  exact ⟨rfl, cell_canonical 1⟩

end Numbered

/-! ## The difference of two sets -/

section Changes

/-- The change that an identifier needs. -/
def changeAt (post : List CoinCellRecord) (id : CoinCellId) : SlotChange :=
  (id, (lookupEntry id post).map fun cell => (id, cell))

section

variable (pre post : List CoinCellRecord) (changes : List SlotChange)

/-- The changes are those of the identifiers where the records differ. -/
def Finds : Prop :=
  ∀ change, change ∈ changes ↔
    lookupEntry change.1 pre ≠ lookupEntry change.1 post ∧ change = changeAt post change.1

/-- What the walk over two sets finds: their difference, in order. -/
structure Walks : Prop where
  finds : Finds pre post changes
  sorted : changes.Pairwise fun a b => a.1 < b.1

end

variable {id : CoinCellId}

theorem mem_of_lookup_ne {pre post : List CoinCellRecord}
    (h : lookupEntry id pre ≠ lookupEntry id post) :
    (∃ r ∈ pre, r.1 = id) ∨ ∃ r ∈ post, r.1 = id := by
  cases hpre : lookupEntry id pre with
  | some cell => exact .inl ⟨_, mem_of_lookupEntry hpre, rfl⟩
  | none =>
    rw [hpre] at h
    obtain ⟨cell, hp⟩ := ne_none_iff_exists'.1 h.symm
    exact .inr ⟨_, mem_of_lookupEntry hp, rfl⟩

theorem Walks.round {pre post pre' post' : List CoinCellRecord}
    {changes : List SlotChange} (h : Walks pre post changes) (found : List SlotChange)
    (hpre : ∀ id', id' ≠ id → lookupEntry id' pre' = lookupEntry id' pre)
    (hp : ∀ id', id' ≠ id → lookupEntry id' post' = lookupEntry id' post)
    (hab : ∀ r ∈ pre, id < r.1) (ha' : ∀ r ∈ post, id < r.1)
    (hf : found = if lookupEntry id pre' = lookupEntry id post' then [] else [changeAt post' id]) :
    Walks pre' post' (found ++ changes) := by
  constructor
  · intro change
    rw [mem_append, hf, h.finds change]
    by_cases heq : change.1 = id
    · rw [heq, lookupEntry_of_not_lt hab (lt_irrefl _), lookupEntry_of_not_lt ha' (lt_irrefl _)]
      split_ifs with hs <;> simp [hs]
    · have ho : change ≠ changeAt post' id := fun hc => heq (congrArg fst hc)
      have hs : changeAt post' change.1 = changeAt post change.1 := by
        rw [changeAt, hp _ heq, changeAt]
      rw [hpre _ heq, hp _ heq, hs]
      split_ifs <;> simp [ho]
  · rw [hf]
    split_ifs
    · exact h.sorted
    · refine pairwise_cons.2 ⟨fun change hmem => ?_, h.sorted⟩
      rcases mem_of_lookup_ne ((h.finds change).1 hmem).1 with ⟨r, hr, heq⟩ | ⟨r, hr, heq⟩
      · exact heq ▸ hab r hr
      · exact heq ▸ ha' r hr

theorem above_of_head {record : CoinCellRecord} {rs : List CoinCellRecord}
    (hs : (record :: rs).Pairwise fun a b => a.1 < b.1) (hlt : id < record.1) :
    ∀ r ∈ record :: rs, id < r.1 :=
  forall_mem_cons.2 ⟨hlt, fun _ hmem => hlt.trans (rel_of_pairwise_cons hs hmem)⟩

theorem lookupEntry_cons_ne {r : CoinCellRecord} {records : List CoinCellRecord} (h : id ≠ r.1) :
    lookupEntry id (r :: records) = lookupEntry id records := if_neg h

theorem changesLoop_walks (pre post : List CoinCellRecord) :
    pre.Pairwise (fun a b => a.1 < b.1) → post.Pairwise (fun a b => a.1 < b.1) →
    Walks pre post (changesLoop pre post) := by
  fun_induction changesLoop pre post with
  | case1 before pre after post heq ih =>
    intro hpre hp
    obtain ⟨hb, hpre⟩ := pairwise_cons.1 hpre
    obtain ⟨haf, hp⟩ := pairwise_cons.1 hp
    refine (ih hpre hp).round _ (fun _ => lookupEntry_cons_ne)
      (fun _ hne => lookupEntry_cons_ne (heq ▸ hne)) hb (heq ▸ haf) ?_
    simp [changeAt, lookupEntry, heq, Prod.ext_iff]
  | case2 before pre after post heq hlt ih =>
    intro hpre hp
    have hab := above_of_head hp hlt
    obtain ⟨hb, hpre⟩ := pairwise_cons.1 hpre
    refine (ih hpre hp).round [_] (fun _ => lookupEntry_cons_ne) (fun _ _ => rfl) hb hab ?_
    rw [changeAt, lookupEntry_of_not_lt hab (lt_irrefl _)]
    simp [lookupEntry]
  | case3 before pre after post heq hlt ih =>
    intro hpre hp
    have hab := above_of_head hpre (lt_of_le_of_ne (not_lt.1 hlt) (Ne.symm heq))
    obtain ⟨haf, hp⟩ := pairwise_cons.1 hp
    refine (ih hpre hp).round [_] (fun _ _ => rfl) (fun _ => lookupEntry_cons_ne) hab haf ?_
    rw [lookupEntry_of_not_lt hab (lt_irrefl _)]
    simp [changeAt, lookupEntry]
  | case4 before pre ih =>
    intro hpre hp
    obtain ⟨hb, hpre⟩ := pairwise_cons.1 hpre
    exact (ih hpre hp).round [_] (fun _ => lookupEntry_cons_ne) (fun _ _ => rfl)
      hb (by simp) (by simp [changeAt, lookupEntry])
  | case5 after post ih =>
    intro hpre hp
    obtain ⟨haf, hp⟩ := pairwise_cons.1 hp
    exact (ih hpre hp).round [_] (fun _ _ => rfl) (fun _ => lookupEntry_cons_ne)
      (by simp) haf (by simp [changeAt, lookupEntry])
  | case6 => exact fun _ _ => ⟨fun change => by simp, .nil⟩

end Changes

/-! ## The sets in between -/

section Sizes

variable {cells post : SortedMap CoinCellId CoinCell}
  {changes : List SlotChange}

/-- Every set on the way fits. -/
def PutsFit : SortedMap CoinCellId CoinCell → List SlotChange → Prop
  | _, [] => True
  | cells, change :: changes => (cells.put change.1 (change.2.map Prod.snd)).length ≤ maxCoinCells ∧
      PutsFit (cells.put change.1 (change.2.map Prod.snd)) changes

/-- The number of cells when everything up to an identifier has been changed and nothing above. -/
def mixedCount (cells post : SortedMap CoinCellId CoinCell) (id : CoinCellId) : Nat :=
  (post.retain fun id' _ => id' ≤ id).length + (cells.retain fun id' _ => id < id').length

theorem mixedCount_self (cs : SortedMap CoinCellId CoinCell) (id : CoinCellId) :
    mixedCount cs cs id = cs.length := cs.length_retain_add id

/-- The changes, in the order of their identifiers, lead from the cells to `post`. -/
structure LeadsTo (cells post : SortedMap CoinCellId CoinCell)
    (changes : List SlotChange) : Prop where
  sorted : changes.Pairwise fun a b => a.1 < b.1
  change : ∀ change ∈ changes, cells.get? change.1 ≠ post.get? change.1 ∧
    change.2 = (post.get? change.1).map fun cell => (change.1, cell)
  rest : ∀ id, id ∉ changes.map Prod.fst → cells.get? id = post.get? id

theorem LeadsTo.put {change : SlotChange} (h : LeadsTo cells post (change :: changes)) :
    LeadsTo (cells.put change.1 (change.2.map snd)) post changes := by
  obtain ⟨hf, hs⟩ := pairwise_cons.1 h.sorted
  have hv : change.2.map snd = post.get? change.1 := by
    rw [(h.change change mem_cons_self).2]
    cases post.get? change.1 <;> rfl
  refine ⟨hs, fun later hmem => ?_, fun id hid => ?_⟩
  · rw [get?_put, if_neg (hf later hmem).ne']
    exact h.change later (mem_cons_of_mem _ hmem)
  · rw [get?_put]
    split_ifs with heq
    · rw [hv, heq]
    · refine h.rest id fun hmem => ?_
      rcases mem_cons.1 hmem with hmem | hmem
      · exact heq hmem
      · exact hid hmem

theorem LeadsTo.mixedCount_of_lt (h : LeadsTo cells post changes) {id : CoinCellId}
    (hid : ∀ change ∈ changes, id < change.1) : mixedCount cells post id = cells.length := by
  have hb : (post.retain fun id' _ => id' ≤ id) = cells.retain fun id' _ => id' ≤ id := by
    refine retain_congr (p := fun id' => decide (id' ≤ id)) fun id' hle => ?_
    refine (h.rest id' fun hmem => ?_).symm
    obtain ⟨change, hc, rfl⟩ := mem_map.1 hmem
    exact absurd (hid change hc) (Nat.not_lt_of_le (of_decide_eq_true hle))
  rw [mixedCount, hb]
  exact mixedCount_self cells id

theorem mixedCount_put {id id' : CoinCellId} {slot : Option CoinCell} (h : id ≤ id') :
    mixedCount (cells.put id slot) post id' = mixedCount cells post id' := by
  have hab : ((cells.put id slot).retain fun k _ => id' < k) =
      cells.retain fun k _ => id' < k := by
    refine retain_congr (p := fun k => decide (id' < k)) fun k hlt => ?_
    rw [get?_put, if_neg (Nat.lt_of_le_of_lt h (of_decide_eq_true hlt)).ne']
  rw [mixedCount, hab, mixedCount]

/-- **Every set on the way fits exactly when every mixed set does.** -/
theorem putsFit_iff (changes : List SlotChange) :
    ∀ {cs : SortedMap CoinCellId CoinCell}, cs.length ≤ maxCoinCells →
      LeadsTo cs post changes →
      (PutsFit cs changes ↔ ∀ id, mixedCount cs post id ≤ maxCoinCells) := by
  induction changes with
  | nil =>
    intro cs hb h
    refine iff_of_true trivial fun id => ?_
    rw [h.mixedCount_of_lt fun _ hmem => absurd hmem not_mem_nil]
    exact hb
  | cons change changes ih =>
    intro cs hb h
    obtain ⟨hf, -⟩ := pairwise_cons.1 h.sorted
    constructor
    · rintro ⟨hput, hr⟩ id
      by_cases hid : id < change.1
      · rw [h.mixedCount_of_lt fun later hmem => ?_]
        · exact hb
        · rcases mem_cons.1 hmem with rfl | hmem
          · exact hid
          · exact hid.trans (hf later hmem)
      · rw [← mixedCount_put (Nat.le_of_not_lt hid)]
        exact (ih hput h.put).1 hr id
    · intro hm
      -- the set after the change is the mixed set at its identifier
      have hput : (cs.put change.1 (change.2.map snd)).length ≤ maxCoinCells := by
        rw [← h.put.mixedCount_of_lt hf, mixedCount_put le_rfl]
        exact hm change.1
      refine ⟨hput, (ih hput h.put).2 fun id => ?_⟩
      by_cases hid : id < change.1
      · rw [h.put.mixedCount_of_lt fun later hmem => hid.trans (hf later hmem)]
        exact hput
      · rw [mixedCount_put (Nat.le_of_not_lt hid)]
        exact hm id

end Sizes

/-! ## Whole transitions -/

section Transition

variable {C : Crypto} {pre post : CoinCellSet}

/-- The proved mutations chain from the root of one set to the root of another. -/
structure ChainsFrom (C : Crypto) (cells post : CoinCellSet)
    (mutations : List CoinCellMutationWitness) : Prop where
  verified : verifyChain C (some (rootOf C cells)) mutations = .ok ()
  head : ∀ mutation ∈ mutations.head?, mutation.preRoot = rootOf C cells
  last : (mutations.getLast?.map (·.postRoot)).getD (rootOf C cells) = rootOf C post

theorem getLast?_cons_getD (first : CoinCellMutationWitness)
    (ms : List CoinCellMutationWitness) (root : Digest384) :
    (((first :: ms).getLast?).map (·.postRoot)).getD root =
      (ms.getLast?.map (·.postRoot)).getD first.postRoot := by
  cases ms with
  | nil => rfl
  | cons second rest =>
    rfl

/-- **The run of the prover over the changes**: with room for every set in between it ends at the
target, with one accepted mutation per change; otherwise it stops at the capacity check. -/
theorem proveChanges_eq (changes : List SlotChange) :
    ∀ {cs : CoinCellSet}, cs.Canonical C → cs.IdsFit →
      (∀ change ∈ changes, BitPath.Fits authenticatedCashDepth change.1 ∧
        Placeable C change.1 change.2) →
      LeadsTo cs.cells post.cells changes →
      (PutsFit cs.cells changes → ∃ ms, proveChanges C cs changes =
        .ok (ms, post) ∧ ms.map (·.id) = changes.map fst ∧
          ChainsFrom C cs post ms) ∧
      (¬ PutsFit cs.cells changes → proveChanges C cs changes = .error (.error .capacity)) := by
  induction changes with
  | nil =>
    intro cs _ _ _ hl
    obtain rfl : cs = post := CoinCellSet.ext (eq_of_get?_eq fun id => hl.rest id (by simp))
    exact ⟨fun _ => ⟨[], rfl, rfl, rfl, fun _ hmem => by simp at hmem, rfl⟩,
      fun hnot => absurd trivial hnot⟩
  | cons change changes ih =>
    intro cs hc hfit hpl hl
    obtain ⟨id, next⟩ := change
    obtain ⟨hid, hn⟩ := hpl _ mem_cons_self
    obtain ⟨hd, hv⟩ := hl.change _ mem_cons_self
    have hne : (cs.cells.get? id).map (fun cell => (id, cell)) ≠ next := by
      rw [show next = _ from hv]
      exact fun heq => hd (map_injective (mk_right_injective id) heq)
    rw [proveChanges, proveCoinCellMutation_eq hne hc hfit hid hn, PutsFit]
    by_cases hput : (cs.cells.put id (next.map snd)).length ≤ maxCoinCells
    · obtain ⟨hro, hf⟩ := ih (hc.put hput hn.slot) (hfit.put hput hid)
        (fun later hmem => hpl later (mem_cons_of_mem _ hmem)) hl.put
      rw [dif_pos hput, ok_bind, applyMutation_eq hne (fun r hr => (hn r hr).1) hput, ok_bind]
      refine ⟨fun hp => ?_, fun hnot => ?_⟩
      · obtain ⟨ms, hrun, hids, hch⟩ := hro hp.2
        refine ⟨mutationWitness C cs id next hput :: ms, ?_, ?_, ?_, ?_, ?_⟩
        · rw [hrun]
          rfl
        · rw [map_cons, map_cons, hids, mutationWitness_id]
        · rw [verifyChain, verify_mutationWitness hc hid hn hne hput, ok_bind,
            rejectIf_of_not (by simp), ok_bind, mutationWitness_postRoot]
          exact hch.verified
        · intro m hmem
          rw [head?_cons, mem_some_iff] at hmem
          rw [← hmem, mutationWitness_preRoot]
        · rw [getLast?_cons_getD, mutationWitness_postRoot]
          exact hch.last
      · rw [hf fun hp => hnot ⟨hput, hp⟩]
        rfl
    · rw [dif_neg hput]
      exact ⟨fun hp => absurd hp.1 hput, fun _ => rfl⟩

def differingIds (pre post : CoinCellSet) : Finset CoinCellId :=
  (pre.cells.keys ++ post.cells.keys).toFinset.filter fun id =>
    pre.cells.get? id ≠ post.cells.get? id

theorem leadsTo_changesLoop (pre post : CoinCellSet) :
    LeadsTo pre.cells post.cells (cellChanges pre post) := by
  obtain ⟨hf, hs⟩ := changesLoop_walks _ _ pre.cells.sorted post.cells.sorted
  refine ⟨hs, fun change hmem => ?_, fun id hid => ?_⟩
  · obtain ⟨hd, hc⟩ := (hf change).1 hmem
    exact ⟨hd, congrArg snd hc⟩
  · by_contra hd
    refine hid (mem_map.2 ⟨changeAt post.cells.entries id, ?_, rfl⟩)
    exact (hf _).2 ⟨hd, rfl⟩

theorem length_changesLoop (pre post : CoinCellSet) :
    (cellChanges pre post).length = (differingIds pre post).card := by
  have hl := leadsTo_changesLoop pre post
  have hn : ((cellChanges pre post).map fst).Nodup :=
    pairwise_map.2 (hl.sorted.imp fun h => h.ne)
  rw [← length_map fst, ← toFinset_card_of_nodup hn]
  congr 1
  ext id
  rw [List.mem_toFinset, differingIds, Finset.mem_filter, List.mem_toFinset, mem_append]
  constructor
  · intro hmem
    obtain ⟨change, hc, rfl⟩ := mem_map.1 hmem
    have hd := (hl.change change hc).1
    exact ⟨(mem_of_lookup_ne hd).imp mem_map.2 mem_map.2, hd⟩
  · rintro ⟨-, hd⟩
    by_contra hid
    exact hd (hl.rest id hid)

theorem placeable_changesLoop (hpre : pre.IdsFit) (hp : post.Canonical C ∧ post.IdsFit) :
    ∀ change ∈ cellChanges pre post,
      BitPath.Fits authenticatedCashDepth change.1 ∧ Placeable C change.1 change.2 := by
  intro change hmem
  obtain ⟨hd, hv⟩ := (leadsTo_changesLoop pre post).change change hmem
  constructor
  · cases hc : pre.cells.get? change.1 with
    | some cell => exact hpre change.1 cell hc
    | none =>
      rw [hc] at hd
      obtain ⟨cell, hc⟩ := ne_none_iff_exists'.1 hd.symm
      exact hp.2 change.1 cell hc
  · intro r hr
    rw [hv] at hr
    obtain ⟨cell, hc, rfl⟩ := mem_map.1 hr
    exact ⟨rfl, hp.1 change.1 cell hc⟩

/-- **The prover on two valid sets**: a witness of the transition, or the capacity error. -/
theorem proveCoinCellTransition_eq (hpre : pre.Canonical C ∧ pre.IdsFit)
    (hp : post.Canonical C ∧ post.IdsFit) (hne : pre ≠ post)
    (hd : (differingIds pre post).card ≤ maxAuthenticatedCashMutations) :
    (PutsFit pre.cells (cellChanges pre post) →
      ∃ ms, proveCoinCellTransition C pre post =
          .ok ⟨rootOf C pre, rootOf C post, ms⟩ ∧
        verifyCoinCellTransition C ⟨rootOf C pre, rootOf C post, ms⟩ = .ok () ∧
        ms.map (·.id) = (cellChanges pre post).map fst) ∧
    (¬ PutsFit pre.cells (cellChanges pre post) →
      proveCoinCellTransition C pre post = .error (.error .capacity)) := by
  have hl := leadsTo_changesLoop pre post
  have hle := length_changesLoop pre post
  have hc : cellChanges pre post ≠ [] := by
    intro hnil
    rw [hnil] at hl
    exact hne (CoinCellSet.ext (eq_of_get?_eq fun id => hl.rest id (by simp)))
  have hsha : ¬ (cellChanges pre post = [] ∨
      maxAuthenticatedCashMutations <
        (cellChanges pre post).length) := by
    rw [not_or, Nat.not_lt, hle]
    exact ⟨hc, hd⟩
  obtain ⟨hr, hfu⟩ := proveChanges_eq _ hpre.1 hpre.2 (placeable_changesLoop hpre.2 hp) hl
  rw [proveCoinCellTransition]
  dsimp only
  rw [rejectIf_of_not hsha, ok_bind, sortEntries_of_sorted hl.sorted,
    (authenticatedCoinCellRoot_eq_ok hpre.2).2 ⟨hpre.1, rfl⟩, ok_bind]
  refine ⟨fun hpu => ?_, fun hnot => ?_⟩
  · obtain ⟨ms, hrun, hids, hch⟩ := hr hpu
    have hco : ms.length =
        (cellChanges pre post).length := by
      rw [← length_map (·.id), hids, length_map]
    obtain ⟨first, rest, rfl⟩ : ∃ first rest, ms = first :: rest := by
      refine exists_cons_of_ne_nil fun hnil => hc ?_
      rw [← length_eq_zero_iff, ← hco, hnil, length_nil]
    have hf : first.preRoot = rootOf C pre := hch.head first rfl
    have hsh : (⟨rootOf C pre, rootOf C post, first :: rest⟩ :
        CoinCellTransitionWitness).Shaped := by
      refine ⟨cons_ne_nil _ _, ?_, ?_, congrArg some hf, ?_⟩
      · rw [hco, hle]
        exact hd
      · have hs := pairwise_map.2 hl.sorted
        rw [← hids] at hs
        exact pairwise_map.1 hs
      · have hla := hch.last
        exact congrArg some hla
    have hv : verifyCoinCellTransition C ⟨rootOf C pre, rootOf C post, first :: rest⟩ =
        .ok () := by
      have hv := hch.verified
      rw [verifyChain, rejectIf_of_not (by simp [hf])] at hv
      rw [verifyCoinCellTransition, rejectIf_of_not (not_not.2 hsh), ok_bind,
        verifyChain, rejectIf_of_not (by simp)]
      exact hv
    refine ⟨first :: rest, ?_, hv, hids⟩
    rw [hrun, ok_bind]
    rw [rejectIf_of_not (by simp), ok_bind,
      (authenticatedCoinCellRoot_eq_ok hp.2).2 ⟨hp.1, rfl⟩, ok_bind, hv]
    rfl
  · rw [hfu hnot]
    rfl

/-- **A transition between two valid sets is proved, and its proof accepted, exactly when every
set that the prover passes through fits**. -/
theorem transition_provable_iff (hpre : pre.Canonical C ∧ pre.IdsFit)
    (hpost : post.Canonical C ∧ post.IdsFit) (hne : pre ≠ post)
    (hdiffer : (differingIds pre post).card ≤ maxAuthenticatedCashMutations) :
    (∃ w, proveCoinCellTransition C pre post = .ok w ∧ verifyCoinCellTransition C w = .ok () ∧
      authenticatedCoinCellRoot C pre = .ok w.preRoot ∧
      authenticatedCoinCellRoot C post = .ok w.postRoot) ↔
    ∀ id, mixedCount pre.cells post.cells id ≤ maxCoinCells := by
  rw [← putsFit_iff _ pre.bounded (leadsTo_changesLoop pre post)]
  obtain ⟨hr, hf⟩ := proveCoinCellTransition_eq hpre hpost hne hdiffer
  constructor
  · rintro ⟨w, hp, -⟩
    by_contra hnot
    rw [hf hnot] at hp
    cases hp
  · intro hpu
    obtain ⟨mutations, hp, hv, -⟩ := hr hpu
    exact ⟨_, hp, hv, (authenticatedCoinCellRoot_eq_ok hpre.2).2 ⟨hpre.1, rfl⟩,
      (authenticatedCoinCellRoot_eq_ok hpost.2).2 ⟨hpost.1, rfl⟩⟩

end Transition

namespace Numbered

theorem insertion_provable : ∃ w,
    proveCoinCellTransition C (cellsFrom 0 1 (by decide)) (cellsFrom 0 2 (by decide)) = .ok w ∧
    verifyCoinCellTransition C w = .ok () ∧
    authenticatedCoinCellRoot C (cellsFrom 0 1 (by decide)) = .ok w.preRoot ∧
    authenticatedCoinCellRoot C (cellsFrom 0 2 (by decide)) = .ok w.postRoot := by
  refine (transition_provable_iff ⟨cellsFrom_canonical, cellsFrom_idsFit (by decide)⟩
    ⟨cellsFrom_canonical, cellsFrom_idsFit (by decide)⟩ (by decide) (by decide +kernel)).2
    fun id => ?_
  have hp : ((cellsFrom 0 2 (by decide)).cells.retain fun id' _ => id' ≤ id).length ≤ 2 :=
    length_filter_le _ _
  have hpre : ((cellsFrom 0 1 (by decide)).cells.retain fun id' _ => id < id').length ≤ 1 :=
    length_filter_le _ _
  have hmax : maxCoinCells = 4096 := rfl
  unfold mixedCount
  omega

def fullWithoutFirst : CoinCellSet := cellsFrom 1 4096 (by decide)

def fullWithoutLast : CoinCellSet := cellsFrom 0 4096 (by decide)

theorem differingIds_full : differingIds fullWithoutFirst fullWithoutLast ⊆ {0, 8192} := by
  intro id hmem
  have hd := (Finset.mem_filter.1 hmem).2
  by_contra hid
  simp only [Finset.mem_insert, Finset.mem_singleton, not_or] at hid
  refine hd (ext fun c => ?_)
  rw [fullWithoutFirst, fullWithoutLast, get?_cellsFrom, get?_cellsFrom]
  constructor
  · rintro ⟨k, hlow, hh, rfl, rfl⟩
    have hl : 2 * k ≠ 8192 := hid.2
    exact ⟨k, by omega, by omega, rfl, rfl⟩
  · rintro ⟨k, hlow, hh, rfl, rfl⟩
    have hf : 2 * k ≠ 0 := hid.1
    exact ⟨k, by omega, by omega, rfl, rfl⟩

theorem mixedCount_full :
    maxCoinCells < mixedCount fullWithoutFirst.cells fullWithoutLast.cells 0 := by
  have hnew : 0 < (fullWithoutLast.cells.retain fun id' _ => id' ≤ 0).length := by
    refine length_pos_of_get? (k := 0) (v := cell 0) ?_
    rw [get?_retain_eq_some, fullWithoutLast, get?_cellsFrom]
    exact ⟨⟨0, le_rfl, by decide, rfl, rfl⟩, by decide⟩
  have hold : (fullWithoutFirst.cells.retain fun id' _ => 0 < id') = fullWithoutFirst.cells := by
    refine eq_of_get?_eq fun id => ext fun c => ?_
    rw [get?_retain_eq_some, fullWithoutFirst, get?_cellsFrom]
    refine and_iff_left_of_imp ?_
    rintro ⟨k, hlow, -, rfl, -⟩
    have hpos : 0 < 2 * k := by omega
    exact decide_eq_true hpos
  have hl : fullWithoutFirst.cells.length = 4096 := by
    simp [fullWithoutFirst, cellsFrom, SortedMap.length]
  have hmax : maxCoinCells = 4096 := rfl
  rw [mixedCount, hold, hl]
  omega

/-- **Exchanging one cell of a full set for a cell with a smaller identifier is not provable**: the
new cell is inserted before the old one is removed. -/
theorem exchange_in_full_set : (fullWithoutFirst.Canonical C ∧ fullWithoutFirst.IdsFit) ∧
    (fullWithoutLast.Canonical C ∧ fullWithoutLast.IdsFit) ∧ fullWithoutFirst ≠ fullWithoutLast ∧
    (differingIds fullWithoutFirst fullWithoutLast).card ≤ maxAuthenticatedCashMutations ∧
    proveCoinCellTransition C fullWithoutFirst fullWithoutLast = .error (.error .capacity) := by
  have hpre : fullWithoutFirst.Canonical C ∧ fullWithoutFirst.IdsFit :=
    ⟨cellsFrom_canonical, cellsFrom_idsFit le_rfl⟩
  have hp : fullWithoutLast.Canonical C ∧ fullWithoutLast.IdsFit :=
    ⟨cellsFrom_canonical, cellsFrom_idsFit (by decide)⟩
  have hm := mixedCount_full
  have hne : fullWithoutFirst ≠ fullWithoutLast := by
    intro heq
    rw [heq, mixedCount_self] at hm
    exact absurd fullWithoutLast.bounded (Nat.not_le_of_lt hm)
  have hd : (differingIds fullWithoutFirst fullWithoutLast).card ≤ maxAuthenticatedCashMutations :=
    (Finset.card_le_card differingIds_full).trans (by decide)
  refine ⟨hpre, hp, hne, hd, ?_⟩
  refine (proveCoinCellTransition_eq hpre hp hne hd).2 fun hpu => ?_
  have hl := leadsTo_changesLoop fullWithoutFirst fullWithoutLast
  have hr := (putsFit_iff _ fullWithoutFirst.bounded hl).1 hpu 0
  exact absurd hr (Nat.not_le_of_lt hm)

end Numbered

end ActiveChain
