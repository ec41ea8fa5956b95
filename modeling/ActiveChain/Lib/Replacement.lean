import ActiveChain.Lib.SortedMap
import Mathlib.Algebra.BigOperators.Group.List.Basic
import Mathlib.Data.List.Sort

/-!
# Replacing entries of a sorted map

A map is rewritten in one go: some keys are taken out, some entries are put in, and the list is
sorted again.

* `sortEntries_strict_iff` — the sorted list is a map exactly when no key occurs twice.
* `Replaces.get?_eq_some` — the lookups after it.
* `Replaces.total_add`, `Replaces.length_add` — **what was taken out and what was put in account for
  the change of every total.**
-/

universe u v

namespace SortedMap

open List Prod

variable {κ : Type u} {ν : Type v} [LinearOrder κ]

/-! ## Sorting by key -/

/-- Entries in key order; entries with one key keep their order. -/
def sortEntries (es : List (κ × ν)) : List (κ × ν) := es.insertionSort fun a b => a.1 ≤ b.1

theorem sortEntries_perm (es : List (κ × ν)) : (sortEntries es).Perm es :=
  perm_insertionSort _ es

theorem keys_nodup (m : SortedMap κ ν) : (m.entries.map fst).Nodup :=
  pairwise_map.2 (m.sorted.imp fun h => h.ne)

variable {m m' : SortedMap κ ν}

theorem eq_of_get?_eq (h : ∀ k, m.get? k = m'.get? k) : m = m' := by
  have hn : Std.Irrefl fun a b : κ × ν => a.1 < b.1 := ⟨fun a => lt_irrefl a.1⟩
  have he : m.entries = m'.entries :=
    m.sorted.eq_of_mem_iff m'.sorted fun e => by rw [mem_entries, mem_entries, h]
  cases m
  cases he
  rfl

theorem mem_keys {k : κ} : k ∈ m.keys ↔ ∃ v, m.get? k = some v := by
  simp [keys, mem_entries]

theorem mem_keys_insert {k k' : κ} {v : ν} : k' ∈ (m.insert k v).keys ↔ k' = k ∨ k' ∈ m.keys := by
  rw [mem_keys, mem_keys, get?_insert]
  split_ifs with h <;> simp [h]

variable {es : List (κ × ν)}

theorem sortEntries_strict_iff :
    (sortEntries es).Pairwise (fun a b => a.1 < b.1) ↔ (es.map fst).Nodup := by
  rw [← ((sortEntries_perm es).map fst).nodup_iff]
  constructor
  · intro h
    exact pairwise_map.2 (h.imp fun h => h.ne)
  · intro h
    refine ((pairwise_insertionSort _ es).and (pairwise_map.1 h)).imp ?_
    intro a b hab
    exact lt_of_le_of_ne hab.1 hab.2

theorem sortEntries_of_sorted (h : es.Pairwise fun a b => a.1 < b.1) : sortEntries es = es :=
  (sortEntries_perm es).eq_of_pairwise (fun _ _ _ _ hab hba => absurd hab hba.not_gt)
    (sortEntries_strict_iff.2 (pairwise_map.2 (h.imp fun h => h.ne))) h

/-! ## One rewrite -/

/-- The entries that stay, followed by the new ones. -/
def replaced (m : SortedMap κ ν) (spent : List κ) (created : List (κ × ν)) : List (κ × ν) :=
  m.entries.filter (fun e => e.1 ∉ spent) ++ created

/-- The map `m'` is `m` without the keys `spent` and with the entries `created`. -/
def Replaces (m m' : SortedMap κ ν) (spent : List κ) (created : List (κ × ν)) : Prop :=
  m'.entries.Perm (m.replaced spent created)

variable {created : List (κ × ν)}

theorem mem_replaced {spent : List κ} {e : κ × ν} :
    e ∈ m.replaced spent created ↔ e ∈ created ∨ e.1 ∉ spent ∧ m.get? e.1 = some e.2 := by
  rw [replaced, mem_append, mem_filter, ← mem_entries, decide_eq_true_iff]
  tauto

theorem replaced_nodup_iff {spent : List κ} :
    ((m.replaced spent created).map fst).Nodup ↔
      (created.map fst).Nodup ∧ ∀ e ∈ created, e.1 ∈ spent ∨ m.get? e.1 = none := by
  rw [replaced, map_append, nodup_append]
  have hke : ((m.entries.filter fun e => e.1 ∉ spent).map fst).Nodup :=
    m.keys_nodup.sublist (filter_sublist.map _)
  constructor
  · rintro ⟨-, hc, hd⟩
    refine ⟨hc, fun e he => ?_⟩
    by_contra hl
    rw [not_or] at hl
    obtain ⟨v, hv⟩ := Option.ne_none_iff_exists'.1 hl.2
    refine hd e.1 ?_ e.1 (mem_map_of_mem he) rfl
    refine mem_map.2 ⟨(e.1, v), mem_filter.2 ⟨mem_entries.2 hv, ?_⟩, rfl⟩
    exact decide_eq_true hl.1
  · rintro ⟨hc, hf⟩
    refine ⟨hke, hc, ?_⟩
    rintro k hk _ hk' rfl
    obtain ⟨⟨k, v⟩, hmem, rfl⟩ := mem_map.1 hk
    obtain ⟨hen, hkee⟩ := mem_filter.1 hmem
    obtain ⟨e, he, heq⟩ := mem_map.1 hk'
    rcases hf e he with hs | hn
    · exact of_decide_eq_true hkee (heq ▸ hs)
    · rw [heq, mem_entries.1 hen] at hn
      cases hn

namespace Replaces

variable {m m' : SortedMap κ ν} {spent : List κ} {created : List (κ × ν)}

theorem get?_eq_some (h : m.Replaces m' spent created) {k : κ} {v : ν} :
    m'.get? k = some v ↔ (k, v) ∈ created ∨ k ∉ spent ∧ m.get? k = some v := by
  rw [← mem_entries, List.Perm.mem_iff h, mem_replaced]

theorem get?_eq_none (h : m.Replaces m' spent created) {k : κ} :
    m'.get? k = none ↔ k ∉ created.map fst ∧ (k ∈ spent ∨ m.get? k = none) := by
  simp only [Option.eq_none_iff_forall_ne_some, ne_eq, h.get?_eq_some, not_or, forall_and, mem_map,
    Prod.exists, exists_and_right, exists_eq_right, not_exists, not_and]
  refine and_congr_right fun _ => ?_
  by_cases hk : k ∈ spent <;> simp [hk]

theorem of_get? (hn : (created.map fst).Nodup) (hf : ∀ e ∈ created, e.1 ∈ spent ∨ m.get? e.1 = none)
    (h : ∀ k v, m'.get? k = some v ↔ (k, v) ∈ created ∨ k ∉ spent ∧ m.get? k = some v) :
    m.Replaces m' spent created := by
  refine (perm_ext_iff_of_nodup (Nodup.of_map _ m'.keys_nodup)
    (Nodup.of_map _ (replaced_nodup_iff.2 ⟨hn, hf⟩))).2 fun e => ?_
  rw [mem_entries, mem_replaced]
  exact h e.1 e.2

theorem fresh (h : m.Replaces m' spent created) :
    (created.map fst).Nodup ∧ ∀ e ∈ created, e.1 ∈ spent ∨ m.get? e.1 = none :=
  replaced_nodup_iff.1 ((List.Perm.nodup_iff (List.Perm.map fst h)).1 m'.keys_nodup)

end Replaces

/-! ## Totals -/

def total (m : SortedMap κ ν) (weight : ν → Nat) : Nat := (m.entries.map fun e => weight e.2).sum

theorem length_eq_total (m : SortedMap κ ν) : m.length = m.total fun _ => 1 := by
  simp [length, total]

theorem filter_mem_perm {spent : List (κ × ν)} (hn : (spent.map fst).Nodup)
    (hl : ∀ e ∈ spent, m.get? e.1 = some e.2) :
    (m.entries.filter fun e => e.1 ∈ spent.map fst).Perm spent := by
  refine (perm_ext_iff_of_nodup ?_ (Nodup.of_map _ hn)).2 fun e => ?_
  · exact (Nodup.of_map _ m.keys_nodup).filter _
  rw [mem_filter, decide_eq_true_iff]
  constructor
  · rintro ⟨hen, hkey⟩
    obtain ⟨e', he', heq⟩ := mem_map.1 hkey
    have hv := hl e' he'
    rw [heq, mem_entries.1 hen] at hv
    exact (Prod.ext heq.symm (Option.some.inj hv) : e = e') ▸ he'
  · intro he
    exact ⟨mem_entries.2 (hl e he), mem_map_of_mem he⟩

theorem total_filter {spent : List (κ × ν)} (hn : (spent.map fst).Nodup)
    (hl : ∀ e ∈ spent, m.get? e.1 = some e.2) (weight : ν → Nat) :
    ((m.entries.filter fun e => e.1 ∉ spent.map fst).map fun e => weight e.2).sum +
      (spent.map fun e => weight e.2).sum = m.total weight := by
  have hs := ((filter_append_perm (fun e => decide (e.1 ∈ spent.map fst))
    m.entries).map fun e => weight e.2).sum_nat
  have hsp := ((filter_mem_perm hn hl).map fun e => weight e.2).sum_nat
  rw [map_append, sum_append, hsp] at hs
  simp only [decide_not]
  unfold total
  omega

namespace Replaces

variable {m m' : SortedMap κ ν} {spent created : List (κ × ν)}

section

variable (h : m.Replaces m' (spent.map Prod.fst) created) (hn : (spent.map Prod.fst).Nodup)
  (hl : ∀ e ∈ spent, m.get? e.1 = some e.2)
include h hn hl

/-- **What is taken out and what is put in account for the change of a total.** -/
theorem total_add (weight : ν → Nat) :
    m'.total weight + (spent.map fun e => weight e.2).sum =
      m.total weight + (created.map fun e => weight e.2).sum := by
  have haf := (List.Perm.map (fun e : κ × ν => weight e.2) h).sum_nat
  rw [replaced, map_append, sum_append] at haf
  have hb := total_filter hn hl weight
  unfold total at hb ⊢
  omega

theorem length_add : m'.length + spent.length = m.length + created.length := by
  have ht := h.total_add hn hl fun _ => 1
  rw [← length_eq_total, ← length_eq_total] at ht
  simpa using ht

end

end Replaces

theorem sum_le_total {spent : List (κ × ν)} (hn : (spent.map fst).Nodup)
    (hl : ∀ e ∈ spent, m.get? e.1 = some e.2) (weight : ν → Nat) :
    (spent.map fun e => weight e.2).sum ≤ m.total weight := by
  have := total_filter hn hl weight
  omega

theorem retain_congr {p : κ → Bool} (h : ∀ k, p k → m.get? k = m'.get? k) :
    m.retain (fun k _ => p k) = m'.retain fun k _ => p k := by
  refine eq_of_get?_eq fun k => ?_
  rw [get?_retain, get?_retain]
  cases hk : p k with
  | true => rw [h k hk]
  | false => simp

variable (m)

variable (k : κ) (slot : Option ν)

theorem total_put (weight : ν → Nat) :
    (m.put k slot).total weight + ((m.get? k).map weight).getD 0 =
      m.total weight + (slot.map weight).getD 0 := by
  have hr : m.Replaces (m.put k slot) (((m.get? k).toList.map fun v => (k, v)).map fst)
      (slot.toList.map fun v => (k, v)) := by
    refine Replaces.of_get? ?_ ?_ ?_
    · cases slot <;> simp
    · intro e he
      obtain ⟨v, -, rfl⟩ := mem_map.1 he
      cases hk : m.get? k <;> simp
    · intro k' v'
      rw [get?_put]
      split_ifs with heq
      · subst heq
        cases m.get? k' <;> simp [eq_comm]
      · simp [Ne.symm heq, heq]
  have ht := hr.total_add (by cases m.get? k <;> simp) (fun e he => by
    obtain ⟨v, hv, rfl⟩ := mem_map.1 he
    exact Option.mem_toList.1 hv) weight
  cases hk : m.get? k <;> cases slot <;> simpa [hk] using ht

theorem insert_perm {k : κ} {v : ν} (h : m.get? k = none) :
    (m.insert k v).entries.Perm ((k, v) :: m.entries) := by
  have hk : ((k, v) :: m.entries).Nodup :=
    nodup_cons.2 ⟨fun hmem => by simp [mem_entries.1 hmem] at h, m.keys_nodup.of_map⟩
  refine (perm_ext_iff_of_nodup (m.insert k v).keys_nodup.of_map hk).2 fun ⟨k', v'⟩ => ?_
  rw [mem_entries, get?_insert, mem_cons, Prod.mk.injEq, mem_entries]
  split_ifs with heq
  · simp [heq, h, eq_comm]
  · simp [heq]

theorem length_put :
    (m.put k slot).length + (m.get? k).toList.length = m.length + slot.toList.length := by
  have ht := m.total_put k slot fun _ => 1
  rw [← length_eq_total, ← length_eq_total] at ht
  cases hk : m.get? k <;> cases slot <;> simpa [hk] using ht

theorem length_retain_add :
    (m.retain fun k' _ => k' ≤ k).length + (m.retain fun k' _ => k < k').length = m.length := by
  have hs := (filter_append_perm (fun e => decide (e.1 ≤ k)) m.entries).length_eq
  simpa [retain, length, ← decide_not] using hs

/-- The entries found under some keys. -/
def found (keys : List κ) : List (κ × ν) := keys.filterMap fun k => (m.get? k).map fun v => (k, v)

theorem found_sublist (keys : List κ) : ((m.found keys).map fst).Sublist keys := by
  induction keys with
  | nil => exact List.Sublist.refl _
  | cons k keys ih =>
    cases hk : m.get? k with
    | none => simpa [found, hk] using ih.cons k
    | some v => simpa [found, hk] using ih

theorem sum_get?_le_total {keys : List κ} (hn : keys.Nodup) (weight : ν → Nat) :
    (keys.map fun k => ((m.get? k).map weight).getD 0).sum ≤ m.total weight := by
  have hsum : (keys.map fun k => ((m.get? k).map weight).getD 0).sum =
      ((m.found keys).map fun e => weight e.2).sum := by
    clear hn
    induction keys with
    | nil => rfl
    | cons k keys ih => cases hk : m.get? k <;> simpa [found, hk] using ih
  have hl : ∀ e ∈ m.found keys, m.get? e.1 = some e.2 := by
    intro e he
    obtain ⟨k, -, hk⟩ := mem_filterMap.1 he
    obtain ⟨v, hv, rfl⟩ := Option.map_eq_some_iff.1 hk
    exact hv
  rw [hsum]
  exact sum_le_total ((m.found_sublist keys).nodup hn) hl weight

theorem length_insert (v : ν) :
    (m.insert k v).length = if m.contains k then m.length else m.length + 1 := by
  have ht := m.total_put k (some v) fun _ => 1
  simp only [put, ← length_eq_total, Option.map_some, Option.getD_some] at ht
  unfold contains
  cases hk : m.get? k <;> simp_all

end SortedMap
