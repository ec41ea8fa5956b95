import Mathlib.Algebra.Order.Ring.Nat
import Mathlib.Data.List.Pairwise

/-!
# Finite maps as strictly sorted association lists

The canonical form of an ordered map: one entry per key, keys increasing.  Two maps with the same
lookups are equal, iteration is in key order, and every operation evaluates in the kernel.

* `get?_insert`, `get?_erase`, `get?_retain`, `get?_put` — lookups after each update.
* `entries_put` — setting a key splices the entry list.
* `mem_entries` — an entry is present exactly when its key looks it up.
-/

universe u v

/-- An ordered map: entries in strictly increasing key order. -/
structure SortedMap (κ : Type u) (ν : Type v) [LinearOrder κ] where
  entries : List (κ × ν)
  sorted : entries.Pairwise (fun a b => a.1 < b.1)

namespace SortedMap

open List Option

variable {κ : Type u} {ν : Type v} [LinearOrder κ]

instance [DecidableEq ν] : DecidableEq (SortedMap κ ν) := fun a b =>
  decidable_of_iff (a.entries = b.entries)
    ⟨fun h => by cases a; cases b; cases h; rfl, fun h => by rw [h]⟩

/-! ## Entry lists -/

def lookupEntry (k : κ) : List (κ × ν) → Option ν
  | [] => none
  | (k', v) :: rest => if k = k' then some v else lookupEntry k rest

/-- Insertion in key order, replacing an entry with the same key. -/
def insertEntry (k : κ) (v : ν) : List (κ × ν) → List (κ × ν)
  | [] => [(k, v)]
  | (k', v') :: rest =>
    if k < k' then (k, v) :: (k', v') :: rest
    else if k = k' then (k, v) :: rest
    else (k', v') :: insertEntry k v rest

variable {es : List (κ × ν)} {k : κ} {v : ν} (m : SortedMap κ ν)

theorem mem_insertEntry {e : κ × ν} (h : e ∈ insertEntry k v es) : e = (k, v) ∨ e ∈ es := by
  induction es with
  | nil => simpa [insertEntry] using h
  | cons hd tl ih =>
    rw [insertEntry] at h
    split_ifs at h with h1 h2
    · exact mem_cons.1 h
    · rcases mem_cons.1 h with h | h
      · exact .inl h
      · exact .inr (mem_cons_of_mem _ h)
    · rcases mem_cons.1 h with h | h
      · exact .inr (by rw [h]; exact mem_cons_self)
      · exact (ih h).imp id (mem_cons_of_mem _)

theorem insertEntry_sorted (h : es.Pairwise (fun a b => a.1 < b.1)) :
    (insertEntry k v es).Pairwise (fun a b => a.1 < b.1) := by
  induction es with
  | nil => exact pairwise_singleton _ _
  | cons hd tl ih =>
    obtain ⟨hhd, htl⟩ := pairwise_cons.1 h
    rw [insertEntry]
    split_ifs with h1 h2
    · refine pairwise_cons.2 ⟨?_, h⟩
      intro a ha
      rcases mem_cons.1 ha with rfl | ha
      · exact h1
      · exact h1.trans (hhd a ha)
    · subst h2
      exact pairwise_cons.2 ⟨hhd, htl⟩
    · refine pairwise_cons.2 ⟨?_, ih htl⟩
      intro a ha
      rcases mem_insertEntry ha with rfl | ha
      · exact lt_of_le_of_ne (not_lt.1 h1) (Ne.symm h2)
      · exact hhd a ha

theorem lookupEntry_insertEntry (k k' : κ) (v : ν) (es : List (κ × ν)) :
    lookupEntry k' (insertEntry k v es) = if k' = k then some v else lookupEntry k' es := by
  induction es with
  | nil => rfl
  | cons hd tl ih =>
    rw [insertEntry]
    split_ifs with h1 h2 h3 h4 h5
    · simp [lookupEntry, h2]
    · simp [lookupEntry, h2]
    · simp [lookupEntry, h4]
    · subst h3; simp [lookupEntry, h4]
    · subst h5; rw [lookupEntry, if_neg h3, ih, if_pos rfl]
    · rw [lookupEntry, lookupEntry, ih, if_neg h5]

theorem lookupEntry_of_mem (hs : es.Pairwise (fun a b => a.1 < b.1)) (h : (k, v) ∈ es) :
    lookupEntry k es = some v := by
  induction es with
  | nil => cases h
  | cons hd tl ih =>
    obtain ⟨k', v'⟩ := hd
    obtain ⟨hhd, htl⟩ := pairwise_cons.1 hs
    rcases mem_cons.1 h with h | h
    · cases h; simp [lookupEntry]
    · have hlt : k' < k := hhd _ h
      rw [lookupEntry, if_neg hlt.ne', ih htl h]

theorem mem_of_lookupEntry (h : lookupEntry k es = some v) : (k, v) ∈ es := by
  induction es with
  | nil => cases h
  | cons hd tl ih =>
    rw [lookupEntry] at h
    split_ifs at h with h1
    · cases h; subst h1; exact mem_cons_self
    · exact mem_cons_of_mem _ (ih h)

/-! ## Maps -/

def empty : SortedMap κ ν := ⟨[], List.Pairwise.nil⟩

def get? (k : κ) : Option ν := lookupEntry k m.entries

def contains (k : κ) : Bool := (m.get? k).isSome

def insert (k : κ) (v : ν) : SortedMap κ ν :=
  ⟨insertEntry k v m.entries, insertEntry_sorted m.sorted⟩

def retain (p : κ → ν → Bool) : SortedMap κ ν :=
  ⟨m.entries.filter (fun e => p e.1 e.2), m.sorted.sublist filter_sublist⟩

def erase (k : κ) : SortedMap κ ν := m.retain (fun k' _ => decide (k' ≠ k))

def length (m : SortedMap κ ν) : Nat := m.entries.length

def values : List ν := m.entries.map Prod.snd

def keys : List κ := m.entries.map Prod.fst

@[simp] theorem get?_empty (k : κ) : (empty : SortedMap κ ν).get? k = none := rfl

@[simp] theorem values_empty : (empty : SortedMap κ ν).values = [] := rfl

theorem mem_entries {m : SortedMap κ ν} : (k, v) ∈ m.entries ↔ m.get? k = some v :=
  ⟨lookupEntry_of_mem m.sorted, mem_of_lookupEntry⟩

theorem mem_values {m : SortedMap κ ν} : v ∈ m.values ↔ ∃ k, m.get? k = some v := by
  simp [values, mem_entries]

theorem get?_insert (k k' : κ) (v : ν) :
    (m.insert k v).get? k' = if k' = k then some v else m.get? k' :=
  lookupEntry_insertEntry k k' v m.entries

@[simp] theorem get?_insert_self (k : κ) (v : ν) : (m.insert k v).get? k = some v := by
  rw [get?_insert, if_pos rfl]

theorem get?_insert_ne {k k' : κ} (v : ν) (h : k' ≠ k) : (m.insert k v).get? k' = m.get? k' := by
  rw [get?_insert, if_neg h]

theorem get?_retain_eq_some {m : SortedMap κ ν} {p : κ → ν → Bool} :
    (m.retain p).get? k = some v ↔ m.get? k = some v ∧ p k v = true := by
  rw [← mem_entries, ← mem_entries]
  exact mem_filter

theorem get?_retain (p : κ → ν → Bool) (k : κ) : (m.retain p).get? k = (m.get? k).filter (p k) := by
  refine Option.ext fun v => ?_
  rw [get?_retain_eq_some, filter_eq_some_iff]

theorem get?_erase (k k' : κ) : (m.erase k).get? k' = if k' = k then none else m.get? k' := by
  rw [erase, get?_retain]
  split_ifs with h
  · cases m.get? k' <;> simp [h]
  · cases m.get? k' <;> simp [h]

/-- One key set to a value, or to nothing. -/
def put (k : κ) : Option ν → SortedMap κ ν
  | some v => m.insert k v
  | none => m.erase k

theorem get?_put (k k' : κ) (slot : Option ν) :
    (m.put k slot).get? k' = if k' = k then slot else m.get? k' := by
  cases slot with
  | none => exact get?_erase m k k'
  | some v => exact get?_insert m k k' v

theorem lookupEntry_of_not_lt {k k' : κ} (hhd : ∀ e ∈ es, k' < e.1) (h : ¬ k' < k) :
    lookupEntry k es = none := by
  by_contra hs
  obtain ⟨v, hv⟩ := ne_none_iff_exists'.1 hs
  exact h (hhd _ (mem_of_lookupEntry hv))

theorem head_dropWhile (hs : es.Pairwise fun a b => a.1 < b.1) :
    (es.dropWhile fun e => e.1 < k).head?.any (·.1 = k) = (lookupEntry k es).isSome := by
  induction es with
  | nil => rfl
  | cons hd tl ih =>
    obtain ⟨k', v'⟩ := hd
    obtain ⟨hhd, htl⟩ := pairwise_cons.1 hs
    rw [lookupEntry]
    by_cases hlt : k' < k
    · simp [hlt, hlt.ne', ih htl]
    · rw [dropWhile_cons_of_neg (by simpa using hlt)]
      by_cases heq : k = k'
      · simp [heq]
      · simp [heq, Ne.symm heq, lookupEntry_of_not_lt hhd hlt]

theorem entries_put (k : κ) (slot : Option ν) :
    (m.put k slot).entries = (m.entries.takeWhile fun e => e.1 < k) ++
      slot.toList.map (fun v => (k, v)) ++ (if (m.get? k).isSome then
        (m.entries.dropWhile fun e => e.1 < k).tail else m.entries.dropWhile fun e => e.1 < k) := by
  obtain ⟨es, hs⟩ := m
  have hsp : (slot.elim (es.filter fun e => decide (e.1 ≠ k)) fun v => insertEntry k v es) =
      (es.takeWhile fun e => e.1 < k) ++ slot.toList.map (fun v => (k, v)) ++
        (if (lookupEntry k es).isSome then (es.dropWhile fun e => e.1 < k).tail
          else es.dropWhile fun e => e.1 < k) := by
    induction es with
    | nil => cases slot <;> rfl
    | cons hd tl ih =>
      obtain ⟨k', v'⟩ := hd
      obtain ⟨hhd, htl⟩ := pairwise_cons.1 hs
      by_cases hlt : k' < k
      · cases slot <;> simp_all [insertEntry, lookupEntry, hlt.ne, hlt.ne', hlt.not_gt]
      · -- the key belongs here: what follows is greater
        have hn := lookupEntry_of_not_lt hhd hlt
        have hk : tl.filter (fun e => decide (e.1 ≠ k)) = tl :=
          filter_eq_self.2 fun e he => decide_eq_true fun heq => hlt (heq ▸ hhd e he)
        rw [takeWhile_cons_of_neg (by simpa using hlt),
          dropWhile_cons_of_neg (by simpa using hlt), lookupEntry]
        by_cases heq : k = k'
        · subst heq
          cases slot with
          | none =>
            rw [elim_none, filter_cons_of_neg (by simp), hk]
            simp
          | some v => simp [insertEntry]
        · have hgt : k < k' := lt_of_le_of_ne (not_lt.1 hlt) heq
          cases slot with
          | none =>
            rw [elim_none, filter_cons_of_pos (by simpa using Ne.symm heq), hk]
            simp [heq, hn]
          | some v => simp [insertEntry, hgt, heq, hn]
  cases slot <;> exact hsp

theorem length_pos_of_get? {m : SortedMap κ ν} (h : m.get? k = some v) : 0 < m.length :=
  length_pos_of_mem (mem_entries.2 h)

theorem contains_eq_false {m : SortedMap κ ν} : m.contains k = false ↔ m.get? k = none := by
  rw [contains, isSome_eq_false_iff, isNone_iff_eq_none]

end SortedMap
