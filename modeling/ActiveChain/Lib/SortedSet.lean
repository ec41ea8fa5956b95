import Mathlib.Algebra.Order.Ring.Nat
import Mathlib.Data.List.Sort

/-!
# Sets kept as sorted lists

A set of values in strictly increasing order, as a vector that is searched by bisection.

* `SortedSet.insert`, `SortedSet.erase` — adding and removing one value.
* `SortedSet.insert_perm`, `SortedSet.mem_erase` — **one value comes or goes, the others stay.**
-/

universe u

structure SortedSet (α : Type u) [LinearOrder α] where
  elems : List α
  sorted : elems.Pairwise (· < ·)
deriving DecidableEq

namespace SortedSet

variable {α : Type u} [LinearOrder α] {s : SortedSet α} {x y : α}

instance : Membership α (SortedSet α) := ⟨fun s x => x ∈ s.elems⟩

instance (x : α) (s : SortedSet α) : Decidable (x ∈ s) :=
  decidable_of_iff (∃ y ∈ s.elems, y = x) exists_eq_right

def empty : SortedSet α := ⟨[], List.Pairwise.nil⟩

def length (s : SortedSet α) : Nat := s.elems.length

theorem nodup (s : SortedSet α) : s.elems.Nodup := s.sorted.imp fun h => ne_of_lt h

theorem orderedInsert_sorted (s : SortedSet α) (h : x ∉ s) :
    (s.elems.orderedInsert (· ≤ ·) x).Pairwise (· < ·) := by
  have hn : (s.elems.orderedInsert (· ≤ ·) x).Nodup :=
    (List.perm_orderedInsert _ x s.elems).nodup_iff.2 (List.nodup_cons.2 ⟨h, s.nodup⟩)
  have hs : (s.elems.orderedInsert (· ≤ ·) x).Pairwise (· ≤ ·) :=
    (s.sorted.imp fun h => le_of_lt h).orderedInsert x _
  exact (hs.and hn).imp fun h => lt_of_le_of_ne h.1 h.2

def insert (s : SortedSet α) (x : α) : SortedSet α :=
  if h : x ∈ s then s else ⟨s.elems.orderedInsert (· ≤ ·) x, s.orderedInsert_sorted h⟩

def erase (s : SortedSet α) (x : α) : SortedSet α :=
  ⟨s.elems.erase x, s.sorted.sublist List.erase_sublist⟩

theorem insert_perm (h : x ∉ s) : (s.insert x).elems.Perm (x :: s.elems) := by
  rw [insert, dif_neg h]
  exact List.perm_orderedInsert _ x s.elems

theorem mem_insert (h : x ∉ s) : y ∈ s.insert x ↔ y = x ∨ y ∈ s :=
  (insert_perm h).mem_iff.trans List.mem_cons

@[simp] theorem mem_erase : y ∈ s.erase x ↔ y ≠ x ∧ y ∈ s := s.nodup.mem_erase_iff

end SortedSet
