import Mathlib.Algebra.Order.Ring.Nat
import Mathlib.Data.List.Sort

/-!
# Replacing the entry of one key in a sorted list

Entries carry their own key and stand in strictly increasing order of it.

* `find?_eq_some_iff` — a search that fits one key only finds every such entry.
* `splice_find?` — **splicing the entry found back in gives the list**; `length_splice`.
-/

universe u v

namespace Splice

open List Option

variable {α : Type u} {κ : Type v} [LinearOrder κ] {f : α → κ} {k : κ} {xs : List α} {x : Option α}

/-- The list with the entry of key `k` replaced by `x`. -/
def splice (f : α → κ) (k : κ) (x : Option α) (xs : List α) : List α :=
  xs.filter (fun y => f y < k) ++ x.toList ++ xs.filter fun y => k < f y

theorem mem_splice {y : α} : y ∈ splice f k x xs ↔ y ∈ x ∨ y ∈ xs ∧ f y ≠ k := by
  simp only [splice, mem_append, mem_filter, decide_eq_true_eq, mem_toList, ne_iff_lt_or_gt]
  tauto

section

variable (hs : xs.Pairwise fun a b => f a < f b)
include hs

theorem splice_sorted (hx : ∀ y ∈ x, f y = k) :
    (splice f k x xs).Pairwise fun a b => f a < f b := by
  refine pairwise_append.2 ⟨pairwise_append.2 ⟨hs.filter _, ?_, ?_⟩, hs.filter _, ?_⟩
  · cases x <;> simp
  · intro a ha b hb
    rw [hx b (mem_toList.1 hb)]
    simpa using (mem_filter.1 ha).2
  · intro a ha b hb
    have hkb : k < f b := by simpa using (mem_filter.1 hb).2
    rcases mem_append.1 ha with ha | ha
    · exact lt_trans (by simpa using (mem_filter.1 ha).2) hkb
    · rwa [hx a (mem_toList.1 ha)]

theorem filter_eq_toList_find? {p : α → Bool}
    (hp : ∀ a b, p a → p b → f a = f b) : xs.filter p = (xs.find? p).toList := by
  induction xs with
  | nil => rfl
  | cons a xs ih =>
    obtain ⟨hf, hs⟩ := pairwise_cons.1 hs
    rw [filter_cons, find?_cons]
    cases ha : p a with
    | true =>
      have hn : xs.filter p = [] :=
        filter_eq_nil_iff.2 fun b hb hpb => absurd (hp a b ha hpb) (ne_of_lt (hf b hb))
      rw [if_pos rfl, hn]
      rfl
    | false =>
      rw [if_neg (by simp), ih hs]

theorem find?_eq_some_iff {p : α → Bool}
    (hp : ∀ a b, p a → p b → f a = f b) {y : α} : xs.find? p = some y ↔ y ∈ xs ∧ p y = true := by
  rw [← mem_filter, filter_eq_toList_find? hs hp, mem_toList]

theorem find?_key_eq_some_iff {y : α} :
    xs.find? (fun a => f a == k) = some y ↔ y ∈ xs ∧ f y = k := by
  rw [find?_eq_some_iff hs, beq_iff_eq]
  intro a b ha hb
  rw [beq_iff_eq.1 ha, beq_iff_eq.1 hb]

/-- **Splicing the entry found back in gives the list.** -/
theorem splice_find? : splice f k (xs.find? fun a => f a == k) xs = xs := by
  have hx := fun y => find?_key_eq_some_iff hs (k := k) (y := y)
  have hn : Std.Irrefl fun a b => f a < f b := ⟨fun a => lt_irrefl (f a)⟩
  refine (splice_sorted hs fun y hy => ((hx y).1 hy).2).eq_of_mem_iff hs fun y => ?_
  rw [mem_splice, mem_def, hx]
  tauto

theorem length_splice : (splice f k x xs).length + (xs.find? fun a => f a == k).toList.length =
      xs.length + x.toList.length := by
  have hse := congrArg List.length (splice_find? (k := k) hs)
  simp only [splice, length_append] at hse ⊢
  omega

end

end Splice
