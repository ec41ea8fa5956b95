import Mathlib.Algebra.Order.Ring.Nat
import Mathlib.Data.List.Basic

/-!
# Self-delimiting codes

An encoding is self-delimiting when a reader that knows only where a code word starts can tell
where it ends.  Words of such a code may be concatenated without losing anything.

* `SelfDelimiting.of_length`, `SelfDelimiting.cons_length` — fixed-length words, and words behind
  their length.
* `SelfDelimiting.flatMap_injective`, `SelfDelimiting.flatMap_append_inj` — a concatenation of words
  determines the list of words, and so does its start when the number of words is known.
-/

universe u v

variable {α : Type u} {β : Type v}

/-- From a stream that starts with a word of `f`, the word and the rest can be read back. -/
def SelfDelimiting (f : α → List β) : Prop := ∀ a b s t, f a ++ s = f b ++ t → a = b ∧ s = t

namespace SelfDelimiting

open Function

variable {f : α → List β}

theorem of_length (n : Nat) (hlen : ∀ a, (f a).length = n) (hinj : Injective f) :
    SelfDelimiting f := by
  intro a b s t h
  obtain ⟨hw, hr⟩ := List.append_inj h (by rw [hlen, hlen])
  exact ⟨hinj hw, hr⟩

theorem cons_length (len : Nat → β) (hlen : Injective len)
    (hinj : Injective f) : SelfDelimiting (fun a => len (f a).length :: f a) := by
  intro a b s t h
  obtain ⟨hh, ht⟩ := List.cons.inj h
  obtain ⟨hw, hr⟩ := List.append_inj ht (hlen hh)
  exact ⟨hinj hw, hr⟩

/-- **A concatenation of nonempty words determines the words.** -/
theorem flatMap_injective (h : SelfDelimiting f) (hne : ∀ a, f a ≠ []) :
    Injective (List.flatMap f) := by
  intro xs
  induction xs with
  | nil =>
    intro ys heq
    cases ys with
    | nil => rfl
    | cons y ys =>
      exact absurd (List.append_eq_nil_iff.1 heq.symm).1 (hne y)
  | cons x xs ih =>
    intro ys heq
    cases ys with
    | nil =>
      exact absurd (List.append_eq_nil_iff.1 heq).1 (hne x)
    | cons y ys =>
      obtain ⟨rfl, hr⟩ := h x y _ _ heq
      rw [ih hr]

theorem flatMap_append_inj (h : SelfDelimiting f) {xs ys : List α} {s t : List β}
    (hl : xs.length = ys.length) (heq : xs.flatMap f ++ s = ys.flatMap f ++ t) :
    xs = ys ∧ s = t := by
  induction xs generalizing ys with
  | nil =>
    cases List.length_eq_zero_iff.1 hl.symm
    exact ⟨rfl, heq⟩
  | cons x xs ih =>
    obtain ⟨y, ys, rfl⟩ := List.exists_cons_of_length_eq_add_one hl.symm
    rw [List.flatMap_cons, List.flatMap_cons, List.append_assoc, List.append_assoc] at heq
    obtain ⟨rfl, hr⟩ := h x y _ _ heq
    obtain ⟨rfl, ht⟩ := ih (Nat.succ.inj hl) hr
    exact ⟨rfl, ht⟩

end SelfDelimiting
