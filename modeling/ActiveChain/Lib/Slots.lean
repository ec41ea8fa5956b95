import Mathlib.Algebra.Order.Ring.Nat
import Mathlib.Data.List.Perm.Basic

/-!
# Values in a row of slots

* `held_set` — **changing one slot exchanges what it held.**
-/

universe u v

variable {α : Type u} {β : Type v} {f : α → Option β} {slots : List (Option α)}

/-- What the filled slots hold, in order. -/
def held (f : α → Option β) (slots : List (Option α)) : List β := slots.filterMap (·.bind f)

theorem held_cons (slot : Option α) (slots : List (Option α)) :
    held f (slot :: slots) = (slot.bind f).toList ++ held f slots := by
  rw [held, List.filterMap_cons]
  cases slot.bind f <;> rfl

theorem held_append (first second : List (Option α)) :
    held f (first ++ second) = held f first ++ held f second := List.filterMap_append

theorem held_map_some (vs : List α) : held f (vs.map some) = vs.filterMap f := by
  rw [held, List.filterMap_map]
  rfl

theorem held_replicate_none (n : Nat) : held f (List.replicate n none) = [] := by
  induction n with
  | zero => rfl
  | succ n ih => rw [List.replicate_succ, held_cons, ih]; rfl

theorem mem_held {b : β} :
    b ∈ held f slots ↔ ∃ (i : Nat) (a : α), slots[i]? = some (some a) ∧ f a = some b := by
  rw [held, List.mem_filterMap]
  constructor
  · rintro ⟨slot, hs, hb⟩
    obtain ⟨i, hi⟩ := List.mem_iff_getElem?.1 hs
    obtain ⟨a, rfl, ha⟩ := Option.bind_eq_some_iff.1 hb
    exact ⟨i, a, hi, ha⟩
  · rintro ⟨i, a, hi, ha⟩
    exact ⟨some a, List.mem_iff_getElem?.2 ⟨i, hi⟩, ha⟩

theorem held_set {i : Nat} {old : Option α} (new : Option α) (h : slots[i]? = some old) :
    (held f (slots.set i new) ++ (old.bind f).toList).Perm
      (held f slots ++ (new.bind f).toList) := by
  induction slots generalizing i with
  | nil => simp at h
  | cons slot slots ih =>
    cases i with
    | zero =>
      obtain rfl : slot = old := by simpa using h
      rw [List.set_cons_zero, held_cons, held_cons, List.append_assoc, List.append_assoc]
      refine List.perm_append_comm.trans ?_
      rw [← List.append_assoc]
      exact List.perm_append_comm.append_right _
    | succ i =>
      rw [List.set_cons_succ, held_cons, held_cons, List.append_assoc, List.append_assoc]
      exact (ih (by simpa using h)).append_left _
