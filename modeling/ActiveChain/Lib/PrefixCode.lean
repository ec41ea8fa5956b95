import Mathlib.Algebra.Order.Ring.Nat
import Mathlib.Order.Nat

/-!
# Lists of numbers as one number

An injective code that evaluates by arithmetic alone, so that large codes stay cheap to compute.
A number is written behind the class of its width, so it can be read back from the low end.

* `push`, `push_inj` — one number in front of a code.
* `natCode`, `natCode_injective` — a whole list.
-/

namespace PrefixCode

open Nat

/-- A width class of `n`: the least of a few small classes that fits, or `n` itself. -/
def width (n : Nat) : Nat :=
  ([2, 3, 5, 7, 9, 10, 11, 12, 13, 14, 15, 16, 17, 18, 19, 20].find?
    fun i => decide (n < 2 ^ 2 ^ i)).getD n

theorem lt_width (n : Nat) : n < 2 ^ 2 ^ width n := by
  unfold width
  cases h : List.find? (fun i => decide (n < 2 ^ 2 ^ i)) _ with
  | some i =>
    have hi := List.find?_some h
    exact of_decide_eq_true hi
  | none => exact Nat.lt_trans Nat.lt_two_pow_self Nat.lt_two_pow_self

/-- `n` in front of a code: its class in the number of trailing zeros, then the class-wide digit. -/
def push (n rest : Nat) : Nat := 2 ^ width n * (2 * (rest * 2 ^ 2 ^ width n + n) + 1)

theorem push_ne_zero (n rest : Nat) : push n rest ≠ 0 :=
  Nat.mul_ne_zero (Nat.two_pow_pos _).ne' (Nat.succ_ne_zero _)

theorem two_pow_mul_odd_inj {i j a b : Nat} (h : 2 ^ i * (2 * a + 1) = 2 ^ j * (2 * b + 1)) :
    i = j ∧ a = b := by
  -- one factor of two at a time: only a zero exponent leaves an odd number
  induction i generalizing j with
  | zero =>
    cases j with
    | zero => exact ⟨rfl, by omega⟩
    | succ j =>
      rw [pow_succ, mul_right_comm] at h
      omega
  | succ i ih =>
    cases j with
    | zero =>
      rw [pow_succ, mul_right_comm] at h
      omega
    | succ j =>
      rw [pow_succ, pow_succ, mul_right_comm, mul_right_comm (2 ^ j)] at h
      obtain ⟨rfl, rfl⟩ := ih (eq_of_mul_eq_mul_right (by omega) h)
      exact ⟨rfl, rfl⟩

/-- **The first number and the rest can be read back.** -/
theorem push_inj {n n' rest rest' : Nat} (h : push n rest = push n' rest') :
    n = n' ∧ rest = rest' := by
  obtain ⟨hw, hb⟩ := two_pow_mul_odd_inj h
  have hn := lt_width n
  have hn' := lt_width n'
  rw [hw] at hb hn
  have hpos : 0 < 2 ^ 2 ^ width n' := Nat.two_pow_pos _
  have hdiv := congrArg (· / 2 ^ 2 ^ width n') hb
  have hmod := congrArg (· % 2 ^ 2 ^ width n') hb
  simp only [add_comm (_ * _), add_mul_div_right _ _ hpos, div_eq_of_lt hn, div_eq_of_lt hn',
    zero_add, add_mul_mod_self_right, mod_eq_of_lt hn, mod_eq_of_lt hn'] at hdiv hmod
  exact ⟨hmod, hdiv⟩

/-! ## Repeated numbers -/

variable (seen : List Nat) (x : Nat)

/-- One number of a list: a large one that was seen before is written as a reference to it. -/
def refer : Nat :=
  if x < 2 ^ 64 then 2 * x + 1
  else match seen.findIdx? (fun y => decide (y = x)) with
    | some i => 2 * i
    | none => 2 * x + 1

theorem refer_cases : refer seen x = 2 * x + 1 ∨ ∃ i, refer seen x = 2 * i ∧ seen[i]? = some x := by
  unfold refer
  split
  · exact .inl rfl
  · split
    · rename_i i hi
      obtain ⟨hlt, hx, -⟩ := List.findIdx?_eq_some_iff_getElem.1 hi
      exact .inr ⟨i, rfl, by rw [List.getElem?_eq_getElem hlt, of_decide_eq_true hx]⟩
    · exact .inl rfl

theorem refer_injective : Function.Injective (refer seen) := by
  intro x y h
  -- a reference is even, a number written out is odd
  rcases refer_cases seen x with hx | ⟨i, hx, hi⟩ <;>
    rcases refer_cases seen y with hy | ⟨j, hy, hj⟩
  · omega
  · omega
  · omega
  · obtain rfl : i = j := by omega
    exact Option.some.inj (hi.symm.trans hj)

/-- The list with references for the large numbers it repeats. -/
def compress (seen : List Nat) : List Nat → List Nat
  | [] => []
  | x :: xs => refer seen x :: compress (if x < 2 ^ 64 then seen else x :: seen) xs

theorem compress_injective (xs : List Nat) :
    ∀ seen (ys : List Nat), compress seen xs = compress seen ys → xs = ys := by
  induction xs with
  | nil =>
    intro seen ys h
    cases ys with
    | nil => rfl
    | cons y ys => cases h
  | cons x xs ih =>
    intro seen ys h
    cases ys with
    | nil => cases h
    | cons y ys =>
      obtain ⟨hh, ht⟩ := List.cons.inj h
      obtain rfl := refer_injective seen hh
      rw [ih _ ys ht]

/-! ## The code -/

def natCode (xs : List Nat) : Nat := (compress [] xs).foldr push 0

theorem foldr_push_injective : Function.Injective (fun xs : List Nat => xs.foldr push 0) := by
  intro xs
  induction xs with
  | nil =>
    intro ys h
    cases ys with
    | nil => rfl
    | cons y ys => exact absurd h.symm (push_ne_zero y (ys.foldr push 0))
  | cons x xs ih =>
    intro ys h
    cases ys with
    | nil => exact absurd h (push_ne_zero x (xs.foldr push 0))
    | cons y ys =>
      obtain ⟨rfl, hr⟩ :=
        push_inj (show push x (xs.foldr push 0) = push y (ys.foldr push 0) from h)
      rw [ih hr]

/-- **The code determines the list.** -/
theorem natCode_injective : Function.Injective natCode := by
  intro xs ys h
  exact compress_injective xs [] ys (foldr_push_injective h)

end PrefixCode
