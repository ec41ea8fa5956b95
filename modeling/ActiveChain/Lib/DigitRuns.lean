import Mathlib.Algebra.Order.Ring.Nat
import Mathlib.Data.List.Basic

/-!
# Sorted keys split by their next digit

Numbers are read as digits of base `b`, the digit at height `h` standing before `b ^ h`.  A sorted
list of keys that agree above height `h` falls apart into consecutive runs, one for each value of
the digit at `h`.

* `digit`, `Shared` — one digit, and agreement from a height upwards; `shared_iff_succ`.
* `scan_eq_filter` — a scan over a partitioned list.
* `runs_eq_filter` — **on a list in digit order the runs are the filters.**
-/

universe u

namespace DigitRuns

open List

def digit (b h key : Nat) : Nat := key / b ^ h % b

/-- The keys agree in all digits from height `h` upwards. -/
def Shared (b h key key' : Nat) : Prop := key / b ^ h = key' / b ^ h

variable {b h key key' : Nat}

theorem div_pow_split (b h key : Nat) : key / b ^ h = b * (key / b ^ (h + 1)) + digit b h key := by
  rw [digit, Nat.pow_succ, ← Nat.div_div_eq_div_mul, Nat.div_add_mod]

theorem shared_iff_succ :
    Shared b h key key' ↔ Shared b (h + 1) key key' ∧ digit b h key = digit b h key' := by
  constructor
  · intro hs
    refine ⟨?_, congrArg (· % b) hs⟩
    rw [Shared, Nat.pow_succ, ← Nat.div_div_eq_div_mul, ← Nat.div_div_eq_div_mul, hs]
  · rintro ⟨hs, hd⟩
    rw [Shared, div_pow_split b h key, div_pow_split b h key', hs, hd]

theorem shared_zero : Shared b 0 key key' ↔ key = key' := by
  rw [Shared, Nat.pow_zero, Nat.div_one, Nat.div_one]

theorem shared_of_lt (hlt : key < b ^ h) (hlt' : key' < b ^ h) : Shared b h key key' := by
  rw [Shared, Nat.div_eq_of_lt hlt, Nat.div_eq_of_lt hlt']

theorem digit_le_digit (hs : Shared b (h + 1) key key') (hle : key ≤ key') :
    digit b h key ≤ digit b h key' := by
  have hdiv : key / b ^ h ≤ key' / b ^ h := Nat.div_le_div_right hle
  rw [div_pow_split b h key, div_pow_split b h key', hs] at hdiv
  exact Nat.le_of_add_le_add_left hdiv

section Runs

variable {α : Type u} {f : α → Nat}

/-- The list cut into runs: for each value in turn, what still stands at the front with it. -/
def runs (f : α → Nat) : List Nat → List α → List (List α)
  | [], _ => []
  | c :: cs, xs =>
    xs.takeWhile (fun x => f x == c) :: runs f cs (xs.dropWhile fun x => f x == c)

theorem scan_eq_filter {p : α → Bool} {xs : List α} (h : xs.Pairwise fun x y => p y → p x) :
    xs.takeWhile p = xs.filter p ∧ xs.dropWhile p = xs.filter fun x => !p x := by
  induction xs with
  | nil => exact ⟨rfl, rfl⟩
  | cons x xs ih =>
    obtain ⟨hf, hr⟩ := pairwise_cons.1 h
    cases hx : p x with
    | true =>
      obtain ⟨ht, hd⟩ := ih hr
      simp [hx, ht, hd]
    | false =>
      have hl : ∀ y ∈ x :: xs, p y = false :=
        forall_mem_cons.2 ⟨hx, fun y hy => Bool.eq_false_iff.2 (mt (hf y hy) (by simp [hx]))⟩
      rw [filter_eq_nil_iff.2 (by simpa using hl), filter_eq_self.2 (by simpa using hl)]
      simp [hx]

/-- In a list in order from `c` on, the entries at `c` stand in front. -/
theorem takeWhile_dropWhile_eq_filter {c : Nat} {xs : List α}
    (hs : xs.Pairwise fun x y => f x ≤ f y) (hmin : ∀ x ∈ xs, c ≤ f x) :
    xs.takeWhile (fun x => f x == c) = xs.filter (fun x => f x == c) ∧
      xs.dropWhile (fun x => f x == c) = xs.filter fun x => c + 1 ≤ f x := by
  have hf : xs.Pairwise fun x y => (f y == c) = true → (f x == c) = true := by
    refine hs.imp_of_mem fun {x y} hx _ hle hy => ?_
    have := hmin x hx
    have := beq_iff_eq.1 hy
    exact beq_iff_eq.2 (by omega)
  obtain ⟨ht, hd⟩ := scan_eq_filter hf
  refine ⟨ht, hd.trans (filter_congr fun x hx => ?_)⟩
  have := hmin x hx
  by_cases heq : f x = c
  · simp [heq]
  · simp [heq, show c + 1 ≤ f x by omega]

theorem runs_eq_filter (n : Nat) : ∀ {c : Nat} {xs : List α},
    xs.Pairwise (fun x y => f x ≤ f y) → (∀ x ∈ xs, c ≤ f x) →
    runs f (range' c n) xs = (range' c n).map fun i => xs.filter fun x => f x == i := by
  induction n with
  | zero => simp [runs]
  | succ n ih =>
    intro c xs hs hmin
    obtain ⟨ht, hd⟩ := takeWhile_dropWhile_eq_filter hs hmin
    rw [range'_succ, runs, ht, hd, ih (hs.filter _) (by simp), map_cons]
    refine congrArg _ (map_congr_left fun i hi => ?_)
    have hci : c + 1 ≤ i := by
      simp only [mem_range'_1] at hi
      exact hi.1
    rw [filter_filter]
    refine filter_congr fun x _ => ?_
    by_cases hx : f x = i
    · simp [hx, hci]
    · simp [hx]

end Runs

end DigitRuns
