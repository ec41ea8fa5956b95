import Mathlib.Algebra.Order.Ring.Nat
import Mathlib.Data.List.Induction
import Mathlib.Data.Nat.Bitwise

/-!
# Numbers as bytes

* `beBytes_fromBe`, `fromBe_beBytes` — the two are inverse on the numbers that fit.
* `lebBytes_append_eq_cons` — the first byte tells how the code goes on.
-/

/-- `w` bytes of a number, most significant first. -/
def beBytes : Nat → Nat → List UInt8
  | 0, _ => []
  | w + 1, n => beBytes w (n / 256) ++ [UInt8.ofNat n]

/-- The number behind bytes, most significant first. -/
def fromBe (bytes : List UInt8) : Nat := bytes.foldl (fun n byte => n * 256 + byte.toNat) 0

section BigEndian

@[simp] theorem length_beBytes (w : Nat) : ∀ n, (beBytes w n).length = w := by
  induction w with
  | zero => intro n; rfl
  | succ w ih => simp [beBytes, ih]

theorem fromBe_concat (bytes : List UInt8) (byte : UInt8) :
    fromBe (bytes ++ [byte]) = fromBe bytes * 256 + byte.toNat := by
  simp [fromBe]

theorem fromBe_lt (bytes : List UInt8) : fromBe bytes < 256 ^ bytes.length := by
  induction bytes using List.reverseRecOn with
  | nil => simp [fromBe]
  | append_singleton bytes byte ih =>
    have hb := byte.toNat_lt
    rw [fromBe_concat, List.length_append, List.length_singleton, Nat.pow_succ]
    omega

theorem fromBe_beBytes (w : Nat) : ∀ {n : Nat}, n < 256 ^ w → fromBe (beBytes w n) = n := by
  induction w with
  | zero =>
    intro n h
    simp [beBytes, fromBe] at h ⊢
    omega
  | succ w ih =>
    intro n h
    have hq : n / 256 < 256 ^ w := by
      rw [Nat.div_lt_iff_lt_mul (by decide)]
      rwa [Nat.pow_succ] at h
    rw [beBytes, fromBe_concat, ih hq, UInt8.toNat_ofNat']
    omega

theorem beBytes_fromBe (bytes : List UInt8) : beBytes bytes.length (fromBe bytes) = bytes := by
  induction bytes using List.reverseRecOn with
  | nil => rfl
  | append_singleton bytes byte ih =>
    have hb := byte.toNat_lt
    have hl : UInt8.ofNat (fromBe bytes * 256 + byte.toNat) = byte := by
      apply UInt8.toNat_inj.1
      rw [UInt8.toNat_ofNat']
      omega
    rw [fromBe_concat, List.length_append, List.length_singleton, beBytes, hl,
      show (fromBe bytes * 256 + byte.toNat) / 256 = fromBe bytes by omega, ih]

-- unification should not spell out the bytes of a number
attribute [irreducible] beBytes

end BigEndian

/-! ## Seven bits per byte -/

/-- The minimal little-endian base-128 code. -/
def lebBytes (n : Nat) : List UInt8 :=
  if n < 128 then [UInt8.ofNat n] else UInt8.ofNat (n % 128 + 128) :: lebBytes (n / 128)
termination_by n

/-- The number of bytes of the code. -/
def lebWidth (n : Nat) : Nat := if n < 128 then 1 else lebWidth (n / 128) + 1
termination_by n

section Leb

theorem lebBytes_of_lt {n : Nat} (h : n < 128) : lebBytes n = [UInt8.ofNat n] := by
  rw [lebBytes, if_pos h]

theorem lebBytes_of_le {n : Nat} (h : 128 ≤ n) :
    lebBytes n = UInt8.ofNat (n % 128 + 128) :: lebBytes (n / 128) := by
  rw [lebBytes, if_neg (by omega)]

theorem length_lebBytes (n : Nat) : (lebBytes n).length = lebWidth n := by
  fun_induction lebBytes n with
  | case1 n h => rw [lebWidth, if_pos h]; rfl
  | case2 n h ih => rw [lebWidth, if_neg h, List.length_cons, ih]

theorem lebBytes_append_eq_cons {n : Nat} {byte : UInt8} {rest tail : List UInt8} :
    lebBytes n ++ rest = byte :: tail ↔
      (byte.toNat < 128 ∧ n = byte.toNat ∧ rest = tail) ∨
      (128 ≤ byte.toNat ∧ 128 ≤ n ∧ n % 128 = byte.toNat % 128 ∧
        lebBytes (n / 128) ++ rest = tail) := by
  have hb := byte.toNat_lt
  by_cases hn : n < 128
  · have heq : UInt8.ofNat n = byte ↔ n = byte.toNat := by
      rw [← UInt8.toNat_inj, UInt8.toNat_ofNat', Nat.mod_eq_of_lt (by omega)]
    rw [lebBytes_of_lt hn, List.singleton_append, List.cons.injEq, heq]
    grind
  · have heq : UInt8.ofNat (n % 128 + 128) = byte ↔
        128 ≤ byte.toNat ∧ n % 128 = byte.toNat % 128 := by
      rw [← UInt8.toNat_inj, UInt8.toNat_ofNat', Nat.mod_eq_of_lt (by omega)]
      omega
    rw [lebBytes_of_le (by omega), List.cons_append, List.cons.injEq, heq]
    grind

theorem lebWidth_pos (n : Nat) : 0 < lebWidth n := by
  rw [lebWidth]
  split <;> omega

theorem lebBytes_ne_nil (n : Nat) : lebBytes n ≠ [] := by
  rw [← List.length_pos_iff, length_lebBytes]
  exact lebWidth_pos n

theorem lebWidth_le_iff (k : Nat) : ∀ {n : Nat}, lebWidth n ≤ k + 1 ↔ n < 128 ^ (k + 1) := by
  induction k with
  | zero =>
    intro n
    have hpos := lebWidth_pos (n / 128)
    rw [lebWidth]
    split_ifs with h <;> simp <;> omega
  | succ k ih =>
    intro n
    have hpos : 0 < 128 ^ (k + 1) := Nat.pow_pos (by decide)
    rw [lebWidth, Nat.pow_succ]
    split_ifs with h
    · constructor <;> intro <;> omega
    · rw [Nat.add_le_add_iff_right, ih, Nat.div_lt_iff_lt_mul (by decide)]

theorem lebWidth_eq_iff (k : Nat) {n : Nat} :
    lebWidth n = k + 1 ↔ n < 128 ^ (k + 1) ∧ (k = 0 ∨ 128 ^ k ≤ n) := by
  have hpos := lebWidth_pos n
  rw [← lebWidth_le_iff]
  cases k with
  | zero => omega
  | succ k =>
    have hle := lebWidth_le_iff k (n := n)
    omega

end Leb
