import Mathlib.Algebra.Order.Ring.Nat
import Mathlib.Data.Nat.Bitwise

/-!
# Numbers of a fixed width as bit paths

A number below `2 ^ w` is read as a path of `w` bits, most significant bit first.

* `bit`, `toggle`, `clear`, `set` — one bit, counted from the top.
* `pathTo`, `ofPath` — the first bits of a number, and the number of a path.
* `Aligned.eq_of_pathTo` — **a node is determined by its path.**
-/

namespace BitPath

open List Nat

variable {w : Nat}

section

variable (w key depth : Nat)

def bit : Bool := key.testBit (w - 1 - depth)

def toggle : Nat := key ^^^ 2 ^ (w - 1 - depth)

def clear : Nat := key &&& ((2 ^ w - 1) ^^^ 2 ^ (w - 1 - depth))

def set : Nat := key ||| 2 ^ (w - 1 - depth)

end

def pathTo (w key d : Nat) : List Bool := (List.range d).map (bit w key)

def ofPath (w : Nat) (path : List Bool) : Nat :=
  Nat.ofBits fun i : Fin w => path.getD (w - 1 - i) false

def Fits (w key : Nat) : Prop := key < 2 ^ w
deriving Decidable

/-- Only the first `d` bits may be set. -/
def Aligned (w d key : Nat) : Prop := Fits w key ∧ ∀ i, d ≤ i → i < w → bit w key i = false

section Bits

variable {key key' d i : Nat}

section

variable (hd : d < w) (hi : i < w)
include hd hi

theorem bit_toggle : bit w (toggle w key d) i = (bit w key i ^^ decide (i = d)) := by
  have hpos : (w - 1 - d = w - 1 - i) ↔ i = d := by omega
  simp [bit, toggle, testBit_two_pow, hpos]

theorem bit_clear : bit w (clear w key d) i = (bit w key i && decide (i ≠ d)) := by
  have hpos : (w - 1 - d = w - 1 - i) ↔ i = d := by omega
  have hin : w - 1 - i < w := by omega
  simp [bit, clear, testBit_two_pow, hpos, hin]

theorem bit_set : bit w (set w key d) i = (bit w key i || decide (i = d)) := by
  have hpos : (w - 1 - d = w - 1 - i) ↔ i = d := by omega
  simp [bit, set, testBit_two_pow, hpos]

end

theorem fits_toggle (hd : d < w) (h : Fits w key) : Fits w (toggle w key d) :=
  xor_lt_two_pow h (Nat.pow_lt_pow_right (by omega) (by omega))

theorem fits_clear (h : Fits w key) : Fits w (clear w key d) :=
  lt_of_le_of_lt and_le_left h

theorem fits_set (hd : d < w) (h : Fits w key) : Fits w (set w key d) :=
  or_lt_two_pow h (Nat.pow_lt_pow_right (by omega) (by omega))

theorem eq_of_bit_eq (h : Fits w key) (h' : Fits w key')
    (hbit : ∀ i < w, bit w key i = bit w key' i) : key = key' := by
  refine eq_of_testBit_eq fun i => ?_
  by_cases hi : i < w
  · have := hbit (w - 1 - i) (by omega)
    rwa [bit, bit, show w - 1 - (w - 1 - i) = i by omega] at this
  · have hpow : 2 ^ w ≤ 2 ^ i := Nat.pow_le_pow_right (by omega) (by omega)
    rw [testBit_lt_two_pow (Nat.lt_of_lt_of_le h hpow),
      testBit_lt_two_pow (Nat.lt_of_lt_of_le h' hpow)]

end Bits

section Paths

variable {key key' d i : Nat} {path : List Bool}

@[simp] theorem length_pathTo : (pathTo w key d).length = d := by
  simp [pathTo]

theorem pathTo_zero : pathTo w key 0 = [] := rfl

theorem pathTo_succ : pathTo w key (d + 1) = pathTo w key d ++ [bit w key d] := by
  simp [pathTo, range_succ]

theorem getD_pathTo (hi : i < d) : (pathTo w key d).getD i false = bit w key i := by
  simp [pathTo, hi]

theorem take_pathTo (hi : i ≤ d) : (pathTo w key d).take i = pathTo w key i := by
  simp [pathTo, ← map_take, hi]

theorem pathTo_congr (h : ∀ i < d, bit w key i = bit w key' i) : pathTo w key d = pathTo w key' d :=
  map_congr_left fun i hi => h i (mem_range.1 hi)

theorem bit_of_pathTo (h : pathTo w key d = pathTo w key' d) (hi : i < d) :
    bit w key i = bit w key' i := by
  rw [← getD_pathTo hi, h, getD_pathTo hi]

theorem bit_ofPath (hi : i < w) : bit w (ofPath w path) i = path.getD i false := by
  have hin : w - 1 - i < w := by omega
  rw [bit, ofPath, testBit_ofBits_lt _ _ hin, show w - 1 - (w - 1 - i) = i by omega]

theorem pathTo_ofPath (h : path.length = w) : pathTo w (ofPath w path) w = path := by
  refine ext_getElem (by simp [h]) fun i hi _ => ?_
  rw [length_pathTo] at hi
  simp [pathTo, bit_ofPath hi, h, hi]

theorem ofPath_pathTo (h : Fits w key) : ofPath w (pathTo w key w) = key :=
  eq_of_bit_eq (ofBits_lt_two_pow _) h fun i hi => by rw [bit_ofPath hi, getD_pathTo hi]

theorem bit_of_lt (hd : d < w) (h : Fits w key) (h' : Fits w key')
    (hp : pathTo w key d = pathTo w key' d) (hlt : key < key') (hbit : bit w key d = true) :
    bit w key' d = true := by
  by_contra hc
  refine absurd (lt_of_testBit (w - 1 - d) (Bool.not_eq_true _ ▸ hc) hbit fun j hj => ?_)
    (Nat.lt_asymm hlt)
  by_cases hw : j < w
  · have hs := bit_of_pathTo hp (show w - 1 - j < d by omega)
    rw [bit, bit, show w - 1 - (w - 1 - j) = j by omega] at hs
    exact hs.symm
  · have hpow : 2 ^ w ≤ 2 ^ j := Nat.pow_le_pow_right (by omega) (by omega)
    rw [testBit_lt_two_pow (Nat.lt_of_lt_of_le h hpow),
      testBit_lt_two_pow (Nat.lt_of_lt_of_le h' hpow)]

end Paths

/-! ## Nodes -/

namespace Aligned

variable {key key' d : Nat}

theorem full (h : Fits w key) : Aligned w w key := ⟨h, fun _ hi hw => by omega⟩

theorem eq_zero (h : Aligned w 0 key) : key = 0 :=
  eq_of_bit_eq h.1 (Nat.two_pow_pos w) fun i hi => by
    rw [h.2 i (by omega) hi, bit, zero_testBit]

theorem zero : Aligned w 0 0 := ⟨Nat.two_pow_pos w, fun _ _ _ => zero_testBit _⟩

theorem succ (h : Aligned w d key) : Aligned w (d + 1) key :=
  ⟨h.1, fun i hi hw => h.2 i (by omega) hw⟩

theorem eq_of_pathTo (h : Aligned w d key) (h' : Aligned w d key')
    (hp : pathTo w key d = pathTo w key' d) : key = key' := by
  refine eq_of_bit_eq h.1 h'.1 fun i hi => ?_
  by_cases hid : i < d
  · exact bit_of_pathTo hp hid
  · rw [h.2 i (by omega) hi, h'.2 i (by omega) hi]

theorem clear (hd : d < w) (h : Aligned w (d + 1) key) : Aligned w d (clear w key d) := by
  refine ⟨fits_clear h.1, fun i hi hw => ?_⟩
  rw [bit_clear hd hw]
  by_cases hid : i = d
  · simp [hid]
  · simp [h.2 i (by omega) hw]

theorem set (hd : d < w) (h : Aligned w d key) : Aligned w (d + 1) (set w key d) := by
  refine ⟨fits_set hd h.1, fun i hi hw => ?_⟩
  rw [bit_set hd hw, h.2 i (by omega) hw]
  simp [show i ≠ d by omega]

theorem toggle (hd : d < w) (h : Aligned w (d + 1) key) : Aligned w (d + 1) (toggle w key d) := by
  refine ⟨fits_toggle hd h.1, fun i hi hw => ?_⟩
  rw [bit_toggle hd hw, h.2 i hi hw]
  simp [show i ≠ d by omega]

end Aligned

section Children

variable {key d : Nat} (hd : d < w)
include hd

theorem pathTo_clear : pathTo w (clear w key d) d = pathTo w key d := by
  refine pathTo_congr fun i hi => ?_
  rw [bit_clear hd (by omega)]
  simp [show i ≠ d by omega]

theorem pathTo_left (h : Aligned w d key) : pathTo w key (d + 1) = pathTo w key d ++ [false] := by
  rw [pathTo_succ, h.2 d le_rfl hd]

theorem pathTo_set_above : pathTo w (set w key d) d = pathTo w key d := by
  refine pathTo_congr fun i hi => ?_
  rw [bit_set hd (by omega)]
  simp [show i ≠ d by omega]

theorem pathTo_set : pathTo w (set w key d) (d + 1) = pathTo w key d ++ [true] := by
  rw [pathTo_succ, pathTo_set_above hd, bit_set hd hd]
  simp

theorem pathTo_toggle : pathTo w (toggle w key d) (d + 1) = pathTo w key d ++ [!bit w key d] := by
  rw [pathTo_succ, bit_toggle hd hd]
  congr 1
  · refine pathTo_congr fun i hi => ?_
    rw [bit_toggle hd (by omega)]
    simp [show i ≠ d by omega]
  · simp

theorem clear_of_aligned (h : Aligned w d key) : clear w key d = key := by
  refine (h.succ.clear hd).eq_of_pathTo h ?_
  rw [pathTo_clear hd]

theorem clear_set (h : Aligned w d key) : clear w (set w key d) d = key := by
  refine ((h.set hd).clear hd).eq_of_pathTo h ?_
  rw [pathTo_clear hd, pathTo_set_above hd]

end Children

end BitPath
