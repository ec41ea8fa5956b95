import Mathlib.Algebra.Order.Ring.Nat
import Mathlib.Data.List.Nodup

/-!
# Counters that give out their values in order

A family of counters, one per key; a key may have none yet.  Code that demands the current value of
a counter and then advances it by one gives out every value once.

* `Issues.refl`, `Issues.created`, `Issues.taken`, `Issues.trans` — the steps, and how runs compose.
* `Issues.nodup` — **no key gives out a value twice.**
* `Issues.consecutive` — **the values of a key follow each other without a gap.**
-/

universe u

section Counters

variable {κ : Type u} [DecidableEq κ]

/-- The values that a log records at one key, in order. -/
def valuesAt (k : κ) (used : List (κ × Nat)) : List Nat :=
  (used.filter fun e => e.1 = k).map Prod.snd

theorem valuesAt_append (k : κ) (used used' : List (κ × Nat)) :
    valuesAt k (used ++ used') = valuesAt k used ++ valuesAt k used' := by
  simp [valuesAt]

theorem valuesAt_singleton (k k' : κ) (n : Nat) :
    valuesAt k [(k', n)] = if k' = k then [n] else [] := by
  by_cases h : k' = k <;> simp [valuesAt, h]

/-- Between the counters `f` and `f'`, the log records at each key the values from `f` up to `f'`.
A key without a counter gives out nothing until it gets one, and keeps the one it has. -/
def Issues (f f' : κ → Option Nat) (used : List (κ × Nat)) : Prop :=
  ∀ k, ∃ start, valuesAt k used = List.range' start (valuesAt k used).length ∧
    (∀ n, f k = some n → n = start) ∧
    (∀ n, f' k = some n → n = start + (valuesAt k used).length) ∧
    (f' k = none → f k = none ∧ valuesAt k used = [])

namespace Issues

variable {f f' f'' : κ → Option Nat} {used used' : List (κ × Nat)}

theorem created (h : ∀ k n, f k = some n → f' k = some n) : Issues f f' [] := by
  intro k
  refine ⟨(f' k).getD 0, rfl, ?_, ?_, ?_⟩
  · intro n hn
    rw [h k n hn]
    rfl
  · intro n hn
    rw [hn]
    rfl
  · intro hno
    refine ⟨Option.eq_none_iff_forall_ne_some.2 fun n hn => ?_, rfl⟩
    rw [h k n hn] at hno
    cases hno

theorem refl (f : κ → Option Nat) : Issues f f [] := created fun _ _ h => h

theorem taken {k : κ} {n : Nat} (hk : f k = some n) (hk' : f' k = some (n + 1))
    (ho : ∀ k', k' ≠ k → f' k' = f k') : Issues f f' [(k, n)] := by
  intro k'
  rw [valuesAt_singleton]
  by_cases heq : k = k'
  · subst heq
    refine ⟨n, ?_, ?_, ?_, ?_⟩
    · simp
    · intro m hm
      exact Option.some.inj (hm.symm.trans hk)
    · intro m hm
      simpa using Option.some.inj (hm.symm.trans hk')
    · intro hn
      rw [hk'] at hn
      cases hn
  · rw [if_neg heq, ho k' (Ne.symm heq)]
    exact refl f k'

theorem trans (h : Issues f f' used) (h' : Issues f' f'' used') : Issues f f'' (used ++ used') := by
  intro k
  obtain ⟨start, hv, hfr, hto, hno⟩ := h k
  obtain ⟨start', hv', hf', hto', hn'⟩ := h' k
  rw [valuesAt_append]
  cases hmid : f' k with
  | none =>
    -- nothing was given out before, so the second part decides
    obtain ⟨hf, he⟩ := hno hmid
    rw [he, List.nil_append]
    refine ⟨start', hv', ?_, hto', fun hend => ⟨hf, (hn' hend).2⟩⟩
    intro n hn
    rw [hf] at hn
    cases hn
  | some n =>
    have hs : start' = start + (valuesAt k used).length := (hf' n hmid).symm.trans (hto n hmid)
    refine ⟨start, ?_, hfr, ?_, ?_⟩
    · rw [List.length_append, ← List.range'_append_1, ← hs, ← hv, ← hv']
    · intro m hm
      rw [List.length_append, hto' m hm, hs, Nat.add_assoc]
    · intro hend
      rw [(hn' hend).1] at hmid
      cases hmid

theorem consecutive (h : Issues f f' used) (k : κ) :
    ∃ start, valuesAt k used = List.range' start (valuesAt k used).length := by
  obtain ⟨start, hv, -⟩ := h k
  exact ⟨start, hv⟩

theorem nodup (h : Issues f f' used) : used.Nodup := by
  rw [List.nodup_iff_count_le_one]
  rintro ⟨k, n⟩
  obtain ⟨start, hv⟩ := h.consecutive k
  have hf : (used.filter fun e => e.1 = k).Nodup := by
    refine List.Nodup.of_map Prod.snd ?_
    change (valuesAt k used).Nodup
    rw [hv]
    exact List.nodup_range'
  have hc : (used.filter fun e => e.1 = k).count (k, n) = used.count (k, n) :=
    List.count_filter (by simp)
  rw [← hc]
  exact List.nodup_iff_count_le_one.1 hf (k, n)

end Issues

end Counters
