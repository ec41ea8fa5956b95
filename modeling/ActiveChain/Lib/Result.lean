import Mathlib.Algebra.Order.Ring.Nat
import Mathlib.Data.List.Forall2

/-!
# Fallible computations and fixed-width arithmetic

The shape of checked code: a sequence of guards, each with its own error, over `Except`.

* `rejectIf`, `okOr` — an early return on a condition or on a missing value.
* `Except.inversion` — what a successful run tells, guard by guard.
* `checkedAdd`, `checkedSub`, `checkedMul`, `fitsIn` — unsigned arithmetic of a given width that
  fails on overflow.
* `maxByKey?` — the last element of greatest key.
-/

universe u v w

section Guards

variable {ε : Type u} {α β : Type v}

def rejectIf (c : Prop) [Decidable c] (e : ε) : Except ε Unit :=
  if c then .error e else .ok ()

def okOr (o : Option α) (e : ε) : Except ε α :=
  match o with
  | some a => .ok a
  | none => .error e

variable {e : ε}

@[simp] theorem rejectIf_eq_ok {c : Prop} [Decidable c] {u : Unit} :
    rejectIf c e = .ok u ↔ ¬ c := by
  unfold rejectIf
  split <;> simp_all

theorem rejectIf_of_not {c : Prop} [Decidable c] (h : ¬ c) : rejectIf c e = .ok () :=
  if_neg h

@[simp] theorem okOr_eq_ok {o : Option α} {a : α} : okOr o e = .ok a ↔ o = some a := by
  cases o <;> simp [okOr]

theorem okOr_some (a : α) (e : ε) : okOr (some a) e = .ok a := rfl

variable {x : Except ε α} {f : α → Except ε β}

theorem Except.bind_eq_ok {b : β} : (x >>= f) = .ok b ↔ ∃ a, x = .ok a ∧ f a = .ok b := by
  cases x <;> simp [bind, Except.bind]

theorem Except.ok_bind (a : α) (f : α → Except ε β) : (Except.ok a >>= f) = f a := rfl

theorem exists_unit {p : Unit → Prop} : (∃ u, p u) ↔ p () :=
  ⟨fun ⟨(), h⟩ => h, fun h => ⟨(), h⟩⟩

theorem Except.exists_snd {σ : Type w} {p : Except ε α × σ} (h : p.1 = x) : ∃ s, p = (x, s) :=
  ⟨p.2, Prod.ext h rfl⟩

@[simp] theorem Except.mapError_eq_ok {ε' : Type u} {g : ε → ε'} {a : α} :
    x.mapError g = .ok a ↔ x = .ok a := by
  cases x <;> simp [Except.mapError]

theorem Except.map_eq_ok {f : α → β} {b : β} : x.map f = .ok b ↔ ∃ a, x = .ok a ∧ f a = b := by
  cases x <;> simp [Except.map]

theorem Except.mem_toOption {a : α} : a ∈ x.toOption ↔ x = .ok a := by
  cases x <;> simp [Except.toOption, eq_comm]

variable {xs : List α} {ys : List β}

theorem Except.mapM_eq_ok : xs.mapM f = .ok ys ↔ List.Forall₂ (fun x y => f x = .ok y) xs ys := by
  induction xs generalizing ys with
  | nil => simp [pure, Except.pure]
  | cons x xs ih =>
    simp only [List.mapM_cons, Except.bind_eq_ok, pure, Except.pure, Except.ok.injEq, ih,
      List.forall₂_cons_left_iff]
    tauto

theorem Except.mem_of_mapM (h : xs.mapM f = .ok ys) {y : β} (hy : y ∈ ys) :
    ∃ x ∈ xs, f x = .ok y := by
  obtain ⟨i, hi, rfl⟩ := List.getElem_of_mem hy
  obtain ⟨hl, hg⟩ := List.forall₂_iff_get.1 (Except.mapM_eq_ok.1 h)
  exact ⟨xs[i], List.getElem_mem _, hg i (hl ▸ hi) hi⟩

theorem Except.forM_eq_ok {g : α → Except ε PUnit} :
    xs.forM g = .ok ⟨⟩ ↔ ∀ x ∈ xs, g x = .ok ⟨⟩ := by
  induction xs with
  | nil => simp [pure, Except.pure]
  | cons x xs ih =>
    show (g x >>= fun _ => xs.forM g) = .ok ⟨⟩ ↔ _
    rw [Except.bind_eq_ok, List.forall_mem_cons, ← ih]
    exact ⟨fun ⟨_, hx, hxs⟩ => ⟨hx, hxs⟩, fun ⟨hx, hxs⟩ => ⟨_, hx, hxs⟩⟩

end Guards

section Errors

variable {ε : Type u} {α β : Type v} {P : ε → Prop}

/-- Every error of the computation satisfies `P`. -/
def Except.FailsWith (P : ε → Prop) (x : Except ε α) : Prop := ∀ e, x = .error e → P e

namespace Except.FailsWith

@[simp] theorem ok (a : α) : (Except.ok a : Except ε α).FailsWith P := by
  intro e h
  cases h

@[simp] theorem pure (a : α) : (Pure.pure a : Except ε α).FailsWith P := ok a

variable {e : ε}

@[simp] theorem error : (Except.error e : Except ε α).FailsWith P ↔ P e := by
  simp [FailsWith]

variable {x : Except ε α}

@[simp] theorem bind {f : α → Except ε β} :
    (x >>= f).FailsWith P ↔ x.FailsWith P ∧ ∀ a, x = .ok a → (f a).FailsWith P := by
  cases x with
  | error e => simp [show (Except.error e >>= f) = .error e from rfl]
  | ok a => simp [show (Except.ok a >>= f) = f a from rfl]

@[simp] theorem map {f : α → β} : (f <$> x).FailsWith P ↔ x.FailsWith P := by
  cases x <;> simp [FailsWith, Functor.map, Except.map]

@[simp] theorem reject {c : Prop} [Decidable c] : (rejectIf c e).FailsWith P ↔ (c → P e) := by
  by_cases hc : c <;> simp [rejectIf, hc]

@[simp] theorem orElse {o : Option α} : (okOr o e).FailsWith P ↔ (o = none → P e) := by
  cases o <;> simp [okOr]

@[simp] theorem mapError {ε' : Type u} {g : ε' → ε} {x : Except ε' α} :
    (x.mapError g).FailsWith P ↔ x.FailsWith fun e => P (g e) := by
  cases x <;> simp [Except.mapError]

@[simp] theorem any (x : Except ε α) : x.FailsWith fun _ => True := fun _ _ => trivial

variable {γ : Type w}

@[simp] theorem forM {f : γ → Except ε PUnit} (h : ∀ x, (f x).FailsWith P) (xs : List γ) :
    (ForM.forM xs f).FailsWith P := by
  induction xs with
  | nil => exact pure _
  | cons x xs ih => exact bind.2 ⟨h x, fun _ _ => ih⟩

@[simp] theorem mapM {f : γ → Except ε α} (h : ∀ x, (f x).FailsWith P) (xs : List γ) :
    (xs.mapM f).FailsWith P := by
  induction xs with
  | nil => exact pure _
  | cons x xs ih =>
    rw [List.mapM_cons]
    exact bind.2 ⟨h x, fun _ _ => bind.2 ⟨ih, fun _ _ => pure _⟩⟩

end Except.FailsWith

end Errors

section Arithmetic

/-- Addition that fails when the sum does not fit in `bits` bits. -/
def checkedAdd (bits a b : Nat) : Option Nat := if a + b < 2 ^ bits then some (a + b) else none

/-- Multiplication that fails when the product does not fit in `bits` bits. -/
def checkedMul (bits a b : Nat) : Option Nat := if a * b < 2 ^ bits then some (a * b) else none

def fitsIn (bits a : Nat) : Option Nat := if a < 2 ^ bits then some a else none

def checkedSub (a b : Nat) : Option Nat := if b ≤ a then some (a - b) else none

variable {bits a b c : Nat}

theorem checkedAdd_eq_some : checkedAdd bits a b = some c ↔ c = a + b ∧ a + b < 2 ^ bits := by
  unfold checkedAdd
  split <;> simp_all [eq_comm]

theorem checkedMul_eq_some : checkedMul bits a b = some c ↔ c = a * b ∧ a * b < 2 ^ bits := by
  unfold checkedMul
  split <;> simp_all [eq_comm]

theorem fitsIn_eq_some : fitsIn bits a = some c ↔ c = a ∧ a < 2 ^ bits := by
  unfold fitsIn
  split <;> simp <;> omega

theorem checkedSub_eq_some : checkedSub a b = some c ↔ c = a - b ∧ b ≤ a := by
  unfold checkedSub
  split <;> simp_all [eq_comm]

theorem Except.inversion : (∀ {ε α β : Type} {x : Except ε α} {f : α → Except ε β} {b : β},
      (x >>= f) = .ok b ↔ ∃ a, x = .ok a ∧ f a = .ok b) ∧
    (∀ {p : Unit → Prop}, (∃ u, p u) ↔ p ()) ∧
    (∀ {ε α : Type} {a b : α}, (pure a : Except ε α) = .ok b ↔ a = b) ∧
    (∀ {ε α : Type} {a b : α}, (Except.ok a : Except ε α) = .ok b ↔ a = b) ∧
    (∀ {ε : Type} {c : Prop} [Decidable c] {e : ε} {u : Unit}, rejectIf c e = .ok u ↔ ¬ c) ∧
    (∀ {ε α : Type} {o : Option α} {e : ε} {a : α}, okOr o e = .ok a ↔ o = some a) ∧
    (∀ {ε ε' α : Type} {g : ε → ε'} {x : Except ε α} {a : α},
      x.mapError g = .ok a ↔ x = .ok a) ∧
    (∀ {bits a b c : Nat}, checkedAdd bits a b = some c ↔ c = a + b ∧ a + b < 2 ^ bits) ∧
    (∀ {a b c : Nat}, checkedSub a b = some c ↔ c = a - b ∧ b ≤ a) ∧
    (∀ {p q : Prop}, ¬ (p ∨ q) ↔ ¬ p ∧ ¬ q) ∧ ∀ {p : Prop}, ¬ ¬ p ↔ p :=
  ⟨Except.bind_eq_ok, exists_unit, Eq.to_iff (Except.ok.injEq _ _),
    Eq.to_iff (Except.ok.injEq _ _), rejectIf_eq_ok, okOr_eq_ok, Except.mapError_eq_ok,
    checkedAdd_eq_some, checkedSub_eq_some, not_or, not_not⟩

theorem eq_add_of_checkedAdd (h : checkedAdd bits a b = some c) : c = a + b :=
  (checkedAdd_eq_some.1 h).1

end Arithmetic

section MaxByKey

variable {α : Type u} {κ : Type v} [LE κ] [DecidableLE κ]

/-- One comparison of the scan: a later element wins a tie. -/
def keepLater (key : α → κ) (best : Option α) (x : α) : Option α :=
  match best with
  | none => some x
  | some y => if key y ≤ key x then some x else some y

def maxByKey? (key : α → κ) (xs : List α) : Option α := xs.foldl (keepLater key) none

theorem foldl_keepLater_mem (key : α → κ) : ∀ (xs : List α) (best : Option α) (r : α),
    xs.foldl (keepLater key) best = some r → best = some r ∨ r ∈ xs
  | [], _, _, h => .inl h
  | x :: xs, best, r, h => by
    rcases foldl_keepLater_mem key xs (keepLater key best x) r h with h | h
    · unfold keepLater at h
      split at h
      · cases h; exact .inr List.mem_cons_self
      · split at h
        · cases h; exact .inr List.mem_cons_self
        · exact .inl h
    · exact .inr (List.mem_cons_of_mem _ h)

theorem foldl_keepLater_le {κ : Type v} [LinearOrder κ] (key : α → κ) :
    ∀ (xs : List α) (best : Option α) (x : α), (∃ z ∈ best, key x ≤ key z) ∨ x ∈ xs →
      ∃ r, xs.foldl (keepLater key) best = some r ∧ key x ≤ key r
  | [], _, _, h => h.resolve_right (by simp)
  | y :: xs, best, x, h => by
    refine foldl_keepLater_le key xs _ x ?_
    rcases h with ⟨z, rfl, hle⟩ | h
    · left
      simp only [keepLater]
      split
      · exact ⟨y, rfl, hle.trans ‹_›⟩
      · exact ⟨z, rfl, hle⟩
    · refine (List.mem_cons.1 h).imp (fun hxy => ?_) id
      subst hxy
      unfold keepLater
      split
      · exact ⟨x, rfl, le_rfl⟩
      · split
        · exact ⟨x, rfl, le_rfl⟩
        · exact ⟨_, rfl, (not_le.1 ‹_›).le⟩

theorem exists_maxByKey?_le {κ : Type v} [LinearOrder κ] (key : α → κ) {xs : List α} {x : α}
    (h : x ∈ xs) : ∃ r, maxByKey? key xs = some r ∧ key x ≤ key r :=
  foldl_keepLater_le key xs none x (.inr h)

theorem mem_of_maxByKey? {key : α → κ} {xs : List α} {r : α} (h : maxByKey? key xs = some r) :
    r ∈ xs :=
  (foldl_keepLater_mem key xs none r h).resolve_left (by simp)

end MaxByKey
