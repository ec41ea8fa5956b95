import ActiveChain.Lib.Result

/-!
# State changes that may fail half way

Code that assigns one field after the other and returns early on an error leaves the fields it had
assigned.  An `Update` is such code; `atomically` runs it on a copy and installs the copy at the
end.

* `Update.inversion` — what a successful run tells, statement by statement.
* `Update.exec_atomically_eq_error` — a failed copy leaves the state alone.
-/

universe u

/-- A computation on a state `σ` that may stop with an error; the state it reached stays. -/
abbrev Update (ε σ α : Type u) : Type u := ExceptT ε (StateM σ) α

namespace Update

variable {ε σ α β : Type u}

/-- The result and the state at the end. -/
def exec (m : Update ε σ α) (s : σ) : Except ε α × σ := StateT.run (ExceptT.run m) s

/-- A computation that does not touch the state. -/
def check (x : Except ε α) : Update ε σ α := ExceptT.mk fun s => (x, s)

/-- Run on a copy of the state; a failed copy is dropped. -/
def onCopy (m : Update ε σ α) (s : σ) : Except ε (α × σ) :=
  match m.exec s with
  | (.ok a, s') => .ok (a, s')
  | (.error e, _) => .error e

/-- Run on a copy, and install the copy on success. -/
def atomically (m : Update ε σ α) : Update ε σ α := do
  let s ← get
  let (a, s') ← check (m.onCopy s)
  set s'
  return a

/-- Run on one part of the state. -/
def onPart {ε' τ : Type u} (part : σ → τ) (put : τ → σ → σ) (g : ε' → ε) (m : Update ε' τ α) :
    Update ε σ α :=
  ExceptT.mk fun s => ((m.exec (part s)).1.mapError g, put (m.exec (part s)).2 s)

@[simp] theorem exec_pure (a : α) (s : σ) : (pure a : Update ε σ α).exec s = (.ok a, s) := rfl

@[simp] theorem exec_check (x : Except ε α) (s : σ) : (check x).exec s = (x, s) := rfl

@[simp] theorem exec_get (s : σ) : (get : Update ε σ σ).exec s = (.ok s, s) := rfl

@[simp] theorem exec_set (s s' : σ) :
    (set s' : Update ε σ PUnit).exec s = (.ok PUnit.unit, s') := rfl

@[simp] theorem exec_modify (f : σ → σ) (s : σ) :
    (modify f : Update ε σ PUnit).exec s = (.ok PUnit.unit, f s) := rfl

theorem exec_bind (m : Update ε σ α) (f : α → Update ε σ β) (s : σ) :
    (m >>= f).exec s = match m.exec s with
      | (.ok a, s') => (f a).exec s'
      | (.error e, s') => (.error e, s') := by
  change StateT.run (ExceptT.run (m >>= f)) s = _
  cases hm : m.exec s with
  | mk r s' =>
    have hm : StateT.run (ExceptT.run m) s = (r, s') := hm
    rw [ExceptT.run_bind, StateT.run_bind, hm]
    cases r <;> rfl

section

variable {m : Update ε σ α} {s s' : σ}

variable {f : α → Update ε σ β}

theorem exec_bind_eq_ok {s'' : σ} {b : β} :
    (m >>= f).exec s = (.ok b, s'') ↔
      ∃ a s', m.exec s = (.ok a, s') ∧ (f a).exec s' = (.ok b, s'') := by
  rw [exec_bind]
  rcases m.exec s with ⟨_ | a, s'⟩ <;> simp

theorem inversion :
    (∀ {ε σ α β : Type} {m : Update ε σ α} {f : α → Update ε σ β} {s s'' : σ} {b : β},
      (m >>= f).exec s = (.ok b, s'') ↔
        ∃ a s', m.exec s = (.ok a, s') ∧ (f a).exec s' = (.ok b, s'')) ∧
    (∀ {ε σ : Type} {s t s' : σ}, (get : Update ε σ σ).exec s = (.ok t, s') ↔ s = t ∧ s = s') ∧
    (∀ {ε σ α : Type} {x : Except ε α} {s s' : σ} {a : α},
      (check x : Update ε σ α).exec s = (.ok a, s') ↔ x = .ok a ∧ s = s') ∧
    (∀ {ε σ : Type} {g : σ → σ} {s s' : σ} {u : Unit},
      (modify g : Update ε σ PUnit).exec s = (.ok u, s') ↔ g s = s') ∧
    (∀ {ε σ : Type} {t s s' : σ} {u : Unit},
      (set t : Update ε σ PUnit).exec s = (.ok u, s') ↔ t = s') ∧
    (∀ {ε σ α : Type} {a b : α} {s s' : σ},
      (pure a : Update ε σ α).exec s = (.ok b, s') ↔ a = b ∧ s = s') ∧
    (∀ {p : Prop}, (∃ _ : Unit, p) ↔ p) ∧ (∀ {p : Prop}, p ∧ True ↔ p) ∧
    ∀ {p : Prop}, True ∧ p ↔ p := by
  simp [exec_bind_eq_ok]

theorem exists_exec_of_isSome (h : (m.exec s).1.toOption.isSome = true) :
    ∃ a s', m.exec s = (.ok a, s') := by
  rcases hexec : m.exec s with ⟨_ | a, s'⟩
  · rw [hexec] at h
    cases h
  · exact ⟨a, s', rfl⟩

variable {a : α}

theorem exec_onPart_eq_ok {ε' τ : Type u} {part : σ → τ} {put : τ → σ → σ} {g : ε' → ε}
    {m : Update ε' τ α} : (onPart part put g m).exec s = (.ok a, s') ↔
      ∃ t, m.exec (part s) = (.ok a, t) ∧ s' = put t s := by
  change ((m.exec (part s)).1.mapError g, put (m.exec (part s)).2 s) = (.ok a, s') ↔ _
  rcases m.exec (part s) with ⟨_ | _, _⟩ <;> simp [Except.mapError, eq_comm]

variable {e : ε}

theorem exec_check_bind_eq_error {x : Except ε α} :
    (check x >>= f).exec s = (.error e, s') ↔
      x = .error e ∧ s' = s ∨ ∃ a, x = .ok a ∧ (f a).exec s = (.error e, s') := by
  rw [exec_bind, exec_check]
  cases x <;> simp [eq_comm]

theorem onCopy_eq_ok : m.onCopy s = .ok (a, s') ↔ m.exec s = (.ok a, s') := by
  unfold onCopy
  rcases m.exec s with ⟨_ | _, _⟩ <;> simp

theorem onCopy_eq_error : m.onCopy s = .error e ↔ ∃ s', m.exec s = (.error e, s') := by
  unfold onCopy
  rcases m.exec s with ⟨_ | _, _⟩ <;> simp

theorem exec_atomically (m : Update ε σ α) (s : σ) : (atomically m).exec s = match m.onCopy s with
      | .ok (a, s') => (.ok a, s')
      | .error e => (.error e, s) := by
  simp only [atomically, exec_bind, exec_get, exec_check]
  rcases m.onCopy s with _ | ⟨_, _⟩ <;> rfl

theorem exec_atomically_eq_ok : (atomically m).exec s = (.ok a, s') ↔ m.exec s = (.ok a, s') := by
  rw [exec_atomically, ← onCopy_eq_ok]
  rcases m.onCopy s with _ | ⟨_, _⟩ <;> simp

theorem exec_atomically_eq_error :
    (atomically m).exec s = (.error e, s') ↔ s' = s ∧ m.onCopy s = .error e := by
  rw [exec_atomically]
  rcases m.onCopy s with _ | ⟨_, _⟩ <;> simp [eq_comm, and_comm]

end

/-! ## Errors -/

/-- Every error that the update ends with from `s` satisfies `P`. -/
def FailsWith (P : ε → Prop) (m : Update ε σ α) (s : σ) : Prop :=
  ∀ e s', m.exec s = (.error e, s') → P e

namespace FailsWith

variable {P : ε → Prop} {s : σ}

@[simp] theorem check {x : Except ε α} : (Update.check x).FailsWith P s ↔ x.FailsWith P := by
  simp [FailsWith, Except.FailsWith]

@[simp] theorem get : (MonadState.get : Update ε σ σ).FailsWith P s := nofun

@[simp] theorem modified (f : σ → σ) : (modify f : Update ε σ PUnit).FailsWith P s := nofun

@[simp] theorem assigned (s' : σ) : (set s' : Update ε σ PUnit).FailsWith P s := nofun

@[simp] theorem pure (a : α) : (Pure.pure a : Update ε σ α).FailsWith P s := nofun

variable {m : Update ε σ α}

@[simp] theorem bind {f : α → Update ε σ β} : (m >>= f).FailsWith P s ↔
      m.FailsWith P s ∧ ∀ a s', m.exec s = (.ok a, s') → (f a).FailsWith P s' := by
  unfold FailsWith
  rw [exec_bind]
  rcases m.exec s with ⟨_ | a, s'⟩ <;> simp

@[simp] theorem map {f : α → β} : (f <$> m).FailsWith P s ↔ m.FailsWith P s :=
  bind.trans (and_iff_left fun _ _ _ => pure _)

theorem onCopy (h : m.FailsWith P s) : (m.onCopy s).FailsWith P := by
  intro e herr
  obtain ⟨s', hexec⟩ := onCopy_eq_error.1 herr
  exact h e s' hexec

theorem atomically (h : m.FailsWith P s) : (Update.atomically m).FailsWith P s := by
  intro e s' herr
  obtain ⟨s'', hexec⟩ := onCopy_eq_error.1 (exec_atomically_eq_error.1 herr).2
  exact h e s'' hexec

end FailsWith

/-! ## Actions that change nothing when they fail -/

/-- The update never touches the state. -/
def ReadOnly (m : Update ε σ α) : Prop := ∀ s, (m.exec s).2 = s

/-- When the update fails, the state is as before. -/
def Transactional (m : Update ε σ α) : Prop := ∀ s e s', m.exec s = (.error e, s') → s' = s

theorem ReadOnly.check (x : Except ε α) : (Update.check x : Update ε σ α).ReadOnly := fun _ => rfl

theorem ReadOnly.get : (MonadState.get : Update ε σ σ).ReadOnly := fun _ => rfl

namespace Transactional

theorem modified (f : σ → σ) : (modify f : Update ε σ PUnit).Transactional := by
  intro s e s' herr
  cases herr

theorem updated (f : σ → σ) (a : α) : (do modify f; return a : Update ε σ α).Transactional := by
  intro s e s' herr
  cases herr

theorem atomically (m : Update ε σ α) : (Update.atomically m).Transactional := by
  intro s e s' herr
  exact (exec_atomically_eq_error.1 herr).1

theorem bind {m : Update ε σ α} {f : α → Update ε σ β} (hm : m.ReadOnly)
    (hf : ∀ a, (f a).Transactional) : (m >>= f).Transactional := by
  intro s e s'' herr
  have hs := hm s
  rw [exec_bind] at herr
  rcases hexec : m.exec s with ⟨_ | a, s'⟩
  all_goals
    rw [hexec] at herr hs
    obtain rfl : s' = s := hs
  · cases herr
    rfl
  · exact hf a _ _ _ herr

theorem onPart {ε' τ : Type u} {part : σ → τ} {put : τ → σ → σ} {g : ε' → ε} {m : Update ε' τ α}
    (hput : ∀ s, put (part s) s = s) (hm : m.Transactional) :
    (Update.onPart part put g m).Transactional := by
  intro s e s' herr
  have herr : ((m.exec (part s)).1.mapError g, put (m.exec (part s)).2 s) = (.error e, s') := herr
  rcases hexec : m.exec (part s) with ⟨_ | a, t⟩
  all_goals
    rw [hexec] at herr
    cases herr
  rw [hm _ _ _ hexec, hput]

end Transactional

/-! ## What an update changes, failed or not -/

/-- The state that the update leaves is related to `s`, whatever the result. -/
def Moves (R : σ → σ → Prop) (m : Update ε σ α) (s : σ) : Prop := R s (m.exec s).2

namespace Moves

variable {R : σ → σ → Prop} {s : σ}

variable {m : Update ε σ α}

theorem of_readOnly (refl : ∀ s, R s s) (h : m.ReadOnly) : m.Moves R s := by
  rw [Moves, h s]
  exact refl s

theorem modified {f : σ → σ} (h : R s (f s)) : (modify f : Update ε σ PUnit).Moves R s := h

variable {f : α → Update ε σ β}

theorem bind (trans : ∀ a b c, R a b → R b c → R a c) (hm : m.Moves R s)
    (hf : ∀ a s', m.exec s = (.ok a, s') → (f a).Moves R s') : (m >>= f).Moves R s := by
  rw [Moves] at hm ⊢
  rw [exec_bind]
  rcases hexec : m.exec s with ⟨_ | a, s'⟩
  · rwa [hexec] at hm
  · rw [hexec] at hm
    exact trans _ _ _ hm (hf a s' hexec)

theorem check_bind (refl : ∀ s, R s s) {x : Except ε α} (hf : ∀ a, x = .ok a → (f a).Moves R s) :
    (check x >>= f).Moves R s := by
  cases x with
  | error e => exact refl s
  | ok a => exact hf a rfl

theorem get_bind {f : σ → Update ε σ β} (hf : (f s).Moves R s) :
    ((get : Update ε σ σ) >>= f).Moves R s := hf

theorem onPart {ε' τ : Type u} {part : σ → τ} {put : τ → σ → σ} {g : ε' → ε} {Q : τ → τ → Prop}
    {m : Update ε' τ α} (hput : ∀ t, Q (part s) t → R s (put t s)) (hm : m.Moves Q (part s)) :
    (Update.onPart part put g m).Moves R s :=
  hput _ hm

end Moves

/-! ## What an update keeps -/

/-- If the state has the property, then so has the state that the update leaves. -/
def Keeps (P : σ → Prop) (m : Update ε σ α) (s : σ) : Prop := m.Moves (fun s s' => P s → P s') s

namespace Keeps

variable {P : σ → Prop} {s : σ}

variable {m : Update ε σ α}

theorem of_readOnly (h : m.ReadOnly) : m.Keeps P s :=
  Moves.of_readOnly (fun _ => id) h

variable {f : σ → σ}

theorem modified (h : P s → P (f s)) : (modify f : Update ε σ PUnit).Keeps P s := h

theorem bind {f : α → Update ε σ β} (hm : m.Keeps P s)
    (hf : ∀ a s', m.exec s = (.ok a, s') → (f a).Keeps P s') : (m >>= f).Keeps P s :=
  Moves.bind (R := fun s s' => P s → P s') (fun _ _ _ hab hbc => hbc ∘ hab) hm hf

theorem check_bind {x : Except ε α} {f : α → Update ε σ β}
    (hf : ∀ a, x = .ok a → (f a).Keeps P s) : (Update.check x >>= f).Keeps P s :=
  Moves.check_bind (fun _ => id) hf

theorem get_bind {f : σ → Update ε σ β} (hf : (f s).Keeps P s) :
    ((get : Update ε σ σ) >>= f).Keeps P s := hf

theorem modify_bind {g : PUnit → Update ε σ β} (hf : P s → P (f s)) (hg : (g ⟨⟩).Keeps P (f s)) :
    ((modify f : Update ε σ PUnit) >>= g).Keeps P s := by
  refine bind (modified hf) fun _ s' hexec => ?_
  cases hexec
  exact hg

theorem assume (h : P s → m.Keeps P s) : m.Keeps P s := fun hs => h hs hs

end Keeps

end Update
