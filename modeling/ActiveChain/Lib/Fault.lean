import ActiveChain.Lib.Result

/-!
# Calls that may panic

A call ends with a value, with an error that its caller can handle, or with a panic that nobody
handles.

* `expectOk` — the value of a result whose error the caller did not expect.
-/

universe u

/-- Why a call did not return a value. -/
inductive Fault (ε : Type u)
  | error (e : ε)
  | panic (message : String)
deriving DecidableEq, Repr

section Calls

variable {ε ε' : Type u} {α β : Type}

def expectOk (x : Except ε' α) (message : String) : Except (Fault ε) α :=
  x.mapError fun _ => .panic message

/-- A panic passes through. -/
def Fault.mapErr (g : ε → ε') : Fault ε → Fault ε'
  | .error e => .error (g e)
  | .panic message => .panic message

/-- The call ends with a panic. -/
def Except.Panics (x : Except (Fault ε) α) : Prop := ∃ message, x = .error (.panic message)

theorem Except.not_panics_ok (a : α) : ¬ (Except.ok a : Except (Fault ε) α).Panics := by
  rintro ⟨_, h⟩
  cases h

theorem Except.not_panics_error (e : ε) :
    ¬ (Except.error (.error e) : Except (Fault ε) α).Panics := by
  rintro ⟨_, h⟩
  cases h

variable {x : Except (Fault ε) α} {f : α → Except (Fault ε) β}

theorem Except.panics_bind : (x >>= f).Panics ↔ x.Panics ∨ ∃ a, x = .ok a ∧ (f a).Panics := by
  cases x <;> simp [Except.Panics, bind, Except.bind]

variable {e : ε}

theorem Except.not_panics_reject {c : Prop} [Decidable c] :
    ¬ (rejectIf c (Fault.error e)).Panics := by
  unfold rejectIf
  split
  · exact not_panics_error e
  · exact not_panics_ok ()

theorem Except.panics_reject_bind {c : Prop} [Decidable c] {f : Unit → Except (Fault ε) β} :
    (rejectIf c (Fault.error e) >>= f).Panics ↔ ¬ c ∧ (f ()).Panics := by
  rw [panics_bind]
  constructor
  · rintro (h | ⟨_, hg, h⟩)
    · exact absurd h not_panics_reject
    · exact ⟨rejectIf_eq_ok.1 hg, h⟩
  · rintro ⟨hg, h⟩
    exact .inr ⟨(), rejectIf_of_not hg, h⟩

theorem Except.panics_bind_left (hf : ∀ a, ¬ (f a).Panics) : (x >>= f).Panics ↔ x.Panics := by
  rw [panics_bind]
  exact or_iff_left fun ⟨a, _, h⟩ => hf a h

theorem Except.not_panics_bind (hx : ¬ x.Panics) (hf : ∀ a, ¬ (f a).Panics) : ¬ (x >>= f).Panics :=
  fun h => hx ((panics_bind_left hf).1 h)

theorem Except.not_panics_foldlM {f : β → α → Except (Fault ε) β} (hf : ∀ b a, ¬ (f b a).Panics)
    (l : List α) : ∀ b, ¬ (l.foldlM f b).Panics := by
  induction l with
  | nil => exact fun b => not_panics_ok b
  | cons a l ih => exact fun b => not_panics_bind (hf b a) ih

theorem Except.not_panics_okOr {o : Option α} : ¬ (okOr o (Fault.error e)).Panics := by
  cases o with
  | none => exact not_panics_error e
  | some a => exact not_panics_ok a

theorem Except.not_panics_mapError {x : Except ε' α} {g : ε' → ε} :
    ¬ (x.mapError fun e => Fault.error (g e)).Panics := by
  cases x with
  | error e => exact not_panics_error (g e)
  | ok a => exact not_panics_ok a

theorem Except.panics_mapErr {g : ε → ε'} : (x.mapError (Fault.mapErr g)).Panics ↔ x.Panics := by
  rcases x with (_ | _) | _ <;> simp [Except.Panics, Except.mapError, Fault.mapErr]

theorem expectOk_eq_ok {x : Except ε' α} {message : String} {a : α} :
    (expectOk x message : Except (Fault ε) α) = .ok a ↔ x = .ok a :=
  Except.mapError_eq_ok

end Calls
