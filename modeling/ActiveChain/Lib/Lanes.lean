import Mathlib.Algebra.Order.Ring.Nat
import Mathlib.Data.List.Nodup
import Mathlib.Data.List.Perm.Basic

/-!
# Executing a batch in two lanes

Transactions are tried one after the other; one that is rejected leaves the state alone.  A batch is
split into two lanes, each in batch order: first the transactions that may run early, then the rest.

* `attempt`, `run`, `taken`, `refused` — trying transactions, and which of them are accepted.
* `saturate_spec` — what is rejected is tried again until a pass accepts nothing.
* `lanes_agree` — **the two lanes agree with batch order when a transaction that waits and an early
  one after it are independent.**
-/

universe u v

namespace Lanes

open Function List Prod

variable {σ : Type u} {τ : Type v} (step : τ → σ → Option σ)

/-! ## Trying transactions -/

def attempt (s : σ) (t : τ) : σ := (step t s).getD s

def run (s : σ) (ts : List τ) : σ := ts.foldl (attempt step) s

/-- The transactions that are accepted, in order. -/
def taken (s : σ) : List τ → List τ
  | [] => []
  | t :: ts =>
    match step t s with
    | some s' => t :: taken s' ts
    | none => taken s ts

/-- The transactions that are rejected, in order. -/
def refused (s : σ) : List τ → List τ
  | [] => []
  | t :: ts =>
    match step t s with
    | some s' => refused s' ts
    | none => t :: refused s ts

/-- One transaction does not change whether another is accepted. -/
def Undisturbed (Inv : σ → Prop) (t u : τ) : Prop :=
  ∀ s s', Inv s → step t s = some s' → (step u s').isSome = (step u s).isSome

/-- Neither transaction changes whether the other is accepted, and their order does not matter. -/
structure Independent (Inv : σ → Prop) (t u : τ) : Prop where
  second : Undisturbed step Inv t u
  first : Undisturbed step Inv u t
  exchange : ∀ s s₁ s₂, Inv s → step t s = some s₁ → step u s = some s₂ →
    ∃ r, step u s₁ = some r ∧ step t s₂ = some r

/-- Two orders of transactions lead to one state and accept the same transactions. -/
def Same (s : σ) (ts us : List τ) : Prop :=
  run step s ts = run step s us ∧ (taken step s ts).Perm (taken step s us)

section Trying

variable {step} {s s' : σ} {t : τ} {ts us : List τ}

theorem attempt_of_some (h : step t s = some s') : attempt step s t = s' := by
  rw [attempt, h, Option.getD_some]

theorem attempt_of_none (h : step t s = none) : attempt step s t = s := by
  rw [attempt, h, Option.getD_none]

theorem run_cons : run step s (t :: ts) = run step (attempt step s t) ts := rfl

theorem taken_cons_of_some (h : step t s = some s') :
    taken step s (t :: ts) = t :: taken step s' ts := by
  rw [taken, h]

theorem taken_cons_of_none (h : step t s = none) : taken step s (t :: ts) = taken step s ts := by
  rw [taken, h]

theorem taken_append :
    taken step s (ts ++ us) = taken step s ts ++ taken step (run step s ts) us := by
  induction ts generalizing s with
  | nil => rfl
  | cons t ts ih => cases h : step t s <;> simp [taken, run_cons, attempt, h, ih]

theorem refused_append :
    refused step s (ts ++ us) = refused step s ts ++ refused step (run step s ts) us := by
  induction ts generalizing s with
  | nil => rfl
  | cons t ts ih => cases h : step t s <;> simp [refused, run_cons, attempt, h, ih]

theorem mem_taken {u : τ} (h : u ∈ taken step s ts) :
    ∃ pre post s', ts = pre ++ u :: post ∧ step u (run step s pre) = some s' := by
  induction ts generalizing s with
  | nil => cases h
  | cons t ts ih =>
    -- a later transaction has the head among those before it
    have hlater : u ∈ taken step (attempt step s t) ts →
        ∃ pre post s', t :: ts = pre ++ u :: post ∧ step u (run step s pre) = some s' := by
      intro h
      obtain ⟨pre, post, s', rfl, hu⟩ := ih h
      exact ⟨t :: pre, post, s', rfl, hu⟩
    cases ht : step t s with
    | none =>
      rw [taken_cons_of_none ht] at h
      exact hlater (by rwa [attempt_of_none ht])
    | some s' =>
      rw [taken_cons_of_some ht] at h
      rcases mem_cons.1 h with rfl | h
      · exact ⟨[], ts, s', rfl, ht⟩
      · exact hlater (by rwa [attempt_of_some ht])

theorem inv_attempt {Inv : σ → Prop} (hstep : ∀ t s s', Inv s → step t s = some s' → Inv s')
    (hs : Inv s) : Inv (attempt step s t) := by
  cases h : step t s with
  | none => rwa [attempt_of_none h]
  | some s' =>
    rw [attempt_of_some h]
    exact hstep t s s' hs h

theorem taken_append_refused_perm (s : σ) (ts : List τ) :
    (taken step s ts ++ refused step s ts).Perm ts := by
  induction ts generalizing s with
  | nil => exact .refl _
  | cons t ts ih =>
    cases h : step t s with
    | none => simpa only [taken, refused, h] using perm_middle.trans ((ih s).cons t)
    | some s' => simpa only [taken, refused, h, cons_append] using (ih s').cons t

theorem foldlM_taken : (taken step s ts).foldlM (fun s t => step t s) s = some (run step s ts) := by
  induction ts generalizing s with
  | nil => rfl
  | cons t ts ih => cases h : step t s <;> simp [taken, run_cons, attempt, h, ih]

theorem length_refused_le (s : σ) (ts : List τ) : (refused step s ts).length ≤ ts.length :=
  (sublist_append_right (taken step s ts) _).length_le.trans_eq
    (taken_append_refused_perm s ts).length_eq

theorem stuck_of_length (h : (refused step s ts).length = ts.length) :
    run step s ts = s ∧ ∀ t ∈ ts, step t s = none := by
  induction ts with
  | nil => exact ⟨rfl, by simp⟩
  | cons t ts ih =>
    cases hs : step t s with
    | none =>
      obtain ⟨hrun, hts⟩ := ih (by simpa [refused, hs] using h)
      exact ⟨by rw [run_cons, attempt_of_none hs, hrun], forall_mem_cons.2 ⟨hs, hts⟩⟩
    | some s' =>
      have : (refused step s' ts).length ≤ _ := length_refused_le s' ts
      simp only [refused, hs, length_cons] at h
      omega

end Trying

/-! ## Repeated passes -/

/-- What is rejected is tried again until a pass accepts nothing. -/
def saturate (s : σ) (ts : List τ) : List τ × List τ :=
  let rest := refused step s ts
  if rest.length = ts.length ∨ rest = [] then (taken step s ts, rest)
  else
    let (more, left) := saturate (run step s ts) rest
    (taken step s ts ++ more, left)
termination_by ts.length
decreasing_by exact lt_of_le_of_ne (length_refused_le s ts) fun h => ‹¬ (_ ∨ _)› (.inl h)

/-- **Repeated passes run what they accept in order, and accept as much as the last state
allows.** -/
theorem saturate_spec (s : σ) (ts : List τ) :
    ((saturate step s ts).1 ++ (saturate step s ts).2).Perm ts ∧
      ∃ s', (saturate step s ts).1.foldlM (fun s t => step t s) s = some s' ∧
        ∀ t ∈ (saturate step s ts).2, step t s' = none := by
  fun_induction saturate step s ts with
  | case1 s ts rest h =>
    refine ⟨taken_append_refused_perm s ts, run step s ts, foldlM_taken, fun t ht => ?_⟩
    rcases h with h | h
    · obtain ⟨hrun, hts⟩ := stuck_of_length h
      rw [hrun]
      exact hts t ((taken_append_refused_perm s ts).subset (mem_append_right _ ht))
    · rw [h] at ht
      cases ht
  | case2 s ts rest h more left heq ih =>
    rw [heq] at ih
    obtain ⟨hperm, s', hrun, hleft⟩ := ih
    refine ⟨?_, s', by rw [foldlM_append, foldlM_taken]; exact hrun, hleft⟩
    rw [append_assoc]
    exact (hperm.append_left _).trans (taken_append_refused_perm s ts)

/-! ## Two lanes -/

/-- The first lane of a batch whose entries say whether they may run early. -/
def parallel (b : List (Bool × τ)) : List τ := (b.filter fun x => x.1).map Prod.snd

def fallback (b : List (Bool × τ)) : List τ := (b.filter fun x => !x.1).map Prod.snd

theorem parallel_append_fallback_perm (b : List (Bool × τ)) :
    (parallel b ++ fallback b).Perm (b.map snd) := by
  rw [parallel, fallback, ← map_append]
  exact (filter_append_perm _ b).map snd

section

variable (t : τ) (b : List (Bool × τ))

@[simp] theorem parallel_cons_true : parallel ((true, t) :: b) = t :: parallel b := by
  simp [parallel]

@[simp] theorem parallel_cons_false : parallel ((false, t) :: b) = parallel b := by
  simp [parallel]

@[simp] theorem fallback_cons_true : fallback ((true, t) :: b) = fallback b := by
  simp [fallback]

@[simp] theorem fallback_cons_false : fallback ((false, t) :: b) = t :: fallback b := by
  simp [fallback]

end

variable {τ' : Type*}

theorem parallel_map (f : τ' → τ) (b : List (Bool × τ')) :
    parallel (b.map (map id f)) = (parallel b).map f := by
  simp [parallel, filter_map, comp_def]

theorem fallback_map (f : τ' → τ) (b : List (Bool × τ')) :
    fallback (b.map (map id f)) = (fallback b).map f := by
  simp [fallback, filter_map, comp_def]

theorem mem_parallel {b : List (Bool × τ)} {t : τ} : t ∈ parallel b ↔ (true, t) ∈ b := by
  simp [parallel]

theorem mem_fallback {b : List (Bool × τ)} {t : τ} : t ∈ fallback b ↔ (false, t) ∈ b := by
  simp [fallback]

/-! ## First come, first served -/

section Plan

variable {κ : Type*} [DecidableEq κ]

/-- A transaction may run early when no transaction before it, in either lane, asks for one of its
locks; `held` are the locks asked for so far. -/
def plan (locks : τ → List κ) (held : List κ) : List τ → List (Bool × τ)
  | [] => []
  | t :: ts => (decide (∀ k ∈ locks t, k ∉ held), t) :: plan locks (held ++ locks t) ts

variable (locks : τ → List κ)

theorem plan_map_snd (held : List κ) (ts : List τ) : (plan locks held ts).map snd = ts := by
  induction ts generalizing held with
  | nil => rfl
  | cons t ts ih => rw [plan, map_cons, ih]

theorem plan_map {τ' : Type*} (f : τ' → τ) (held : List κ) (ts : List τ') :
    plan locks held (ts.map f) = (plan (locks ∘ f) held ts).map (map id f) := by
  induction ts generalizing held with
  | nil => rfl
  | cons t ts ih =>
    rw [map_cons, plan, plan, map_cons, ih]
    rfl

theorem not_held_of_early {held : List κ} {ts : List τ} {y : Bool × τ}
    (hy : y ∈ plan locks held ts) (he : y.1 = true) : ∀ k ∈ locks y.2, k ∉ held := by
  induction ts generalizing held with
  | nil => cases hy
  | cons t ts ih =>
    rcases mem_cons.1 hy with rfl | hy
    · exact of_decide_eq_true he
    · intro k hk hh
      exact ih hy k hk (mem_append_left _ hh)

/-- **What runs early shares no lock with anything before it.** -/
theorem plan_pairwise (held : List κ) (ts : List τ) :
    (plan locks held ts).Pairwise fun x y => y.1 = true → ∀ k ∈ locks y.2, k ∉ locks x.2 := by
  induction ts generalizing held with
  | nil => exact List.Pairwise.nil
  | cons t ts ih =>
    refine pairwise_cons.2 ⟨?_, ih _⟩
    intro y hy he k hk hh
    exact not_held_of_early locks hy he k hk (mem_append_right _ hh)

theorem plan_congr {held held' : List κ} (h : ∀ k, k ∈ held ↔ k ∈ held') (ts : List τ) :
    plan locks held ts = plan locks held' ts := by
  induction ts generalizing held held' with
  | nil => rfl
  | cons t ts ih =>
    have hm : ∀ k, k ∈ held ++ locks t ↔ k ∈ held' ++ locks t := by
      intro k
      rw [mem_append, mem_append, h]
    rw [plan, plan, ih hm]
    simp only [h]

end Plan

/-! ## When the lanes agree -/

section Agreement

variable {step} {Inv : σ → Prop} {s : σ} {t : τ} {ts us : List τ}

theorem Same.cons (h : Same step (attempt step s t) ts us) : Same step s (t :: ts) (t :: us) := by
  refine ⟨h.1, ?_⟩
  cases ht : step t s with
  | none =>
    rw [taken_cons_of_none ht, taken_cons_of_none ht]
    exact attempt_of_none ht ▸ h.2
  | some s' =>
    rw [taken_cons_of_some ht, taken_cons_of_some ht]
    exact (attempt_of_some ht ▸ h.2).cons t

theorem Same.trans {vs : List τ} (h : Same step s ts us) (h' : Same step s us vs) :
    Same step s ts vs :=
  ⟨h.1.trans h'.1, h.2.trans h'.2⟩

theorem Independent.swap {u : τ} (h : Independent step Inv t u) (hs : Inv s) (ts : List τ) :
    Same step s (u :: t :: ts) (t :: u :: ts) := by
  have hsecond := h.second s
  have hfirst := h.first s
  have hexchange := h.exchange s
  unfold Same
  cases ht : step t s with
  | none =>
    cases hu : step u s with
    | none => simp [taken, run_cons, attempt, ht, hu]
    | some s₂ =>
      have hn : step t s₂ = none := by simpa [ht] using hfirst s₂ hs hu
      simp [taken, run_cons, attempt, ht, hu, hn]
  | some s₁ =>
    cases hu : step u s with
    | none =>
      have hn : step u s₁ = none := by simpa [hu] using hsecond s₁ hs ht
      simp [taken, run_cons, attempt, ht, hu, hn]
    | some s₂ =>
      obtain ⟨r, hr, hr'⟩ := hexchange s₁ s₂ hs ht hu
      simpa [taken, run_cons, attempt, ht, hu, hr, hr'] using Perm.swap ..

variable (hstep : ∀ t s s', Inv s → step t s = some s' → Inv s')
include hstep

theorem same_move_past (hs : Inv s) (h : ∀ u ∈ us, Independent step Inv t u) :
    Same step s (us ++ t :: ts) (t :: (us ++ ts)) := by
  induction us generalizing s with
  | nil => exact ⟨rfl, .refl _⟩
  | cons u us ih =>
    obtain ⟨hu, hus⟩ := forall_mem_cons.1 h
    exact (ih (inv_attempt hstep hs) hus).cons.trans (hu.swap hs _)

theorem lanes_agree {b : List (Bool × τ)} (hs : Inv s)
    (hb : b.Pairwise fun x y => x.1 = false → y.1 = true → Independent step Inv x.2 y.2) :
    Same step s (parallel b ++ fallback b) (b.map snd) := by
  induction b generalizing s with
  | nil => exact ⟨rfl, .refl _⟩
  | cons x b ih =>
    obtain ⟨early, t⟩ := x
    obtain ⟨hx, htail⟩ := pairwise_cons.1 hb
    have hrest := (ih (inv_attempt hstep hs (t := t)) htail).cons
    cases early with
    | true => simpa using hrest
    | false =>
      rw [parallel_cons_false, fallback_cons_false, map_cons]
      refine (same_move_past hstep hs fun u hu => ?_).trans hrest
      exact hx _ (mem_parallel.1 hu) rfl rfl

end Agreement

end Lanes
