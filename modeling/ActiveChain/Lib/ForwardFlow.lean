import ActiveChain.Lib.Result

/-!
# One pass over a program whose edges go forward

A program is a row of positions.  Each position passes states on to later positions, where what
arrives is merged; one pass from the first position to the last is then a complete data-flow
analysis.

* `pass_sound` — **after the pass every position has the state it was processed with, and that state
  is passed on to states above what it sends.**
-/

namespace ForwardFlow

variable {σ ε : Type}

/-- Merge a candidate into the state of a target; the first candidate is kept as it is. -/
def mergeInto (merge : Nat → σ → σ → Except ε σ) (states : List (Option σ)) (target : Nat)
    (candidate : σ) : Except ε (List (Option σ)) :=
  match states[target]?.join with
  | none => .ok (states.set target (some candidate))
  | some existing => do
    let merged ← merge target existing candidate
    return states.set target (some merged)

/-- Merge candidates one after another. -/
def mergeAll (merge : Nat → σ → σ → Except ε σ) :
    List (Option σ) → List (Nat × σ) → Except ε (List (Option σ))
  | states, [] => .ok states
  | states, (target, candidate) :: rest => do
    let states ← mergeInto merge states target candidate
    mergeAll merge states rest

/-- The pass over the given number of positions from a position on. -/
def pass (merge : Nat → σ → σ → Except ε σ) (transfer : Nat → σ → Except ε (List (Nat × σ)))
    (unreachable : Nat → ε) : Nat → Nat → List (Option σ) → Except ε (List (Option σ))
  | 0, _, states => .ok states
  | rounds + 1, position, states => do
    let state ← okOr states[position]?.join (unreachable position)
    let edges ← transfer position state
    let states ← mergeAll merge states edges
    pass merge transfer unreachable rounds (position + 1) states

section Soundness

variable [Preorder σ]

/-- The state of a position is above `state`. -/
def Covers (states : List (Option σ)) (position : Nat) (state : σ) : Prop :=
  ∃ above, states[position]? = some (some above) ∧ state ≤ above

/-- Merging gives upper bounds, and edges go forward. -/
structure Sound (merge : Nat → σ → σ → Except ε σ)
    (transfer : Nat → σ → Except ε (List (Nat × σ))) : Prop where
  upper : ∀ {target a b c}, merge target a b = .ok c → a ≤ c ∧ b ≤ c
  forward : ∀ {position state edges}, transfer position state = .ok edges →
    ∀ edge ∈ edges, position < edge.1

variable {merge : Nat → σ → σ → Except ε σ} {transfer : Nat → σ → Except ε (List (Nat × σ))}
  {unreachable : Nat → ε} {states final : List (Option σ)}

variable (h : Sound merge transfer)
include h

theorem mergeInto_eq_ok {target : Nat} {candidate : σ}
    (hm : mergeInto merge states target candidate = .ok final) :
    ∃ merged, final = states.set target (some merged) ∧ candidate ≤ merged ∧
      ∀ existing, states[target]? = some (some existing) → existing ≤ merged := by
  unfold mergeInto at hm
  split at hm
  · next hn =>
      cases hm
      refine ⟨candidate, rfl, le_rfl, fun existing hexisting => ?_⟩
      rw [hexisting] at hn
      cases hn
  · next existing hs =>
      obtain ⟨merged, hme, hret⟩ := Except.bind_eq_ok.1 hm
      cases hret
      obtain ⟨hle, hc⟩ := h.upper hme
      refine ⟨merged, rfl, hc, fun existing' hexisting => ?_⟩
      rw [hexisting] at hs
      cases hs
      exact hle

theorem mergeInto_covers {target position : Nat} {candidate state : σ}
    (hm : mergeInto merge states target candidate = .ok final) (hc : Covers states position state) :
    Covers final position state := by
  obtain ⟨merged, rfl, -, hexisting⟩ := mergeInto_eq_ok h hm
  obtain ⟨above, hget, hle⟩ := hc
  by_cases heq : target = position
  · subst heq
    have hlt := (List.getElem?_eq_some_iff.1 hget).1
    exact ⟨merged, List.getElem?_set_self hlt, hle.trans (hexisting above hget)⟩
  · exact ⟨above, by rw [List.getElem?_set_ne heq, hget], hle⟩

theorem mergeAll_eq_ok (edges : List (Nat × σ)) :
    ∀ {states : List (Option σ)}, mergeAll merge states edges = .ok final →
      final.length = states.length ∧
      (∀ position, (∀ edge ∈ edges, edge.1 ≠ position) → final[position]? = states[position]?) ∧
      (∀ position state, Covers states position state → Covers final position state) ∧
      ∀ edge ∈ edges, edge.1 < states.length → Covers final edge.1 edge.2 := by
  induction edges with
  | nil =>
    intro states hm
    cases hm
    exact ⟨rfl, fun _ _ => rfl, fun _ _ hc => hc, fun _ hmem => absurd hmem (by simp)⟩
  | cons edge edges ih =>
    intro states hm
    obtain ⟨between, hf, hr⟩ := Except.bind_eq_ok.1 hm
    obtain ⟨hl, hs, hc, he⟩ := ih hr
    have hg : ∀ position state, Covers states position state →
        Covers between position state := fun _ _ => mergeInto_covers h hf
    obtain ⟨merged, rfl, hca, -⟩ := mergeInto_eq_ok h hf
    rw [List.length_set] at hl he
    refine ⟨hl, ?_, fun position state hold => hc _ _ (hg _ _ hold), ?_⟩
    · intro position hne
      obtain ⟨hh, ht⟩ := List.forall_mem_cons.1 hne
      rw [hs position ht, List.getElem?_set_ne hh]
    · intro edge hmem hlt
      obtain rfl | hmem := List.mem_cons.1 hmem
      · exact hc _ _ ⟨merged, List.getElem?_set_self hlt, hca⟩
      · exact he edge hmem hlt

/-- A position was processed with its state, and what it sends is covered. -/
def Passed (transfer : Nat → σ → Except ε (List (Nat × σ))) (final : List (Option σ))
    (position : Nat) : Prop :=
  ∃ state edges, final[position]? = some (some state) ∧ transfer position state = .ok edges ∧
    ∀ edge ∈ edges, edge.1 < final.length → Covers final edge.1 edge.2

theorem pass_sound (n : Nat) : ∀ {position : Nat}
    {states : List (Option σ)}, pass merge transfer unreachable n position states = .ok final →
      final.length = states.length ∧
      (∀ earlier < position, final[earlier]? = states[earlier]?) ∧
      (∀ other s, Covers states other s → Covers final other s) ∧
      ∀ other, position ≤ other → other < position + n → Passed transfer final other := by
  induction n with
  | zero =>
    intro position states hp
    cases hp
    exact ⟨rfl, fun _ _ => rfl, fun _ _ hc => hc, fun _ _ _ => by omega⟩
  | succ n ih =>
    intro position states hp
    simp only [pass, Except.bind_eq_ok, okOr_eq_ok] at hp
    obtain ⟨s, hst, edges, ht, between, hm, hr⟩ := hp
    obtain ⟨hl, hs, hc, hed⟩ := mergeAll_eq_ok h edges hm
    obtain ⟨hl', he, hc', hpa⟩ := ih hr
    have hf := h.forward ht
    refine ⟨hl'.trans hl, ?_, fun other s hold => hc' _ _ (hc _ _ hold), ?_⟩
    · intro earlier hlt
      rw [he earlier (by omega)]
      exact hs earlier fun edge hmem => by have := hf edge hmem; omega
    · intro other hle hlt
      obtain rfl | hne := Nat.eq_or_lt_of_le hle
      · -- the edges of this position lead behind it, so its own state is final
        refine ⟨s, edges, ?_, ht, fun edge hmem hedg => ?_⟩
        · rw [he position (by omega), hs position fun edge hmem => by
            have := hf edge hmem; omega]
          exact Option.join_eq_some_iff.1 hst
        · exact hc' _ _ (hed edge hmem (by omega))
      · exact hpa other (by omega) (by omega)

end Soundness

end ForwardFlow
