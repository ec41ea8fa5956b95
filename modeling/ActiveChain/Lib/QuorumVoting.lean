import Mathlib.Algebra.Order.Ring.Nat
import Mathlib.Algebra.BigOperators.Group.List.Basic

/-!
# Weighted quorums and locked voting

Why voters that never vote twice in a round, and that stay above what they locked, agree.

* `exists_common` — two quorums share a member that is not faulty.
* `committed_agree` — **two committed blocks of one height are the same block.**
-/

namespace QuorumVoting

/-! ## Weighted quorums -/

section Weights

variable {α : Type*} (weight : α → ℕ) (members : List α)

/-- The weight of the members that satisfy `p`. -/
def weightOf (p : α → Prop) [DecidablePred p] : ℕ := ((members.filter p).map weight).sum

/-- The members that satisfy `p` hold more than two thirds of the weight. -/
def IsQuorum (p : α → Prop) [DecidablePred p] : Prop :=
  2 * weightOf weight members (fun _ => True) < 3 * weightOf weight members p

/-- The members that satisfy `p` hold less than one third of the weight. -/
def FewFaulty (p : α → Prop) [DecidablePred p] : Prop :=
  3 * weightOf weight members p < weightOf weight members (fun _ => True)

variable {weight members} {p q faulty : α → Prop} [DecidablePred p] [DecidablePred q]
  [DecidablePred faulty]

theorem weightOf_cons (x : α) :
    weightOf weight (x :: members) p =
      (if p x then weight x else 0) + weightOf weight members p := by
  unfold weightOf
  by_cases hx : p x
  · simp [hx]
  · simp [hx]

theorem weightOf_add_le (h : ∀ x ∈ members, p x → q x → faulty x) :
    weightOf weight members p + weightOf weight members q ≤
      weightOf weight members (fun _ => True) + weightOf weight members faulty := by
  induction members with
  | nil => simp [weightOf]
  | cons x rest ih =>
    have hr := ih fun y hy => h y (List.mem_cons_of_mem x hy)
    have hx := h x List.mem_cons_self
    simp only [weightOf_cons, if_true]
    by_cases hp : p x
    · by_cases hq : q x
      · simp only [hp, hq, hx hp hq, if_true]
        omega
      · simp only [hp, hq, if_true, if_false]
        omega
    · simp only [hp, if_false]
      split <;> omega

theorem exists_common (hp : IsQuorum weight members p) (hq : IsQuorum weight members q)
    (hf : FewFaulty weight members faulty) : ∃ x ∈ members, p x ∧ q x ∧ ¬ faulty x := by
  by_contra hn
  push Not at hn
  have hle : weightOf weight members p + weightOf weight members q ≤
      weightOf weight members (fun _ => True) + weightOf weight members faulty :=
    weightOf_add_le hn
  unfold IsQuorum at hp hq
  unfold FewFaulty at hf
  omega

end Weights

/-! ## Locked voting -/

section Voting

variable {ι β : Type*}

/-- The rules of every voter: one block per round; after a vote for a direct child, only blocks
above the parent in later rounds.  A direct child is in the next round and at the next height. -/
structure VotingRules (round height : β → ℕ) (direct : β → β → Prop) (voted : ι → β → Prop) :
    Prop where
  single : ∀ i b c, voted i b → voted i c → round b = round c → b = c
  locked : ∀ i child parent c, direct child parent → voted i child → voted i c →
    round child < round c → height parent < height c
  next : ∀ child parent, direct child parent →
    round child = round parent + 1 ∧ height child = height parent + 1

def Committed (direct : β → β → Prop) (certified : β → Prop) (b : β) : Prop :=
  certified b ∧ ∃ child, direct child b ∧ certified child

variable {round height : β → ℕ} {direct : β → β → Prop} {voted : ι → β → Prop}
  {certified : β → Prop}

variable (rules : VotingRules round height direct voted)
  (common : ∀ b c, certified b → certified c → ∃ i, voted i b ∧ voted i c)
include rules common

theorem VotingRules.above_of_later {b c : β} (hb : Committed direct certified b) (hc : certified c)
    (hl : round b < round c) : height b < height c := by
  obtain ⟨-, child, hd, hch⟩ := hb
  obtain ⟨hr, hh⟩ := rules.next child b hd
  obtain ⟨i, hi, hi'⟩ := common child c hch hc
  rcases Nat.lt_or_eq_of_le (show round child ≤ round c by omega) with hlt | heq
  · exact rules.locked i child b c hd hi hi' hlt
  · -- the round of the child is taken by the child
    rw [← rules.single i child c hi hi' heq]
    omega

theorem VotingRules.committed_agree {b c : β} (hb : Committed direct certified b)
    (hc : Committed direct certified c) (hh : height b = height c) : b = c := by
  rcases Nat.lt_trichotomy (round b) (round c) with hlt | heq | hgt
  · have := rules.above_of_later common hb hc.1 hlt
    omega
  · obtain ⟨i, hi, hi'⟩ := common b c hb.1 hc.1
    exact rules.single i b c hi hi' heq
  · have := rules.above_of_later common hc hb.1 hgt
    omega

end Voting

end QuorumVoting
