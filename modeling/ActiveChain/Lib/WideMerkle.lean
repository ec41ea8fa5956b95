import Mathlib.Algebra.Order.Ring.Nat
import Mathlib.Data.List.Basic

/-!
# Sparse Merkle trees of any width

A complete tree whose inner nodes have `k` children: a leaf digest for every path of child numbers,
an inner hash of the depth and the list of children.

* `fold_levels` — the tree's own rows give the root after changing one leaf.
* `fold_eq_root` — **a path that reaches the root carries the tree's leaf and, beside the path, the
  tree's rows.**
* `expand` — a row from its children that differ from a default; `expand_filter`,
  `expand_injective`: **a row has exactly one such compressed form.**
-/

universe u

namespace WideMerkle

open Function List

variable {D : Type u} (k : Nat) (node : Nat → List D → D)

/-- The digest of the tree of height `n` at depth `d` whose leaves are given by `leaf`. -/
def root : Nat → Nat → (List Nat → D) → D
  | 0, _, leaf => leaf []
  | n + 1, d, leaf => node d ((List.range k).map fun i => root n (d + 1) fun p => leaf (i :: p))

/-- The children of the top node of a tree of height `n + 1`. -/
def children (n d : Nat) (leaf : List Nat → D) : List D :=
  (List.range k).map fun i => root k node n (d + 1) fun p => leaf (i :: p)

/-- A path hashed from its leaf upwards; a row's own entry on the path is replaced. -/
def fold : Nat → List Nat → List (List D) → D → D
  | d, i :: p, row :: rows, x => node d (row.set i (fold (d + 1) p rows x))
  | _, _, _, x => x

/-- The rows of children along a path. -/
def levels : Nat → Nat → (List Nat → D) → List Nat → List (List D)
  | n + 1, d, leaf, i :: p => children k node n d leaf :: levels n (d + 1)
    (fun q => leaf (i :: q)) p
  | _, _, _, _ => []

def IsPath (n : Nat) (p : List Nat) : Prop := p.length = n ∧ ∀ i ∈ p, i < k

/-- The rows agree beside the path. -/
def Beside : List Nat → List (List D) → List (List D) → Prop
  | i :: p, row :: rows, row' :: rows' => (∀ x, row.set i x = row'.set i x) ∧ Beside p rows rows'
  | _, [], [] => True
  | _, _, _ => False

variable {k node}

variable {p : List Nat} {i n : Nat}

theorem IsPath.cons : IsPath k (n + 1) (i :: p) ↔ i < k ∧ IsPath k n p := by
  simp [IsPath, and_left_comm]

theorem map_range_set {f : Nat → D} (x : D) :
    ((List.range k).map f).set i x = (List.range k).map (update f i x) := by
  refine ext_getElem (by simp) fun j _ _ => ?_
  simp [getElem_set, update_apply, eq_comm]

theorem fold_levels : ∀ {d : Nat} {leaf : List Nat → D} {p : List Nat} (x : D),
    p.length = n → fold node d p (levels k node n d leaf p) x =
      root k node n d (update leaf p x) := by
  induction n with
  | zero =>
    intro d leaf p x hp
    cases length_eq_zero_iff.1 hp
    exact (update_self ([] : List Nat) x leaf).symm
  | succ n ih =>
    intro d leaf p x hp
    cases p with
    | nil => cases hp
    | cons i p =>
      rw [levels, fold, ih x (Nat.succ.inj hp), children, map_range_set, root]
      refine congrArg (node d) (map_congr_left fun j _ => ?_)
      -- the changed leaf lies below child `i` and below no other
      by_cases heq : j = i
      · subst heq
        rw [update_self]
        congr 1
        funext q
        by_cases hq : q = p
        · rw [hq, update_self, update_self]
        · rw [update_of_ne hq, update_of_ne fun h => hq (cons.inj h).2]
      · rw [update_of_ne heq]
        congr 1
        funext q
        exact (update_of_ne (fun h => heq (cons.inj h).1) _ _).symm

theorem fold_congr : ∀ {p : List Nat} {rows rows' : List (List D)} {d : Nat} (x : D),
    Beside p rows rows' → fold node d p rows x = fold node d p rows' x := by
  intro p
  induction p with
  | nil =>
    intro rows rows' d x _
    cases rows <;> cases rows' <;> rfl
  | cons i p ih =>
    intro rows rows' d x h
    cases rows with
    | nil =>
      cases rows' with
      | nil => rfl
      | cons => exact h.elim
    | cons row rows =>
      cases rows' with
      | nil => exact h.elim
      | cons row' rows' => rw [fold, fold, h.1, ih x h.2]

theorem Beside.of_common : ∀ {rows rows' common : List (List D)},
    Beside p rows common → Beside p rows' common → Beside p rows rows' := by
  induction p with
  | nil =>
    intro rows rows' common h h'
    cases rows <;> cases rows' <;> cases common <;> trivial
  | cons i p ih =>
    intro rows rows' common h h'
    cases common with
    | nil => cases rows <;> cases rows' <;> trivial
    | cons row common =>
      cases rows with
      | nil => exact h.elim
      | cons =>
        cases rows' with
        | nil => exact h'.elim
        | cons => exact ⟨fun x => (h.1 x).trans (h'.1 x).symm, ih h.2 h'.2⟩

theorem fold_eq_root (hn : ∀ d, Injective (node d)) :
    ∀ {d : Nat} {leaf : List Nat → D} {p : List Nat} {rows : List (List D)} {x : D},
      IsPath k n p → rows.length = n → (∀ row ∈ rows, row.length = k) →
      fold node d p rows x = root k node n d leaf →
      x = leaf p ∧ Beside p rows (levels k node n d leaf p) := by
  induction n with
  | zero =>
    intro d leaf p rows x hp hr _ h
    cases length_eq_zero_iff.1 hp.1
    cases length_eq_zero_iff.1 hr
    exact ⟨h, trivial⟩
  | succ n ih =>
    intro d leaf p rows x hp hr hw h
    cases p with
    | nil => cases hp.1
    | cons i p =>
      cases rows with
      | nil => cases hr
      | cons row rows =>
        obtain ⟨hi, hp⟩ := IsPath.cons.1 hp
        obtain ⟨hrow, hw⟩ := forall_mem_cons.1 hw
        have heq : row.set i (fold node (d + 1) p rows x) = children k node n d leaf := hn d h
        have hc : fold node (d + 1) p rows x =
            root k node n (d + 1) fun q => leaf (i :: q) := by
          have hget := congrArg (·[i]?) heq
          simp only [getElem?_set_self (hrow ▸ hi), children] at hget
          simpa [hi] using hget
        obtain ⟨hl, hb⟩ := ih hp (Nat.succ.inj hr) hw hc
        refine ⟨hl, fun y => ?_, hb⟩
        rw [← heq, set_set]

/-! ## Compressed rows -/

/-- The row over `cs` from its encoded entries, in order; the others are the default. -/
def expand (encoded : Nat → Bool) (default : D) : List Nat → List D → List D
  | [], _ => []
  | c :: cs, entries =>
    if encoded c then entries.headD default :: expand encoded default cs entries.tail
    else default :: expand encoded default cs entries

variable {encoded encoded' : Nat → Bool} {default : D}

@[simp] theorem length_expand (cs : List Nat) : ∀ es : List D,
    (expand encoded default cs es).length = cs.length := by
  induction cs with
  | nil => simp [expand]
  | cons c cs ih =>
    intro es
    rw [expand]
    split_ifs <;> simp [ih]

theorem expand_filter (f : Nat → D) (cs : List Nat) :
    expand encoded default cs ((cs.filter encoded).map f) =
      cs.map fun c => if encoded c then f c else default := by
  induction cs with
  | nil => rfl
  | cons c cs ih =>
    by_cases hc : encoded c = true
    · rw [filter_cons_of_pos hc, map_cons, expand, if_pos hc, map_cons, if_pos hc]
      exact congrArg _ ih
    · rw [filter_cons_of_neg hc, expand, if_neg hc, map_cons, if_neg hc, ih]

/-- **A row has one compressed form that encodes no default.** -/
theorem expand_injective {cs : List Nat} : ∀ {es entries' : List D},
    es.length = (cs.filter encoded).length → entries'.length = (cs.filter encoded').length →
    (∀ x ∈ es, x ≠ default) → (∀ x ∈ entries', x ≠ default) →
    expand encoded default cs es = expand encoded' default cs entries' →
    (∀ c ∈ cs, encoded c = encoded' c) ∧ es = entries' := by
  induction cs with
  | nil =>
    intro es entries' hl hl' _ _ _
    rw [length_eq_zero_iff.1 hl, length_eq_zero_iff.1 hl']
    exact ⟨by simp, rfl⟩
  | cons c cs ih =>
    intro es entries' hl hl' hne hne' heq
    rw [filter_cons] at hl hl'
    rw [expand, expand] at heq
    -- an encoded entry differs from the default, so both forms encode the same entries
    cases hc : encoded c <;> cases hc' : encoded' c <;> simp only [hc, hc', if_true, if_false,
      Bool.false_eq_true, cons.injEq] at heq hl hl'
    · obtain ⟨hr, he⟩ := ih hl hl' hne hne' heq.2
      exact ⟨forall_mem_cons.2 ⟨by rw [hc, hc'], hr⟩, he⟩
    · cases entries' with
      | nil => cases hl'
      | cons x entries' => exact absurd heq.1.symm (hne' x (mem_cons_self ..))
    · cases es with
      | nil => cases hl
      | cons x es => exact absurd heq.1 (hne x (mem_cons_self ..))
    · cases es with
      | nil => cases hl
      | cons x es =>
        cases entries' with
        | nil => cases hl'
        | cons x' entries' =>
          obtain ⟨hr, he⟩ := ih (Nat.succ.inj hl) (Nat.succ.inj hl')
            (forall_mem_cons.1 hne).2 (forall_mem_cons.1 hne').2 heq.2
          exact ⟨forall_mem_cons.2 ⟨by rw [hc, hc'], hr⟩,
            congrArg₂ _ heq.1 he⟩

theorem expand_get_of_not_encoded (hi : encoded i = false) (n : Nat) :
    ∀ (a : Nat) (es : List D), a ≤ i → i < a + n →
      (expand encoded default (range' a n) es)[i - a]? = some default := by
  induction n with
  | zero =>
    omega
  | succ n ih =>
    intro a es hle hlt
    rw [range'_succ, expand]
    rcases Nat.eq_or_lt_of_le hle with heq | hlt'
    · subst heq
      rw [if_neg (by simp [hi]), Nat.sub_self]
      rfl
    · have hin : i - a = i - (a + 1) + 1 := by omega
      rw [hin]
      split_ifs
      · exact ih (a + 1) es.tail hlt' (by omega)
      · exact ih (a + 1) es hlt' (by omega)

end WideMerkle
