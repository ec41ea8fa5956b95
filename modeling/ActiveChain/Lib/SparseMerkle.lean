import Mathlib.Algebra.Order.Ring.Nat

/-!
# Sparse Merkle trees

A complete binary tree over bit paths: a leaf digest for every path, an inner hash that may depend
on the depth.  Nothing is stored here; the tree is a function of its leaves.

* `fold`, `siblings` — a path hashed from its leaf upwards, and the siblings it needs.
* `fold_siblings` — the tree's own siblings give the root after changing one leaf.
* `fold_eq_root` — **a path that reaches the root carries the tree's leaf and the tree's siblings**.
* `root_const`, `foldr_zipIdx` — loops over the levels as trees and folds.
-/

universe u

namespace SparseMerkle

open Function List

variable {D : Type u} (node : Nat → D → D → D)

/-- The digest of the tree of height `n` at depth `d` whose leaves are given by `leaf`. -/
def root : Nat → Nat → (List Bool → D) → D
  | 0, _, leaf => leaf []
  | n + 1, d, leaf => node d (root n (d + 1) fun p => leaf (false :: p))
      (root n (d + 1) fun p => leaf (true :: p))

/-- A path hashed from its leaf upwards, with siblings in the order of the path. -/
def fold : Nat → List Bool → List D → D → D
  | d, b :: p, s :: ss, x =>
    if b then node d s (fold (d + 1) p ss x) else node d (fold (d + 1) p ss x) s
  | _, _, _, x => x

def siblings : Nat → Nat → (List Bool → D) → List Bool → List D
  | n + 1, d, leaf, b :: p => root node n (d + 1) (fun q => leaf ((!b) :: q)) ::
      siblings n (d + 1) (fun q => leaf (b :: q)) p
  | _, _, _, _ => []

/-- The digest of the subtree below a path, in a tree of height `n`. -/
def subtree (n : Nat) (leaf : List Bool → D) (path : List Bool) : D :=
  root node (n - path.length) path.length fun q => leaf (path ++ q)

/-- The inner hash determines both children. -/
def NodeInjective : Prop := ∀ d l r l' r', node d l r = node d l' r' → l = l' ∧ r = r'

variable {node}

theorem siblings_eq_map (n : Nat) : ∀ d (leaf : List Bool → D) (p : List Bool), p.length = n →
    siblings node n d leaf p = (range n).map fun i =>
      root node (n - 1 - i) (d + 1 + i) fun q => leaf (p.take i ++ (!p.getD i false) :: q) := by
  induction n with
  | zero =>
    intro d leaf p hp
    rfl
  | succ n ih =>
    intro d leaf p hp
    cases p with
    | nil => cases hp
    | cons b p =>
      rw [siblings, ih (d + 1) _ p (Nat.succ.inj hp), range_succ_eq_map, map_cons, map_map]
      refine congrArg₂ cons rfl (map_congr_left fun i _ => ?_)
      congr 1
      · omega
      · omega

theorem length_siblings (n : Nat) (d : Nat) (leaf : List Bool → D) (p : List Bool)
    (hp : p.length = n) : (siblings node n d leaf p).length = n := by
  rw [siblings_eq_map n d leaf p hp, length_map, length_range]

theorem root_congr {n : Nat} : ∀ {d : Nat} {leaf leaf' : List Bool → D},
    (∀ p : List Bool, p.length = n → leaf p = leaf' p) →
      root node n d leaf = root node n d leaf' := by
  induction n with
  | zero =>
    intro d leaf leaf' h
    exact h [] rfl
  | succ n ih =>
    intro d leaf leaf' h
    have hh : ∀ b, root node n (d + 1) (fun p => leaf (b :: p)) =
        root node n (d + 1) fun p => leaf' (b :: p) :=
      fun b => ih fun p hp => h (b :: p) (congrArg Nat.succ hp)
    rw [root, hh false, hh true, root]

theorem fold_siblings {n : Nat} : ∀ {d : Nat} {leaf : List Bool → D} {p : List Bool} (x : D),
    p.length = n → fold node d p (siblings node n d leaf p) x =
      root node n d (update leaf p x) := by
  induction n with
  | zero =>
    intro d leaf p x hp
    cases length_eq_zero_iff.1 hp
    exact (update_self ([] : List Bool) x leaf).symm
  | succ n ih =>
    intro d leaf p x hp
    cases p with
    | nil => cases hp
    | cons b p =>
      have hc : (fun q => update leaf (b :: p) x (b :: q)) =
          update (fun q => leaf (b :: q)) p x := by
        funext q
        by_cases hq : q = p
        · rw [hq, update_self, update_self]
        · rw [update_of_ne hq, update_of_ne (fun h => hq (cons.inj h).2)]
      have ho : (fun q => update leaf (b :: p) x ((!b) :: q)) = fun q => leaf ((!b) :: q) := by
        funext q
        refine update_of_ne (fun h => ?_) _ _
        have hbit := (cons.inj h).1
        cases b <;> cases hbit
      rw [siblings, fold, ih x (Nat.succ.inj hp), ← hc, ← ho, root]
      cases b <;> rfl

theorem fold_siblings_self {n d : Nat} {leaf : List Bool → D} {p : List Bool} (hp : p.length = n) :
    fold node d p (siblings node n d leaf p) (leaf p) = root node n d leaf := by
  rw [fold_siblings (leaf p) hp, update_eq_self]

theorem fold_eq_root (hn : NodeInjective node) {n : Nat} :
    ∀ {d : Nat} {leaf : List Bool → D} {p : List Bool} {ss : List D} {x : D},
      p.length = n → ss.length = n → fold node d p ss x = root node n d leaf →
      x = leaf p ∧ ss = siblings node n d leaf p := by
  induction n with
  | zero =>
    intro d leaf p ss x hp hs h
    cases length_eq_zero_iff.1 hp
    cases length_eq_zero_iff.1 hs
    exact ⟨h, rfl⟩
  | succ n ih =>
    intro d leaf p ss x hp hs h
    cases p with
    | nil => cases hp
    | cons b p =>
      cases ss with
      | nil => cases hs
      | cons s ss =>
        -- the top hash fixes the sibling and the subtree on the path
        have htop : s = root node n (d + 1) (fun q => leaf ((!b) :: q)) ∧
            fold node (d + 1) p ss x = root node n (d + 1) fun q => leaf (b :: q) := by
          cases b with
          | false => exact (hn _ _ _ _ _ h).symm
          | true => exact hn _ _ _ _ _ h
        obtain ⟨hx, hss⟩ := ih (Nat.succ.inj hp) (Nat.succ.inj hs) htop.2
        exact ⟨hx, congrArg₂ cons htop.1 hss⟩

/-! ## Subtrees -/

section Subtrees

variable {n : Nat} {leaf leaf' : List Bool → D} {path : List Bool}

theorem subtree_nil : subtree node n leaf [] = root node n 0 leaf := rfl

theorem subtree_full (h : path.length = n) : subtree node n leaf path = leaf path := by
  rw [subtree, h, Nat.sub_self, root, append_nil]

theorem subtree_split (h : path.length < n) :
    subtree node n leaf path = node path.length (subtree node n leaf (path ++ [false]))
      (subtree node n leaf (path ++ [true])) := by
  have hh : n - path.length = n - (path.length + 1) + 1 := by omega
  have hc : ∀ b, subtree node n leaf (path ++ [b]) =
      root node (n - (path.length + 1)) (path.length + 1) fun q => leaf (path ++ b :: q) := by
    intro b
    rw [subtree, length_append, length_singleton]
    simp
  rw [hc, hc, subtree, hh, root]

theorem siblings_eq_subtrees (h : path.length = n) :
    siblings node n 0 leaf path =
      (range n).map fun i => subtree node n leaf (path.take i ++ [!path.getD i false]) := by
  rw [siblings_eq_map n 0 leaf path h]
  refine map_congr_left fun i hi => ?_
  have hi : i < n := mem_range.1 hi
  rw [subtree, length_append, length_take, length_singleton,
    show min i path.length = i by omega, show n - (i + 1) = n - 1 - i by omega, Nat.zero_add,
    Nat.add_comm 1 i]
  simp

end Subtrees

theorem root_const (x : D) : ∀ n d, root node n d (fun _ => x) =
    (range' d n).foldr (fun depth child => node depth child child) x
  | 0, _ => rfl
  | n + 1, d => by rw [root, root_const x n (d + 1), range'_succ, foldr_cons]

theorem foldr_zipIdx (bit : Nat → Bool) (x : D) : ∀ (ss : List D) d,
    (ss.zipIdx d).foldr (fun (s, depth) child =>
      if bit depth then node depth s child else node depth child s) x =
    fold node d ((range' d ss.length).map bit) ss x
  | [], _ => rfl
  | s :: ss, d => by
    rw [zipIdx_cons, foldr_cons, foldr_zipIdx bit x ss (d + 1), length_cons,
      range'_succ, map_cons, fold]

theorem fold_concat {b : Bool} {s x : D} : ∀ {d : Nat} {path : List Bool} {ss : List D},
    ss.length = path.length → fold node d (path ++ [b]) (ss ++ [s]) x =
      fold node d path ss (if b then node (d + path.length) s x else node (d + path.length) x s)
  | d, [], [], _ => by simp [fold]
  | d, c :: path, t :: ss, h => by
    rw [cons_append, cons_append, fold, fold, fold_concat (Nat.succ.inj h),
      length_cons, show d + 1 + path.length = d + (path.length + 1) by omega]

end SparseMerkle
