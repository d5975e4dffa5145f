import Mathlib.Logic.Relation
import Mathlib.Data.List.Nodup
import Mathlib.Data.List.Perm.Subperm

/-!
# Union-find over a map of parents

Parents are kept in a map from any type; a root is its own parent.  `find` follows parents to
the root and then makes every node on the way a child of the root; `union` finds two roots and
makes the first a child of the second.  Both are loops, here with a number of rounds after
which they give up; nothing bounds the height of the trees but the number of nodes.

`Depth parent x r k` says that the loop gets from `x` to the root `r` in `k` steps.

* `Depth.lt_length`: `k` is less than the number of nodes;
* `find_spec`, `union_spec`: with as many rounds as there are nodes both return, `find` keeps
  every root, and `union` joins two classes;
* `Represents.union`: a union adds its pair to the relation whose generated equivalence the
  classes are.
-/

namespace Lyra.Lib.UnionFind

open Relation

variable {α : Type} [DecidableEq α]

abbrev Parents (α : Type) := α → Option α

/-- `Map.set`. -/
def set (parent : Parents α) (x y : α) : Parents α := fun z => if z = x then some y else parent z

/-- Follow parents to the root.  A node without a parent is followed to itself, for ever. -/
def root (parent : Parents α) : Nat → α → Option α
  | 0, _ => none
  | n + 1, x => if parent x = some x then some x else root parent n ((parent x).getD x)

/-- Make the nodes from `x` on children of `r`. -/
def compress (r : α) : Nat → Parents α → α → Option (Parents α)
  | 0, _, _ => none
  | n + 1, parent, x =>
    if x = r then some parent else compress r n (set parent x r) ((parent x).getD r)

def find (n : Nat) (parent : Parents α) (x : α) : Option (α × Parents α) := do
  let r ← root parent n x
  let parent ← compress r n parent x
  return (r, parent)

def union (n : Nat) (parent : Parents α) (a b : α) : Option (Parents α) := do
  let (ra, parent) ← find n parent a
  let (rb, parent) ← find n parent b
  return if ra ≠ rb then set parent ra rb else parent

/-! ## Roots -/

/-- `k` steps lead from `x` to the root `r`. -/
inductive Depth (parent : Parents α) : α → α → Nat → Prop
  | root {x : α} : parent x = some x → Depth parent x x 0
  | step {x y r : α} {k : Nat} : parent x = some y → y ≠ x → Depth parent y r k →
      Depth parent x r (k + 1)

def HasRoot (parent : Parents α) (x r : α) : Prop := ∃ k, Depth parent x r k

variable {parent : Parents α} {x y r s : α} {k n : Nat}

omit [DecidableEq α] in
theorem Depth.eq {j : Nat} (h : Depth parent x r k) (h' : Depth parent x s j) : r = s ∧ k = j := by
  induction h generalizing j with
  | root hx =>
    cases h' with
    | root _ => exact ⟨rfl, rfl⟩
    | step hy hne _ =>
      rw [hx] at hy
      cases hy
      exact absurd rfl hne
  | step hy hne _ ih =>
    cases h' with
    | root hx =>
      rw [hx] at hy
      cases hy
      exact absurd rfl hne
    | step hy' _ h' =>
      rw [hy] at hy'
      cases hy'
      obtain ⟨hr, hk⟩ := ih h'
      exact ⟨hr, by rw [hk]⟩

omit [DecidableEq α] in
theorem HasRoot.eq (h : HasRoot parent x r) (h' : HasRoot parent x s) : r = s := by
  obtain ⟨k, h⟩ := h
  obtain ⟨j, h'⟩ := h'
  exact (h.eq h').1

omit [DecidableEq α] in
theorem Depth.root_isRoot (h : Depth parent x r k) : parent r = some r := by
  induction h with
  | root hx => exact hx
  | step _ _ _ ih => exact ih

omit [DecidableEq α] in
theorem HasRoot.self (h : HasRoot parent x r) : HasRoot parent r r := by
  obtain ⟨k, h⟩ := h
  exact ⟨0, .root h.root_isRoot⟩

omit [DecidableEq α] in
/-- The nodes on the way have different depths, so the way is no longer than the nodes are
many. -/
theorem Depth.lt_length {nodes : List α} (hnodes : ∀ x, parent x ≠ none → x ∈ nodes)
    (h : Depth parent x r k) : k < nodes.length := by
  have hway : ∃ l : List α, l.Nodup ∧ l.length = k + 1 ∧
      ∀ y ∈ l, y ∈ nodes ∧ ∃ j s, j ≤ k ∧ Depth parent y s j := by
    induction h with
    | @root x hx =>
      refine ⟨[x], List.nodup_singleton x, rfl, ?_⟩
      intro y hy
      rw [List.mem_singleton.mp hy]
      exact ⟨hnodes x (by simp [hx]), 0, x, Nat.le_refl 0, .root hx⟩
    | @step x y r k hy hne hd ih =>
      obtain ⟨l, hl, hlen, hmem⟩ := ih
      refine ⟨x :: l, List.nodup_cons.mpr ⟨?_, hl⟩, by rw [List.length_cons, hlen], ?_⟩
      · intro hin
        obtain ⟨-, j, s, hj, hd'⟩ := hmem x hin
        have := (hd'.eq (.step hy hne hd)).2
        omega
      · intro z hz
        rcases List.mem_cons.mp hz with rfl | hz
        · exact ⟨hnodes z (by simp [hy]), k + 1, r, Nat.le_refl _, .step hy hne hd⟩
        · obtain ⟨hin, j, s, hj, hd'⟩ := hmem z hz
          exact ⟨hin, j, s, Nat.le_succ_of_le hj, hd'⟩
  obtain ⟨l, hl, hlen, hmem⟩ := hway
  have hle := (List.subperm_of_subset hl fun y hy => (hmem y hy).1).length_le
  omega

/-! ## One loop after the other -/

theorem root_eq (h : Depth parent x r k) (hn : k < n) : root parent n x = some r := by
  induction h generalizing n with
  | root hx =>
    cases n with
    | zero => cases hn
    | succ n => rw [root, if_pos hx]
  | @step x y r k hy hne _ ih =>
    cases n with
    | zero => cases hn
    | succ n =>
      have hnot : parent x ≠ some x := by
        rw [hy]
        exact fun e => hne (Option.some.inj e)
      rw [root, if_neg hnot, hy]
      exact ih (Nat.lt_of_succ_lt_succ hn)

/-- A shortcut to the root keeps every root and lengthens no way. -/
theorem Depth.shortcut {c : α} (hc : HasRoot parent c r) (hne : c ≠ r) (h : Depth parent x s k) :
    ∃ j, j ≤ k ∧ Depth (set parent c r) x s j := by
  have hroot : set parent c r r = some r := by
    obtain ⟨_, hc⟩ := hc
    rw [set, if_neg (Ne.symm hne)]
    exact hc.root_isRoot
  induction h with
  | @root x hx =>
    refine ⟨0, Nat.le_refl 0, .root ?_⟩
    rw [set, if_neg]
    · exact hx
    · rintro rfl
      exact hne (HasRoot.eq ⟨0, .root hx⟩ hc)
  | @step x y s k hy hxy hd ih =>
    by_cases hxc : x = c
    · subst hxc
      have hs : s = r := HasRoot.eq ⟨k + 1, .step hy hxy hd⟩ hc
      subst hs
      exact ⟨1, Nat.succ_le_succ (Nat.zero_le k),
        .step (by rw [set, if_pos rfl]) (Ne.symm hne) (.root hroot)⟩
    · obtain ⟨j, hj, hd'⟩ := ih
      refine ⟨j + 1, Nat.succ_le_succ hj, .step ?_ hxy hd'⟩
      rw [set, if_neg hxc]
      exact hy

theorem compress_eq (h : Depth parent x r k) (hn : k < n) :
    ∃ parent', compress r n parent x = some parent' ∧
      (∀ y s, HasRoot parent y s → HasRoot parent' y s) ∧
      ∀ y, parent' y ≠ none → parent y ≠ none := by
  induction n generalizing parent x k with
  | zero => cases hn
  | succ n ih =>
    rw [compress]
    split
    case isTrue => exact ⟨parent, rfl, fun _ _ => id, fun _ => id⟩
    case isFalse hne =>
      cases h with
      | root _ => exact absurd rfl hne
      | @step _ y _ k hy hxy hd =>
        have hx : HasRoot parent x r := ⟨k + 1, .step hy hxy hd⟩
        obtain ⟨j, hj, hd'⟩ := hd.shortcut hx hne
        obtain ⟨parent', hc, hroots, hdom⟩ := ih hd' (by omega)
        refine ⟨parent', ?_, ?_, ?_⟩
        · rw [hy]
          exact hc
        · rintro z s ⟨m, hz⟩
          obtain ⟨m', -, hz'⟩ := hz.shortcut hx hne
          exact hroots z s ⟨m', hz'⟩
        · intro z hz
          have hz' := hdom z hz
          rw [set] at hz'
          split at hz'
          case isTrue he =>
            rw [he, hy]
            simp
          case isFalse => exact hz'

/-! ## Find and union -/

/-- Every node has a root, and the nodes are those listed. -/
structure Forest (parent : Parents α) (nodes : List α) : Prop where
  known : ∀ x, parent x ≠ none → x ∈ nodes
  rooted : ∀ x ∈ nodes, ∃ r, HasRoot parent x r

/-- With as many rounds as there are nodes `find` returns the root, and keeps all roots. -/
theorem find_spec {nodes : List α} (hp : Forest parent nodes) (hx : x ∈ nodes)
    (hn : nodes.length ≤ n) :
    ∃ r parent', find n parent x = some (r, parent') ∧ HasRoot parent x r ∧
      Forest parent' nodes ∧ ∀ y s, HasRoot parent y s → HasRoot parent' y s := by
  obtain ⟨r, k, hd⟩ := hp.rooted x hx
  have hk : k < n := Nat.lt_of_lt_of_le (hd.lt_length hp.known) hn
  obtain ⟨parent', hc, hroots, hdom⟩ := compress_eq hd hk
  refine ⟨r, parent', ?_, ⟨k, hd⟩, ⟨?_, ?_⟩, hroots⟩
  · rw [find, root_eq hd hk, Option.bind_eq_bind, Option.bind_some, hc]
    rfl
  · exact fun y hy => hp.known y (hdom y hy)
  · intro y hy
    obtain ⟨s, hs⟩ := hp.rooted y hy
    exact ⟨s, hroots y s hs⟩

/-- A root that becomes a child of another root hands its class over. -/
theorem HasRoot.link {a b : α} (ha : HasRoot parent a a) (hb : HasRoot parent b b) (hab : a ≠ b)
    (h : HasRoot parent x s) : HasRoot (set parent a b) x (if s = a then b else s) := by
  obtain ⟨_, ha⟩ := ha
  obtain ⟨_, hb⟩ := hb
  have hroot : set parent a b b = some b := by
    rw [set, if_neg (Ne.symm hab)]
    exact hb.root_isRoot
  obtain ⟨k, hd⟩ := h
  induction hd with
  | @root x hx =>
    split
    case isTrue he =>
      subst he
      exact ⟨1, .step (by rw [set, if_pos rfl]) (Ne.symm hab) (.root hroot)⟩
    case isFalse hxa =>
      refine ⟨0, .root ?_⟩
      rw [set, if_neg hxa]
      exact hx
  | @step x y s k hy hxy _ ih =>
    have hxa : x ≠ a := by
      rintro rfl
      rw [ha.root_isRoot] at hy
      cases hy
      exact hxy rfl
    obtain ⟨j, hd⟩ := ih
    refine ⟨j + 1, .step ?_ hxy hd⟩
    rw [set, if_neg hxa]
    exact hy

/-- With as many rounds as there are nodes `union` returns, and joins the two classes. -/
theorem union_spec {nodes : List α} {a b : α} (hp : Forest parent nodes) (ha : a ∈ nodes)
    (hb : b ∈ nodes) (hn : nodes.length ≤ n) :
    ∃ parent' ra rb, union n parent a b = some parent' ∧ Forest parent' nodes ∧
      HasRoot parent a ra ∧ HasRoot parent b rb ∧
      ∀ y s, HasRoot parent y s → HasRoot parent' y (if s = ra then rb else s) := by
  obtain ⟨ra, p₁, hfa, hra, hp₁, hroots₁⟩ := find_spec hp ha hn
  obtain ⟨rb, p₂, hfb, hrb, hp₂, hroots₂⟩ := find_spec hp₁ hb hn
  have hrb' : HasRoot parent b rb := by
    obtain ⟨s, hs⟩ := hp.rooted b hb
    rw [← (hroots₁ b s hs).eq hrb]
    exact hs
  have hunion : union n parent a b = some (if ra ≠ rb then set p₂ ra rb else p₂) := by
    rw [union, hfa, Option.bind_eq_bind, Option.bind_some]
    simp only [hfb, Option.bind_some]
    rfl
  by_cases hab : ra = rb
  · subst hab
    refine ⟨p₂, ra, ra, by rw [hunion, if_neg (by simp)], hp₂, hra, hrb', ?_⟩
    intro y s hs
    have hs' := hroots₂ y s (hroots₁ y s hs)
    split
    case isTrue he =>
      rw [← he]
      exact hs'
    case isFalse => exact hs'
  · have hlink : ∀ y s, HasRoot parent y s → HasRoot (set p₂ ra rb) y (if s = ra then rb else s) := by
      intro y s hs
      exact HasRoot.link (hroots₂ _ _ (hroots₁ _ _ hra)).self (hroots₂ _ _ hrb).self hab
        (hroots₂ y s (hroots₁ y s hs))
    refine ⟨set p₂ ra rb, ra, rb, by rw [hunion, if_pos hab], ⟨?_, ?_⟩, hra, hrb', hlink⟩
    · intro y hy
      rw [set] at hy
      split at hy
      case isTrue he =>
        obtain ⟨_, hd⟩ := (hroots₂ _ _ (hroots₁ _ _ hra)).self
        exact hp₂.known y (by rw [he, hd.root_isRoot]; simp)
      case isFalse => exact hp₂.known y hy
    · intro y hy
      obtain ⟨s, hs⟩ := hp.rooted y hy
      exact ⟨_, hlink y s hs⟩

/-! ## Classes -/

/-- Two nodes are in one class. -/
def Same (parent : Parents α) (x y : α) : Prop := ∃ r, HasRoot parent x r ∧ HasRoot parent y r

/-- The classes of the nodes are those the relation generates. -/
structure Represents (parent : Parents α) (nodes : List α) (R : α → α → Prop) : Prop where
  forest : Forest parent nodes
  inside : ∀ x y, R x y → x ∈ nodes ∧ y ∈ nodes
  classes : ∀ x ∈ nodes, ∀ y ∈ nodes, Same parent x y ↔ EqvGen R x y

omit [DecidableEq α] in
theorem eqvGen_of_generators {R S : α → α → Prop} (h : ∀ a b, R a b → EqvGen S a b)
    (hxy : EqvGen R x y) : EqvGen S x y := by
  induction hxy with
  | rel a b hab => exact h a b hab
  | refl a => exact .refl a
  | symm a b _ ih => exact .symm a b ih
  | trans a b c _ _ ih ih' => exact .trans a b c ih ih'

omit [DecidableEq α] in
/-- Every node on its own. -/
theorem represents_init {nodes : List α} (hroots : ∀ x ∈ nodes, parent x = some x)
    (hnodes : ∀ x, parent x ≠ none → x ∈ nodes) :
    Represents parent nodes fun _ _ => False := by
  have hroot : ∀ x ∈ nodes, HasRoot parent x x := fun x hx => ⟨0, .root (hroots x hx)⟩
  refine ⟨⟨hnodes, fun x hx => ⟨x, hroot x hx⟩⟩, nofun, ?_⟩
  intro x hx y hy
  constructor
  · rintro ⟨r, hxr, hyr⟩
    have hxy : x = y := ((hroot x hx).eq hxr).trans ((hroot y hy).eq hyr).symm
    rw [hxy]
    exact .refl y
  · intro h
    have hxy : x = y := by
      clear hx hy
      induction h with
      | rel a b hab => cases hab
      | refl a => rfl
      | symm a b _ ih => exact ih.symm
      | trans a b c _ _ ih ih' => exact ih.trans ih'
    rw [hxy]
    exact ⟨y, hroot y hy, hroot y hy⟩

section Represents

variable {nodes : List α} {R S : α → α → Prop} (h : Represents parent nodes R)
include h

omit [DecidableEq α] in
theorem Represents.of_generators (hinside : ∀ x y, S x y → x ∈ nodes ∧ y ∈ nodes)
    (hRS : ∀ x y, R x y → EqvGen S x y) (hSR : ∀ x y, S x y → EqvGen R x y) :
    Represents parent nodes S := by
  refine ⟨h.forest, hinside, ?_⟩
  intro x hx y hy
  rw [h.classes x hx y hy]
  exact ⟨eqvGen_of_generators hRS, eqvGen_of_generators hSR⟩

/-- A union adds its pair. -/
theorem Represents.union {a b : α} (ha : a ∈ nodes) (hb : b ∈ nodes) (hn : nodes.length ≤ n) :
    ∃ parent', UnionFind.union n parent a b = some parent' ∧
      Represents parent' nodes fun x y => R x y ∨ (x = a ∧ y = b) := by
  obtain ⟨parent', ra, rb, hunion, hf, hra, hrb, hroots⟩ := union_spec h.forest ha hb hn
  refine ⟨parent', hunion, hf, ?_, ?_⟩
  · rintro x y (hxy | ⟨rfl, rfl⟩)
    · exact h.inside x y hxy
    · exact ⟨ha, hb⟩
  have hab : EqvGen (fun x y => R x y ∨ (x = a ∧ y = b)) a b := .rel a b (.inr ⟨rfl, rfl⟩)
  have hclass : ∀ x ∈ nodes, ∀ s, HasRoot parent x s → ∀ c ∈ nodes, HasRoot parent c s →
      EqvGen (fun x y => R x y ∨ (x = a ∧ y = b)) x c := by
    intro x hx s hxs c hc hcs
    refine eqvGen_of_generators ?_ ((h.classes x hx c hc).mp ⟨s, hxs, hcs⟩)
    exact fun y z hyz => .rel y z (.inl hyz)
  intro x hx y hy
  obtain ⟨s, hs⟩ := h.forest.rooted x hx
  obtain ⟨t, ht⟩ := h.forest.rooted y hy
  constructor
  · rintro ⟨u, hxu, hyu⟩
    have hst : (if s = ra then rb else s) = if t = ra then rb else t :=
      ((hroots x s hs).eq hxu).trans ((hroots y t ht).eq hyu).symm
    by_cases hsa : s = ra
    · subst hsa
      rw [if_pos rfl] at hst
      by_cases hta : t = s
      · subst hta
        exact hclass x hx t hs y hy ht
      · rw [if_neg hta] at hst
        subst hst
        exact .trans x a y (hclass x hx s hs a ha hra)
          (.trans a b y hab (.symm y b (hclass y hy rb ht b hb hrb)))
    · rw [if_neg hsa] at hst
      by_cases hta : t = ra
      · subst hta
        rw [if_pos rfl] at hst
        subst hst
        exact .trans x b y (hclass x hx s hs b hb hrb)
          (.trans b a y (.symm a b hab) (.symm y a (hclass y hy t ht a ha hra)))
      · rw [if_neg hta] at hst
        subst hst
        exact hclass x hx s hs y hy ht
  · intro hxy
    -- only nodes are related to anything but themselves
    have hgen : ∀ x y, EqvGen (fun x y => R x y ∨ (x = a ∧ y = b)) x y →
        x = y ∨ Same parent' x y := by
      intro x y hxy
      induction hxy with
      | rel c d hcd =>
        right
        rcases hcd with hcd | ⟨rfl, rfl⟩
        · obtain ⟨hc, hd⟩ := h.inside c d hcd
          obtain ⟨u, hcu, hdu⟩ := (h.classes c hc d hd).mpr (.rel c d hcd)
          exact ⟨_, hroots c u hcu, hroots d u hdu⟩
        · have hra' := hroots c ra hra
          have hrb' := hroots d rb hrb
          rw [if_pos rfl] at hra'
          refine ⟨rb, hra', ?_⟩
          split at hrb'
          · exact hrb'
          · exact hrb'
      | refl c => exact .inl rfl
      | symm c d _ ih =>
        rcases ih with rfl | ⟨u, hc, hd⟩
        · exact .inl rfl
        · exact .inr ⟨u, hd, hc⟩
      | trans c d e _ _ ih ih' =>
        rcases ih with rfl | ⟨u, hc, hd⟩
        · exact ih'
        · rcases ih' with rfl | ⟨v, hd', he⟩
          · exact .inr ⟨u, hc, hd⟩
          · rw [hd'.eq hd] at he
            exact .inr ⟨u, hc, he⟩
    rcases hgen x y hxy with rfl | hsame
    · exact ⟨_, hroots x s hs, hroots x s hs⟩
    · exact hsame

end Represents

end Lyra.Lib.UnionFind
