import Mathlib.Data.List.Nodup
import Mathlib.Data.List.Sublists
import Mathlib.Order.Basic

/-!
# Groups by a key

`groupBy` collects the members of a list under their keys, in the order they come; members
without a key are left out.  `[x, y] <+ l` says that `x` stands before `y` in `l`.

* `mem_groupBy_iff`: a group is all the members of its key, in their order;
* `head?_mergeSort_iff`: a stable sort puts first what stands before all that is as good.
-/

namespace Lyra.Lib

variable {α κ : Type}

/-! ## Groups -/

section Groups

variable [DecidableEq κ]

def pushUnder (k : κ) (a : α) : List (κ × List α) → List (κ × List α)
  | [] => [(k, [a])]
  | g :: groups => if g.1 = k then (k, g.2 ++ [a]) :: groups else g :: pushUnder k a groups

def groupBy (key : α → Option κ) (l : List α) : List (κ × List α) :=
  l.foldl (fun groups a =>
    match key a with
    | some k => pushUnder k a groups
    | none => groups) []

theorem mem_keys_pushUnder {k i : κ} {a : α} {groups : List (κ × List α)} :
    i ∈ (pushUnder k a groups).map Prod.fst ↔ i = k ∨ i ∈ groups.map Prod.fst := by
  induction groups with
  | nil => simp [pushUnder]
  | cons g groups ih =>
    rw [pushUnder]
    split
    · rename_i hk
      simp [hk]
    · rw [List.map_cons, List.mem_cons, ih, List.map_cons, List.mem_cons]
      tauto

theorem nodup_keys_pushUnder {k : κ} {a : α} {groups : List (κ × List α)}
    (h : (groups.map Prod.fst).Nodup) : ((pushUnder k a groups).map Prod.fst).Nodup := by
  induction groups with
  | nil => simp [pushUnder]
  | cons g groups ih =>
    obtain ⟨hnot, hrest⟩ := List.nodup_cons.mp h
    rw [pushUnder]
    split
    · rename_i hk
      rw [List.map_cons, List.nodup_cons]
      exact ⟨hk ▸ hnot, hrest⟩
    · rename_i hk
      rw [List.map_cons, List.nodup_cons]
      refine ⟨?_, ih hrest⟩
      intro hmem
      rcases mem_keys_pushUnder.mp hmem with he | hmem
      · exact hk he
      · exact hnot hmem

theorem mem_pushUnder_iff {k : κ} {a : α} {groups : List (κ × List α)}
    (h : (groups.map Prod.fst).Nodup) {g : κ × List α} :
    g ∈ pushUnder k a groups ↔
      (g.1 ≠ k ∧ g ∈ groups) ∨ (∃ as, (k, as) ∈ groups ∧ g = (k, as ++ [a])) ∨
        (k ∉ groups.map Prod.fst ∧ g = (k, [a])) := by
  induction groups with
  | nil => simp [pushUnder]
  | cons g' groups ih =>
    obtain ⟨hnot, hrest⟩ := List.nodup_cons.mp h
    obtain ⟨k', as'⟩ := g'
    rw [pushUnder]
    split
    · rename_i hk
      obtain rfl : k' = k := hk
      have hapart : ∀ as, (k', as) ∉ groups :=
        fun as hin => hnot (List.mem_map.mpr ⟨(k', as), hin, rfl⟩)
      rw [List.mem_cons]
      constructor
      · rintro (rfl | hin)
        · exact .inr (.inl ⟨as', List.mem_cons_self, rfl⟩)
        · refine .inl ⟨?_, List.mem_cons_of_mem _ hin⟩
          intro he
          exact hapart g.2 (he ▸ hin)
      · rintro (⟨hne, hin⟩ | ⟨as, hin, rfl⟩ | ⟨hfree, -⟩)
        · rcases List.mem_cons.mp hin with rfl | hin
          · exact absurd rfl hne
          · exact .inr hin
        · rcases List.mem_cons.mp hin with he | hin
          · obtain ⟨-, rfl⟩ := Prod.mk.inj he
            exact .inl rfl
          · exact absurd hin (hapart as)
        · exact absurd List.mem_cons_self hfree
    · rename_i hk
      rw [List.mem_cons, ih hrest]
      constructor
      · rintro (rfl | ⟨hne, hin⟩ | ⟨as, hin, rfl⟩ | ⟨hfree, rfl⟩)
        · exact .inl ⟨hk, List.mem_cons_self⟩
        · exact .inl ⟨hne, List.mem_cons_of_mem _ hin⟩
        · exact .inr (.inl ⟨as, List.mem_cons_of_mem _ hin, rfl⟩)
        · refine .inr (.inr ⟨?_, rfl⟩)
          rw [List.map_cons, List.mem_cons]
          exact not_or.mpr ⟨Ne.symm hk, hfree⟩
      · rintro (⟨hne, hin⟩ | ⟨as, hin, rfl⟩ | ⟨hfree, rfl⟩)
        · rcases List.mem_cons.mp hin with rfl | hin
          · exact .inl rfl
          · exact .inr (.inl ⟨hne, hin⟩)
        · rcases List.mem_cons.mp hin with he | hin
          · exact absurd (Prod.mk.inj he).1.symm hk
          · exact .inr (.inr (.inl ⟨as, hin, rfl⟩))
        · refine .inr (.inr (.inr ⟨?_, rfl⟩))
          exact fun hin => hfree (List.mem_cons_of_mem _ hin)

/-- The groups of the members that are done. -/
structure Grouped (key : α → Option κ) (done : List α) (groups : List (κ × List α)) : Prop where
  keys : (groups.map Prod.fst).Nodup
  mem : ∀ g, g ∈ groups ↔ g.2 = done.filter (fun a => key a = some g.1) ∧ g.2 ≠ []

theorem Grouped.skip {key : α → Option κ} {done : List α} {groups : List (κ × List α)}
    (h : Grouped key done groups) {a : α} (ha : key a = none) :
    Grouped key (done ++ [a]) groups where
  keys := h.keys
  mem g := by simp [h.mem, List.filter_append, ha]

theorem Grouped.push {key : α → Option κ} {done : List α} {groups : List (κ × List α)}
    (h : Grouped key done groups) {a : α} {k : κ} (ha : key a = some k) :
    Grouped key (done ++ [a]) (pushUnder k a groups) where
  keys := nodup_keys_pushUnder h.keys
  mem g := by
    obtain ⟨i, as⟩ := g
    rw [mem_pushUnder_iff h.keys, List.filter_append, List.filter_singleton]
    have hfree : k ∉ groups.map Prod.fst ↔ done.filter (fun a => key a = some k) = [] := by
      constructor
      · intro hnot
        by_contra hne
        exact hnot (List.mem_map_of_mem ((h.mem (k, _)).mpr ⟨rfl, hne⟩))
      · intro hnil hin
        obtain ⟨g, hg, rfl⟩ := List.mem_map.mp hin
        obtain ⟨he, hne⟩ := (h.mem g).mp hg
        exact hne (he.trans hnil)
    by_cases hi : i = k
    · subst hi
      simp only [h.mem, hfree, ha, ne_eq, not_true_eq_false, false_and, false_or, Prod.mk.injEq,
        true_and, decide_true]
      by_cases hnil : done.filter (fun a => key a = some i) = []
      · rw [hnil]
        constructor
        · rintro (⟨bs, ⟨hbs, hne⟩, -⟩ | ⟨-, rfl⟩)
          · exact absurd (hbs.trans hnil) hne
          · exact ⟨rfl, by simp⟩
        · rintro ⟨rfl, -⟩
          exact .inr ⟨rfl, rfl⟩
      · constructor
        · rintro (⟨bs, ⟨hbs, -⟩, has⟩ | ⟨he, -⟩)
          · rw [has, hbs]
            exact ⟨rfl, by simp⟩
          · exact absurd he hnil
        · rintro ⟨has, -⟩
          exact .inl ⟨_, ⟨rfl, hnil⟩, has⟩
    · have hne : ¬some k = some i := fun e => hi (Option.some.inj e).symm
      simp [h.mem, ha, hi, Ne.symm hi]

theorem grouped_foldl {key : α → Option κ} (l done : List α) (groups : List (κ × List α))
    (h : Grouped key done groups) :
    Grouped key (done ++ l) (l.foldl (fun groups a =>
      match key a with
      | some k => pushUnder k a groups
      | none => groups) groups) := by
  induction l generalizing done groups with
  | nil => rwa [List.append_nil]
  | cons a l ih =>
    have happend : done ++ a :: l = done ++ [a] ++ l := by simp
    rw [happend, List.foldl_cons]
    refine ih _ _ ?_
    cases ha : key a with
    | none => exact h.skip ha
    | some k => exact h.push ha

theorem grouped_groupBy (key : α → Option κ) (l : List α) : Grouped key l (groupBy key l) :=
  grouped_foldl l [] [] ⟨List.nodup_nil, fun g => by simp⟩

/-- A group is all the members of its key, in their order. -/
theorem mem_groupBy_iff {key : α → Option κ} {l : List α} {g : κ × List α} :
    g ∈ groupBy key l ↔ g.2 = l.filter (fun a => key a = some g.1) ∧ g.2 ≠ [] :=
  (grouped_groupBy key l).mem g

end Groups

/-! ## Who stands first -/

section Order

open scoped List

variable {l : List α} {x y : α}

theorem mem_of_pair_sublist (h : [x, y] <+ l) : x ∈ l ∧ y ∈ l :=
  ⟨h.subset List.mem_cons_self, h.subset (List.mem_cons_of_mem _ List.mem_cons_self)⟩

theorem not_pair_sublist_swap (hnodup : l.Nodup) (h : [x, y] <+ l) : ¬[y, x] <+ l := by
  induction l with
  | nil => cases h
  | cons z l ih =>
    obtain ⟨hz, hl⟩ := List.nodup_cons.mp hnodup
    intro hswap
    rw [List.cons_sublist_cons'] at h hswap
    rcases h with h | ⟨rfl, h⟩
    · rcases hswap with hswap | ⟨rfl, hswap⟩
      · exact ih hl h hswap
      · exact hz (mem_of_pair_sublist h).2
    · rcases hswap with hswap | ⟨rfl, hswap⟩
      · exact hz (mem_of_pair_sublist hswap).2
      · exact hz (List.singleton_sublist.mp h)

theorem pair_sublist_total (hx : x ∈ l) (hy : y ∈ l) (hne : x ≠ y) : [x, y] <+ l ∨ [y, x] <+ l := by
  induction l with
  | nil => cases hx
  | cons z l ih =>
    rcases List.mem_cons.mp hx with rfl | hxl
    · have hyl : y ∈ l := (List.mem_cons.mp hy).resolve_left (Ne.symm hne)
      exact .inl ((List.singleton_sublist.mpr hyl).cons_cons x)
    · rcases List.mem_cons.mp hy with rfl | hyl
      · exact .inr ((List.singleton_sublist.mpr hxl).cons_cons y)
      · exact (ih hxl hyl).imp (List.Sublist.cons z) (List.Sublist.cons z)

theorem pair_sublist_filter {p : α → Bool} :
    [x, y] <+ l.filter p ↔ [x, y] <+ l ∧ p x = true ∧ p y = true := by
  constructor
  · intro h
    obtain ⟨hx, hy⟩ := mem_of_pair_sublist h
    exact ⟨h.trans List.filter_sublist, (List.mem_filter.mp hx).2, (List.mem_filter.mp hy).2⟩
  · rintro ⟨h, hx, hy⟩
    have hpair := h.filter p
    rwa [List.filter_cons_of_pos hx, List.filter_cons_of_pos hy, List.filter_nil] at hpair

variable {le : α → α → Bool}

/-- Where two members stand after a stable sort. -/
theorem pair_sublist_mergeSort_iff (htrans : ∀ a b c, le a b = true → le b c = true → le a c = true)
    (htotal : ∀ a b, (le a b || le b a) = true) (hnodup : l.Nodup) (hx : x ∈ l) (hy : y ∈ l)
    (hne : x ≠ y) :
    [x, y] <+ l.mergeSort le ↔ le x y = true ∧ (le y x = true → [x, y] <+ l) := by
  have hsorted : (l.mergeSort le).Pairwise fun a b => le a b = true :=
    List.pairwise_mergeSort htrans htotal l
  have hnodup' : (l.mergeSort le).Nodup := (List.mergeSort_perm l le).nodup_iff.mpr hnodup
  constructor
  · intro h
    refine ⟨by simpa using hsorted.sublist h, fun hyx => ?_⟩
    rcases pair_sublist_total hx hy hne with hl | hl
    · exact hl
    · have hyx' := List.pair_sublist_mergeSort htrans htotal hyx hl
      exact absurd hyx' (not_pair_sublist_swap hnodup' h)
  · rintro ⟨hxy, hback⟩
    have hmem (z : α) : z ∈ l.mergeSort le ↔ z ∈ l := (List.mergeSort_perm l le).mem_iff
    rcases pair_sublist_total ((hmem x).mpr hx) ((hmem y).mpr hy) hne with h | h
    · exact h
    · have hyx : le y x = true := by simpa using hsorted.sublist h
      exact List.pair_sublist_mergeSort htrans htotal hxy (hback hyx)

theorem head?_iff (hnodup : l.Nodup) :
    l.head? = some x ↔ x ∈ l ∧ ∀ y ∈ l, y ≠ x → [x, y] <+ l := by
  cases l with
  | nil => simp
  | cons z l =>
    rw [List.head?_cons, Option.some_inj]
    constructor
    · rintro rfl
      refine ⟨List.mem_cons_self, fun y hy hne => ?_⟩
      have hy : y ∈ l := (List.mem_cons.mp hy).resolve_left hne
      exact (List.singleton_sublist.mpr hy).cons_cons z
    · rintro ⟨hx, hfirst⟩
      by_contra hne
      have hx : x ∈ l := (List.mem_cons.mp hx).resolve_left fun e => hne e.symm
      have hswap := (List.singleton_sublist.mpr hx).cons_cons z
      exact not_pair_sublist_swap hnodup (hfirst z List.mem_cons_self hne) hswap

/-- The first of a stable sort stands before all that is as good. -/
theorem head?_mergeSort_iff (htrans : ∀ a b c, le a b = true → le b c = true → le a c = true)
    (htotal : ∀ a b, (le a b || le b a) = true) (hnodup : l.Nodup) :
    (l.mergeSort le).head? = some x ↔
      x ∈ l ∧ ∀ y ∈ l, y ≠ x → le x y = true ∧ (le y x = true → [x, y] <+ l) := by
  have hperm := List.mergeSort_perm l le
  rw [head?_iff (hperm.nodup_iff.mpr hnodup), hperm.mem_iff]
  refine and_congr_right fun hx => ?_
  constructor
  · intro h y hy hne
    exact (pair_sublist_mergeSort_iff htrans htotal hnodup hx hy (Ne.symm hne)).mp
      (h y (hperm.mem_iff.mpr hy) hne)
  · intro h y hy hne
    have hy := hperm.mem_iff.mp hy
    exact (pair_sublist_mergeSort_iff htrans htotal hnodup hx hy (Ne.symm hne)).mpr (h y hy hne)

end Order

end Lyra.Lib
