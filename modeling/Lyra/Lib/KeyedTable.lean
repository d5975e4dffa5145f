import Mathlib.Data.List.Nodup

/-!
# Keyed tables

A table of a relational store as the list of its rows: every row has a primary
key `pk`, and a second key `key` that is unique where it is present (SQL
`UNIQUE` over a nullable column lets the absent value repeat).  Both facts are
fields of the table, so every operation keeps them.

* `find` looks a row up by its second key; `find_eq_some_iff` is its meaning;
* `updateWhere`, `deleteWhere`, `upsert` are `UPDATE … WHERE`,
  `DELETE … WHERE` and `INSERT … ON CONFLICT (key) DO UPDATE`; each comes with
  its effect on membership and on `find`.
-/

namespace Lyra.Lib

/-- Two rows may carry the same key only when it is absent. -/
def KeysDistinct {α κ : Type} (key : α → Option κ) (l : List α) : Prop :=
  l.Pairwise fun a b => key a = none ∨ key a ≠ key b

theorem KeysDistinct.eq_of_key {α κ : Type} {key : α → Option κ} {l : List α}
    (h : KeysDistinct key l) {a b : α} {k : κ} (ha : a ∈ l) (hb : b ∈ l)
    (hka : key a = some k) (hkb : key b = some k) : a = b := by
  induction l with
  | nil => cases ha
  | cons x l ih =>
    obtain ⟨hx, hl⟩ := List.pairwise_cons.mp h
    -- the head and a later row with the same key would clash
    have hne : ∀ y ∈ l, key x = some k → key y = some k → False := by
      intro y hy hkx hky
      rcases hx y hy with e | e
      · rw [hkx] at e; cases e
      · exact e (hkx.trans hky.symm)
    rcases List.mem_cons.mp ha with rfl | ha'
    · rcases List.mem_cons.mp hb with rfl | hb'
      · rfl
      · exact (hne b hb' hka hkb).elim
    · rcases List.mem_cons.mp hb with rfl | hb'
      · exact (hne a ha' hkb hka).elim
      · exact ih hl ha' hb'

/-- Rows with a unique primary key and a unique optional second key. -/
structure KeyedTable (α : Type) {ι κ : Type} (pk : α → ι) (key : α → Option κ) where
  rows : List α
  ids : (rows.map pk).Nodup
  distinct : KeysDistinct key rows

namespace KeyedTable

variable {α ι κ : Type} {pk : α → ι} {key : α → Option κ}

/-- The empty table. -/
def empty : KeyedTable α pk key := ⟨[], List.nodup_nil, List.Pairwise.nil⟩

/-! ## Lookup -/

/-- The row with second key `k`. -/
def find [DecidableEq κ] (t : KeyedTable α pk key) (k : κ) : Option α :=
  t.rows.find? fun a => decide (key a = some k)

theorem eq_of_key (t : KeyedTable α pk key) {a b : α} {k : κ} (ha : a ∈ t.rows)
    (hb : b ∈ t.rows) (hka : key a = some k) (hkb : key b = some k) : a = b :=
  t.distinct.eq_of_key ha hb hka hkb

theorem eq_of_pk (t : KeyedTable α pk key) {a b : α} (ha : a ∈ t.rows) (hb : b ∈ t.rows)
    (h : pk a = pk b) : a = b :=
  List.inj_on_of_nodup_map t.ids ha hb h

theorem find_eq_some_iff [DecidableEq κ] (t : KeyedTable α pk key) (k : κ) (a : α) :
    t.find k = some a ↔ a ∈ t.rows ∧ key a = some k := by
  constructor
  · intro h
    exact ⟨List.mem_of_find?_eq_some h, by simpa using List.find?_some h⟩
  · rintro ⟨ha, hk⟩
    cases h : t.find k with
    | none =>
      have := List.find?_eq_none.mp h a ha
      simp [hk] at this
    | some b =>
      have hb : b ∈ t.rows := List.mem_of_find?_eq_some h
      have hkb : key b = some k := by simpa using List.find?_some h
      rw [t.eq_of_key hb ha hkb hk]

theorem find_eq_none_iff [DecidableEq κ] (t : KeyedTable α pk key) (k : κ) :
    t.find k = none ↔ ∀ a ∈ t.rows, key a ≠ some k := by
  simp [find]

/-! ## Updates -/

/-- `UPDATE … WHERE p`, for an update that keeps both keys. -/
def updateWhere (t : KeyedTable α pk key) (p : α → Bool) (f : α → α)
    (hpk : ∀ a, pk (f a) = pk a) (hkey : ∀ a, key (f a) = key a) : KeyedTable α pk key where
  rows := t.rows.map fun a => if p a then f a else a
  ids := by
    have e : (t.rows.map fun a => if p a then f a else a).map pk = t.rows.map pk := by
      rw [List.map_map]
      refine List.map_congr_left fun a _ => ?_
      simp only [Function.comp]
      split
      · exact hpk a
      · rfl
    rw [e]; exact t.ids
  distinct := by
    have e : ∀ a, key (if p a then f a else a) = key a := by
      intro a
      split
      · exact hkey a
      · rfl
    refine List.pairwise_map.mpr (t.distinct.imp ?_)
    intro a b h
    rw [e a, e b]; exact h

theorem mem_updateWhere (t : KeyedTable α pk key) (p : α → Bool) (f : α → α)
    (hpk : ∀ a, pk (f a) = pk a) (hkey : ∀ a, key (f a) = key a) (b : α) :
    b ∈ (t.updateWhere p f hpk hkey).rows ↔
      ∃ a ∈ t.rows, (if p a then f a else a) = b := by
  simp [updateWhere]

theorem find_updateWhere [DecidableEq κ] (t : KeyedTable α pk key) (p : α → Bool) (f : α → α)
    (hpk : ∀ a, pk (f a) = pk a) (hkey : ∀ a, key (f a) = key a) (k : κ) :
    (t.updateWhere p f hpk hkey).find k =
      (t.find k).map fun a => if p a then f a else a := by
  have e : ∀ a, key (if p a then f a else a) = key a := by
    intro a
    split
    · exact hkey a
    · rfl
  simp only [find, updateWhere, List.find?_map, Function.comp_def, e]

/-! ## Deletions -/

/-- `DELETE … WHERE p`. -/
def deleteWhere (t : KeyedTable α pk key) (p : α → Bool) : KeyedTable α pk key where
  rows := t.rows.filter fun a => !p a
  ids := (List.Sublist.map pk List.filter_sublist).nodup t.ids
  distinct := t.distinct.sublist List.filter_sublist

theorem mem_deleteWhere (t : KeyedTable α pk key) (p : α → Bool) (a : α) :
    a ∈ (t.deleteWhere p).rows ↔ a ∈ t.rows ∧ p a = false := by
  simp [deleteWhere]

theorem find_deleteWhere [DecidableEq κ] (t : KeyedTable α pk key) (p : α → Bool) (k : κ) :
    (t.deleteWhere p).find k = (t.find k).filter fun a => !p a := by
  apply Option.ext
  intro a
  rw [find_eq_some_iff, mem_deleteWhere, Option.filter_eq_some_iff, find_eq_some_iff]
  simp only [Bool.not_eq_true']
  tauto

/-! ## Upserts -/

/-- Row `x` holds the (present) second key of `a`. -/
def clash [DecidableEq κ] (key : α → Option κ) (a x : α) : Bool :=
  (key a).isSome && decide (key x = key a)

/-- `INSERT … ON CONFLICT (key) DO UPDATE`: merge into the row that holds the
key, or append.  A fresh row has a fresh primary key. -/
def upsert [DecidableEq κ] (t : KeyedTable α pk key) (a : α) (merge : α → α)
    (hpk : ∀ x, pk (merge x) = pk x) (hkey : ∀ x, key (merge x) = key x)
    (fresh : (∀ x ∈ t.rows, clash key a x = false) → ∀ x ∈ t.rows, pk x ≠ pk a) :
    KeyedTable α pk key :=
  if h : t.rows.any (clash key a) then t.updateWhere (clash key a) merge hpk hkey
  else
    { rows := t.rows ++ [a]
      ids := by
        have hc : ∀ x ∈ t.rows, clash key a x = false := by simpa using h
        rw [List.map_append, List.nodup_append]
        refine ⟨t.ids, by simp, ?_⟩
        intro x hx y hy
        obtain ⟨z, hz, rfl⟩ := List.mem_map.mp hx
        simp only [List.map_cons, List.map_nil, List.mem_singleton] at hy
        rw [hy]; exact fresh hc z hz
      distinct := by
        have hc : ∀ x ∈ t.rows, clash key a x = false := by simpa using h
        refine List.pairwise_append.mpr ⟨t.distinct, List.pairwise_singleton _ _, ?_⟩
        intro x hx y hy
        rw [List.mem_singleton.mp hy]
        have := hc x hx
        cases hk : key a with
        | none =>
          by_cases hxn : key x = none
          · exact Or.inl hxn
          · exact Or.inr hxn
        | some k =>
          right
          simpa [clash, hk] using this }

section Upsert
variable [DecidableEq κ] (t : KeyedTable α pk key) (a : α) (merge : α → α)
  (hpk : ∀ x, pk (merge x) = pk x) (hkey : ∀ x, key (merge x) = key x)
  (fresh : (∀ x ∈ t.rows, clash key a x = false) → ∀ x ∈ t.rows, pk x ≠ pk a)

theorem any_clash_iff {k : κ} (hk : key a = some k) :
    t.rows.any (clash key a) = true ↔ (t.find k).isSome = true := by
  rw [List.any_eq_true, Option.isSome_iff_exists]
  constructor
  · rintro ⟨x, hx, hc⟩
    exact ⟨x, (t.find_eq_some_iff k x).mpr ⟨hx, by simpa [clash, hk] using hc⟩⟩
  · rintro ⟨x, hx⟩
    obtain ⟨hm, hkx⟩ := (t.find_eq_some_iff k x).mp hx
    exact ⟨x, hm, by simp [clash, hk, hkx]⟩

/-- Where the key is held, an upsert is an update of the holder. -/
theorem upsert_of_held {k : κ} (hk : key a = some k) (h : (t.find k).isSome = true) :
    t.upsert a merge hpk hkey fresh = t.updateWhere (clash key a) merge hpk hkey := by
  rw [upsert, dif_pos ((any_clash_iff t a hk).mpr h)]

/-- Where the key is free, an upsert appends the new row. -/
theorem upsert_of_free {k : κ} (hk : key a = some k) (h : t.find k = none) :
    (t.upsert a merge hpk hkey fresh).rows = t.rows ++ [a] := by
  have hn : ¬ t.rows.any (clash key a) = true := by
    rw [any_clash_iff t a hk, h]; simp
  rw [upsert, dif_neg hn]

/-- Rows after an upsert of a keyed row. -/
theorem mem_upsert {k : κ} (hk : key a = some k) (b : α) :
    b ∈ (t.upsert a merge hpk hkey fresh).rows ↔
      (∃ x ∈ t.rows, (if key x = some k then merge x else x) = b) ∨
        (t.find k = none ∧ b = a) := by
  have hclash : ∀ x, clash key a x = decide (key x = some k) := by
    intro x; simp [clash, hk]
  cases h : t.find k with
  | none =>
    rw [upsert_of_free t a merge hpk hkey fresh hk h, List.mem_append, List.mem_singleton]
    have hne := (t.find_eq_none_iff k).mp h
    constructor
    · rintro (hb | hb)
      · exact Or.inl ⟨b, hb, by rw [if_neg (hne b hb)]⟩
      · exact Or.inr ⟨rfl, hb⟩
    · rintro (⟨x, hx, rfl⟩ | ⟨_, hb⟩)
      · left; rw [if_neg (hne x hx)]; exact hx
      · exact Or.inr hb
  | some y =>
    rw [upsert_of_held t a merge hpk hkey fresh hk (by rw [h]; rfl), mem_updateWhere]
    simp only [hclash, decide_eq_true_eq, reduceCtorEq, false_and, or_false]

/-- Lookup after an upsert of a keyed row. -/
theorem find_upsert {k : κ} (hk : key a = some k) (j : κ) :
    (t.upsert a merge hpk hkey fresh).find j =
      if j = k then some ((t.find k).elim a merge) else t.find j := by
  have hclash : ∀ x, clash key a x = decide (key x = some k) := by
    intro x; simp [clash, hk]
  cases h : t.find k with
  | none =>
    rw [find, upsert_of_free t a merge hpk hkey fresh hk h, List.find?_append]
    by_cases hj : j = k
    · subst hj
      have : t.rows.find? (fun a => decide (key a = some j)) = none := h
      simp [this, hk]
    · rw [if_neg hj]
      have : [a].find? (fun x => decide (key x = some j)) = none := by
        simp [hk, Ne.symm hj]
      rw [this, Option.or_none]; rfl
  | some y =>
    rw [upsert_of_held t a merge hpk hkey fresh hk (by rw [h]; rfl), find_updateWhere]
    obtain ⟨_, hy⟩ := (t.find_eq_some_iff k y).mp h
    by_cases hj : j = k
    · subst hj
      simp [h, hclash, hy]
    · rw [if_neg hj]
      cases hf : t.find j with
      | none => rfl
      | some z =>
        obtain ⟨_, hz⟩ := (t.find_eq_some_iff j z).mp hf
        simp [hclash, hz, hj]

end Upsert

end KeyedTable

/-! ## Insertions -/

namespace KeyedTable

variable {α ι κ : Type} {pk : α → ι} {key : α → Option κ} [DecidableEq ι] [DecidableEq κ]

/-- A row of the table is in the way of a new one. -/
def conflicts (t : KeyedTable α pk key) (a : α) : Bool :=
  t.rows.any fun x => decide (pk x = pk a) || clash key a x

theorem conflicts_eq_false {t : KeyedTable α pk key} {a : α} : t.conflicts a = false ↔
    ∀ x ∈ t.rows, pk x ≠ pk a ∧ clash key a x = false := by
  unfold conflicts
  rw [List.any_eq_false]
  refine forall₂_congr fun x _ => ?_
  rw [Bool.not_eq_true, Bool.or_eq_false_iff, decide_eq_false_iff_not]

theorem ids_append {t : KeyedTable α pk key} {a : α} (h : t.conflicts a = false) :
    ((t.rows ++ [a]).map pk).Nodup := by
  rw [List.map_append, List.nodup_append]
  refine ⟨t.ids, List.nodup_singleton _, ?_⟩
  intro x hx y hy
  obtain ⟨z, hz, rfl⟩ := List.mem_map.mp hx
  rw [List.map_singleton, List.mem_singleton] at hy
  rw [hy]
  exact (conflicts_eq_false.mp h z hz).1

theorem distinct_append {t : KeyedTable α pk key} {a : α} (h : t.conflicts a = false) :
    KeysDistinct key (t.rows ++ [a]) := by
  refine List.pairwise_append.mpr ⟨t.distinct, List.pairwise_singleton _ _, ?_⟩
  intro x hx y hy
  rw [List.mem_singleton.mp hy]
  have hclash := (conflicts_eq_false.mp h x hx).2
  unfold clash at hclash
  rcases Bool.and_eq_false_iff.mp hclash with hnone | hne
  · have hka : key a = none := Option.not_isSome_iff_eq_none.mp (hnone ▸ Bool.false_ne_true)
    cases hkx : key x with
    | none => exact .inl rfl
    | some k =>
      rw [hka]
      exact .inr (Option.some_ne_none k)
  · exact .inr (decide_eq_false_iff_not.mp hne)

/-- `INSERT`; `none` where a key is taken. -/
def insert (t : KeyedTable α pk key) (a : α) : Option (KeyedTable α pk key) :=
  if h : t.conflicts a = false then some ⟨t.rows ++ [a], ids_append h, distinct_append h⟩ else none

theorem insert_free {t : KeyedTable α pk key} {a : α} (h : t.conflicts a = false) :
    ∃ t', t.insert a = some t' ∧ t'.rows = t.rows ++ [a] := by
  unfold insert
  rw [dif_pos h]
  exact ⟨_, rfl, rfl⟩

theorem insert_taken {t : KeyedTable α pk key} {a : α} (h : t.conflicts a = true) :
    t.insert a = none := by
  unfold insert
  rw [dif_neg (h ▸ Bool.true_eq_false.mp)]

end KeyedTable

/-! ## Fresh primary keys -/

/-- A number above every listed one. -/
def freshNat (l : List Nat) : Nat := l.foldr max 0 + 1

theorem le_foldr_max {l : List Nat} {n : Nat} (h : n ∈ l) : n ≤ l.foldr max 0 := by
  induction l with
  | nil => cases h
  | cons m l ih =>
    rw [List.foldr_cons]
    rcases List.mem_cons.mp h with rfl | h
    · exact Nat.le_max_left _ _
    · exact Nat.le_trans (ih h) (Nat.le_max_right _ _)

theorem freshNat_not_mem (l : List Nat) : freshNat l ∉ l := by
  intro h
  have := le_foldr_max h
  unfold freshNat at this
  omega

/-- A word longer than every listed one. -/
def freshWord {σ : Type} (c : σ) (l : List (List σ)) : List σ :=
  List.replicate (freshNat (l.map List.length)) c

theorem freshWord_not_mem {σ : Type} (c : σ) (l : List (List σ)) : freshWord c l ∉ l := by
  intro h
  have := freshNat_not_mem (l.map List.length)
  exact this (List.mem_map.mpr ⟨_, h, by simp [freshWord]⟩)

end Lyra.Lib
