import Mathlib.Data.List.Nodup
import Mathlib.Data.List.Chain
import Mathlib.Data.List.Perm.Subperm
import Mathlib.Logic.Relation

/-!
# Outlines

The nodes below a node, in depth-first order and with their depths, for any function that gives
the children of a node.  The recursion has a number of rounds; without enough of them there is no
outline.

* `outline_isSome`: below a node without cycles there are rounds enough when there are as many as
  nodes;
* `mem_outline_iff`, `nodup_outline`, `nested_outline`: what is listed, that it is listed once, and
  that a child comes directly below its parent, one deeper;
* `acyclic_of_root`: below a root there are no cycles, where a node has one parent.
-/

namespace Lyra.Lib

open Relation

variable {α : Type} (children : α → List α)

def outline : Nat → Nat → α → Option (List (α × Nat))
  | 0, _, _ => none
  | rounds + 1, d, a =>
    ((children a).mapM (outline rounds (d + 1))).map fun below => (a, d) :: below.flatten

/-- The outlines of a list of nodes, one after the other. -/
def outlines (rounds d : Nat) (l : List α) : Option (List (α × Nat)) :=
  (l.mapM (outline children rounds d)).map List.flatten

def IsChild (a x : α) : Prop := x ∈ children a

variable {children} {rounds d e : Nat} {a b x : α} {l : List α} {rows : List (α × Nat)}

theorem outline_succ (rounds d : Nat) (a : α) :
    outline children (rounds + 1) d a =
      (outlines children rounds (d + 1) (children a)).map fun below => (a, d) :: below := by
  rw [outline, outlines, Option.map_map]
  rfl

theorem outlines_nil (rounds d : Nat) : outlines children rounds d [] = some [] := by
  simp [outlines]

theorem outlines_cons (rounds d : Nat) (a : α) (l : List α) :
    outlines children rounds d (a :: l) =
      (outline children rounds d a).bind fun first =>
        (outlines children rounds d l).map fun rest => first ++ rest := by
  unfold outlines
  rw [List.mapM_cons]
  cases outline children rounds d a with
  | none => rfl
  | some first =>
    cases l.mapM (outline children rounds d) with
    | none => rfl
    | some rest => rfl

theorem outlines_append {l₁ l₂ : List α} :
    outlines children rounds d (l₁ ++ l₂) =
      (outlines children rounds d l₁).bind fun first =>
        (outlines children rounds d l₂).map fun rest => first ++ rest := by
  induction l₁ with
  | nil =>
    rw [List.nil_append, outlines_nil, Option.bind_some]
    simp
  | cons a l₁ ih =>
    rw [List.cons_append, outlines_cons, outlines_cons, ih]
    cases outline children rounds d a with
    | none => rfl
    | some first =>
      cases outlines children rounds d l₁ with
      | none => rfl
      | some rest =>
        cases outlines children rounds d l₂ with
        | none => rfl
        | some last => simp

/-! ## Rounds -/

theorem outlines_eq_none (h : outlines children rounds d l = none) :
    ∃ a ∈ l, outline children rounds d a = none := by
  induction l with
  | nil =>
    rw [outlines_nil] at h
    cases h
  | cons a l ih =>
    rw [outlines_cons] at h
    cases ha : outline children rounds d a with
    | none => exact ⟨a, List.mem_cons_self, ha⟩
    | some first =>
      rw [ha, Option.bind_some, Option.map_eq_none_iff] at h
      obtain ⟨b, hb, hnone⟩ := ih h
      exact ⟨b, List.mem_cons_of_mem a hb, hnone⟩

theorem exists_chain_of_outline (h : outline children rounds d a = none) :
    ∃ l : List α, l.length = rounds ∧ (a :: l).IsChain (IsChild children) := by
  induction rounds generalizing a d with
  | zero => exact ⟨[], rfl, List.isChain_singleton a⟩
  | succ rounds ih =>
    rw [outline_succ, Option.map_eq_none_iff] at h
    obtain ⟨b, hb, hnone⟩ := outlines_eq_none h
    obtain ⟨l, hlen, hchain⟩ := ih hnone
    exact ⟨b :: l, by rw [List.length_cons, hlen], hchain.cons_cons hb⟩

theorem mem_chain (h : (a :: l).IsChain (IsChild children)) (hx : x ∈ a :: l) :
    ReflTransGen (IsChild children) a x := by
  induction l generalizing a with
  | nil =>
    rw [List.mem_singleton.mp hx]
  | cons b l ih =>
    obtain ⟨hab, hchain⟩ := List.isChain_cons_cons.mp h
    rcases List.mem_cons.mp hx with rfl | hx
    · exact .refl
    · exact .head hab (ih hchain hx)

theorem nodup_chain (hacyclic : ∀ x, ReflTransGen (IsChild children) a x →
    ¬TransGen (IsChild children) x x) (h : (a :: l).IsChain (IsChild children)) :
    (a :: l).Nodup := by
  induction l generalizing a with
  | nil => exact List.nodup_singleton a
  | cons b l ih =>
    obtain ⟨hab, hchain⟩ := List.isChain_cons_cons.mp h
    refine List.nodup_cons.mpr ⟨fun ha => ?_, ih (fun x hx => hacyclic x (.head hab hx)) hchain⟩
    exact hacyclic a .refl (.head' hab (mem_chain hchain ha))

theorem outline_isSome {nodes : List α}
    (hnodes : ∀ x, ReflTransGen (IsChild children) a x → x ∈ nodes)
    (hacyclic : ∀ x, ReflTransGen (IsChild children) a x → ¬TransGen (IsChild children) x x)
    (hrounds : nodes.length ≤ rounds) (d : Nat) :
    ∃ rows, outline children rounds d a = some rows := by
  cases h : outline children rounds d a with
  | some rows => exact ⟨rows, rfl⟩
  | none =>
    obtain ⟨l, hlen, hchain⟩ := exists_chain_of_outline h
    have hsub : (a :: l) ⊆ nodes := fun x hx => hnodes x (mem_chain hchain hx)
    have hle := (List.subperm_of_subset (nodup_chain hacyclic hchain) hsub).length_le
    rw [List.length_cons] at hle
    omega

theorem outlines_isSome {nodes : List α}
    (hnodes : ∀ a ∈ l, ∀ x, ReflTransGen (IsChild children) a x → x ∈ nodes)
    (hacyclic : ∀ a ∈ l, ∀ x, ReflTransGen (IsChild children) a x →
      ¬TransGen (IsChild children) x x)
    (hrounds : nodes.length ≤ rounds) (d : Nat) :
    ∃ rows, outlines children rounds d l = some rows := by
  cases h : outlines children rounds d l with
  | some rows => exact ⟨rows, rfl⟩
  | none =>
    obtain ⟨a, ha, hnone⟩ := outlines_eq_none h
    obtain ⟨rows, hrows⟩ := outline_isSome (hnodes a ha) (hacyclic a ha) hrounds d
    rw [hnone] at hrows
    cases hrows

/-! ## What is listed -/

theorem mem_outlines_of (hone : ∀ a rows, outline children rounds d a = some rows →
      ((∃ e, (x, e) ∈ rows) ↔ ReflTransGen (IsChild children) a x))
    (h : outlines children rounds d l = some rows) :
    (∃ e, (x, e) ∈ rows) ↔ ∃ b ∈ l, ReflTransGen (IsChild children) b x := by
  induction l generalizing rows with
  | nil =>
    rw [outlines_nil] at h
    cases h
    simp
  | cons a l ih =>
    rw [outlines_cons, Option.bind_eq_some_iff] at h
    obtain ⟨first, hfirst, h⟩ := h
    obtain ⟨rest, hrest, rfl⟩ := Option.map_eq_some_iff.mp h
    simp only [List.mem_append, exists_or, hone a first hfirst, ih hrest, List.mem_cons,
      exists_eq_or_imp]

/-- What is listed is what is reached. -/
theorem mem_outline_iff (h : outline children rounds d a = some rows) :
    (∃ e, (x, e) ∈ rows) ↔ ReflTransGen (IsChild children) a x := by
  induction rounds generalizing a d rows with
  | zero => cases h
  | succ rounds ih =>
    rw [outline_succ] at h
    obtain ⟨below, hbelow, rfl⟩ := Option.map_eq_some_iff.mp h
    have hlisted := mem_outlines_of (fun b rows hb => ih hb) hbelow (x := x)
    rw [ReflTransGen.cases_head_iff]
    constructor
    · rintro ⟨e, he⟩
      rcases List.mem_cons.mp he with he | he
      · exact .inl (Prod.mk.inj he).1.symm
      · exact .inr (hlisted.mp ⟨e, he⟩)
    · rintro (rfl | hbelow)
      · exact ⟨d, List.mem_cons_self⟩
      · obtain ⟨e, he⟩ := hlisted.mpr hbelow
        exact ⟨e, List.mem_cons_of_mem _ he⟩

theorem mem_outlines_iff (h : outlines children rounds d l = some rows) :
    (∃ e, (x, e) ∈ rows) ↔ ∃ b ∈ l, ReflTransGen (IsChild children) b x :=
  mem_outlines_of (fun _ _ => mem_outline_iff) h

theorem le_depth_outlines_of (hone : ∀ a rows, outline children rounds d a = some rows →
      ∀ r ∈ rows, d ≤ r.2)
    (h : outlines children rounds d l = some rows) : ∀ r ∈ rows, d ≤ r.2 := by
  induction l generalizing rows with
  | nil =>
    rw [outlines_nil] at h
    cases h
    simp
  | cons a l ih =>
    rw [outlines_cons, Option.bind_eq_some_iff] at h
    obtain ⟨first, hfirst, h⟩ := h
    obtain ⟨rest, hrest, rfl⟩ := Option.map_eq_some_iff.mp h
    intro r hr
    rcases List.mem_append.mp hr with hr | hr
    · exact hone a first hfirst r hr
    · exact ih hrest r hr

theorem le_depth_outline (h : outline children rounds d a = some rows) : ∀ r ∈ rows, d ≤ r.2 := by
  induction rounds generalizing a d rows with
  | zero => cases h
  | succ rounds ih =>
    rw [outline_succ] at h
    obtain ⟨below, hbelow, rfl⟩ := Option.map_eq_some_iff.mp h
    have hdepth := le_depth_outlines_of (fun b rows hb => ih hb) hbelow
    intro r hr
    rcases List.mem_cons.mp hr with rfl | hr
    · exact Nat.le_refl d
    · exact Nat.le_of_succ_le (hdepth r hr)

theorem le_depth_outlines (h : outlines children rounds d l = some rows) : ∀ r ∈ rows, d ≤ r.2 :=
  le_depth_outlines_of (fun _ _ => le_depth_outline) h

theorem outline_head (h : outline children rounds d a = some rows) :
    ∃ below, rows = (a, d) :: below := by
  cases rounds with
  | zero => cases h
  | succ rounds =>
    rw [outline_succ] at h
    obtain ⟨below, -, rfl⟩ := Option.map_eq_some_iff.mp h
    exact ⟨below, rfl⟩

theorem outlines_head (h : outlines children rounds d l = some rows) (ha : a ∈ l) :
    ∃ before after, rows = before ++ (a, d) :: after ∧ ∀ r ∈ before, d ≤ r.2 := by
  obtain ⟨l₁, l₂, rfl⟩ := List.append_of_mem ha
  rw [outlines_append, Option.bind_eq_some_iff] at h
  obtain ⟨first, hfirst, h⟩ := h
  obtain ⟨rest, hrest, rfl⟩ := Option.map_eq_some_iff.mp h
  rw [outlines_cons, Option.bind_eq_some_iff] at hrest
  obtain ⟨own, hown, hrest⟩ := hrest
  obtain ⟨last, -, rfl⟩ := Option.map_eq_some_iff.mp hrest
  obtain ⟨below, rfl⟩ := outline_head hown
  exact ⟨first, below ++ last, rfl, le_depth_outlines hfirst⟩

/-! ## Nesting -/

/-- A child is listed behind its parent and what is deeper than it. -/
def NestedIn (rows : List (α × Nat)) (a x : α) (d : Nat) : Prop :=
  ∃ before between after, rows = before ++ (a, d) :: between ++ (x, d + 1) :: after ∧
    ∀ r ∈ between, d < r.2

theorem NestedIn.append (h : NestedIn rows a x d) (before after : List (α × Nat)) :
    NestedIn (before ++ rows ++ after) a x d := by
  obtain ⟨before', between, after', rfl, hdepth⟩ := h
  exact ⟨before ++ before', between, after' ++ after, by simp, hdepth⟩

theorem nested_outlines_of (hone : ∀ b rows, outline children rounds d b = some rows →
      (a, e) ∈ rows → NestedIn rows a x e)
    (h : outlines children rounds d l = some rows) (ha : (a, e) ∈ rows) : NestedIn rows a x e := by
  induction l generalizing rows with
  | nil =>
    rw [outlines_nil] at h
    cases h
    cases ha
  | cons b l ih =>
    rw [outlines_cons, Option.bind_eq_some_iff] at h
    obtain ⟨first, hfirst, h⟩ := h
    obtain ⟨rest, hrest, rfl⟩ := Option.map_eq_some_iff.mp h
    rcases List.mem_append.mp ha with ha | ha
    · exact (hone b first hfirst ha).append [] rest
    · have hnested := (ih hrest ha).append first []
      rwa [List.append_nil] at hnested

theorem nested_outline (h : outline children rounds d b = some rows) (ha : (a, e) ∈ rows)
    (hx : x ∈ children a) : NestedIn rows a x e := by
  induction rounds generalizing b d rows with
  | zero => cases h
  | succ rounds ih =>
    rw [outline_succ] at h
    obtain ⟨below, hbelow, rfl⟩ := Option.map_eq_some_iff.mp h
    rcases List.mem_cons.mp ha with he | ha
    · obtain ⟨rfl, rfl⟩ := Prod.mk.inj he
      obtain ⟨before, after, rfl, hdepth⟩ := outlines_head hbelow hx
      exact ⟨[], before, after, rfl, hdepth⟩
    · have hnested := nested_outlines_of (fun c rows hc hac => ih hc hac) hbelow ha
      have happend := hnested.append [(b, d)] []
      rwa [List.append_nil] at happend

theorem nested_outlines (h : outlines children rounds d l = some rows) (ha : (a, e) ∈ rows)
    (hx : x ∈ children a) : NestedIn rows a x e :=
  nested_outlines_of (fun _ _ hb hab => nested_outline hb hab hx) h ha

/-! ## One parent each -/

theorem eq_of_above_root {r : α} (hroot : ∀ p, r ∉ children p)
    (h : ReflTransGen (IsChild children) a r) : a = r := by
  rcases ReflTransGen.cases_tail h with he | ⟨p, -, hp⟩
  · exact he.symm
  · exact absurd hp (hroot p)

section Parents

variable (hparent : ∀ a b x, x ∈ children a → x ∈ children b → a = b)

include hparent

theorem acyclic_of_root {r : α} (hroot : ∀ a, r ∉ children a)
    (hx : ReflTransGen (IsChild children) r x) : ¬TransGen (IsChild children) x x := by
  induction hx with
  | refl =>
    intro h
    obtain ⟨p, -, hp⟩ := TransGen.tail'_iff.mp h
    exact hroot p hp
  | @tail y z _ hyz ih =>
    intro h
    obtain ⟨p, hzp, hp⟩ := TransGen.tail'_iff.mp h
    have he : p = y := hparent p y z hp hyz
    rw [he] at hzp
    exact ih (.head' hyz hzp)

theorem above_total (ha : ReflTransGen (IsChild children) a x)
    (hb : ReflTransGen (IsChild children) b x) :
    ReflTransGen (IsChild children) a b ∨ ReflTransGen (IsChild children) b a := by
  induction ha with
  | refl => exact .inr hb
  | @tail y z hay hyz ih =>
    rcases ReflTransGen.cases_tail hb with he | ⟨y', hby, hy'⟩
    · exact .inl (he ▸ hay.tail hyz)
    · have he : y' = y := hparent y' y z hy' hyz
      exact ih (he ▸ hby)

/-- Nodes of which none is above another have nothing in common. -/
theorem nodup_outlines_of (hnodup : l.Nodup)
    (hapart : ∀ a ∈ l, ∀ b ∈ l, ReflTransGen (IsChild children) a b → a = b)
    (hone : ∀ a ∈ l, ∀ rows, outline children rounds d a = some rows → (rows.map Prod.fst).Nodup)
    (h : outlines children rounds d l = some rows) : (rows.map Prod.fst).Nodup := by
  induction l generalizing rows with
  | nil =>
    rw [outlines_nil] at h
    cases h
    exact List.nodup_nil
  | cons a l ih =>
    obtain ⟨hnot, hnodup⟩ := List.nodup_cons.mp hnodup
    rw [outlines_cons, Option.bind_eq_some_iff] at h
    obtain ⟨first, hfirst, h⟩ := h
    obtain ⟨rest, hrest, rfl⟩ := Option.map_eq_some_iff.mp h
    rw [List.map_append]
    refine (hone a List.mem_cons_self first hfirst).append ?_ ?_
    · refine ih hnodup ?_ (fun b hb => hone b (List.mem_cons_of_mem a hb)) hrest
      exact fun b hb c hc => hapart b (List.mem_cons_of_mem a hb) c (List.mem_cons_of_mem a hc)
    · intro x hx hx'
      obtain ⟨⟨_, e⟩, he, rfl⟩ := List.mem_map.mp hx
      obtain ⟨⟨y, e'⟩, he', hy⟩ := List.mem_map.mp hx'
      obtain rfl : y = _ := hy
      have hax := (mem_outline_iff hfirst).mp ⟨e, he⟩
      obtain ⟨b, hb, hbx⟩ := (mem_outlines_iff hrest).mp ⟨e', he'⟩
      have hmem := List.mem_cons_of_mem a hb
      rcases above_total hparent hax hbx with hab | hba
      · exact hnot (hapart a List.mem_cons_self b hmem hab ▸ hb)
      · exact hnot (hapart b hmem a List.mem_cons_self hba ▸ hb)

theorem nodup_outline (hchildren : ∀ a, (children a).Nodup)
    (hacyclic : ∀ x, ReflTransGen (IsChild children) a x → ¬TransGen (IsChild children) x x)
    (h : outline children rounds d a = some rows) : (rows.map Prod.fst).Nodup := by
  induction rounds generalizing a d rows with
  | zero => cases h
  | succ rounds ih =>
    rw [outline_succ] at h
    obtain ⟨below, hbelow, rfl⟩ := Option.map_eq_some_iff.mp h
    rw [List.map_cons, List.nodup_cons]
    constructor
    · intro ha
      obtain ⟨⟨y, e⟩, he, hy⟩ := List.mem_map.mp ha
      obtain rfl : y = a := hy
      obtain ⟨b, hb, hby⟩ := (mem_outlines_iff hbelow).mp ⟨e, he⟩
      exact hacyclic y .refl (.head' hb hby)
    · refine nodup_outlines_of hparent (hchildren a) ?_ (fun b hb rows hrows => ?_) hbelow
      · -- a child above its sibling would be above their parent
        intro b hb c hc hbc
        rcases ReflTransGen.cases_tail hbc with he | ⟨p, hbp, hp⟩
        · exact he.symm
        · have he : p = a := hparent p a c hp hc
          exact absurd (.head' hb (he ▸ hbp)) (hacyclic a .refl)
      · exact ih (fun x hx => hacyclic x (.head hb hx)) hrows

theorem nodup_outlines (hchildren : ∀ a, (children a).Nodup) (hnodup : l.Nodup)
    (hroots : ∀ r ∈ l, ∀ a, r ∉ children a) (h : outlines children rounds d l = some rows) :
    (rows.map Prod.fst).Nodup := by
  refine nodup_outlines_of hparent hnodup ?_ (fun a ha rows hrows => ?_) h
  · exact fun a _ b hb hab => eq_of_above_root (hroots b hb) hab
  · have hacyclic : ∀ x, ReflTransGen (IsChild children) a x → ¬TransGen (IsChild children) x x :=
      fun x hx => acyclic_of_root hparent (hroots a ha) hx
    exact nodup_outline hparent hchildren hacyclic hrows

end Parents

end Lyra.Lib
