import Mathlib.Order.Lattice
import Mathlib.Order.Basic
import Mathlib.Order.Defs.LinearOrder
import Mathlib.Data.List.Basic

/-!
# Fields in order

The fields of an object as a list in the order of its keys, each key once: the sorted map that
many formats are read into.

* `putField` puts a value under a key; `lookup_putField` is its meaning;
* `Sorted.putField`: it keeps the order;
* `putField_split`: where the new field stands.
-/

namespace Lyra.Lib

variable {κ υ : Type} [LinearOrder κ]

/-- Put `v` under `k`, in place of a value that is there. -/
def putField (k : κ) (v : υ) : List (κ × υ) → List (κ × υ)
  | [] => [(k, v)]
  | f :: rest =>
    if k < f.1 then (k, v) :: f :: rest
    else if k = f.1 then (k, v) :: rest
    else f :: putField k v rest

/-- In the order of the keys, each key once. -/
def Sorted (fields : List (κ × υ)) : Prop := fields.Pairwise fun f g => f.1 < g.1

theorem lookup_putField [BEq κ] [LawfulBEq κ] (k : κ) (v : υ) (fields : List (κ × υ)) (key : κ) :
    (putField k v fields).lookup key = if key = k then some v else fields.lookup key := by
  induction fields with
  | nil =>
    by_cases h : key = k
    · simp [putField, h]
    · simp [putField, h, List.lookup_cons, beq_false_of_ne h]
  | cons f rest ih =>
    obtain ⟨first, value⟩ := f
    unfold putField
    split
    case isTrue =>
      by_cases h : key = k
      · simp [h]
      · simp [List.lookup_cons, beq_false_of_ne h, h]
    case isFalse =>
      split
      case isTrue heq =>
        by_cases h : key = k
        · simp [h]
        · have hfirst : (key == first) = false := beq_false_of_ne fun e => h (e.trans heq.symm)
          simp [List.lookup_cons, beq_false_of_ne h, hfirst, h]
      case isFalse hne =>
        rw [List.lookup_cons, ih, List.lookup_cons]
        by_cases h : key = k
        · have hfirst : (k == first) = false := beq_false_of_ne hne
          simp [h, hfirst]
        · simp [h]

theorem putField_putField (k : κ) (v : υ) (fields : List (κ × υ)) :
    putField k v (putField k v fields) = putField k v fields := by
  induction fields with
  | nil => simp [putField]
  | cons f rest ih =>
    by_cases hlt : k < f.1
    · simp [putField, hlt]
    · by_cases heq : k = f.1
      · simp [putField, heq]
      · simp [putField, hlt, heq, ih]

theorem mem_putField {k : κ} {v : υ} {fields : List (κ × υ)} {f : κ × υ}
    (h : f ∈ putField k v fields) : f = (k, v) ∨ f ∈ fields := by
  induction fields with
  | nil => exact .inl (List.mem_singleton.mp h)
  | cons g rest ih =>
    unfold putField at h
    split at h
    · exact List.mem_cons.mp h
    · split at h
      · exact (List.mem_cons.mp h).imp id (List.mem_cons_of_mem g)
      · rcases List.mem_cons.mp h with rfl | h
        · exact .inr List.mem_cons_self
        · exact (ih h).imp id (List.mem_cons_of_mem g)

theorem Sorted.putField {fields : List (κ × υ)} (h : Sorted fields) (k : κ) (v : υ) :
    Sorted (putField k v fields) := by
  induction fields with
  | nil => exact List.pairwise_singleton _ _
  | cons f rest ih =>
    obtain ⟨hf, hrest⟩ := List.pairwise_cons.mp h
    unfold Lib.putField
    split
    case isTrue hlt =>
      refine List.pairwise_cons.mpr ⟨fun g hg => ?_, h⟩
      rcases List.mem_cons.mp hg with rfl | hg
      · exact hlt
      · exact lt_trans hlt (hf g hg)
    case isFalse hge =>
      split
      case isTrue heq => exact List.pairwise_cons.mpr ⟨fun g hg => heq ▸ hf g hg, hrest⟩
      case isFalse hne =>
        refine List.pairwise_cons.mpr ⟨fun g hg => ?_, ih hrest⟩
        rcases mem_putField hg with rfl | hg
        · exact lt_of_le_of_ne (not_lt.mp hge) (Ne.symm hne)
        · exact hf g hg

/-- The new field stands where its key was, or where none was. -/
theorem putField_split (k : κ) (v : υ) (fields : List (κ × υ)) :
    ∃ before after, putField k v fields = before ++ (k, v) :: after ∧
      (fields = before ++ after ∨ ∃ w, fields = before ++ (k, w) :: after) := by
  induction fields with
  | nil => exact ⟨[], [], rfl, .inl rfl⟩
  | cons f rest ih =>
    unfold putField
    split
    case isTrue => exact ⟨[], f :: rest, rfl, .inl rfl⟩
    case isFalse =>
      split
      case isTrue heq =>
        refine ⟨[], rest, rfl, .inr ⟨f.2, ?_⟩⟩
        rw [heq]
        rfl
      case isFalse =>
        obtain ⟨before, after, hinsert, hfields⟩ := ih
        refine ⟨f :: before, after, by rw [hinsert]; rfl, ?_⟩
        rcases hfields with rfl | ⟨w, rfl⟩
        · exact .inl rfl
        · exact .inr ⟨w, rfl⟩

end Lyra.Lib
