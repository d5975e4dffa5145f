import Lyra.Lib.Distinct
import Lyra.Lib.Traces
import Lyra.Store.Schema

/-!
# Selecting conversations

The transitions of `multi-select.ts` over the selected keys, the anchor of a range and its moving
edge.  Each transition that needs it gets the keys that are on the screen, which may have changed
since the last.

* `inStep_step_iff`: a transition keeps the three in step unless it extends from an anchor that is
  no longer visible;
* `selection_in_step_iff`: so does a run.
-/

namespace Lyra.MultiSelect

open Lyra.Lib

/-! ## The transitions -/

abbrev Key := Text

structure ConversationSelection where
  /-- Selected conversation keys, in click order. -/
  keys : List Key
  /-- Range anchor. -/
  anchor : Option Key
  /-- Moving edge for extension. -/
  focus : Option Key
  deriving DecidableEq

def emptySelection : ConversationSelection := ⟨[], none, none⟩

def singleSelect (key : Key) : ConversationSelection := ⟨[key], some key, some key⟩

/-- Toggling off the anchor falls back to the last remaining key. -/
def toggleKey (sel : ConversationSelection) (key : Key) : ConversationSelection :=
  if key ∈ sel.keys then
    let keys := sel.keys.filter (· ≠ key)
    let anchor := if sel.anchor = some key then keys.getLast? else sel.anchor
    let focus := if sel.focus = some key then anchor else sel.focus
    ⟨keys, anchor, focus⟩
  else ⟨sel.keys ++ [key], some key, some key⟩

/-- Inclusive slice of the visible order between two keys, either direction. -/
def rangeKeys (visibleKeys : List Key) (a b : Key) : List Key :=
  match visibleKeys.idxOf? a, visibleKeys.idxOf? b with
  | some i, some j => (visibleKeys.take (max i j + 1)).drop (min i j)
  | _, _ => []

/-- What the test `!key` lets through. -/
def given (key : Option Key) : Option Key := key.filter fun k => k ≠ []

def applyShiftClick (sel : ConversationSelection) (visibleKeys : List Key) (key : Key) :
    ConversationSelection :=
  match given sel.anchor with
  | none => singleSelect key
  | some anchor =>
    match rangeKeys visibleKeys anchor key with
    | [] => singleSelect key
    | k :: range => ⟨k :: range, sel.anchor, some key⟩

def applyCmdShiftClick (sel : ConversationSelection) (visibleKeys : List Key) (key : Key) :
    ConversationSelection :=
  match given sel.anchor with
  | none => singleSelect key
  | some anchor =>
    match rangeKeys visibleKeys anchor key with
    | [] => toggleKey sel key
    | k :: range => ⟨(sel.keys ++ k :: range).eraseDups, sel.anchor, some key⟩

/-- The direction `1` or `-1`. -/
inductive Dir
  | next
  | prev
  deriving DecidableEq

/-- `Math.min(Math.max(idx + dir, 0), length - 1)`. -/
def Dir.move (dir : Dir) (length idx : Nat) : Nat :=
  match dir with
  | .next => min (idx + 1) (length - 1)
  | .prev => min (idx - 1) (length - 1)

/-- Where a selection starts. -/
def Dir.edge (dir : Dir) (visibleKeys : List Key) : Option Key :=
  match dir with
  | .next => visibleKeys.head?
  | .prev => visibleKeys.getLast?

/-- Move the focus one row and select the range from the anchor to it. -/
def extendSelection (visibleKeys : List Key) (sel : ConversationSelection) (dir : Dir) :
    ConversationSelection :=
  if visibleKeys = [] then sel
  else
    match given sel.anchor, given sel.focus with
    | some anchor, some focus =>
      match visibleKeys.idxOf? focus with
      | none => singleSelect focus
      | some idx =>
        if dir.move visibleKeys.length idx = idx then sel
        else
          match visibleKeys[dir.move visibleKeys.length idx]? with
          | some moved => ⟨rangeKeys visibleKeys anchor moved, sel.anchor, some moved⟩
          | none => sel
    | _, _ =>
      match dir.edge visibleKeys with
      | some key => singleSelect key
      | none => sel

def selectAll (visibleKeys : List Key) : ConversationSelection :=
  match visibleKeys with
  | [] => emptySelection
  | key :: rest => ⟨key :: rest, some key, (key :: rest).getLast?⟩

/-! ## Runs -/

/-- The conversations on the screen, each once. -/
structure Visible where
  keys : List Key
  nodup : keys.Nodup

inductive Action
  | single (key : Key)
  | toggle (key : Key)
  | shiftClick (visible : Visible) (key : Key)
  | cmdShiftClick (visible : Visible) (key : Key)
  | extend (visible : Visible) (dir : Dir)
  | all (visible : Visible)

def step (sel : ConversationSelection) : Action → ConversationSelection
  | .single key => singleSelect key
  | .toggle key => toggleKey sel key
  | .shiftClick visible key => applyShiftClick sel visible.keys key
  | .cmdShiftClick visible key => applyCmdShiftClick sel visible.keys key
  | .extend visible dir => extendSelection visible.keys sel dir
  | .all visible => selectAll visible.keys

/-- No key twice; anchor and focus are null if and only if nothing is selected, and selected
otherwise. -/
structure InStep (sel : ConversationSelection) : Prop where
  nodup : sel.keys.Nodup
  anchorNull : sel.anchor = none ↔ sel.keys = []
  focusNull : sel.focus = none ↔ sel.keys = []
  anchorSelected : ∀ key, sel.anchor = some key → key ∈ sel.keys
  focusSelected : ∀ key, sel.focus = some key → key ∈ sel.keys

/-- The focus is on the screen and moves; the anchor is not on the screen. -/
def LosesAnchor (sel : ConversationSelection) : Action → Prop
  | .extend visible dir => ∃ anchor focus idx, given sel.anchor = some anchor ∧
      given sel.focus = some focus ∧ visible.keys.idxOf? focus = some idx ∧
      dir.move visible.keys.length idx ≠ idx ∧ anchor ∉ visible.keys
  | _ => False

/-! ## A step -/

section Steps

variable {sel : ConversationSelection} {keys visibleKeys : List Key} {a b key anchor focus : Key}

theorem inStep_some (hnodup : keys.Nodup) (ha : a ∈ keys) (hb : b ∈ keys) :
    InStep ⟨keys, some a, some b⟩ where
  nodup := hnodup
  anchorNull := ⟨nofun, fun h => absurd h (List.ne_nil_of_mem ha)⟩
  focusNull := ⟨nofun, fun h => absurd h (List.ne_nil_of_mem hb)⟩
  anchorSelected := fun _ h => Option.some.inj h ▸ ha
  focusSelected := fun _ h => Option.some.inj h ▸ hb

theorem inStep_empty : InStep emptySelection where
  nodup := List.nodup_nil
  anchorNull := Iff.intro (fun _ => rfl) fun _ => rfl
  focusNull := Iff.intro (fun _ => rfl) fun _ => rfl
  anchorSelected := nofun
  focusSelected := nofun

theorem inStep_single (key : Key) : InStep (singleSelect key) :=
  inStep_some (List.nodup_singleton key) (List.mem_singleton_self key) (List.mem_singleton_self key)

/-- A selection in step is empty, or has an anchor and a focus among its keys. -/
theorem InStep.cases (h : InStep sel) :
    sel = emptySelection ∨ ∃ a b, sel.anchor = some a ∧ sel.focus = some b ∧ a ∈ sel.keys ∧
      b ∈ sel.keys := by
  cases hanchor : sel.anchor with
  | none =>
    have hkeys := h.anchorNull.mp hanchor
    have hfocus := h.focusNull.mpr hkeys
    left
    obtain ⟨keys, anchor, focus⟩ := sel
    cases hkeys
    cases hanchor
    cases hfocus
    rfl
  | some a =>
    cases hfocus : sel.focus with
    | none =>
      have hkeys := h.focusNull.mp hfocus
      rw [h.anchorNull.mpr hkeys] at hanchor
      cases hanchor
    | some b => exact .inr ⟨a, b, rfl, rfl, h.anchorSelected a hanchor, h.focusSelected b hfocus⟩

theorem given_eq_some {k : Option Key} (h : given k = some a) : k = some a ∧ a ≠ [] := by
  obtain ⟨hk, hne⟩ := Option.filter_eq_some_iff.mp h
  exact ⟨hk, by simpa using hne⟩

theorem inStep_toggleKey (h : InStep sel) (key : Key) : InStep (toggleKey sel key) := by
  unfold toggleKey
  split
  case isTrue hkey =>
    obtain rfl | ⟨a, b, ha, hb, hamem, hbmem⟩ := h.cases
    · cases hkey
    · have hnodup : (sel.keys.filter (· ≠ key)).Nodup := h.nodup.filter _
      have hkept : ∀ k ∈ sel.keys, k ≠ key → k ∈ sel.keys.filter (· ≠ key) :=
        fun k hk hne => List.mem_filter.mpr ⟨hk, by simpa using hne⟩
      dsimp only
      cases hlast : (sel.keys.filter (· ≠ key)).getLast? with
      | none =>
        -- the key was all that was selected
        have hnil := List.getLast?_eq_none_iff.mp hlast
        have hall : ∀ k ∈ sel.keys, k = key := by
          intro k hk
          by_contra hne
          exact List.not_mem_nil (hnil ▸ hkept k hk hne)
        rw [ha, hb, hall a hamem, hall b hbmem, if_pos rfl, if_pos rfl, hnil]
        exact inStep_empty
      | some last =>
        have hlastmem := List.mem_of_getLast? hlast
        rw [ha, hb]
        by_cases hak : a = key
        · rw [if_pos (by rw [hak])]
          by_cases hbk : b = key
          · rw [if_pos (by rw [hbk])]
            exact inStep_some hnodup hlastmem hlastmem
          · rw [if_neg (by simpa using hbk)]
            exact inStep_some hnodup hlastmem (hkept b hbmem hbk)
        · rw [if_neg (by simpa using hak)]
          by_cases hbk : b = key
          · rw [if_pos (by rw [hbk])]
            exact inStep_some hnodup (hkept a hamem hak) (hkept a hamem hak)
          · rw [if_neg (by simpa using hbk)]
            exact inStep_some hnodup (hkept a hamem hak) (hkept b hbmem hbk)
  case isFalse hkey =>
    refine inStep_some ?_ (by simp) (by simp)
    exact List.nodup_append.mpr ⟨h.nodup, List.nodup_singleton key, by
      rintro x hx y hy rfl
      exact hkey (List.mem_singleton.mp hy ▸ hx)⟩

/-! ## Ranges -/

theorem nodup_rangeKeys (h : visibleKeys.Nodup) (a b : Key) :
    (rangeKeys visibleKeys a b).Nodup := by
  unfold rangeKeys
  split
  · exact h.sublist ((List.drop_sublist _ _).trans (List.take_sublist _ _))
  · exact List.nodup_nil

theorem mem_slice {i lo hi : Nat} (hi' : visibleKeys[i]? = some a) (hlo : lo ≤ i) (hle : i ≤ hi) :
    a ∈ (visibleKeys.take (hi + 1)).drop lo := by
  refine List.mem_of_getElem? (i := i - lo) ?_
  rw [List.getElem?_drop, List.getElem?_take, if_pos (by omega), Nat.add_sub_cancel' hlo]
  exact hi'

theorem getElem?_of_idxOf? {i : Nat} (h : visibleKeys.idxOf? a = some i) :
    visibleKeys[i]? = some a := by
  obtain ⟨hlt, heq, -⟩ := List.idxOf?_eq_some_iff.mp h
  rw [List.getElem?_eq_getElem hlt, heq]

theorem exists_idxOf? (h : a ∈ visibleKeys) : ∃ i, visibleKeys.idxOf? a = some i :=
  Option.isSome_iff_exists.mp (List.isSome_idxOf?.mpr h)

theorem rangeKeys_mem (ha : a ∈ visibleKeys) (hb : b ∈ visibleKeys) :
    a ∈ rangeKeys visibleKeys a b ∧ b ∈ rangeKeys visibleKeys a b := by
  obtain ⟨i, hi⟩ := exists_idxOf? ha
  obtain ⟨j, hj⟩ := exists_idxOf? hb
  unfold rangeKeys
  rw [hi, hj]
  constructor
  · exact mem_slice (getElem?_of_idxOf? hi) (Nat.min_le_left i j) (Nat.le_max_left i j)
  · exact mem_slice (getElem?_of_idxOf? hj) (Nat.min_le_right i j) (Nat.le_max_right i j)

theorem rangeKeys_of_not_mem (ha : a ∉ visibleKeys) (b : Key) : rangeKeys visibleKeys a b = [] := by
  unfold rangeKeys
  rw [List.idxOf?_eq_none_iff.mpr ha]

theorem mem_of_rangeKeys (h : rangeKeys visibleKeys a b ≠ []) :
    a ∈ visibleKeys ∧ b ∈ visibleKeys := by
  unfold rangeKeys at h
  split at h
  case h_1 i j hi hj =>
    exact ⟨List.mem_of_getElem? (getElem?_of_idxOf? hi),
      List.mem_of_getElem? (getElem?_of_idxOf? hj)⟩
  case h_2 => exact absurd rfl h

/-! ## The other transitions -/

theorem inStep_applyShiftClick (hvisible : visibleKeys.Nodup) (sel : ConversationSelection)
    (key : Key) : InStep (applyShiftClick sel visibleKeys key) := by
  unfold applyShiftClick
  split
  case h_1 => exact inStep_single key
  case h_2 anchor hanchor =>
    split
    case h_1 => exact inStep_single key
    case h_2 k range hrange =>
      obtain ⟨ha, hb⟩ := mem_of_rangeKeys (by rw [hrange]; exact List.cons_ne_nil k range)
      rw [← hrange, (given_eq_some hanchor).1]
      exact inStep_some (nodup_rangeKeys hvisible _ _) (rangeKeys_mem ha hb).1
        (rangeKeys_mem ha hb).2

theorem inStep_applyCmdShiftClick (h : InStep sel) (key : Key) :
    InStep (applyCmdShiftClick sel visibleKeys key) := by
  unfold applyCmdShiftClick
  split
  case h_1 => exact inStep_single key
  case h_2 anchor hanchor =>
    split
    case h_1 => exact inStep_toggleKey h key
    case h_2 k range hrange =>
      obtain ⟨ha, hb⟩ := mem_of_rangeKeys (by rw [hrange]; exact List.cons_ne_nil k range)
      have hkey : key ∈ sel.keys ++ k :: range := by
        rw [← hrange]
        exact List.mem_append_right _ (rangeKeys_mem ha hb).2
      have hkept : anchor ∈ sel.keys ++ k :: range :=
        List.mem_append_left _ (h.anchorSelected anchor (given_eq_some hanchor).1)
      rw [(given_eq_some hanchor).1]
      exact inStep_some (nodup_eraseDups _) (List.mem_eraseDups.mpr hkept)
        (List.mem_eraseDups.mpr hkey)

theorem inStep_selectAll (hvisible : visibleKeys.Nodup) : InStep (selectAll visibleKeys) := by
  cases visibleKeys with
  | nil => exact inStep_empty
  | cons key rest =>
    have hlast := List.getLast?_eq_some_getLast (List.cons_ne_nil key rest)
    rw [selectAll, hlast]
    exact inStep_some hvisible List.mem_cons_self (List.getLast_mem _)

theorem Dir.move_lt {idx length : Nat} (dir : Dir) (h : idx < length) :
    dir.move length idx < length := by
  cases dir <;> simp only [Dir.move] <;> omega

theorem inStep_extendSelection_iff (h : InStep sel) (visible : Visible) (dir : Dir) :
    InStep (extendSelection visible.keys sel dir) ↔ ¬LosesAnchor sel (.extend visible dir) := by
  unfold extendSelection
  split
  case isTrue hnil =>
    refine iff_of_true h ?_
    rintro ⟨anchor, focus, idx, -, -, hidx, -⟩
    rw [hnil] at hidx
    cases hidx
  case isFalse =>
    split
    case h_1 anchor focus hanchor hfocus =>
      split
      case h_1 hnone =>
        refine iff_of_true (inStep_single focus) ?_
        rintro ⟨-, focus', idx, -, hfocus', hidx, -⟩
        rw [hfocus] at hfocus'
        cases hfocus'
        rw [hnone] at hidx
        cases hidx
      case h_2 idx hidx =>
        split
        case isTrue hstays =>
          refine iff_of_true h ?_
          rintro ⟨-, focus', idx', -, hfocus', hidx', hmoves, -⟩
          rw [hfocus] at hfocus'
          cases hfocus'
          rw [hidx] at hidx'
          cases hidx'
          exact hmoves hstays
        case isFalse hmoves =>
          obtain ⟨hlt, -, -⟩ := List.idxOf?_eq_some_iff.mp hidx
          rw [List.getElem?_eq_getElem (dir.move_lt hlt)]
          dsimp only
          rw [(given_eq_some hanchor).1]
          by_cases hvisible : anchor ∈ visible.keys
          · refine iff_of_true ?_ ?_
            · have hmem := rangeKeys_mem hvisible (List.getElem_mem (dir.move_lt hlt))
              exact inStep_some (nodup_rangeKeys visible.nodup _ _) hmem.1 hmem.2
            · rintro ⟨anchor', -, -, hanchor', -, -, -, hlost⟩
              rw [hanchor] at hanchor'
              cases hanchor'
              exact hlost hvisible
          · refine iff_of_false ?_ ?_
            · intro hbad
              rw [rangeKeys_of_not_mem hvisible] at hbad
              exact List.not_mem_nil (hbad.anchorSelected anchor rfl)
            · exact not_not.mpr ⟨anchor, focus, idx, hanchor, hfocus, hidx, hmoves, hvisible⟩
    case h_2 hnone =>
      refine iff_of_true ?_ ?_
      · split
        · exact inStep_single _
        · exact h
      · rintro ⟨anchor, focus, -, hanchor, hfocus, -⟩
        exact hnone anchor focus hanchor hfocus

/-- A transition keeps the selection in step unless it extends from an anchor that is gone. -/
theorem inStep_step_iff (h : InStep sel) (action : Action) :
    InStep (step sel action) ↔ ¬LosesAnchor sel action := by
  cases action with
  | single key => exact iff_of_true (inStep_single key) id
  | toggle key => exact iff_of_true (inStep_toggleKey h key) id
  | shiftClick visible key => exact iff_of_true (inStep_applyShiftClick visible.nodup sel key) id
  | cmdShiftClick visible key => exact iff_of_true (inStep_applyCmdShiftClick h key) id
  | extend visible dir => exact inStep_extendSelection_iff h visible dir
  | all visible => exact iff_of_true (inStep_selectAll visible.nodup) id

end Steps

/-! ## A run -/

/-- Every selection of a run is in step exactly if no step extends from an anchor that is not on
the screen to a row that is. -/
theorem selection_in_step_iff (actions : List Action) :
    (∀ sel ∈ trace step emptySelection actions, InStep sel) ↔
      StepsMeet step (fun sel action => ¬LosesAnchor sel action) emptySelection actions := by
  have hstep : ∀ sel action, InStep sel → (InStep (step sel action) ↔ ¬LosesAnchor sel action) :=
    fun _ action h => inStep_step_iff h action
  exact forall_trace_iff hstep inStep_empty actions

/-- Three conversations, and the last two. -/
def threeVisible : Visible := ⟨[['a'], ['b'], ['c']], by decide⟩

def twoVisible : Visible := ⟨[['b'], ['c']], by decide⟩

/-- The first of three is selected and the range from it to the second; then the first goes off the
screen and the range is extended. -/
def hiddenAnchor : List Action :=
  [.single ['a'], .shiftClick threeVisible ['b'], .extend twoVisible .next]

/-- Nothing is selected afterwards, but there is an anchor. -/
theorem selection_out_of_step :
    ¬∀ sel ∈ trace step emptySelection hiddenAnchor, InStep sel := by
  intro h
  have hlast : ⟨[], some ['a'], some ['c']⟩ ∈ trace step emptySelection hiddenAnchor := by decide
  exact List.not_mem_nil ((h _ hlast).anchorSelected ['a'] rfl)

end Lyra.MultiSelect
