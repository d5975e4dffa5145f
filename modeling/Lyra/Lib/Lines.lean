import Mathlib.Data.List.Basic

/-!
# Lines of a text

`lines` cuts a text at its line feeds and drops the carriage return before each, as Rust's
`str::lines` does; `joinLines` puts lines together with CRLF.

* `lines_joinLines`: the lines come back, where none has a line feed and the last is not empty;
* `lineFeed_not_mem_of_length`: and only there are they as many;
* `splitOnce_append`: a text is cut at the first occurrence of a character.
-/

namespace Lyra.Lib

theorem forall_mem_of_all {α : Type} {p : α → Prop} [DecidablePred p] {l : List α}
    (h : l.all (fun a => decide (p a)) = true) : ∀ a ∈ l, p a :=
  fun a ha => of_decide_eq_true (List.all_eq_true.mp h a ha)

/-- A literal is one list of characters, so that nothing is decoded in a proof about it. -/
theorem literal_append {l l₁ l₂ : List Char} (h : l = l₁ ++ l₂) :
    (String.ofList l).toList = (String.ofList l₁).toList ++ (String.ofList l₂).toList := by
  rw [String.toList_ofList, String.toList_ofList, String.toList_ofList, h]

theorem not_mem_literal {l : List Char} {c : Char} (h : c ∉ l) : c ∉ (String.ofList l).toList := by
  rwa [String.toList_ofList]

/-- No piece has the separator. -/
theorem mem_splitOnP {α : Type} {p : α → Bool} {l w : List α} (h : w ∈ l.splitOnP p) :
    ∀ a ∈ w, p a = false := by
  induction l generalizing w with
  | nil =>
    obtain rfl := List.mem_singleton.mp h
    exact fun a ha => (List.not_mem_nil ha).elim
  | cons x l ih =>
    rw [List.splitOnP_cons_eq_if_modifyHead] at h
    split at h
    · rcases List.mem_cons.mp h with rfl | h
      · exact fun a ha => (List.not_mem_nil ha).elim
      · exact ih h
    · rename_i hx
      cases hl : l.splitOnP p with
      | nil => exact absurd hl (List.splitOnP_ne_nil p l)
      | cons v vs =>
        rw [hl, List.modifyHead_cons] at h
        rw [hl] at ih
        rcases List.mem_cons.mp h with rfl | h
        · intro a ha
          rcases List.mem_cons.mp ha with rfl | ha
          · simpa using hx
          · exact ih List.mem_cons_self a ha
        · exact ih (List.mem_cons_of_mem _ h)

/-- Without one carriage return at its end. -/
def stripCr (l : List Char) : List Char := if l.getLast? = some '\r' then l.dropLast else l

/-- The lines, from the pieces between the line feeds; the last piece has none. -/
def linesOf : List (List Char) → List (List Char)
  | [] => []
  | [last] => if last = [] then [] else [last]
  | l :: rest => stripCr l :: linesOf rest

/-- `str::lines`. -/
def lines (s : List Char) : List (List Char) := linesOf (s.splitOn '\n')

def joinLines (ls : List (List Char)) : List Char := ['\r', '\n'].intercalate ls

theorem stripCr_append (l : List Char) : stripCr (l ++ ['\r']) = l := by
  unfold stripCr
  rw [List.getLast?_concat, if_pos rfl, List.dropLast_concat]

theorem lines_single {l : List Char} (hne : l ≠ []) (hline : '\n' ∉ l) : lines l = [l] := by
  unfold lines
  rw [List.splitOn_eq_singleton hline, linesOf, if_neg hne]

theorem lines_append {l : List Char} (hline : '\n' ∉ l) (s : List Char) :
    lines (l ++ ['\r', '\n'] ++ s) = l :: lines s := by
  have hcr : '\n' ∉ l ++ ['\r'] := by
    intro h
    rcases List.mem_append.mp h with h | h
    · exact hline h
    · exact absurd (List.mem_singleton.mp h) (by decide)
  have happend : l ++ ['\r', '\n'] ++ s = (l ++ ['\r']) ++ '\n' :: s := by simp
  unfold lines
  rw [happend, List.splitOn_append_cons_self_of_not_mem hcr]
  cases hs : s.splitOn '\n' with
  | nil => exact absurd hs (List.splitOn_ne_nil _ _)
  | cons p ps => exact congrArg (· :: linesOf (p :: ps)) (stripCr_append l)

theorem lines_append_lineFeed {l : List Char} (hline : '\n' ∉ l) (hcr : l.getLast? ≠ some '\r')
    (s : List Char) : lines (l ++ ['\n'] ++ s) = l :: lines s := by
  have happend : l ++ ['\n'] ++ s = l ++ '\n' :: s := by simp
  have hstrip : stripCr l = l := by
    unfold stripCr
    rw [if_neg hcr]
  unfold lines
  rw [happend, List.splitOn_append_cons_self_of_not_mem hline]
  cases hs : s.splitOn '\n' with
  | nil => exact absurd hs (List.splitOn_ne_nil _ _)
  | cons p ps => exact congrArg (· :: linesOf (p :: ps)) hstrip

theorem linesOf_append (a : List (List Char)) {b : List (List Char)} (hb : b ≠ []) :
    linesOf (a ++ b) = a.map stripCr ++ linesOf b := by
  induction a with
  | nil => rfl
  | cons l a ih =>
    cases hab : a ++ b with
    | nil => exact absurd (List.append_eq_nil_iff.mp hab).2 hb
    | cons l' rest =>
      rw [hab] at ih
      rw [List.cons_append, hab, linesOf, ih]
      · rfl
      · simp

theorem mem_lines_append {l : List Char} (a : List Char) {s : List Char} (h : l ∈ lines s) :
    l ∈ lines (a ++ '\n' :: s) := by
  unfold lines at h ⊢
  rw [List.splitOn_append_cons_self, linesOf_append _ (List.splitOn_ne_nil _ _)]
  exact List.mem_append_right _ h

theorem joinLines_single (l : List Char) : joinLines [l] = l := by
  simp [joinLines, List.intercalate]

theorem joinLines_cons (l last : List Char) (init : List (List Char)) :
    joinLines (l :: (init ++ [last])) = l ++ ['\r', '\n'] ++ joinLines (init ++ [last]) := by
  unfold joinLines
  cases init with
  | nil => simp [List.intercalate]
  | cons l' init => simp [List.intercalate]

/-- Lines come back, the last one unless it is empty. -/
theorem lines_joinLines {init : List (List Char)} {last : List Char} (hne : last ≠ [])
    (h : ∀ l ∈ init ++ [last], '\n' ∉ l) : lines (joinLines (init ++ [last])) = init ++ [last] := by
  induction init with
  | nil =>
    rw [List.nil_append, joinLines_single]
    exact lines_single hne (h last List.mem_cons_self)
  | cons l init ih =>
    rw [List.cons_append, joinLines_cons, lines_append (h l List.mem_cons_self),
      ih fun l hl => h l (List.mem_cons_of_mem _ hl)]

/-! ## Counting lines -/

theorem length_splitOn (s : List Char) : (s.splitOn '\n').length = s.count '\n' + 1 := by
  induction s with
  | nil => rfl
  | cons c s ih =>
    rw [List.splitOn_cons_eq_if_modifyHead, List.count_cons]
    split
    · rw [List.length_cons, ih]
    · rw [List.length_modifyHead, ih, Nat.add_zero]

theorem length_lines_append (a b : List Char) :
    (lines (a ++ '\n' :: b)).length = a.count '\n' + 1 + (lines b).length := by
  unfold lines
  rw [List.splitOn_append_cons_self, linesOf_append _ (List.splitOn_ne_nil _ _),
    List.length_append, List.length_map, length_splitOn]

/-- Where there are as many lines as were joined, none of them had a line feed. -/
theorem lineFeed_not_mem_of_length {init : List (List Char)} {last : List Char} (hne : last ≠ [])
    (hlast : '\n' ∉ last)
    (h : (lines (joinLines (init ++ [last]))).length ≤ init.length + 1) :
    ∀ l ∈ init, '\n' ∉ l := by
  have hcount : ∀ init : List (List Char), (lines (joinLines (init ++ [last]))).length =
      (init.map fun l => l.count '\n' + 1).sum + 1 := by
    intro init
    induction init with
    | nil =>
      rw [List.nil_append, joinLines_single, lines_single hne hlast]
      rfl
    | cons l init ih =>
      have hjoin : joinLines (l :: init ++ [last]) =
          (l ++ ['\r']) ++ '\n' :: joinLines (init ++ [last]) := by
        rw [List.cons_append, joinLines_cons]
        simp
      rw [hjoin, length_lines_append, ih, List.count_append, List.map_cons, List.sum_cons]
      have hcr : ['\r'].count '\n' = 0 := by decide
      omega
  rw [hcount] at h
  clear hcount
  induction init with
  | nil => exact fun l hl => (List.not_mem_nil hl).elim
  | cons l init ih =>
    rw [List.map_cons, List.sum_cons, List.length_cons] at h
    have hsum : init.length ≤ (init.map fun l => l.count '\n' + 1).sum := by
      clear ih h
      induction init with
      | nil => exact Nat.le_refl 0
      | cons l init ih =>
        rw [List.map_cons, List.sum_cons, List.length_cons]
        omega
    intro l' hl'
    rcases List.mem_cons.mp hl' with rfl | hl'
    · exact List.count_eq_zero.mp (by omega)
    · exact ih (by omega) l' hl'

/-- `eq_ignore_ascii_case`. -/
def eqIgnoreAsciiCase (a b : List Char) : Bool := a.map Char.toLower == b.map Char.toLower

/-! ## Cutting at a character -/

/-- `str::split_once`. -/
def splitOnce (c : Char) (s : List Char) : Option (List Char × List Char) :=
  match s.dropWhile (· ≠ c) with
  | [] => none
  | _ :: rest => some (s.takeWhile (· ≠ c), rest)

theorem takeWhile_append_cons {c : Char} {a : List Char} (ha : c ∉ a) (b : List Char) :
    (a ++ c :: b).takeWhile (· ≠ c) = a := by
  induction a with
  | nil => simp
  | cons x a ih =>
    have hx : x ≠ c := fun h => ha (h ▸ List.mem_cons_self)
    rw [List.cons_append, List.takeWhile_cons, if_pos (by simpa using hx),
      ih fun h => ha (List.mem_cons_of_mem _ h)]

theorem dropWhile_append_cons {c : Char} {a : List Char} (ha : c ∉ a) (b : List Char) :
    (a ++ c :: b).dropWhile (· ≠ c) = c :: b := by
  induction a with
  | nil => simp
  | cons x a ih =>
    have hx : x ≠ c := fun h => ha (h ▸ List.mem_cons_self)
    rw [List.cons_append, List.dropWhile_cons, if_pos (by simpa using hx),
      ih fun h => ha (List.mem_cons_of_mem _ h)]

theorem splitOnce_append {c : Char} {a : List Char} (ha : c ∉ a) (b : List Char) :
    splitOnce c (a ++ c :: b) = some (a, b) := by
  unfold splitOnce
  rw [dropWhile_append_cons ha, takeWhile_append_cons ha]

/-! ## Replacing a character -/

/-- `str::replace` of one character. -/
def replaceChar (c : Char) (new s : List Char) : List Char :=
  s.flatMap fun x => if x = c then new else [x]

theorem mem_replaceChar {c x : Char} {new s : List Char} (h : x ∈ replaceChar c new s) :
    x ∈ new ∨ x ∈ s := by
  obtain ⟨y, hy, hx⟩ := List.mem_flatMap.mp h
  split at hx
  · exact .inl hx
  · rw [List.mem_singleton.mp hx]
    exact .inr hy

end Lyra.Lib
