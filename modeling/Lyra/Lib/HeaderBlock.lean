import Mathlib.Algebra.GroupWithZero.Nat
import Lyra.Lib.EncodedWord

/-!
# Header blocks

The fields before the first empty line of a message.  A line that begins with white space belongs
to the field above it, and a line ends with CR LF, with CR or with LF alone, as readers that take
all of them do.

* `readBlock_iff`: the fields that were written are read, and no others, exactly if each line
  break in a value is followed by white space.
-/

namespace Lyra.Lib

/-! ## Reading and writing -/

def isBreak (c : Char) : Bool := c == '\r' || c == '\n'

def startsWsp (s : List Char) : Bool := s.head?.any isWsp

/-- The lines up to the first empty one, and what follows that; `line` was read before. -/
def readBlock (line : List Char) : List Char → List (List Char) × List Char
  | [] => (if line = [] then [] else [line], [])
  | '\r' :: '\n' :: s =>
    if line = [] then ([], s) else (line :: (readBlock [] s).1, (readBlock [] s).2)
  | c :: s =>
    if isBreak c then
      if line = [] then ([], s) else (line :: (readBlock [] s).1, (readBlock [] s).2)
    else readBlock (line ++ [c]) s

/-- The lines that begin a field. -/
def fieldLines (ls : List (List Char)) : List (List Char) := ls.filter fun l => !startsWsp l

def fieldNames (ls : List (List Char)) : List (List Char) :=
  (fieldLines ls).map fun l => l.takeWhile (· ≠ ':')

def writeField (f : List Char × List Char) : List Char :=
  f.1 ++ ':' :: ' ' :: (f.2 ++ ['\r', '\n'])

def writeBlock (fields : List (List Char × List Char)) (body : List Char) : List Char :=
  fields.flatMap writeField ++ '\r' :: '\n' :: body

/-- The line breaks that no white space follows. -/
def openBreaks : List Char → Nat
  | [] => 0
  | '\r' :: '\n' :: s => (if startsWsp s then 0 else 1) + openBreaks s
  | c :: s => (if isBreak c && !startsWsp s then 1 else 0) + openBreaks s

/-- A value that stays in its field. -/
def Folded (v : List Char) : Prop := openBreaks v = 0

instance (v : List Char) : Decidable (Folded v) := inferInstanceAs (Decidable (_ = _))

structure IsFieldName (name : List Char) : Prop where
  ne_nil : name ≠ []
  spec : ∀ c ∈ name, c ≠ ':' ∧ isWsp c = false ∧ isBreak c = false

/-! ## Breaks -/

section Breaks

variable {a b s v : List Char} {c : Char}

theorem openBreaks_cons (h : isBreak c = false) (s : List Char) :
    openBreaks (c :: s) = openBreaks s := by
  rw [openBreaks, h]
  · simp
  · rintro s' rfl
    simp [isBreak] at h

theorem openBreaks_append_of_not (h : ∀ c ∈ a, isBreak c = false) (b : List Char) :
    openBreaks (a ++ b) = openBreaks b := by
  induction a with
  | nil => rfl
  | cons c a ih =>
    rw [List.cons_append, openBreaks_cons (h c List.mem_cons_self),
      ih fun c hc => h c (List.mem_cons_of_mem _ hc)]

theorem folded_of_not (h : ∀ c ∈ a, isBreak c = false) : Folded a := by
  have happend := openBreaks_append_of_not h []
  rw [List.append_nil] at happend
  exact happend

theorem isBreak_cases (h : isBreak c = true) : c = '\r' ∨ c = '\n' := by
  simpa [isBreak] using h

theorem folds_of_add (h : (if startsWsp s then 0 else 1) + openBreaks s = 0) :
    startsWsp s = true ∧ openBreaks s = 0 := by
  split at h
  · rename_i hwsp
    exact ⟨hwsp, by omega⟩
  · omega

theorem startsWsp_append (hc : isWsp c = false) (a b : List Char) :
    startsWsp (a ++ c :: b) = startsWsp a := by
  cases a with
  | nil => simpa [startsWsp] using hc
  | cons x a => rfl

theorem startsWsp_append_of_wsp (h : startsWsp a = true) (b : List Char) :
    startsWsp (a ++ b) = true := by
  cases a with
  | nil => cases h
  | cons x a => exact h

theorem startsWsp_append_of_ne_nil (h : a ≠ []) (b : List Char) :
    startsWsp (a ++ b) = startsWsp a := by
  obtain ⟨x, a, rfl⟩ := List.exists_cons_of_ne_nil h
  rfl

/-- The breaks before and behind a character that is neither white space nor a line feed. -/
theorem openBreaks_append (hc : isWsp c = false) (hlf : c ≠ '\n') (a b : List Char) :
    openBreaks (a ++ c :: b) = openBreaks a + openBreaks (c :: b) := by
  fun_induction openBreaks a with
  | case1 => simp
  | case2 s ih =>
    rw [List.cons_append, List.cons_append, openBreaks, ih, startsWsp_append hc]
    omega
  | case3 x s hx ih =>
    rw [List.cons_append, openBreaks, ih, startsWsp_append hc]
    · omega
    · intro s' hs hs'
      cases s with
      | nil => exact hlf (List.cons.inj hs').1
      | cons y s =>
        obtain ⟨rfl, rfl⟩ := List.cons.inj hs'
        exact hx s hs rfl

theorem openBreaks_append_of_folded (h : Folded a) (b : List Char) :
    openBreaks (a ++ b) = openBreaks b := by
  unfold Folded at h
  fun_induction openBreaks a with
  | case1 => rfl
  | case2 s ih =>
    obtain ⟨hwsp, hs⟩ := folds_of_add h
    rw [List.cons_append, List.cons_append, openBreaks, ih hs, startsWsp_append_of_wsp hwsp]
    simp
  | case3 c s hnext ih =>
    have hs : openBreaks s = 0 := by omega
    cases hc : isBreak c with
    | false => rw [List.cons_append, openBreaks_cons hc, ih hs]
    | true =>
      cases hwsp : startsWsp s with
      | false => simp [hc, hwsp] at h
      | true =>
        rw [List.cons_append, openBreaks, ih hs, startsWsp_append_of_wsp hwsp]
        · simp
        · intro s' hcr heq
          cases s with
          | nil => cases hwsp
          | cons x s =>
            rw [(List.cons.inj heq).1] at hwsp
            exact absurd hwsp (by simp [startsWsp, isWsp])

/-- Words on folded lines. -/
theorem folded_intercalate {ws : List (List Char)} (h : ∀ w ∈ ws, ∀ c ∈ w, isBreak c = false) :
    Folded (['\r', '\n', ' '].intercalate ws) := by
  induction ws with
  | nil => rfl
  | cons w ws ih =>
    have hw := h w List.mem_cons_self
    have hrest := ih fun u hu => h u (List.mem_cons_of_mem _ hu)
    cases ws with
    | nil =>
      have hone : ['\r', '\n', ' '].intercalate [w] = w := by simp [List.intercalate]
      rw [hone]
      exact folded_of_not hw
    | cons v ws =>
      have htwo : ['\r', '\n', ' '].intercalate (w :: v :: ws) =
          w ++ ('\r' :: '\n' :: ' ' :: ['\r', '\n', ' '].intercalate (v :: ws)) := by
        simp [List.intercalate]
      have hblank : openBreaks (' ' :: ['\r', '\n', ' '].intercalate (v :: ws)) = 0 :=
        (openBreaks_cons (by decide) _).trans hrest
      rw [htwo]
      unfold Folded
      rw [openBreaks_append_of_not hw, openBreaks, hblank]
      rfl

/-- Values in a list are folded by themselves. -/
theorem folded_commas {vs : List (List Char)} :
    Folded ([',', ' '].intercalate vs) ↔ ∀ v ∈ vs, Folded v := by
  induction vs with
  | nil => exact ⟨fun _ v hv => (List.not_mem_nil hv).elim, fun _ => rfl⟩
  | cons v vs ih =>
    cases vs with
    | nil =>
      have hone : [',', ' '].intercalate [v] = v := by simp [List.intercalate]
      rw [hone]
      simp
    | cons u vs =>
      have htwo : [',', ' '].intercalate (v :: u :: vs) =
          v ++ (',' :: ' ' :: [',', ' '].intercalate (u :: vs)) := by
        simp [List.intercalate]
      rw [List.forall_mem_cons, ← ih, htwo]
      unfold Folded
      rw [openBreaks_append (by decide : isWsp ',' = false) (by decide),
        openBreaks_cons (by decide), openBreaks_cons (by decide)]
      omega

theorem openBreaks_crlf (hc : isWsp c = false) (s : List Char) :
    openBreaks ('\r' :: '\n' :: c :: s) = 1 + openBreaks (c :: s) := by
  rw [openBreaks]
  simp [startsWsp, hc]

end Breaks

/-! ## What is read of a block -/

section Read

variable {line head body rest v : List Char} {c : Char}

theorem readBlock_crlf (h : line ≠ []) (s : List Char) :
    readBlock line ('\r' :: '\n' :: s) = (line :: (readBlock [] s).1, (readBlock [] s).2) := by
  rw [readBlock, if_neg h]

theorem readBlock_cons (h : isBreak c = false) (line s : List Char) :
    readBlock line (c :: s) = readBlock (line ++ [c]) s := by
  rw [readBlock, h]
  · rfl
  · rintro s' rfl
    simp [isBreak] at h

theorem readBlock_append (h : ∀ c ∈ head, isBreak c = false) (line s : List Char) :
    readBlock line (head ++ s) = readBlock (line ++ head) s := by
  induction head generalizing line with
  | nil => simp
  | cons c head ih =>
    rw [List.cons_append, readBlock_cons (h c List.mem_cons_self),
      ih fun c hc => h c (List.mem_cons_of_mem _ hc)]
    simp

theorem readBlock_break (h : isBreak c = true) (hnext : ∀ s', c = '\r' → rest ≠ '\n' :: s') :
    readBlock line (c :: rest) =
      if line = [] then ([], rest)
      else (line :: (readBlock [] rest).1, (readBlock [] rest).2) := by
  rw [readBlock, h]
  · rfl
  · exact hnext

theorem length_fieldLines_cons (l : List Char) (ls : List (List Char)) :
    (fieldLines (l :: ls)).length = (if startsWsp l then 0 else 1) + (fieldLines ls).length := by
  unfold fieldLines
  cases h : startsWsp l <;> simp [h, Nat.add_comm]

/-- Where the body is not longer, each break without white space behind it begins a field. -/
theorem readBlock_count (line head body : List Char) :
    body.length < (readBlock line (head ++ '\r' :: '\n' :: '\r' :: '\n' :: body)).2.length ∨
    (fieldLines (readBlock line (head ++ '\r' :: '\n' :: '\r' :: '\n' :: body)).1).length =
      (if startsWsp (line ++ head) then 0 else 1) + openBreaks head := by
  fun_induction openBreaks head generalizing line with
  | case1 =>
    rw [List.nil_append, readBlock]
    split
    · left
      simp only [List.length_cons]
      omega
    · right
      rw [readBlock, if_pos rfl, length_fieldLines_cons, List.append_nil]
      rfl
  | case2 s ih =>
    rw [List.cons_append, List.cons_append, readBlock]
    split
    · left
      simp
      omega
    · rename_i hline
      rcases ih [] with hlong | hcount
      · exact .inl hlong
      · right
        rw [length_fieldLines_cons, hcount, List.nil_append, startsWsp_append_of_ne_nil hline]
  | case3 c s hnext ih =>
    have hnext' : ∀ s', c = '\r' → s ++ '\r' :: '\n' :: '\r' :: '\n' :: body ≠ '\n' :: s' := by
      intro s' hc hs
      cases s with
      | nil => exact absurd (List.cons.inj hs).1 (by decide)
      | cons x s => exact hnext s hc (by rw [(List.cons.inj hs).1])
    rw [List.cons_append]
    cases hc : isBreak c with
    | true =>
      rw [readBlock_break hc hnext']
      split
      · left
        simp
        omega
      · rename_i hline
        rcases ih [] with hlong | hcount
        · exact .inl hlong
        · right
          rw [length_fieldLines_cons, hcount, List.nil_append, startsWsp_append_of_ne_nil hline]
          cases startsWsp s <;> simp
    | false =>
      rw [readBlock_cons hc]
      rcases ih (line ++ [c]) with hlong | hcount
      · exact .inl hlong
      · right
        rw [hcount, List.append_assoc]
        simp

/-- A folded value is read to its end, and begins no field. -/
theorem readBlock_folded (h : Folded v) (hline : line ≠ [] ∨ startsWsp v = true)
    (rest : List Char) :
    ∃ l ls, readBlock line (v ++ '\r' :: '\n' :: rest) =
        ((line ++ l) :: (ls ++ (readBlock [] rest).1), (readBlock [] rest).2) ∧
      (line = [] → startsWsp l = true) ∧ ∀ l' ∈ ls, startsWsp l' = true := by
  unfold Folded at h
  fun_induction openBreaks v generalizing line with
  | case1 =>
    have hne := hline.resolve_right Bool.false_ne_true
    refine ⟨[], [], ?_, fun hnil => absurd hnil hne, fun l' hl' => (List.not_mem_nil hl').elim⟩
    rw [List.nil_append, readBlock_crlf hne, List.append_nil]
    rfl
  | case2 s ih =>
    have hne := hline.resolve_right Bool.false_ne_true
    obtain ⟨hwsp, hs⟩ := folds_of_add h
    obtain ⟨l, ls, hread, hl, hls⟩ := ih hs (.inr hwsp)
    refine ⟨[], l :: ls, ?_, fun hnil => absurd hnil hne, ?_⟩
    · rw [List.cons_append, List.cons_append, readBlock_crlf hne, hread, List.append_nil]
      rfl
    · intro l' hl'
      rcases List.mem_cons.mp hl' with rfl | hl'
      · exact hl rfl
      · exact hls l' hl'
  | case3 c s hnext ih =>
    cases hc : isBreak c with
    | true =>
      have hstarts : startsWsp (c :: s) = false := by
        rcases isBreak_cases hc with rfl | rfl <;> rfl
      have hne : line ≠ [] := hline.resolve_right (by rw [hstarts]; exact Bool.false_ne_true)
      have hfolds : (if startsWsp s then 0 else 1) + openBreaks s = 0 := by
        rw [hc, Bool.true_and] at h
        cases hwsp : startsWsp s with
        | true => simpa [hwsp] using h
        | false => simp [hwsp] at h
      obtain ⟨hwsp, hs⟩ := folds_of_add hfolds
      obtain ⟨l, ls, hread, hl, hls⟩ := ih hs (.inr hwsp)
      have hnext' : ∀ s', c = '\r' → s ++ '\r' :: '\n' :: rest ≠ '\n' :: s' := by
        intro s' _ heq
        cases s with
        | nil => exact absurd (List.cons.inj heq).1 (by decide)
        | cons x s =>
          rw [(List.cons.inj heq).1] at hwsp
          exact absurd hwsp (by simp [startsWsp, isWsp])
      refine ⟨[], l :: ls, ?_, fun hnil => absurd hnil hne, ?_⟩
      · rw [List.cons_append, readBlock_break hc hnext', if_neg hne, hread, List.append_nil]
        rfl
      · intro l' hl'
        rcases List.mem_cons.mp hl' with rfl | hl'
        · exact hl rfl
        · exact hls l' hl'
    | false =>
      rw [hc] at h
      have hs : openBreaks s = 0 := by simpa using h
      obtain ⟨l, ls, hread, hl, hls⟩ := ih hs
        (.inl (List.append_ne_nil_of_right_ne_nil line (List.cons_ne_nil c [])))
      refine ⟨c :: l, ls, ?_, ?_, hls⟩
      · rw [List.cons_append, readBlock_cons hc, hread]
        simp
      · intro hnil
        exact hline.resolve_left (not_not.mpr hnil)

/-! ## Blocks of fields -/

theorem startsWsp_name {name : List Char} (h : IsFieldName name) (s : List Char) :
    startsWsp (name ++ s) = false := by
  obtain ⟨c, name, rfl⟩ := List.exists_cons_of_ne_nil h.ne_nil
  simpa [startsWsp] using (h.spec c List.mem_cons_self).2.1

theorem not_isBreak_label {name : List Char} (h : IsFieldName name) :
    ∀ c ∈ name ++ [':', ' '], isBreak c = false := by
  have hsep : ∀ c ∈ [':', ' '], isBreak c = false := forall_mem_of_all (by decide)
  intro c hc
  rcases List.mem_append.mp hc with hc | hc
  · exact (h.spec c hc).2.2
  · exact hsep c hc

theorem openBreaks_label {name : List Char} (h : IsFieldName name) (s : List Char) :
    openBreaks (name ++ ':' :: ' ' :: s) = openBreaks s := by
  have happend := openBreaks_append_of_not (not_isBreak_label h) s
  rwa [List.append_assoc] at happend

theorem fieldNames_cons {name : List Char} (h : IsFieldName name) (l : List Char)
    {ls : List (List Char)} (hls : ∀ l' ∈ ls, startsWsp l' = true) (rest : List (List Char)) :
    fieldNames ((name ++ ':' :: l) :: (ls ++ rest)) = name :: fieldNames rest := by
  have hcolon : ':' ∉ name := fun hmem => (h.spec _ hmem).1 rfl
  have hskip : (ls ++ rest).filter (fun l => !startsWsp l) = rest.filter fun l => !startsWsp l := by
    rw [List.filter_append, List.filter_eq_nil_iff.mpr fun l' hl' => by simp [hls l' hl']]
    rfl
  unfold fieldNames fieldLines
  rw [List.filter_cons_of_pos (by simp [startsWsp_name h]), hskip, List.map_cons,
    takeWhile_append_cons hcolon]

/-- Folded fields are read as they were written. -/
theorem readBlock_writeBlock {fields : List (List Char × List Char)}
    (hnames : ∀ f ∈ fields, IsFieldName f.1) (hfolded : ∀ f ∈ fields, Folded f.2)
    (body : List Char) :
    fieldNames (readBlock [] (writeBlock fields body)).1 = fields.map Prod.fst ∧
      (readBlock [] (writeBlock fields body)).2 = body := by
  induction fields with
  | nil => exact ⟨rfl, rfl⟩
  | cons f fields ih =>
    obtain ⟨hrest, hbody⟩ := ih (fun f hf => hnames f (List.mem_cons_of_mem _ hf))
      fun f hf => hfolded f (List.mem_cons_of_mem _ hf)
    have hname := hnames f List.mem_cons_self
    have hwrite : writeBlock (f :: fields) body =
        (f.1 ++ [':', ' ']) ++ (f.2 ++ '\r' :: '\n' :: writeBlock fields body) := by
      simp [writeBlock, writeField]
    have hline := not_isBreak_label hname
    obtain ⟨l, ls, hread, -, hls⟩ := readBlock_folded (hfolded f List.mem_cons_self)
      (.inl (by simp : f.1 ++ [':', ' '] ≠ [])) (writeBlock fields body)
    have hstart : f.1 ++ [':', ' '] ++ l = f.1 ++ ':' :: (' ' :: l) := by simp
    rw [hwrite, readBlock_append hline, List.nil_append, hread, hstart]
    exact ⟨by rw [fieldNames_cons hname _ hls, hrest]; rfl, hbody⟩

/-- Written fields are a head before two line breaks; its open breaks are those between the
fields and those in the values. -/
theorem exists_head {f : List Char × List Char} {fields : List (List Char × List Char)}
    (hnames : ∀ g ∈ f :: fields, IsFieldName g.1) :
    ∃ c head, (f :: fields).flatMap writeField = c :: head ++ ['\r', '\n'] ∧ isWsp c = false ∧
      openBreaks (c :: head) = fields.length + ((f :: fields).map fun g => openBreaks g.2).sum := by
  have hname := hnames f List.mem_cons_self
  obtain ⟨c, name, hf⟩ := List.exists_cons_of_ne_nil hname.ne_nil
  have hc : isWsp c = false := (hname.spec c (by rw [hf]; exact List.mem_cons_self)).2.1
  induction fields generalizing f c name with
  | nil =>
    refine ⟨c, name ++ ':' :: ' ' :: f.2, ?_, hc, ?_⟩
    · simp [writeField, hf]
    · rw [← List.cons_append, ← hf, openBreaks_label hname]
      simp
  | cons g fields ih =>
    have hnames' : ∀ h ∈ g :: fields, IsFieldName h.1 := fun h hh => hnames h (by simp [hh])
    have hg := hnames' g List.mem_cons_self
    obtain ⟨x, name', hx⟩ := List.exists_cons_of_ne_nil hg.ne_nil
    have hxwsp : isWsp x = false := (hg.spec x (by rw [hx]; exact List.mem_cons_self)).2.1
    obtain ⟨c', head, hwrite, hc', hbreaks⟩ := ih hnames' hg x name' hx hxwsp
    refine ⟨c, name ++ ':' :: ' ' :: (f.2 ++ '\r' :: '\n' :: c' :: head), ?_, hc, ?_⟩
    · rw [List.flatMap_cons, hwrite, writeField, hf]
      simp
    · rw [← List.cons_append, ← hf, openBreaks_label hname,
        openBreaks_append (by decide : isWsp '\r' = false) (by decide), openBreaks_crlf hc', hbreaks,
        List.map_cons, List.map_cons, List.sum_cons, List.sum_cons, List.map_cons, List.sum_cons,
        List.length_cons]
      omega

/-- What is read is what was written exactly if the values are folded. -/
theorem readBlock_iff {fields : List (List Char × List Char)} (hne : fields ≠ [])
    (hnames : ∀ f ∈ fields, IsFieldName f.1) (body : List Char) :
    (fieldNames (readBlock [] (writeBlock fields body)).1 = fields.map Prod.fst ∧
        (readBlock [] (writeBlock fields body)).2 = body) ↔
      ∀ f ∈ fields, Folded f.2 := by
  refine ⟨fun ⟨hread, hbody⟩ => ?_, fun hfolded => readBlock_writeBlock hnames hfolded body⟩
  obtain ⟨f, fields, rfl⟩ := List.exists_cons_of_ne_nil hne
  obtain ⟨c, head, hwrite, hc, hbreaks⟩ := exists_head hnames
  have hblock : writeBlock (f :: fields) body =
      (c :: head) ++ '\r' :: '\n' :: '\r' :: '\n' :: body := by
    unfold writeBlock
    rw [hwrite]
    simp
  rw [hblock] at hread hbody
  rcases readBlock_count [] (c :: head) body with hlong | hcount
  · rw [hbody] at hlong
    exact absurd hlong (Nat.lt_irrefl _)
  · have hstart : startsWsp ([] ++ c :: head) = false := by simpa [startsWsp] using hc
    have hlength := congrArg List.length hread
    unfold fieldNames at hlength
    rw [List.length_map, List.length_map, hcount, hstart, hbreaks, List.length_cons] at hlength
    have hzero : ((f :: fields).map fun g => openBreaks g.2).sum = 0 := by
      simp only [Bool.false_eq_true, if_false] at hlength
      omega
    intro g hg
    exact List.sum_eq_zero_iff_forall_eq_nat.mp hzero _ (List.mem_map_of_mem hg)

end Read

end Lyra.Lib
