import Lyra.Lib.Lines
import Lyra.Store.JsonText

/-!
# Flags of a fetched message

`parse_fetch_to_message` keeps the derived `Debug` text of each flag: `Seen` for `\Seen`, and
`Custom("k")` for a keyword `k`.  The upsert looks for `Seen` and `Flagged` inside these texts, and
`labels_from_flags_json` for texts that begin with `label-`.

* `contains_name`: a capitalised word is inside such a text where it names the flag or is inside
  the keyword;
* `labels_of_debug`: no such text begins with `label-`;
* `flagsReadBack_iff`: what is read back is what was fetched exactly if there are no label keywords
  (or more than the cap) and no other keyword contains the name of a missing system flag.
-/

namespace Lyra

/-! ## Flags -/

/-- `async_imap::types::Flag`. -/
inductive Flag
  | seen | answered | flagged | deleted | draft | recent | mayCreate
  | custom (keyword : Text)
  deriving DecidableEq, Repr

/-- `char::escape_debug` inside a string. -/
def escapeDebug (printable : Char → Bool) (c : Char) : Text :=
  if c.toNat = 0 then ['\\', '0']
  else if c = '\t' then ['\\', 't']
  else if c = '\r' then ['\\', 'r']
  else if c = '\n' then ['\\', 'n']
  else if c = '"' then ['\\', '"']
  else if c = '\\' then ['\\', '\\']
  else if printable c then [c]
  else '\\' :: 'u' :: Char.ofNat 0x7b :: (Nat.toDigits 16 c.toNat ++ [Char.ofNat 0x7d])

/-- The derived `Debug`. -/
def Flag.debug (printable : Char → Bool) : Flag → Text
  | seen => "Seen".toList
  | answered => "Answered".toList
  | flagged => "Flagged".toList
  | deleted => "Deleted".toList
  | draft => "Draft".toList
  | recent => "Recent".toList
  | mayCreate => "MayCreate".toList
  | custom k => "Custom(".toList ++ '"' :: k.flatMap (escapeDebug printable) ++ ['"', ')']

/-- A message with the flags of a fetch. -/
def ImapMessage.withFlags (m : ImapMessage) (printable : Char → Bool) (fs : List Flag) :
    ImapMessage :=
  { m with flags := fs.map (Flag.debug printable) }

/-- `labels_from_flags_json`. -/
def labelsFromFlagsJson (parseJson : Text → Option Json) (flagsJson : Text) : List Text :=
  match parseJson flagsJson with
  | some (.array items) => labelsFromFlags (items.filterMap Json.asStr)
  | some (.object fields) => labelsFromFlags (fields.map Prod.fst)
  | _ => []

/-! ## The property -/

/-- The label that a flag is the keyword of. -/
def Flag.label : Flag → Option Text
  | custom k =>
    if "label-".toList.isPrefixOf k && k.drop 6 ≠ [] then some (k.drop 6) else none
  | _ => none

def keywordLabels (fs : List Flag) : List Text := (fs.filterMap Flag.label).eraseDups

/-- What is read back from the row is what the fetched flags say. -/
structure FlagsReadBack (parseJson : Text → Option Json) (fs : List Flag) (row : MessageRow) :
    Prop where
  labels : (keywordLabels fs).length ≤ maxLabels →
    ∀ l, l ∈ labelsFromFlagsJson parseJson (row.flags.getD []) ↔ l ∈ keywordLabels fs
  read : row.isRead = true ↔ .seen ∈ fs
  starred : row.isStarred = true ↔ .flagged ∈ fs

/-- No keyword contains the name. -/
def NoKeywordHas (name : Text) (fs : List Flag) : Prop := ∀ k, .custom k ∈ fs → ¬ name <:+: k

/-! ## Words inside a `Debug` text -/

section Words

variable {printable : Char → Bool} {c x : Char} {a s w : Text}

theorem not_upper_toDigits (n : Nat) : ∀ d ∈ Nat.toDigits 16 n, d.isUpper = false := by
  have hdigit : ∀ k, (Nat.digitChar k).isUpper = false := by
    intro k
    have hlow : ∀ k < 16, (Nat.digitChar k).isUpper = false := by decide
    rcases Nat.lt_or_ge k 16 with hk | hk
    · exact hlow k hk
    · have hstar : Nat.digitChar k = '*' := by
        unfold Nat.digitChar
        repeat rw [if_neg (by omega)]
      rw [hstar]
      rfl
  have hcore : ∀ fuel n acc, (∀ d ∈ acc, d.isUpper = false) →
      ∀ d ∈ Nat.toDigitsCore 16 fuel n acc, d.isUpper = false := by
    intro fuel
    induction fuel with
    | zero => exact fun _ _ h => h
    | succ fuel ih =>
      intro n acc h
      have hcons : ∀ d ∈ Nat.digitChar (n % 16) :: acc, d.isUpper = false := by
        intro d hd
        rcases List.mem_cons.mp hd with rfl | hd
        · exact hdigit _
        · exact h d hd
      rw [Nat.toDigitsCore]
      split
      · exact hcons
      · exact ih _ _ hcons
  exact hcore _ _ _ fun d hd => (List.not_mem_nil hd).elim

/-- A character stands for itself, or is no letter and its escape has no capital in it. -/
theorem escapeDebug_cases (hascii : ∀ c : Char, c.isAlpha = true → printable c = true) (c : Char) :
    escapeDebug printable c = [c] ∨
      c.isAlpha = false ∧ ∃ r, escapeDebug printable c = '\\' :: r ∧ ∀ d ∈ r, d.isUpper = false := by
  unfold escapeDebug
  split
  · rename_i hc
    have heq : c = Char.ofNat 0 := by rw [← hc, Char.ofNat_toNat]
    subst heq
    exact .inr ⟨by decide, _, rfl, Lib.forall_mem_of_all (by decide)⟩
  · split
    · rename_i hc
      subst hc
      exact .inr ⟨by decide, _, rfl, Lib.forall_mem_of_all (by decide)⟩
    · split
      · rename_i hc
        subst hc
        exact .inr ⟨by decide, _, rfl, Lib.forall_mem_of_all (by decide)⟩
      · split
        · rename_i hc
          subst hc
          exact .inr ⟨by decide, _, rfl, Lib.forall_mem_of_all (by decide)⟩
        · split
          · rename_i hc
            subst hc
            exact .inr ⟨by decide, _, rfl, Lib.forall_mem_of_all (by decide)⟩
          · split
            · rename_i hc
              subst hc
              exact .inr ⟨by decide, _, rfl, Lib.forall_mem_of_all (by decide)⟩
            · split
              · exact .inl rfl
              · rename_i hprint
                refine .inr ⟨?_, _, rfl, ?_⟩
                · rw [← Bool.not_eq_true]
                  exact fun halpha => hprint (hascii c halpha)
                · intro d hd
                  rcases List.mem_cons.mp hd with rfl | hd
                  · decide
                  · rcases List.mem_cons.mp hd with rfl | hd
                    · decide
                    · rcases List.mem_append.mp hd with hd | hd
                      · exact not_upper_toDigits _ d hd
                      · obtain rfl := List.mem_singleton.mp hd
                        decide

theorem infix_append_of_not_mem (hx : x ∉ a) : (x :: w) <:+: a ++ s ↔ (x :: w) <:+: s := by
  induction a with
  | nil => rfl
  | cons c a ih =>
    have hne : c ≠ x := fun h => hx (h ▸ List.mem_cons_self)
    rw [List.cons_append, List.infix_cons_iff, ih fun h => hx (List.mem_cons_of_mem _ h)]
    constructor
    · rintro (hpre | h)
      · exact absurd (List.cons_prefix_cons.mp hpre).1.symm hne
      · exact h
    · exact .inr

/-- Letters are not escaped. -/
theorem prefix_escaped (hascii : ∀ c : Char, c.isAlpha = true → printable c = true)
    (hw : ∀ c ∈ w, c.isAlpha = true) :
    w <+: s.flatMap (escapeDebug printable) ++ ['"', ')'] ↔ w <+: s := by
  induction w generalizing s with
  | nil => exact ⟨fun _ => List.nil_prefix, fun _ => List.nil_prefix⟩
  | cons x w ih =>
    have hx := hw x List.mem_cons_self
    have hrest : ∀ c ∈ w, c.isAlpha = true := fun c hc => hw c (List.mem_cons_of_mem _ hc)
    cases s with
    | nil =>
      constructor
      · intro h
        obtain rfl := (List.cons_prefix_cons.mp h).1
        cases hx
      · intro h
        cases List.prefix_nil.mp h
    | cons c s =>
      rw [List.flatMap_cons, List.append_assoc, List.cons_prefix_cons]
      rcases escapeDebug_cases hascii c with hself | ⟨halpha, r, hr, -⟩
      · rw [hself, List.singleton_append, List.cons_prefix_cons, ih hrest]
      · rw [hr, List.cons_append, List.cons_prefix_cons]
        constructor
        · rintro ⟨rfl, -⟩
          cases hx
        · rintro ⟨rfl, -⟩
          rw [hx] at halpha
          cases halpha

/-- Nor does an escape make a word with a capital. -/
theorem infix_escaped (hascii : ∀ c : Char, c.isAlpha = true → printable c = true)
    (hupper : x.isUpper = true) (hw : ∀ c ∈ x :: w, c.isAlpha = true) :
    (x :: w) <:+: s.flatMap (escapeDebug printable) ++ ['"', ')'] ↔ (x :: w) <:+: s := by
  have hend : x ∉ ['"', ')'] := by
    intro h
    simp only [List.mem_cons, List.not_mem_nil, or_false] at h
    rcases h with rfl | rfl
    · cases hupper
    · cases hupper
  induction s with
  | nil =>
    have hnil := infix_append_of_not_mem (w := w) (s := []) hend
    rw [List.append_nil] at hnil
    exact hnil
  | cons c s ih =>
    have hstart := prefix_escaped (s := c :: s) hascii hw
    rw [List.flatMap_cons, List.append_assoc] at hstart ⊢
    rw [List.infix_cons_iff]
    rcases escapeDebug_cases hascii c with hself | ⟨halpha, r, hr, hlow⟩
    · rw [hself] at hstart ⊢
      rw [List.singleton_append] at hstart ⊢
      rw [List.infix_cons_iff]
      exact or_congr hstart ih
    · have hx : x ∉ '\\' :: r := by
        intro h
        rcases List.mem_cons.mp h with rfl | h
        · cases hupper
        · rw [hlow x h] at hupper
          cases hupper
      have hne : ¬ (x :: w) <+: c :: s := by
        intro h
        obtain rfl := (List.cons_prefix_cons.mp h).1
        rw [hw x List.mem_cons_self] at halpha
        cases halpha
      rw [hr, infix_append_of_not_mem hx]
      exact ih.trans ⟨.inr, fun h => h.resolve_left hne⟩

end Words

/-! ## Reading back -/

section ReadBack

variable {printable : Char → Bool} {f : Flag} {fs : List Flag} {k : Text}

theorem contains_custom (hascii : ∀ c : Char, c.isAlpha = true → printable c = true) {x : Char}
    {w : Text} (hupper : x.isUpper = true) (hw : ∀ c ∈ x :: w, c.isAlpha = true)
    (hx : x ≠ 'C') : (x :: w) <:+: (Flag.custom k).debug printable ↔ (x :: w) <:+: k := by
  have hname : "Custom(".toList = ['C', 'u', 's', 't', 'o', 'm', '('] := rfl
  have hopen : x ∉ ['C', 'u', 's', 't', 'o', 'm', '(', '"'] := by
    intro h
    have hlow : ∀ c ∈ ['u', 's', 't', 'o', 'm', '(', '"'], c.isUpper = false :=
      Lib.forall_mem_of_all (by decide)
    rcases List.mem_cons.mp h with rfl | h
    · exact hx rfl
    · rw [hlow x h] at hupper
      cases hupper
  have hdebug : (Flag.custom k).debug printable = ['C', 'u', 's', 't', 'o', 'm', '(', '"'] ++
      (k.flatMap (escapeDebug printable) ++ ['"', ')']) := by
    unfold Flag.debug
    simp only [hname, List.cons_append, List.nil_append]
  rw [hdebug, infix_append_of_not_mem hopen, infix_escaped hascii hupper hw]

/-- Only one flag has the name, unless a keyword does. -/
theorem contains_name {name : Text} {system : Flag}
    (hcustom : ∀ k, name <:+: (Flag.custom k).debug printable ↔ name <:+: k)
    (hnot : ∀ k, system ≠ .custom k)
    (hsystem : ∀ f : Flag, (∀ k, f ≠ .custom k) →
      (containsText name (f.debug fun _ => true) = true ↔ f = system)) :
    containsText name (f.debug printable) = true ↔
      f = system ∨ ∃ k, f = .custom k ∧ name <:+: k := by
  have hcases : (∃ k, f = .custom k) ∨ ((∀ k, f ≠ .custom k) ∧
      f.debug printable = f.debug fun _ => true) := by
    cases f with
    | custom k => exact .inl ⟨k, rfl⟩
    | _ => exact .inr ⟨fun _ h => Flag.noConfusion h, rfl⟩
  rcases hcases with ⟨k, rfl⟩ | ⟨hf, hdebug⟩
  · rw [containsText_iff, hcustom]
    constructor
    · exact fun h => .inr ⟨k, rfl, h⟩
    · rintro (h | ⟨k', h, hk⟩)
      · exact absurd h.symm (hnot k)
      · obtain rfl := Flag.custom.inj h
        exact hk
  · rw [hdebug, hsystem f hf]
    constructor
    · exact .inl
    · rintro (h | ⟨k, h, -⟩)
      · exact h
      · exact absurd h (hf k)

theorem contains_seen (hascii : ∀ c : Char, c.isAlpha = true → printable c = true) :
    containsText "Seen".toList (f.debug printable) = true ↔
      f = .seen ∨ ∃ k, f = .custom k ∧ "Seen".toList <:+: k := by
  have hname : "Seen".toList = ['S', 'e', 'e', 'n'] := rfl
  apply contains_name
  · intro k
    rw [hname]
    exact contains_custom hascii (by decide) (Lib.forall_mem_of_all (by decide)) (by decide)
  · intro k h
    cases h
  · intro f hf
    cases f with
    | custom k => exact absurd rfl (hf k)
    | _ => decide +kernel

theorem contains_flagged (hascii : ∀ c : Char, c.isAlpha = true → printable c = true) :
    containsText "Flagged".toList (f.debug printable) = true ↔
      f = .flagged ∨ ∃ k, f = .custom k ∧ "Flagged".toList <:+: k := by
  have hname : "Flagged".toList = ['F', 'l', 'a', 'g', 'g', 'e', 'd'] := rfl
  apply contains_name
  · intro k
    rw [hname]
    exact contains_custom hascii (by decide) (Lib.forall_mem_of_all (by decide)) (by decide)
  · intro k h
    cases h
  · intro f hf
    cases f with
    | custom k => exact absurd rfl (hf k)
    | _ => decide +kernel

theorem foldl_same {α β : Type} {g : β → α → β} {l : List α} {out : β}
    (h : ∀ a ∈ l, g out a = out) : l.foldl g out = out := by
  induction l with
  | nil => rfl
  | cons a l ih =>
    rw [List.foldl_cons, h a List.mem_cons_self]
    exact ih fun a ha => h a (List.mem_cons_of_mem _ ha)

theorem labelsFromFlags_eq_nil {flags : List Text}
    (h : ∀ f ∈ flags, "label-".toList.isPrefixOf f = false) : labelsFromFlags flags = [] := by
  unfold labelsFromFlags
  rw [foldl_same]
  · rfl
  · intro f hf
    simp only [h f hf]

/-- No stored flag begins as a label keyword does. -/
theorem labels_of_debug : labelsFromFlags (fs.map (Flag.debug printable)) = [] := by
  refine labelsFromFlags_eq_nil fun t ht => ?_
  obtain ⟨f, -, rfl⟩ := List.mem_map.mp ht
  have hlabel : "label-".toList = ['l', 'a', 'b', 'e', 'l', '-'] := rfl
  rw [hlabel]
  cases f with
  | custom k => rfl
  | _ => rfl

/-- A row that looks for a name, with or without its backslash, finds the flag of that name and
the keywords that contain it. -/
theorem any_named {name backslashed : Text} {system : Flag} (hsuffix : name <:+: backslashed)
    (hname : ∀ f : Flag, containsText name (f.debug printable) = true ↔
      f = system ∨ ∃ k, f = .custom k ∧ name <:+: k) :
    (fs.map (Flag.debug printable)).any
        (fun f => containsText name f || containsText backslashed f) = true ↔
      system ∈ fs ∨ ∃ k, .custom k ∈ fs ∧ name <:+: k := by
  simp only [List.any_map, List.any_eq_true, Function.comp_apply, Bool.or_eq_true]
  constructor
  · rintro ⟨f, hf, h⟩
    have hcontains : containsText name (f.debug printable) = true := by
      rcases h with h | h
      · exact h
      · exact containsText_iff.mpr (hsuffix.trans (containsText_iff.mp h))
    rcases (hname f).mp hcontains with rfl | ⟨k, rfl, hk⟩
    · exact .inl hf
    · exact .inr ⟨k, hf, hk⟩
  · rintro (hf | ⟨k, hf, hk⟩)
    · exact ⟨_, hf, .inl ((hname _).mpr (.inl rfl))⟩
    · exact ⟨_, hf, .inl ((hname _).mpr (.inr ⟨k, rfl, hk⟩))⟩

theorem isRead_withFlags (hascii : ∀ c : Char, c.isAlpha = true → printable c = true)
    (m : ImapMessage) : (m.withFlags printable fs).isRead = true ↔
      .seen ∈ fs ∨ ∃ k, .custom k ∈ fs ∧ "Seen".toList <:+: k :=
  any_named ⟨['\\'], [], rfl⟩ fun _ => contains_seen hascii

theorem isStarred_withFlags (hascii : ∀ c : Char, c.isAlpha = true → printable c = true)
    (m : ImapMessage) : (m.withFlags printable fs).isStarred = true ↔
      .flagged ∈ fs ∨ ∃ k, .custom k ∈ fs ∧ "Flagged".toList <:+: k :=
  any_named ⟨['\\'], [], rfl⟩ fun _ => contains_flagged hascii

end ReadBack

/-- What the row of a fetched message says is what its flags say exactly where no label has to be
read and no keyword contains the name of a system flag that is not set. -/
theorem flagsReadBack_iff (parseJson : Text → Option Json)
    (hjson : ∀ items, parseJson (jsonArray items) = some (.array (items.map Json.string)))
    (printable : Char → Bool) (hascii : ∀ c : Char, c.isAlpha = true → printable c = true)
    (m : ImapMessage) (fs : List Flag) (id : Nat) (acc : AccountId) (folder : FolderId) :
    FlagsReadBack parseJson fs ((m.withFlags printable fs).toRow id acc folder) ↔
      (keywordLabels fs = [] ∨ maxLabels < (keywordLabels fs).length) ∧
        (.seen ∈ fs ∨ NoKeywordHas "Seen".toList fs) ∧
        (.flagged ∈ fs ∨ NoKeywordHas "Flagged".toList fs) := by
  have hlabels : labelsFromFlagsJson parseJson (((m.withFlags printable fs).toRow id acc
      folder).flags.getD []) = [] := by
    have hflags : ((m.withFlags printable fs).toRow id acc folder).flags =
        some (jsonArray (fs.map (Flag.debug printable))) := rfl
    unfold labelsFromFlagsJson
    rw [hflags, Option.getD_some, hjson]
    have hstrings : ((fs.map (Flag.debug printable)).map Json.string).filterMap Json.asStr =
        fs.map (Flag.debug printable) := by
      rw [List.filterMap_map]
      exact List.filterMap_some
    simp only [hstrings]
    exact labels_of_debug
  have hread : ((m.withFlags printable fs).toRow id acc folder).isRead =
      (m.withFlags printable fs).isRead := rfl
  have hstarred : ((m.withFlags printable fs).toRow id acc folder).isStarred =
      (m.withFlags printable fs).isStarred := rfl
  constructor
  · rintro ⟨hl, hr, hs⟩
    rw [hread, isRead_withFlags hascii] at hr
    rw [hstarred, isStarred_withFlags hascii] at hs
    refine ⟨?_, ?_, ?_⟩
    · rcases Nat.lt_or_ge maxLabels (keywordLabels fs).length with hmany | hfew
      · exact .inr hmany
      · apply Or.inl
        rw [List.eq_nil_iff_forall_not_mem]
        intro l hmem
        have hstored := (hl hfew l).mpr hmem
        rw [hlabels] at hstored
        exact List.not_mem_nil hstored
    · rcases Decidable.em (.seen ∈ fs) with hseen | hseen
      · exact .inl hseen
      · exact .inr fun k hk hname => hseen (hr.mp (.inr ⟨k, hk, hname⟩))
    · rcases Decidable.em (.flagged ∈ fs) with hflagged | hflagged
      · exact .inl hflagged
      · exact .inr fun k hk hname => hflagged (hs.mp (.inr ⟨k, hk, hname⟩))
  · rintro ⟨hl, hr, hs⟩
    refine ⟨fun hfew l => ?_, ?_, ?_⟩
    · rw [hlabels]
      rcases hl with hnil | hmany
      · rw [hnil]
      · exact absurd hfew (Nat.not_le.mpr hmany)
    · rw [hread, isRead_withFlags hascii]
      constructor
      · rintro (hseen | ⟨k, hk, hname⟩)
        · exact hseen
        · exact hr.resolve_right fun hno => hno k hk hname
      · exact .inl
    · rw [hstarred, isStarred_withFlags hascii]
      constructor
      · rintro (hflagged | ⟨k, hk, hname⟩)
        · exact hflagged
        · exact hs.resolve_right fun hno => hno k hk hname
      · exact .inl

/-- A read message with a keyword of its own. -/
theorem plain_flags_read_back : FlagsReadBack readJson [.seen, .custom "$Forwarded".toList]
    ((({ uid := 1 } : ImapMessage).withFlags (fun _ => true)
      [.seen, .custom "$Forwarded".toList]).toRow 0 ['a'] ['i']) :=
  (flagsReadBack_iff readJson readJson_jsonArray (fun _ => true) (fun _ _ => rfl) { uid := 1 }
    [.seen, .custom "$Forwarded".toList] 0 ['a'] ['i']).mpr
    ⟨.inl (by decide +kernel), .inl List.mem_cons_self, .inr (by
      intro k hk hname
      have hcustom : k = "$Forwarded".toList := by
        rcases List.mem_cons.mp hk with h | h
        · cases h
        · exact Flag.custom.inj (List.mem_singleton.mp h)
      rw [hcustom, ← containsText_iff] at hname
      exact absurd hname (by decide +kernel))⟩

/-- The keyword of a label comes back as no label, and one that contains `Seen` as read. -/
theorem label_not_read_back :
    ¬ FlagsReadBack readJson [.custom "label-work".toList]
        ((({ uid := 1 } : ImapMessage).withFlags (fun _ => true)
          [.custom "label-work".toList]).toRow 0 ['a'] ['i']) ∧
      ¬ FlagsReadBack readJson [.custom "NotSeen".toList]
        ((({ uid := 1 } : ImapMessage).withFlags (fun _ => true)
          [.custom "NotSeen".toList]).toRow 0 ['a'] ['i']) := by
  constructor
  · intro h
    have hwork := (h.labels (by decide +kernel) "work".toList).mpr (by decide +kernel)
    have hnone : labelsFromFlagsJson readJson (((({ uid := 1 } : ImapMessage).withFlags
        (fun _ => true) [.custom "label-work".toList]).toRow 0 ['a'] ['i']).flags.getD []) = [] := by
      decide +kernel
    rw [hnone] at hwork
    exact List.not_mem_nil hwork
  · intro h
    have hread := h.read.mp (by decide +kernel)
    exact absurd hread (by decide +kernel)

end Lyra
