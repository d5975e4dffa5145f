import Lyra.Frontend.Notifications

/-!
# The two new-mail diffs

`push/diff.rs` is a port of the notifier of the frontend.  The fresh messages and the baseline are
the same but for a thread whose id is empty; the labels of senders differ on some shapes.

* `diffs_agree`: exactly when the two agree;
* `named_object_differs`: a sender stored with a name and an address.
-/

namespace Lyra.Push

open Lyra.Notifications (coalesce truthy matchBracketed matchAddress parseOneAddress parseAddress
  isLineTerminator diffNotifications messageIdentity)
open Lyra.Conversation (isSpace trim)

/-! ## Fresh messages -/

theorem messageIdentity_eq (m : MessageResponse) : messageIdentity m = identity m := by
  unfold messageIdentity identity
  cases m.messageIdHeader with
  | none => rfl
  | some header =>
    cases header with
    | nil => rfl
    | cons c t => rfl

theorem backend_fresh (serde : Text → Option Json) (messages : List MessageResponse)
    (known mutedFolders mutedThreads : List Text) :
    (diffNewMessages serde messages known mutedFolders mutedThreads).fresh.map (·.id) =
      if known = [] then []
      else ((window messages).filter fun m => !known.contains (identity m) &&
        unmuted mutedFolders mutedThreads m).map (·.id) := by
  unfold diffNewMessages
  split
  · rfl
  · have hid : (fun c : PushCandidate => c.id) ∘ candidate serde = fun m => m.id := rfl
    rw [List.map_map, List.filter_filter, hid]
    refine congrArg (List.map _) (List.filter_congr fun m _ => Bool.and_comm _ _)

theorem frontend_fresh (messages : List MessageResponse) (baseline : Option (List Text))
    (mutedFolders mutedThreads : List Text) :
    (diffNotifications messages baseline mutedFolders mutedThreads).fresh.map (·.id) =
      if baseline.getD [] = [] then []
      else ((window messages).filter fun m => !(baseline.getD []).contains (identity m) &&
        !mutedFolders.contains m.folderId &&
          !(m.threadId.any fun t => t ≠ [] && mutedThreads.contains t)).map (·.id) := by
  have hfresh : (diffNotifications messages baseline mutedFolders mutedThreads).fresh =
      if baseline.getD [] = [] then []
      else (window messages).filter fun m => !(baseline.getD []).contains (messageIdentity m) &&
        !mutedFolders.contains m.folderId &&
          !(m.threadId.any fun t => t ≠ [] && mutedThreads.contains t) := rfl
  rw [hfresh, funext messageIdentity_eq]
  split
  · rfl
  · rfl

theorem baselines_agree (serde : Text → Option Json) (messages : List MessageResponse)
    (baseline : Option (List Text)) (mutedFolders mutedThreads : List Text) :
    (diffNotifications messages baseline mutedFolders mutedThreads).baseline =
      (diffNewMessages serde messages (baseline.getD []) mutedFolders mutedThreads).newBaseline := by
  have hfront : (diffNotifications messages baseline mutedFolders mutedThreads).baseline =
      (window messages).map messageIdentity := rfl
  rw [hfront, funext messageIdentity_eq]
  unfold diffNewMessages
  split
  · rfl
  · rfl

/-- A fresh message of the window in a thread whose id is empty, while the empty id is muted. -/
def MutesEmptyThread (messages : List MessageResponse) (baseline mutedFolders mutedThreads : List Text) :
    Prop :=
  baseline ≠ [] ∧ [] ∈ mutedThreads ∧ ∃ m ∈ window messages,
    identity m ∉ baseline ∧ m.folderId ∉ mutedFolders ∧ m.threadId = some []

/-- Two filters of a list, one within the other, keep as many exactly when they keep the same. -/
theorem map_filter_eq_iff {α β : Type} {p q : α → Bool} (f : α → β) {l : List α}
    (hpq : ∀ a ∈ l, p a = true → q a = true) :
    (l.filter q).map f = (l.filter p).map f ↔ ∀ a ∈ l, q a = true → p a = true := by
  constructor
  · intro h
    have hlength := congrArg List.length h
    rw [List.length_map, List.length_map] at hlength
    have hsub : (l.filter p).Sublist (l.filter q) := by
      have hfilter : l.filter p = (l.filter q).filter p := by
        rw [List.filter_filter]
        apply List.filter_congr
        intro a ha
        cases hp : p a with
        | false => rfl
        | true => rw [hpq a ha hp]; rfl
      rw [hfilter]
      exact List.filter_sublist
    have hsame := hsub.eq_of_length hlength.symm
    intro a ha hq
    have hmem : a ∈ l.filter q := List.mem_filter.mpr ⟨ha, hq⟩
    rw [← hsame] at hmem
    exact (List.mem_filter.mp hmem).2
  · intro h
    rw [List.filter_congr fun a ha => Bool.eq_iff_iff.mpr ⟨h a ha, hpq a ha⟩]

theorem fresh_agree_iff (serde : Text → Option Json) (messages : List MessageResponse)
    (baseline : Option (List Text)) (mutedFolders mutedThreads : List Text) :
    (diffNotifications messages baseline mutedFolders mutedThreads).fresh.map (·.id) =
        (diffNewMessages serde messages (baseline.getD []) mutedFolders mutedThreads).fresh.map
          (·.id) ↔
      ¬ MutesEmptyThread messages (baseline.getD []) mutedFolders mutedThreads := by
  rw [frontend_fresh, backend_fresh]
  unfold MutesEmptyThread
  generalize baseline.getD [] = known
  by_cases hempty : known = []
  · rw [if_pos hempty, if_pos hempty]
    exact iff_of_true rfl fun h => h.1 hempty
  rw [if_neg hempty, if_neg hempty, map_filter_eq_iff]
  · constructor
    · rintro h ⟨_, hmuted, m, hm, hfresh, hfolder, hthread⟩
      have hboth := h m hm
      simp [unmuted, hthread, hfresh, hfolder, hmuted] at hboth
    · intro h m hm hfront
      cases hthread : m.threadId with
      | none => simpa [unmuted, hthread] using hfront
      | some t =>
        simp only [hthread, Option.any_some, Bool.and_eq_true, Bool.not_eq_true',
          List.contains_eq_mem, decide_eq_false_iff_not] at hfront
        obtain ⟨⟨hfresh, hfolder⟩, hunmuted⟩ := hfront
        have hmutes : t ∉ mutedThreads := by
          intro hmem
          cases t with
          | nil => exact h ⟨hempty, hmem, m, hm, hfresh, hfolder, hthread⟩
          | cons c t => simp [hmem] at hunmuted
        simp [unmuted, hthread, hfresh, hfolder, hmutes]
  · intro m _ hback
    cases hthread : m.threadId with
    | none => simpa [unmuted, hthread] using hback
    | some t =>
      simp only [unmuted, hthread, Option.all_some, Bool.and_eq_true, Bool.not_eq_true',
        List.contains_eq_mem, decide_eq_false_iff_not] at hback
      obtain ⟨hfresh, hfolder, hunmuted⟩ := hback
      simp [hfresh, hfolder, hunmuted]

/-! ## Trimming -/

theorem count_dropWhile {p : Char → Bool} {c : Char} (h : p c = false) (t : Text) :
    (t.dropWhile p).count c = t.count c := by
  induction t with
  | nil => rfl
  | cons x t ih =>
    rw [List.dropWhile_cons]
    split
    · rename_i hx
      have hne : x ≠ c := by
        rintro rfl
        rw [h] at hx
        cases hx
      rw [ih, List.count_cons_of_ne hne]
    · rfl

/-- Neither of the two trims removes a character that is no blank. -/
theorem count_trimmed {p : Char → Bool} {c : Char} (h : p c = false) (t : Text) :
    ((t.dropWhile p).reverse.dropWhile p).reverse.count c = t.count c := by
  rw [List.count_reverse, count_dropWhile h, List.count_reverse, count_dropWhile h]

theorem count_trim (t : Text) : (trim t).count '<' = t.count '<' := count_trimmed (by decide) t

theorem count_trimText (t : Text) : (trimText t).count '<' = t.count '<' :=
  count_trimmed (by decide) t

theorem length_trimText_le (t : Text) : (trimText t).length ≤ t.length := by
  unfold trimText trimStart
  rw [List.length_reverse]
  refine (List.dropWhile_sublist _).length_le.trans ?_
  rw [List.length_reverse]
  exact (List.dropWhile_sublist _).length_le

/-! ## A name and an address -/

/-- The text ends in brackets. -/
def Bracketed (s : Text) : Prop := '<' ∈ s ∧ s.getLast? = some '>'

instance (s : Text) : Decidable (Bracketed s) := inferInstanceAs (Decidable (_ ∧ _))

theorem display_of_not_bracketed {s : Text} (h : ¬ Bracketed s) : displayFromAddress s = s := by
  unfold displayFromAddress
  by_cases hmem : '<' ∈ s
  · obtain ⟨before, after, hsplit, _⟩ := splitLast_of_mem hmem
    rw [hsplit]
    exact if_neg fun hlast => h ⟨hmem, hlast⟩
  · rw [splitLast_eq_none hmem]

theorem display_of_split {before e : Text} (he : '<' ∉ e) :
    displayFromAddress (before ++ '<' :: (e ++ ['>'])) =
      if trimText before ≠ [] then trimText before else trimText e := by
  have hafter : '<' ∉ e ++ ['>'] := by
    rw [List.mem_append, List.mem_singleton]
    rintro (h | h)
    · exact he h
    · cases h
  have hlast : (before ++ '<' :: (e ++ ['>'])).getLast? = some '>' := by
    rw [← List.cons_append, ← List.append_assoc, List.getLast?_concat]
  unfold displayFromAddress
  rw [splitLast_append hafter before]
  dsimp only
  rw [if_pos hlast, List.dropLast_concat]

theorem Bracketed.split {s : Text} (h : Bracketed s) : ∃ before e,
    s = before ++ '<' :: (e ++ ['>']) ∧ '<' ∉ e := by
  obtain ⟨before, after, _, rfl, hafter⟩ := splitLast_of_mem h.1
  have hlast := h.2
  rcases List.eq_nil_or_concat after with rfl | ⟨e, c, rfl⟩
  · rw [List.getLast?_concat] at hlast
    cases hlast
  · rw [List.concat_eq_append] at hlast hafter ⊢
    rw [← List.cons_append, ← List.append_assoc, List.getLast?_concat] at hlast
    obtain rfl := Option.some.inj hlast
    exact ⟨before, e, rfl, fun hmem => hafter (List.mem_append_left _ hmem)⟩

theorem length_display_le (s : Text) : (displayFromAddress s).length ≤ s.length := by
  by_cases h : Bracketed s
  · obtain ⟨before, e, rfl, he⟩ := h.split
    rw [display_of_split he]
    have hbefore := length_trimText_le before
    have hin := length_trimText_le e
    simp only [List.length_append, List.length_cons]
    split
    · omega
    · omega
  · rw [display_of_not_bracketed h]

theorem display_ne_self {s : Text} (h : Bracketed s) : displayFromAddress s ≠ s := by
  obtain ⟨before, e, rfl, he⟩ := h.split
  intro hsame
  have hlength := congrArg List.length hsame
  rw [display_of_split he] at hlength
  have hbefore := length_trimText_le before
  have hin := length_trimText_le e
  simp only [List.length_append, List.length_cons, List.length_nil] at hlength
  split at hlength
  · omega
  · omega

/-- Where the brackets hold another bracket, what is shown holds the first one. -/
theorem count_display (before : Text) {e : Text} (he : '<' ∈ e) :
    before.count '<' < (displayFromAddress (before ++ '<' :: (e ++ ['>']))).count '<' := by
  obtain ⟨e₁, e₂, _, rfl, he₂⟩ := splitLast_of_mem he
  have hsplit : before ++ '<' :: (e₁ ++ '<' :: e₂ ++ ['>']) =
      (before ++ '<' :: e₁) ++ '<' :: (e₂ ++ ['>']) := by simp
  have hcount := count_trimText (before ++ '<' :: e₁)
  rw [List.count_append, List.count_cons_self] at hcount
  have hname : trimText (before ++ '<' :: e₁) ≠ [] := by
    intro hnil
    rw [hnil, List.count_nil] at hcount
    omega
  rw [hsplit, display_of_split he₂, if_pos hname]
  omega

/-- What the expression of `parseOneAddress` matches. -/
theorem matchAddress_eq_some {group t n e : Text} (h : matchAddress group t = some (n, e)) :
    ∃ mid blanks, n = group ++ mid ∧ t = mid ++ blanks ++ '<' :: (e ++ ['>']) := by
  induction t generalizing group with
  | nil => cases h
  | cons c t ih =>
    rw [matchAddress] at h
    split at h
    · rename_i m hhere
      obtain rfl := Option.some.inj h
      split at hhere
      · rename_i rest hdrop
        split at hhere
        · obtain ⟨inside, hinside, hpair⟩ := Option.map_eq_some_iff.mp hhere
          obtain ⟨rfl, rfl⟩ := Prod.mk.inj hpair
          unfold matchBracketed at hinside
          split at hinside
          · rename_i hends
            obtain rfl := Option.some.inj hinside
            refine ⟨[], (c :: t).takeWhile isSpace, (List.append_nil _).symm, ?_⟩
            have hrest : rest.dropLast ++ ['>'] = rest :=
              List.dropLast_append_getLast? '>' hends.1
            rw [hrest, ← hdrop, List.nil_append, List.takeWhile_append_dropWhile]
          · cases hinside
        · cases hhere
      · cases hhere
    · split at h
      · cases h
      · obtain ⟨mid, blanks, rfl, rfl⟩ := ih h
        refine ⟨c :: mid, blanks, ?_, rfl⟩
        rw [List.append_assoc]
        rfl

/-! ## Labels -/

/-- What is assumed of a JSON parser: no value is empty, and a string within an object is shorter
than the text. -/
structure JsonLaws (parse : Text → Option Json) : Prop where
  empty : parse [] = none
  shorter : ∀ t fields key s, parse t = some (.obj fields) →
    Json.field fields key = some (.str s) → s.length < t.length

def Nullish : Option Json → Prop
  | none | some .null => True
  | _ => False

/-- A string, or nothing. -/
def Textual : Option Json → Prop
  | none | some .null | some (.str _) => True
  | _ => False

/-- The two readings of an address text, with the name that stands beside it. -/
def AddressMeets (name : Option Json) (s : Text) : Prop :=
  match matchAddress [] s with
  | none =>
    s ≠ "unknown".toList ∧
      if truthy name then name = some (.str (displayFromAddress s)) else ¬ Bracketed s
  | some (n, e) =>
    trim e ≠ "unknown".toList ∧
      if truthy name ∧ trim n = [] then name = some (.str (displayFromAddress s))
      else '<' ∉ e ∧ ∃ before, s = before ++ '<' :: (e ++ ['>']) ∧
        trim n = if trimText before ≠ [] then trimText before else trimText e

/-- The shapes of a stored sender that both show alike. -/
def LabelMeets : Option Json → Prop
  | some (.arr (.null :: _)) => False
  | some (.arr (.obj fields :: _)) =>
    Textual (Json.field fields "name") ∧
      (Nullish (Json.field fields "name") → Textual (Json.field fields "email"))
  | some (.obj fields) =>
    match coalesce (Json.field fields "raw") (Json.field fields "email") with
    | some (.str s) => s ≠ [] ∧ AddressMeets (Json.field fields "name") s
    | _ => False
  | _ => True

/-- What the notifier shows of a parsed address. -/
def addressLabel (raw : Text) (addr : Notifications.MailAddress) : Json :=
  if addr.email ≠ "unknown".toList then
    (coalesce addr.name (some (.str addr.email))).getD .null
  else .str raw

/-- An address text with the name that stands beside it. -/
def namedAddress (name : Option Json) (s : Text) : Notifications.MailAddress :=
  let addr := parseOneAddress s
  if truthy name && !truthy addr.name then { name, email := addr.email } else addr

theorem coalesce_truthy {a b : Option Json} (h : truthy a = true) : coalesce a b = a := by
  cases a with
  | none => cases h
  | some v =>
    cases v with
    | null => cases h
    | _ => rfl

theorem named_label {name b : Option Json} {d : Text} (h : truthy name = true) :
    (coalesce name b).getD .null = .str d ↔ name = some (.str d) := by
  rw [coalesce_truthy h]
  cases name with
  | none => cases h
  | some v => exact ⟨congrArg some, Option.some.inj⟩

/-- The name that the expression finds is the one shown by the other side, where the brackets
hold no other bracket and the trims meet. -/
theorem matched_name {s n e : Text} (h : matchAddress [] s = some (n, e)) :
    trim n = displayFromAddress s ↔ '<' ∉ e ∧ ∃ before, s = before ++ '<' :: (e ++ ['>']) ∧
      trim n = if trimText before ≠ [] then trimText before else trimText e := by
  obtain ⟨mid, blanks, hn, hs⟩ := matchAddress_eq_some h
  rw [List.nil_append] at hn
  subst hn
  constructor
  · intro hsame
    have he : '<' ∉ e := by
      intro hmem
      have hcount := count_display (n ++ blanks) hmem
      rw [← hs, ← hsame, count_trim, List.count_append] at hcount
      omega
    refine ⟨he, n ++ blanks, hs, ?_⟩
    rw [hsame, hs, display_of_split he]
  · rintro ⟨he, before, hbefore, hsame⟩
    rw [hsame, hbefore, display_of_split he]

theorem addressLabel_iff {raw s : Text} {name : Option Json} (hshort : s.length < raw.length) :
    addressLabel raw (namedAddress name s) = .str (displayFromAddress s) ↔
      AddressMeets name s := by
  have hraw : Json.str raw ≠ .str (displayFromAddress s) := by
    intro h
    have hlength := congrArg List.length (Json.str.inj h)
    have hle := length_display_le s
    omega
  unfold addressLabel namedAddress AddressMeets parseOneAddress
  cases hmatch : matchAddress [] s with
  | none =>
    dsimp only
    cases hname : truthy name with
    | true =>
      have hcond : (true && !truthy none) = true := rfl
      rw [if_pos hcond, if_pos rfl]
      by_cases hunknown : s = "unknown".toList
      · rw [if_neg fun h => h hunknown]
        exact iff_of_false hraw fun h => h.1 hunknown
      · rw [if_pos hunknown, named_label hname, and_iff_right hunknown]
    | false =>
      have hcond : ¬ (false && !truthy none) = true := Bool.false_ne_true
      rw [if_neg hcond, if_neg Bool.false_ne_true]
      by_cases hunknown : s = "unknown".toList
      · rw [if_neg fun h => h hunknown]
        exact iff_of_false hraw fun h => h.1 hunknown
      · rw [if_pos hunknown, and_iff_right hunknown]
        constructor
        · intro h hbracketed
          exact display_ne_self hbracketed (Json.str.inj h).symm
        · intro h
          rw [display_of_not_bracketed h]
          rfl
  | some m =>
    obtain ⟨n, e⟩ := m
    dsimp only
    by_cases hnamed : truthy name = true ∧ trim n = []
    · have hcond : (truthy name && !truthy (some (.str (trim n)))) = true := by
        rw [hnamed.1, hnamed.2]
        rfl
      rw [if_pos hcond, if_pos hnamed]
      by_cases hunknown : trim e = "unknown".toList
      · rw [if_neg fun h => h hunknown]
        exact iff_of_false hraw fun h => h.1 hunknown
      · rw [if_pos hunknown, named_label hnamed.1, and_iff_right hunknown]
    · have hcond : ¬ (truthy name && !truthy (some (.str (trim n)))) = true := by
        rw [Bool.and_eq_true]
        rintro ⟨htruthy, hempty⟩
        refine hnamed ⟨htruthy, ?_⟩
        by_contra hne
        rw [truthy, decide_eq_true hne] at hempty
        cases hempty
      rw [if_neg hcond, if_neg hnamed]
      by_cases hunknown : trim e = "unknown".toList
      · rw [if_neg fun h => h hunknown]
        exact iff_of_false hraw fun h => h.1 hunknown
      · rw [if_pos hunknown, and_iff_right hunknown, ← matched_name hmatch]
        exact ⟨Json.str.inj, fun h => congrArg Json.str h⟩

/-- The first entry of a list, where it is an object. -/
theorem entry_label_iff (fields : List (Text × Json)) :
    (coalesce (coalesce (Json.field fields "name") (Json.field fields "email"))
        (some (.str []))).getD .null =
      .str ((((Json.obj fields).getStr "name").or ((Json.obj fields).getStr "email")).getD []) ↔
    Textual (Json.field fields "name") ∧
      (Nullish (Json.field fields "name") → Textual (Json.field fields "email")) := by
  rw [Json.getStr, Json.getStr]
  generalize Json.field fields "name" = name
  generalize Json.field fields "email" = email
  cases name with
  | none =>
    cases email with
    | none => simp [coalesce, Json.asStr, Textual, Nullish]
    | some v => cases v <;> simp [coalesce, Json.asStr, Textual, Nullish]
  | some v =>
    cases v with
    | null =>
      cases email with
      | none => simp [coalesce, Json.asStr, Textual, Nullish]
      | some v => cases v <;> simp [coalesce, Json.asStr, Textual, Nullish]
    | _ => simp [coalesce, Json.asStr, Textual, Nullish]

/-- The text that the port reads of an object. -/
def objectText (fields : List (Text × Json)) : Text :=
  (((Json.obj fields).getStr "raw").or ((Json.obj fields).getStr "email")).getD []

theorem length_objectText {raw : Text} {fields : List (Text × Json)} (hraw : raw ≠ [])
    (hshort : ∀ key s, Json.field fields key = some (.str s) → s.length < raw.length) :
    (objectText fields).length < raw.length := by
  have hstr : ∀ key s, (Json.obj fields).getStr key = some s → s.length < raw.length := by
    intro key s hs
    apply hshort key s
    rw [Json.getStr, Json.asStr.eq_def] at hs
    split at hs
    · rename_i t ht
      rw [ht, Option.some.inj hs]
    · cases hs
  unfold objectText
  cases hread : (Json.obj fields).getStr "raw" with
  | some s => exact hstr "raw" s hread
  | none =>
    cases hemail : (Json.obj fields).getStr "email" with
    | some s => exact hstr "email" s hemail
    | none => exact List.length_pos_of_ne_nil hraw

theorem objectText_of_coalesce {fields : List (Text × Json)} {s : Text}
    (h : coalesce (Json.field fields "raw") (Json.field fields "email") = some (.str s)) :
    objectText fields = s := by
  unfold objectText
  rw [Json.getStr, Json.getStr]
  revert h
  generalize Json.field fields "raw" = raw
  generalize Json.field fields "email" = email
  intro h
  cases raw with
  | none =>
    rw [show email = some (.str s) from h]
    rfl
  | some v =>
    cases v with
    | null =>
      rw [show email = some (.str s) from h]
      rfl
    | str t =>
      obtain rfl := Json.str.inj (Option.some.inj h)
      rfl
    | _ => cases h

/-- An object with `raw` or `email`. -/
theorem object_label_iff {raw : Text} {fields : List (Text × Json)} (hraw : raw ≠ [])
    (hshort : ∀ key s, Json.field fields key = some (.str s) → s.length < raw.length) :
    addressLabel raw (parseAddress fields) = .str (displayFromAddress (objectText fields)) ↔
      LabelMeets (some (.obj fields)) := by
  have hlength := length_objectText hraw hshort
  have hunknown : addressLabel raw Notifications.unknown ≠
      .str (displayFromAddress (objectText fields)) := by
    intro hsame
    have hle := length_display_le (objectText fields)
    rw [← Json.str.inj hsame] at hle
    omega
  rw [LabelMeets, parseAddress]
  cases hcoalesce : coalesce (Json.field fields "raw") (Json.field fields "email") with
  | none => exact iff_of_false hunknown id
  | some v =>
    cases v with
    | str s =>
      dsimp only
      by_cases hempty : s = []
      · rw [if_pos hempty]
        exact iff_of_false hunknown fun h => h.1 hempty
      · rw [if_neg hempty, and_iff_right hempty, objectText_of_coalesce hcoalesce]
        rw [objectText_of_coalesce hcoalesce] at hlength
        exact addressLabel_iff hlength
    | _ => exact iff_of_false hunknown id

/-- The labels agree on exactly these shapes. -/
theorem labels_agree_iff {serde js : Text → Option Json} (hjs : JsonLaws js)
    {fromAddress : Option Text} (hsame : serde (fromAddress.getD []) = js (fromAddress.getD [])) :
    Notifications.senderLabel js fromAddress = .str (senderLabel serde fromAddress) ↔
      LabelMeets (js (fromAddress.getD [])) := by
  unfold Notifications.senderLabel senderLabel
  dsimp only
  rw [hsame]
  generalize fromAddress.getD [] = raw
  have hraw : ∀ j, js raw = some j → raw ≠ [] := by
    rintro j hj rfl
    rw [hjs.empty] at hj
    cases hj
  cases hparse : js raw with
  | none => exact iff_of_true rfl trivial
  | some j =>
    have hne := hraw j hparse
    cases j with
    | null => exact iff_of_true rfl trivial
    | bool b => exact iff_of_true rfl trivial
    | num n => exact iff_of_true rfl trivial
    | str s => exact iff_of_true rfl trivial
    | obj fields => exact object_label_iff hne fun key s hs => hjs.shorter raw fields key s hparse hs
    | arr entries =>
      cases entries with
      | nil => exact iff_of_true rfl trivial
      | cons first rest =>
        cases first with
        | null => exact iff_of_false (fun h => hne (Json.str.inj h)) id
        | bool b => exact iff_of_true rfl trivial
        | num n => exact iff_of_true rfl trivial
        | str s => exact iff_of_true rfl trivial
        | arr entries => exact iff_of_true rfl trivial
        | obj fields => exact entry_label_iff fields

/-- The two diffs select the same messages in the same order, keep the same baseline and label a
sender alike exactly when no fresh message has an empty thread id that is muted and the sender is
stored in one of the shapes that meet. -/
theorem diffs_agree {serde js : Text → Option Json} (hjs : JsonLaws js)
    (messages : List MessageResponse) (baseline : Option (List Text))
    (mutedFolders mutedThreads : List Text) {fromAddress : Option Text}
    (hsame : serde (fromAddress.getD []) = js (fromAddress.getD [])) :
    (diffNotifications messages baseline mutedFolders mutedThreads).fresh.map (·.id) =
          (diffNewMessages serde messages (baseline.getD []) mutedFolders mutedThreads).fresh.map
            (·.id) ∧
        (diffNotifications messages baseline mutedFolders mutedThreads).baseline =
          (diffNewMessages serde messages (baseline.getD []) mutedFolders
            mutedThreads).newBaseline ∧
        Notifications.senderLabel js fromAddress = .str (senderLabel serde fromAddress) ↔
      ¬ MutesEmptyThread messages (baseline.getD []) mutedFolders mutedThreads ∧
        LabelMeets (js (fromAddress.getD [])) := by
  rw [fresh_agree_iff, labels_agree_iff hjs hsame]
  have hbaseline := baselines_agree serde messages baseline mutedFolders mutedThreads
  exact ⟨fun h => ⟨h.1, h.2.2⟩, fun h => ⟨h.1, hbaseline, h.2⟩⟩

/-- A parser that reads one text. -/
def parseOnly (text : Text) (fields : List (Text × Json)) (t : Text) : Option Json :=
  if t = text then some (.obj fields) else none

theorem parseOnly_laws {text : Text} {fields : List (Text × Json)} (hne : text ≠ [])
    (hshort : ∀ p ∈ fields, ∀ s, p.2 = .str s → s.length < text.length) :
    JsonLaws (parseOnly text fields) where
  empty := if_neg hne.symm
  shorter t fs key s ht hs := by
    unfold parseOnly at ht
    split at ht
    · rename_i heq
      obtain rfl := Json.obj.inj (Option.some.inj ht)
      have hmem : ∃ p ∈ fields, p.2 = .str s := by
        clear ht hshort
        unfold Json.field at hs
        induction fields with
        | nil => cases hs
        | cons p rest ih =>
          rw [List.lookup_cons] at hs
          split at hs
          · exact ⟨p, List.mem_cons_self, Option.some.inj hs⟩
          · obtain ⟨q, hq, hqs⟩ := ih hs
            exact ⟨q, List.mem_cons_of_mem _ hq, hqs⟩
      obtain ⟨p, hp, hps⟩ := hmem
      rw [heq]
      exact hshort p hp s hps
    · cases ht

/-- A sender as the persist layer stores it. -/
def storedSender : Text := "\x7b\"raw\":\"Ada <ada@example.com>\"\x7d".toList

def storedFields : List (Text × Json) := [("raw".toList, .str "Ada <ada@example.com>".toList)]

/-- A message of the inbox. -/
def inboxMessage (id : String) : MessageResponse where
  id := id.toList
  folderId := "f".toList
  folderRole := some "inbox".toList
  threadId := some "t".toList
  messageIdHeader := none
  fromAddress := some storedSender
  subject := none
  isRead := false

theorem storedSender_meets :
    LabelMeets (parseOnly storedSender storedFields (some storedSender |>.getD [])) := by
  have hmatch : matchAddress [] "Ada <ada@example.com>".toList =
      some ("Ada".toList, "ada@example.com".toList) := by decide
  have hmeets : AddressMeets none "Ada <ada@example.com>".toList := by
    unfold AddressMeets
    rw [hmatch]
    refine ⟨by decide, ?_⟩
    rw [if_neg fun h => nomatch h.1]
    exact ⟨by decide, "Ada ".toList, by decide, by decide⟩
  exact ⟨by decide, hmeets⟩

theorem stored_sender_agrees :
    (diffNotifications [inboxMessage "2", inboxMessage "1"] (some ["1".toList]) [] []).fresh.map
        (·.id) = ["2".toList] ∧
      (diffNewMessages (parseOnly storedSender storedFields)
        [inboxMessage "2", inboxMessage "1"] ["1".toList] [] []).fresh.map (·.id) = ["2".toList] ∧
      Notifications.senderLabel (parseOnly storedSender storedFields) (some storedSender) =
        .str "Ada".toList := by
  have hlaws : JsonLaws (parseOnly storedSender storedFields) := by
    apply parseOnly_laws (by decide)
    intro p hp s hs
    obtain rfl := List.mem_singleton.mp hp
    obtain rfl := Json.str.inj hs
    decide
  have hquiet : ¬ MutesEmptyThread [inboxMessage "2", inboxMessage "1"] ["1".toList] [] [] :=
    fun h => nomatch h.2.1
  obtain ⟨hids, _, hlabel⟩ := (@diffs_agree (parseOnly storedSender storedFields) _ hlaws
    [inboxMessage "2", inboxMessage "1"] (some ["1".toList]) [] [] (some storedSender) rfl).mpr
    ⟨hquiet, storedSender_meets⟩
  have hback : (diffNewMessages (parseOnly storedSender storedFields)
      [inboxMessage "2", inboxMessage "1"] ["1".toList] [] []).fresh.map (·.id) =
        ["2".toList] := by decide
  have hshown : senderLabel (parseOnly storedSender storedFields) (some storedSender) =
      "Ada".toList := by decide
  exact ⟨hids.trans hback, hback, hlabel.trans (congrArg Json.str hshown)⟩

/-- A sender stored with a name and an address. -/
def namedSender : Text := "\x7b\"name\":\"Ada\",\"email\":\"ada@example.com\"\x7d".toList

def namedFields : List (Text × Json) :=
  [("name".toList, .str "Ada".toList), ("email".toList, .str "ada@example.com".toList)]

/-- The notifier shows the name, the push the address. -/
theorem named_object_differs :
    Notifications.senderLabel (parseOnly namedSender namedFields) (some namedSender) =
        .str "Ada".toList ∧
      senderLabel (parseOnly namedSender namedFields) (some namedSender) =
        "ada@example.com".toList ∧
      Notifications.senderLabel (parseOnly namedSender namedFields) (some namedSender) ≠
        .str (senderLabel (parseOnly namedSender namedFields) (some namedSender)) := by
  have hfront : Notifications.senderLabel (parseOnly namedSender namedFields) (some namedSender) =
      .str "Ada".toList := rfl
  have hback : senderLabel (parseOnly namedSender namedFields) (some namedSender) =
      "ada@example.com".toList := by decide
  refine ⟨hfront, hback, ?_⟩
  rw [hfront, hback]
  intro h
  exact absurd (Json.str.inj h) (by decide)

end Lyra.Push
