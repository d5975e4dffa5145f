import Lyra.Dav.Xml
import Lyra.Lib.Lines
import Lyra.Spam.Engine
import Lyra.Store.JsonText
import Mathlib.Data.List.TakeWhile

/-!
# The address of a sender

A fetched message keeps its `From` header as one text, `name <address>`, and the spam engine looks
for the address behind the first `<`.

* `angled_shown`: what is found there;
* `senderKnown_iff`: it is the address exactly if no bracket comes before it, or the name shows
  the address itself;
* `name_taken_for_address`: a name with another address in brackets.
-/

namespace Lyra

open Lyra.Lib

/-! ## Stored senders -/

/-- A `From` header as it is kept: decoded, on one line and trimmed. -/
def shownMailbox (name addr : Text) : Text :=
  trimText (name ++ " <".toList ++ addr ++ ['>'])

def ImapMessage.withSender (m : ImapMessage) (name addr : Text) : ImapMessage :=
  { m with sender := some (shownMailbox name addr) }

/-- The sender of a stored message is known by its address: it is what the engine reads, and the
lists decide as for any other message of which it reads the same. -/
structure SenderKnown (ops : TextOps) (row : MessageRow) (addr : Text) : Prop where
  address : fromJsonEmail ops row.fromAddress = some addr
  decision : ∀ row' : MessageRow, fromJsonEmail ops row'.fromAddress = some addr →
    ∀ settings senders list,
      spamVerdict ops (row.candidate ops).envelope settings senders = .listed list ↔
        spamVerdict ops (row'.candidate ops).envelope settings senders = .listed list

/-- No bracket comes before the address, or the name shows the address behind its first `<`. -/
def ShowsAddress (name addr : Text) : Prop :=
  ('<' ∉ name ∧ ∀ x ∈ addr, x ≠ '<' ∧ x ≠ '>') ∨
    ∃ before after, name ++ [' '] = before ++ '<' :: (addr ++ after) ∧ '<' ∉ before ∧
      (∀ x ∈ addr, x ≠ '<' ∧ x ≠ '>') ∧ ∀ x ∈ after.head?, x = '<' ∨ x = '>'

/-! ## What is behind the first bracket -/

section Brackets

variable {p q : Char → Bool} {c : Char} {a b name addr : Text}

theorem takeWhile_append_stop (hc : p c = false) (a b : Text) :
    (a ++ c :: b).takeWhile p = a.takeWhile p := by
  induction a with
  | nil => rw [List.nil_append, List.takeWhile_cons, hc, List.takeWhile_nil]; rfl
  | cons x a ih =>
    rw [List.cons_append, List.takeWhile_cons, List.takeWhile_cons, ih]

theorem dropWhile_dropWhile (h : ∀ x, p x = true → q x = true) (a : Text) :
    (a.dropWhile p).dropWhile q = a.dropWhile q := by
  induction a with
  | nil => rfl
  | cons x a ih =>
    cases hx : p x with
    | true =>
      rw [List.dropWhile_cons_of_pos hx, ih, List.dropWhile_cons_of_pos (h x hx)]
    | false => rw [List.dropWhile_cons_of_neg (by rw [hx]; exact Bool.false_ne_true)]

theorem dropWhile_concat (hc : p c = false) (a : Text) :
    (a ++ [c]).dropWhile p = a.dropWhile p ++ [c] := by
  induction a with
  | nil => rw [List.nil_append, List.dropWhile_cons, hc]; rfl
  | cons x a ih =>
    rw [List.cons_append, List.dropWhile_cons, List.dropWhile_cons, ih]
    split
    · rfl
    · rfl

/-- What is taken is of one kind, and what follows starts with another. -/
theorem takeWhile_eq_iff :
    b.takeWhile p = a ↔
      ∃ after, b = a ++ after ∧ (∀ x ∈ a, p x = true) ∧ ∀ x ∈ after.head?, p x = false := by
  constructor
  · intro h
    refine ⟨b.dropWhile p, ?_, ?_, ?_⟩
    · rw [← h, List.takeWhile_append_dropWhile]
    · intro x hx
      rw [← h] at hx
      exact List.mem_takeWhile_imp hx
    · intro x hx
      have hhead := List.head?_dropWhile_not p b
      rw [Option.mem_def.mp hx] at hhead
      exact hhead
  · rintro ⟨after, rfl, ha, hafter⟩
    rw [List.takeWhile_append_of_pos ha]
    cases after with
    | nil => rw [List.takeWhile_nil, List.append_nil]
    | cons x after =>
      rw [List.takeWhile_cons_of_neg (by rw [hafter x rfl]; exact Bool.false_ne_true),
        List.append_nil]

/-- What is found behind the first `<`. -/
theorem angled_cons (ha : '<' ∉ a) :
    angled (a ++ '<' :: b) = some addr ↔
      ∃ after, b = addr ++ after ∧ (∀ x ∈ addr, x ≠ '<' ∧ x ≠ '>') ∧
        ∀ x ∈ after.head?, x = '<' ∨ x = '>' := by
  unfold angled
  rw [dropWhile_append_cons ha, Option.some.injEq, List.takeWhile_takeWhile, takeWhile_eq_iff]
  apply exists_congr
  intro after
  apply and_congr_right
  intro _
  apply and_congr
  · exact forall_congr' fun x => imp_congr_right fun _ => by simp [and_comm]
  · exact forall_congr' fun x => imp_congr_right fun _ => by
      rw [decide_eq_false_iff_not, decide_eq_true_iff, decide_eq_true_iff, not_and_or, not_not,
        not_not]
      exact or_comm

theorem angled_eq_some_iff :
    angled a = some addr ↔
      ∃ before after, a = before ++ '<' :: (addr ++ after) ∧ '<' ∉ before ∧
        (∀ x ∈ addr, x ≠ '<' ∧ x ≠ '>') ∧ ∀ x ∈ after.head?, x = '<' ∨ x = '>' := by
  constructor
  · intro h
    have hopen : '<' ∈ a := by
      by_contra hopen
      have hdrop : a.dropWhile (· ≠ '<') = [] :=
        List.dropWhile_eq_nil_iff.mpr fun x hx => decide_eq_true (ne_of_mem_of_not_mem hx hopen)
      unfold angled at h
      rw [hdrop] at h
      exact nomatch h
    obtain ⟨before, b, rfl, hbefore⟩ := List.eq_append_cons_of_mem hopen
    obtain ⟨after, rfl, hrest⟩ := (angled_cons hbefore).mp h
    exact ⟨before, after, rfl, hbefore, hrest⟩
  · rintro ⟨before, after, rfl, hbefore, hrest⟩
    exact (angled_cons hbefore).mpr ⟨after, rfl, hrest⟩

/-- Trimming takes no bracket away. -/
theorem angled_trimText (a : Text) : angled (trimText (a ++ ['>'])) = angled (a ++ ['>']) := by
  have hwhite : isWhite '>' = false := by decide
  have htrim : trimText (a ++ ['>']) = (a ++ ['>']).dropWhile isWhite := by
    unfold trimText trimStart
    rw [dropWhile_concat hwhite, List.reverse_append, List.reverse_singleton,
      List.singleton_append, List.dropWhile_cons_of_neg (by rw [hwhite]; exact Bool.false_ne_true),
      List.reverse_cons, List.reverse_reverse]
  have hbracket : ∀ x, isWhite x = true → decide (x ≠ '<') = true := by
    intro x hx
    refine decide_eq_true fun h => ?_
    subst h
    exact absurd hx (by decide)
  unfold angled
  rw [htrim, dropWhile_dropWhile hbracket]

theorem angled_append (hname : '<' ∈ a) : angled (a ++ '<' :: b) = angled a := by
  obtain ⟨before, rest, rfl, hbefore⟩ := List.eq_append_cons_of_mem hname
  unfold angled
  rw [List.append_assoc, List.cons_append, dropWhile_append_cons hbefore,
    dropWhile_append_cons hbefore]
  dsimp only
  rw [takeWhile_append_stop (by decide)]

theorem angled_shown_ne_none : angled (shownMailbox name addr) ≠ none := by
  intro h
  have hopen : '<' ∈ name ++ " <".toList ++ addr := by simp
  obtain ⟨before, rest, hsplit, hbefore⟩ := List.eq_append_cons_of_mem hopen
  unfold shownMailbox at h
  rw [angled_trimText, hsplit, List.append_assoc, List.cons_append] at h
  unfold angled at h
  rw [dropWhile_append_cons hbefore] at h
  exact nomatch h

theorem angled_shown : angled (shownMailbox name addr) = some addr ↔ ShowsAddress name addr := by
  have htext : name ++ " <".toList ++ addr ++ ['>'] =
      name ++ [' '] ++ '<' :: (addr ++ ['>']) := by
    have hspace : " <".toList = [' ', '<'] := rfl
    rw [hspace]
    simp
  have hspaced : '<' ∈ name ++ [' '] ↔ '<' ∈ name := by simp
  unfold shownMailbox ShowsAddress
  rw [angled_trimText, htext]
  rcases Decidable.em ('<' ∈ name) with hname | hname
  · rw [angled_append (hspaced.mpr hname), angled_eq_some_iff]
    exact (or_iff_right fun h => h.1 hname).symm
  · rw [angled_cons (mt hspaced.mp hname)]
    constructor
    · rintro ⟨after, -, hclean, -⟩
      exact .inl ⟨hname, hclean⟩
    · rintro (⟨-, hclean⟩ | ⟨before, after, hshown, -⟩)
      · exact ⟨['>'], rfl, hclean, fun x hx => .inr (Option.mem_some.mp hx).symm⟩
      · refine absurd (hspaced.mp ?_) hname
        rw [hshown]
        exact List.mem_append_right _ List.mem_cons_self

end Brackets

/-! ## What the engine reads -/

section Engine

variable {ops : TextOps} {s name addr : Text}

/-- The address behind the first `<` of a stored sender. -/
theorem fromJsonEmail_jsonRaw
    (hjson : ops.parseJson (jsonRaw s) = some (.object [("raw".toList, .string s)]))
    (hs : angled s ≠ none) : fromJsonEmail ops (some (jsonRaw s)) = angled s := by
  obtain ⟨a, ha⟩ := Option.ne_none_iff_exists'.mp hs
  have hraw : ((Json.object [("raw".toList, .string s)]).get "raw").bind Json.asStr = some s := rfl
  have hemail : ((Json.object [("raw".toList, .string s)]).get "email").bind Json.asStr = none := rfl
  have hfound : extractEmail ops (.object [("raw".toList, .string s)]) = some a := by
    unfold extractEmail
    rw [hemail, hraw]
    dsimp only [Option.bind_some]
    rw [ha]
  unfold fromJsonEmail
  rw [Option.bind_some, hjson]
  dsimp only
  rw [hfound, ha, Option.some_or]

theorem listed_congr {env env' : SpamEnvelope} (h : env.fromEmail = env'.fromEmail)
    (settings : SpamSettings) (senders : List SenderEntry) (list : SenderList) :
    spamVerdict ops env settings senders = .listed list ↔
      spamVerdict ops env' settings senders = .listed list := by
  unfold spamVerdict
  rw [h]
  dsimp only
  split_ifs
  all_goals simp only [Verdict.listed.injEq]

theorem senderKnown_iff
    (hjson : ∀ s, ops.parseJson (jsonRaw s) = some (.object [("raw".toList, .string s)]))
    (m : ImapMessage) (name addr : Text) (id : Nat) (acc : AccountId) (folder : FolderId) :
    SenderKnown ops ((m.withSender name addr).toRow id acc folder) addr ↔
      ShowsAddress name addr := by
  have hread : fromJsonEmail ops ((m.withSender name addr).toRow id acc folder).fromAddress =
      angled (shownMailbox name addr) :=
    fromJsonEmail_jsonRaw (hjson _) angled_shown_ne_none
  rw [← angled_shown, ← hread]
  constructor
  · exact SenderKnown.address
  · intro haddr
    refine ⟨haddr, fun row' hrow' settings senders list => ?_⟩
    exact listed_congr (haddr.trans hrow'.symm) settings senders list

end Engine

/-! ## Two senders -/

/-- ASCII letters, white space, and JSON. -/
def engineOps : TextOps where
  toLowercase s := s.map Char.toLower
  isWhitespace := isWhite
  parseJson := readJson

/-- A stored message of a sender. -/
def messageFrom (name addr : String) : MessageRow :=
  (({ uid := 1 } : ImapMessage).withSender name.toList addr.toList).toRow 1 [] []

theorem plain_sender_known :
    SenderKnown engineOps (messageFrom "Doe, Jane @ home" "jane@corp.example")
      "jane@corp.example".toList :=
  (senderKnown_iff readJson_jsonRaw { uid := 1 } "Doe, Jane @ home".toList
    "jane@corp.example".toList 1 [] []).mpr
    (.inl ⟨by decide +kernel, forall_mem_of_all (by decide +kernel)⟩)

/-- A name with an address in brackets is taken for that address: the sender passes as one of the
allowed list, and an entry of the blocked list for its own address does not match. -/
theorem name_taken_for_address :
    ¬ SenderKnown engineOps (messageFrom "Boss <boss@corp.example>" "eve@evil.example")
        "eve@evil.example".toList ∧
      spamVerdict engineOps
          ((messageFrom "Boss <boss@corp.example>" "eve@evil.example").candidate engineOps).envelope
          {} [⟨"boss@corp.example".toList, .allowed⟩, ⟨"eve@evil.example".toList, .blocked⟩] =
        .listed .allowed ∧
      spamVerdict engineOps
          ((messageFrom "Eve" "eve@evil.example").candidate engineOps).envelope
          {} [⟨"boss@corp.example".toList, .allowed⟩, ⟨"eve@evil.example".toList, .blocked⟩] =
        .listed .blocked := by
  refine ⟨fun h => ?_, by decide +kernel, by decide +kernel⟩
  have hread : fromJsonEmail engineOps
      (messageFrom "Boss <boss@corp.example>" "eve@evil.example").fromAddress =
        some "boss@corp.example".toList := by
    decide +kernel
  have haddr := h.address
  rw [hread] at haddr
  exact absurd haddr (by decide +kernel)

end Lyra
