import Lyra.Lib.UnionFind
import Lyra.Store.Schema

/-!
# Conversation threading

`linkThreads` of `conversation.ts`: the messages are sorted by date, put into a union-find
by id, united with the first message of the same Message-ID, then with the messages their
`In-Reply-To` and `References` name, and, where those name none, a reply is united with the
last message before it of the same account and base subject.  Groups are read off in the
sorted order.

JavaScript's `toLowerCase` is a parameter.  Account ids hold no `|` and message ids are not
empty (both are UUIDs); the map keys are the texts the code builds.  A date is the number
`getTime` gives, so it is valid.  The loops of the union-find get a number of rounds.

* `threads_partition`: the loops end, the groups partition the messages by the equivalence
  that equal ids, named ids and the fallback generate, each group is of one account and
  sorted, and without the fallback the order of the input does not matter;
* `empty_subject_apart`: an empty subject followed by `Re: `.
-/

namespace Lyra.Conversation

open Lyra.Lib

/-! ## Texts -/

/-- The characters `\s` matches and `trim` removes. -/
def isSpace (c : Char) : Bool :=
  c ∈ ['\t', '\n', '\x0b', '\x0c', '\r', ' ', '\u00a0', '\u1680', '\u2028', '\u2029', '\u202f',
    '\u205f', '\u3000', '\ufeff'] || ('\u2000' ≤ c && c ≤ '\u200a')

def trim (s : Text) : Text := ((s.dropWhile isSpace).reverse.dropWhile isSpace).reverse

/-- `replace(/\s+/g, ' ')`; `inRun` after a space. -/
def collapseSpaces : Bool → Text → Text
  | _, [] => []
  | inRun, c :: s =>
    if isSpace c then if inRun then collapseSpaces true s else ' ' :: collapseSpaces true s
    else c :: collapseSpaces false s

/-- The text after a word, without regard to the case of ASCII letters. -/
def dropWord : Text → Text → Option Text
  | [], s => some s
  | _ :: _, [] => none
  | w :: word, c :: s => if c.toLower = w then dropWord word s else none

/-- The text after one of the words, a colon and the spaces around it. -/
def stripWord (words : List Text) (s : Text) : Option Text :=
  words.findSome? fun word => (dropWord word s).bind fun rest =>
    match rest.dropWhile isSpace with
    | c :: rest => if c = ':' ∨ c = '：' then some (rest.dropWhile isSpace) else none
    | [] => none

def replyPrefix : Text → Option Text :=
  stripWord ["re".toList, "fw".toList, "fwd".toList, "答复".toList, "回复".toList, "转发".toList]

/-- Forwards start new threads. -/
def replyOnlyPrefix : Text → Option Text := stripWord ["re".toList, "回复".toList]

/-- The loop of `baseSubject`. -/
def stripReplies : Nat → Text → Text
  | 0, s => s
  | n + 1, s =>
    match replyPrefix s with
    | some rest => stripReplies n (trim rest)
    | none => s

def baseSubject (subject : Text) : Text :=
  let s := trim (collapseSpaces false subject)
  stripReplies s.length s

/-- `/<[^<>]+>/g`; `inside` is what follows an open bracket. -/
def angleTokens : Option Text → Text → List Text
  | _, [] => []
  | inside, c :: s =>
    if c = '<' then angleTokens (some []) s
    else if c = '>' then
      match inside with
      | some (d :: ds) => ('<' :: (d :: ds) ++ ['>']) :: angleTokens none s
      | _ => angleTokens none s
    else angleTokens (inside.map (· ++ [c])) s

def messageIdTokens (field : Option Text) : List Text :=
  match field with
  | none => []
  | some field =>
    let tokens := angleTokens none field
    if tokens = [] then ((trim field).splitOnP isSpace).filter fun w => w ≠ [] else tokens

/-! ## Messages -/

structure AccountId where
  text : Text
  plain : '|' ∉ text
  deriving DecidableEq

structure MessageId where
  text : Text
  nonempty : text ≠ []
  deriving DecidableEq

structure MailMessage where
  id : MessageId
  accountId : AccountId
  folderId : Text := []
  subject : Option Text := none
  date : Int
  messageIdHeader : Option Text := none
  inReplyTo : Option Text := none
  referencesHeaders : Option Text := none
  bodyText : Option Text := none
  bodyHtml : Option Text := none
  deriving DecidableEq

/-- The map keys `${accountId}|…`. -/
def AccountId.key (a : AccountId) (s : Text) : Text := a.text ++ '|' :: s

theorem AccountId.key_inj {a b : AccountId} {s t : Text} (h : a.key s = b.key t) :
    a = b ∧ s = t := by
  obtain ⟨a, ha⟩ := a
  obtain ⟨b, hb⟩ := b
  simp only [AccountId.key, AccountId.mk.injEq] at h ⊢
  induction a generalizing b with
  | nil =>
    cases b with
    | nil => exact ⟨rfl, (List.cons.inj h).2⟩
    | cons c b =>
      have hc := (List.cons.inj h).1
      exact absurd (hc ▸ List.mem_cons_self) hb
  | cons c a ih =>
    cases b with
    | nil =>
      have hc := (List.cons.inj h).1
      exact absurd (hc ▸ List.mem_cons_self) ha
    | cons d b =>
      obtain ⟨hcd, h⟩ := List.cons.inj h
      obtain ⟨hab, hst⟩ := ih (fun hin => ha (List.mem_cons_of_mem _ hin)) b
        (fun hin => hb (List.mem_cons_of_mem _ hin)) h
      exact ⟨by rw [hcd, hab], hst⟩

section Threads

variable (toLowerCase : Text → Text)

def normalizeSubject (subject : Text) : Text := toLowerCase (baseSubject subject)

def normMsgId (id : Text) : Text :=
  let s := trim id
  let s := match s with
    | '<' :: r => r
    | _ => s
  let s := if s.getLast? = some '>' then s.dropLast else s
  toLowerCase s

/-- The normalised Message-ID; a blank header is none. -/
def MailMessage.messageId (m : MailMessage) : Option Text :=
  m.messageIdHeader.bind fun header =>
    if trim header = [] then none else some (normMsgId toLowerCase (trim header))

/-- The normalised ids in `In-Reply-To` and `References`. -/
def MailMessage.named (m : MailMessage) : List Text :=
  (messageIdTokens m.inReplyTo ++ messageIdTokens m.referencesHeaders).map (normMsgId toLowerCase)

def MailMessage.rawSubject (m : MailMessage) : Text := m.subject.getD []

def MailMessage.subjectKey (m : MailMessage) : Text :=
  m.accountId.key (normalizeSubject toLowerCase m.rawSubject)

/-! ## Linking -/

def byDateAsc (messages : List MailMessage) : List MailMessage :=
  messages.mergeSort fun a b => decide (a.date ≤ b.date)

abbrev Index := Text → Option MessageId

def Index.set (index : Index) (key : Text) (id : MessageId) : Index :=
  fun k => if k = key then some id else index k

variable (rounds : Nat)

/-- The Message-ID index. -/
structure Indexing where
  parent : UnionFind.Parents MessageId
  byMsgId : Index

def indexMessage (st : Indexing) (m : MailMessage) : Option Indexing :=
  match m.messageId toLowerCase with
  | none => some st
  | some id =>
    match st.byMsgId (m.accountId.key id) with
    | some existing =>
      (UnionFind.union rounds st.parent m.id existing).map fun parent => { st with parent := parent }
    | none => some { st with byMsgId := st.byMsgId.set (m.accountId.key id) m.id }

/-- One token of `In-Reply-To` or `References`. -/
def linkToken (byMsgId : Index) (m : MailMessage) (st : UnionFind.Parents MessageId × Bool)
    (id : Text) : Option (UnionFind.Parents MessageId × Bool) :=
  match byMsgId (m.accountId.key id) with
  | some target => (UnionFind.union rounds st.1 m.id target).map fun parent => (parent, true)
  | none => some st

/-- A reply without header links. -/
def linkSubject (lastBySubject : Index) (m : MailMessage)
    (st : UnionFind.Parents MessageId × Bool) : Option (UnionFind.Parents MessageId) :=
  if !st.2 && decide (m.rawSubject ≠ []) && (replyOnlyPrefix (trim m.rawSubject)).isSome then
    match lastBySubject (m.subjectKey toLowerCase) with
    | some target => UnionFind.union rounds st.1 m.id target
    | none => some st.1
  else some st.1

structure Linking where
  parent : UnionFind.Parents MessageId
  /-- The latest message with a subject, by account and base subject. -/
  lastBySubject : Index

def noteSubject (lastBySubject : Index) (m : MailMessage) : Index :=
  if m.rawSubject ≠ [] then lastBySubject.set (m.subjectKey toLowerCase) m.id else lastBySubject

def linkMessage (byMsgId : Index) (st : Linking) (m : MailMessage) : Option Linking :=
  (((m.named toLowerCase).foldlM (linkToken rounds byMsgId m) (st.parent, false)).bind
    (linkSubject toLowerCase rounds st.lastBySubject m)).map fun parent =>
      ⟨parent, noteSubject toLowerCase st.lastBySubject m⟩

abbrev Groups := List (MessageId × List MailMessage)

/-- Push into the bucket of a root, or start it. -/
def pushGroup (root : MessageId) (m : MailMessage) : Groups → Groups
  | [] => [(root, [m])]
  | (r, members) :: groups =>
    if r = root then (r, members ++ [m]) :: groups else (r, members) :: pushGroup root m groups

def groupMessage (st : UnionFind.Parents MessageId × Groups) (m : MailMessage) :
    Option (UnionFind.Parents MessageId × Groups) :=
  (UnionFind.find rounds st.1 m.id).map fun found => (found.2, pushGroup found.1 m st.2)

/-- Every message is its own root. -/
def singletons (messages : List MailMessage) : UnionFind.Parents MessageId :=
  fun x => if x ∈ messages.map MailMessage.id then some x else none

/-- The loops of `linkThreads` over the sorted messages. -/
def linkSorted (sorted : List MailMessage) : Option Groups := do
  let indexed ← sorted.foldlM (indexMessage toLowerCase rounds) ⟨singletons sorted, fun _ => none⟩
  let linked ← sorted.foldlM (linkMessage toLowerCase rounds indexed.byMsgId)
    ⟨indexed.parent, fun _ => none⟩
  let grouped ← sorted.foldlM (groupMessage rounds) (linked.parent, [])
  return grouped.2

def linkThreads (messages : List MailMessage) : Option Groups :=
  linkSorted toLowerCase rounds (byDateAsc messages)

/-! ## What the groups should be -/

/-- Equal normalised Message-IDs in one account. -/
def SameId (x y : MailMessage) : Prop :=
  x.accountId = y.accountId ∧ ∃ id, x.messageId toLowerCase = some id ∧
    y.messageId toLowerCase = some id

/-- `x` names the Message-ID of `y`. -/
def Names (x y : MailMessage) : Prop :=
  x.accountId = y.accountId ∧ ∃ id ∈ x.named toLowerCase, y.messageId toLowerCase = some id

/-- The message is by the account and of the normalised subject of `x`, and one a reply may
fall back to. -/
def Fits (counts : MailMessage → Prop) (x y : MailMessage) : Prop :=
  x.accountId = y.accountId ∧
    normalizeSubject toLowerCase x.rawSubject = normalizeSubject toLowerCase y.rawSubject ∧ counts y

/-- `x` has a reply prefix and names no message, and `y` is the latest before it that fits.
Messages of one date are in the order of the input. -/
def FallsBack (counts : MailMessage → Prop) (messages : List MailMessage) (x y : MailMessage) :
    Prop :=
  (replyOnlyPrefix (trim x.rawSubject)).isSome = true ∧
    (∀ z ∈ messages, ¬Names toLowerCase x z) ∧
    ∃ before between after, byDateAsc messages = before ++ y :: between ++ x :: after ∧
      Fits toLowerCase counts x y ∧ ∀ z ∈ between, ¬Fits toLowerCase counts x z

/-- What threads two messages of the list. -/
def Related (counts : MailMessage → Prop) (messages : List MailMessage) (x y : MailMessage) :
    Prop :=
  x ∈ messages ∧ y ∈ messages ∧
    (SameId toLowerCase x y ∨ Names toLowerCase x y ∨ FallsBack toLowerCase counts messages x y)

/-- The messages with a subject. -/
def HasSubject (m : MailMessage) : Prop := m.rawSubject ≠ []

end Threads

def SameGroup (groups : Groups) (x y : MailMessage) : Prop :=
  ∃ g ∈ groups, x ∈ g.2 ∧ y ∈ g.2

/-! ## The loop of `baseSubject` -/

theorem length_dropWhile_le (p : Char → Bool) (s : Text) : (s.dropWhile p).length ≤ s.length :=
  (List.dropWhile_suffix p).sublist.length_le

theorem length_trim_le (s : Text) : (trim s).length ≤ s.length := by
  have h := length_dropWhile_le isSpace (s.dropWhile isSpace).reverse
  have h' := length_dropWhile_le isSpace s
  rw [List.length_reverse] at h
  rw [trim, List.length_reverse]
  omega

theorem length_dropWord {word s rest : Text} (h : dropWord word s = some rest) :
    rest.length ≤ s.length := by
  induction word generalizing s with
  | nil =>
    cases h
    exact Nat.le_refl _
  | cons w word ih =>
    cases s with
    | nil => cases h
    | cons c s =>
      rw [dropWord] at h
      split at h
      · exact Nat.le_succ_of_le (ih h)
      · cases h

theorem length_stripWord {words : List Text} {s rest : Text} (h : stripWord words s = some rest) :
    rest.length < s.length := by
  obtain ⟨word, -, h⟩ := List.exists_of_findSome?_eq_some h
  obtain ⟨after, hword, h⟩ := Option.bind_eq_some_iff.mp h
  have hafter := length_dropWord hword
  have hspaces := length_dropWhile_le isSpace after
  split at h
  case h_1 c tail heq =>
    split at h
    · cases h
      rw [heq, List.length_cons] at hspaces
      have := length_dropWhile_le isSpace tail
      omega
    · cases h
  case h_2 => cases h

/-- The loop ends because no prefix is left. -/
theorem replyPrefix_baseSubject (subject : Text) : replyPrefix (baseSubject subject) = none := by
  have hloop : ∀ n s, s.length ≤ n → replyPrefix (stripReplies n s) = none := by
    intro n
    induction n with
    | zero =>
      intro s hs
      rw [List.length_eq_zero_iff.mp (Nat.le_zero.mp hs)]
      rfl
    | succ n ih =>
      intro s hs
      rw [stripReplies]
      split
      case h_1 rest hrest =>
        apply ih
        have hlt : rest.length < s.length := length_stripWord hrest
        have := length_trim_le rest
        omega
      case h_2 hnone => exact hnone
  exact hloop _ _ (Nat.le_refl _)

/-! ## The loops over the messages -/

/-- A loop that goes through a list and keeps a fact about what is done. -/
theorem foldlM_done {σ β : Type} {step : σ → β → Option σ} {P : List β → σ → Prop} {all : List β}
    (hstep : ∀ done b rest s, all = done ++ b :: rest → P done s →
      ∃ s', step s b = some s' ∧ P (done ++ [b]) s') :
    ∀ rest done s, all = done ++ rest → P done s → ∃ s', rest.foldlM step s = some s' ∧ P all s' := by
  intro rest
  induction rest with
  | nil =>
    intro done s hall h
    rw [List.append_nil] at hall
    exact ⟨s, rfl, hall ▸ h⟩
  | cons b rest ih =>
    intro done s hall h
    obtain ⟨s₁, hs₁, h₁⟩ := hstep done b rest s hall h
    obtain ⟨s', hs', h'⟩ := ih (done ++ [b]) s₁ (by rw [hall, List.append_assoc]; rfl) h₁
    refine ⟨s', ?_, h'⟩
    rw [List.foldlM_cons, hs₁]
    exact hs'

section Loops

variable (f : Text → Text) {rounds : Nat} {sorted : List MailMessage}

/-- Ids of messages of `done` with equal Message-IDs. -/
def SameIds (done : List MailMessage) (x y : MessageId) : Prop :=
  ∃ a ∈ done, ∃ b ∈ done, a.id = x ∧ b.id = y ∧ SameId f a b

/-- The index knows the Message-IDs of `done`. -/
structure Indexes (done : List MailMessage) (index : Index) : Prop where
  sound : ∀ acc id t, index (acc.key id) = some t →
    ∃ m ∈ done, m.id = t ∧ m.accountId = acc ∧ m.messageId f = some id
  complete : ∀ m ∈ done, ∀ id, m.messageId f = some id → index (m.accountId.key id) ≠ none

variable {f}

theorem SameIds.mono {done done' : List MailMessage} (hsub : ∀ m ∈ done, m ∈ done')
    {x y : MessageId} (h : SameIds f done x y) : SameIds f done' x y := by
  obtain ⟨a, ha, b, hb, hab⟩ := h
  exact ⟨a, hsub a ha, b, hsub b hb, hab⟩

theorem SameId.symm {a b : MailMessage} (h : SameId f a b) : SameId f b a := by
  obtain ⟨hacc, id, ha, hb⟩ := h
  exact ⟨hacc.symm, id, hb, ha⟩

theorem SameId.trans {a b c : MailMessage} (h : SameId f a b) (h' : SameId f b c) : SameId f a c := by
  obtain ⟨hacc, id, ha, hb⟩ := h
  obtain ⟨hacc', id', hb', hc⟩ := h'
  rw [hb] at hb'
  cases hb'
  exact ⟨hacc.trans hacc', id, ha, hc⟩

theorem indexMessage_spec {done : List MailMessage} {m : MailMessage} {st : Indexing}
    (hdone : ∀ a ∈ done ++ [m], a ∈ sorted)
    (hrounds : (sorted.map MailMessage.id).length ≤ rounds)
    (hidx : Indexes f done st.byMsgId)
    (hrep : UnionFind.Represents st.parent (sorted.map MailMessage.id) (SameIds f done)) :
    ∃ st', indexMessage f rounds st m = some st' ∧ Indexes f (done ++ [m]) st'.byMsgId ∧
      UnionFind.Represents st'.parent (sorted.map MailMessage.id) (SameIds f (done ++ [m])) := by
  have hsub : ∀ a ∈ done, a ∈ done ++ [m] := fun a ha => List.mem_append_left _ ha
  have hm : m ∈ done ++ [m] := List.mem_append_right _ List.mem_cons_self
  have hnode : ∀ a ∈ done ++ [m], a.id ∈ sorted.map MailMessage.id :=
    fun a ha => List.mem_map_of_mem (hdone a ha)
  have hinside : ∀ x y, SameIds f (done ++ [m]) x y →
      x ∈ sorted.map MailMessage.id ∧ y ∈ sorted.map MailMessage.id := by
    rintro x y ⟨a, ha, b, hb, rfl, rfl, -⟩
    exact ⟨hnode a ha, hnode b hb⟩
  -- the pairs that come with `m` follow from one link of `m` into `done`, or are trivial
  have hnew : ∀ R : MessageId → MessageId → Prop, (∀ x y, SameIds f done x y → Relation.EqvGen R x y) →
      (∀ b ∈ done, SameId f m b → Relation.EqvGen R m.id b.id) →
      ∀ x y, SameIds f (done ++ [m]) x y → Relation.EqvGen R x y := by
    rintro R hold hlink x y ⟨a, ha, b, hb, rfl, rfl, hab⟩
    rcases List.mem_append.mp ha with ha | ha
    · rcases List.mem_append.mp hb with hb | hb
      · exact hold _ _ ⟨a, ha, b, hb, rfl, rfl, hab⟩
      · cases List.mem_singleton.mp hb
        exact .symm _ _ (hlink a ha hab.symm)
    · cases List.mem_singleton.mp ha
      rcases List.mem_append.mp hb with hb | hb
      · exact hlink b hb hab
      · cases List.mem_singleton.mp hb
        exact .refl _
  unfold indexMessage
  cases hid : m.messageId f with
  | none =>
    refine ⟨st, rfl, ⟨?_, ?_⟩, ?_⟩
    · intro acc id t ht
      obtain ⟨a, ha, hat⟩ := hidx.sound acc id t ht
      exact ⟨a, hsub a ha, hat⟩
    · intro a ha id haid
      rcases List.mem_append.mp ha with ha | ha
      · exact hidx.complete a ha id haid
      · cases List.mem_singleton.mp ha
        rw [hid] at haid
        cases haid
    · refine hrep.of_generators hinside (fun x y h => .rel x y (h.mono hsub)) (hnew _ ?_ ?_)
      · exact fun x y h => .rel x y h
      · rintro b hb ⟨-, id, hmid, -⟩
        rw [hid] at hmid
        cases hmid
  | some id =>
    dsimp only
    cases hex : st.byMsgId (m.accountId.key id) with
    | some t =>
      obtain ⟨e, he, rfl, heacc, heid⟩ := hidx.sound m.accountId id t hex
      have hme : SameId f m e := ⟨heacc.symm, id, hid, heid⟩
      obtain ⟨parent, hunion, hrep'⟩ := hrep.union (hnode m hm) (hnode e (hsub e he))
        hrounds
      refine ⟨⟨parent, st.byMsgId⟩, ?_, ⟨?_, ?_⟩, ?_⟩
      · show (UnionFind.union rounds st.parent m.id e.id).map _ = _
        rw [hunion]
        rfl
      · intro acc id t ht
        obtain ⟨a, ha, hat⟩ := hidx.sound acc id t ht
        exact ⟨a, hsub a ha, hat⟩
      · intro a ha id' haid
        rcases List.mem_append.mp ha with ha | ha
        · exact hidx.complete a ha id' haid
        · cases List.mem_singleton.mp ha
          rw [hid] at haid
          cases haid
          rw [hex]
          simp
      · refine hrep'.of_generators hinside ?_ (hnew _ ?_ ?_)
        · rintro x y (h | ⟨rfl, rfl⟩)
          · exact .rel x y (h.mono hsub)
          · exact .rel _ _ ⟨m, hm, e, hsub e he, rfl, rfl, hme⟩
        · exact fun x y h => .rel x y (.inl h)
        · intro b hb hmb
          exact .trans _ e.id _ (.rel _ _ (.inr ⟨rfl, rfl⟩))
            (.rel _ _ (.inl ⟨e, he, b, hb, rfl, rfl, hme.symm.trans hmb⟩))
    | none =>
      refine ⟨⟨st.parent, st.byMsgId.set (m.accountId.key id) m.id⟩, rfl, ⟨?_, ?_⟩, ?_⟩
      · intro acc id' t ht
        simp only [Index.set] at ht
        split at ht
        case isTrue hkey =>
          cases ht
          obtain ⟨hacc, hid'⟩ := AccountId.key_inj hkey
          exact ⟨m, hm, rfl, hacc.symm, by rw [hid', hid]⟩
        case isFalse =>
          obtain ⟨a, ha, hat⟩ := hidx.sound acc id' t ht
          exact ⟨a, hsub a ha, hat⟩
      · intro a ha id' haid
        simp only [Index.set]
        split
        · simp
        · rcases List.mem_append.mp ha with ha | ha
          · exact hidx.complete a ha id' haid
          · cases List.mem_singleton.mp ha
            rw [hid] at haid
            cases haid
            contradiction
      · refine hrep.of_generators hinside (fun x y h => .rel x y (h.mono hsub)) (hnew _ ?_ ?_)
        · exact fun x y h => .rel x y h
        · rintro b hb ⟨hacc, id', hmid, hbid⟩
          rw [hid] at hmid
          cases hmid
          rw [hacc] at hex
          exact absurd hex (hidx.complete b hb id hbid)

/-- The tokens of one message unite it with the messages they name. -/
theorem linkToken_loop (index : Index) (named : List Text)
    (st : UnionFind.Parents MessageId × Bool) {m : MailMessage} {R : MessageId → MessageId → Prop}
    {nodes : List MessageId} (hm : m.id ∈ nodes) (hrounds : nodes.length ≤ rounds)
    (hindex : ∀ id t, index (m.accountId.key id) = some t → t ∈ nodes)
    (hrep : UnionFind.Represents st.1 nodes R) :
    ∃ st', named.foldlM (linkToken rounds index m) st = some st' ∧
      (st'.2 = (st.2 || named.any fun id => (index (m.accountId.key id)).isSome)) ∧
      UnionFind.Represents st'.1 nodes fun x y =>
        R x y ∨ (x = m.id ∧ ∃ id ∈ named, index (m.accountId.key id) = some y) := by
  induction named generalizing st R with
  | nil =>
    refine ⟨st, rfl, by simp, ?_⟩
    refine hrep.of_generators ?_ (fun x y h => .rel x y (.inl h)) ?_
    · rintro x y (h | ⟨-, id, hid, -⟩)
      · exact hrep.inside x y h
      · cases hid
    · rintro x y (h | ⟨-, id, hid, -⟩)
      · exact .rel x y h
      · cases hid
  | cons id named ih =>
    cases hid : index (m.accountId.key id) with
    | none =>
      have hstep : linkToken rounds index m st id = some st := by
        rw [linkToken, hid]
      obtain ⟨st', hfold, hlinked, hrep'⟩ := ih st hrep
      refine ⟨st', by rw [List.foldlM_cons, hstep]; exact hfold, by simp [hlinked, hid], ?_⟩
      refine hrep'.of_generators ?_ ?_ ?_
      · rintro x y (h | ⟨rfl, id', hid', hy⟩)
        · exact hrep.inside x y h
        · exact ⟨hm, hindex _ y hy⟩
      · rintro x y (h | ⟨rfl, id', hid', hy⟩)
        · exact .rel _ _ (.inl h)
        · exact .rel _ _ (.inr ⟨rfl, id', List.mem_cons_of_mem _ hid', hy⟩)
      · rintro x y (h | ⟨rfl, id', hid', hy⟩)
        · exact .rel _ _ (.inl h)
        · rcases List.mem_cons.mp hid' with rfl | hid'
          · rw [hid] at hy
            cases hy
          · exact .rel _ _ (.inr ⟨rfl, id', hid', hy⟩)
    | some t =>
      obtain ⟨parent, hunion, hrep₁⟩ := hrep.union hm (hindex _ t hid) hrounds
      have hstep : linkToken rounds index m st id = some (parent, true) := by
        rw [linkToken, hid]
        show (UnionFind.union rounds st.1 m.id t).map _ = _
        rw [hunion]
        rfl
      obtain ⟨st', hfold, hlinked, hrep'⟩ := ih (parent, true) hrep₁
      refine ⟨st', by rw [List.foldlM_cons, hstep]; exact hfold, by simp [hlinked, hid], ?_⟩
      refine hrep'.of_generators ?_ ?_ ?_
      · rintro x y (h | ⟨rfl, id', hid', hy⟩)
        · exact hrep.inside x y h
        · exact ⟨hm, hindex _ y hy⟩
      · rintro x y ((h | ⟨rfl, rfl⟩) | ⟨rfl, id', hid', hy⟩)
        · exact .rel _ _ (.inl h)
        · exact .rel _ _ (.inr ⟨rfl, id, List.mem_cons_self, hid⟩)
        · exact .rel _ _ (.inr ⟨rfl, id', List.mem_cons_of_mem _ hid', hy⟩)
      · rintro x y (h | ⟨rfl, id', hid', hy⟩)
        · exact .rel _ _ (.inl (.inl h))
        · rcases List.mem_cons.mp hid' with rfl | hid'
          · rw [hid] at hy
            cases hy
            exact .rel _ _ (.inl (.inr ⟨rfl, rfl⟩))
          · exact .rel _ _ (.inr ⟨rfl, id', hid', hy⟩)

/-! ## The fallback -/

/-- `y` is the last of `done` that fits `x`. -/
def LastFit (f : Text → Text) (done : List MailMessage) (x y : MailMessage) : Prop :=
  ∃ before between, done = before ++ y :: between ∧ Fits f HasSubject x y ∧
    ∀ z ∈ between, ¬Fits f HasSubject x z

/-- The subject index knows the last message of `done` for every subject. -/
structure Notes (f : Text → Text) (done : List MailMessage) (index : Index) : Prop where
  sound : ∀ x t, index (x.subjectKey f) = some t → ∃ y, y.id = t ∧ LastFit f done x y
  complete : ∀ x : MailMessage, index (x.subjectKey f) = none → ∀ z ∈ done, ¬Fits f HasSubject x z

theorem Notes.empty : Notes f [] fun _ => none where
  sound _ t h := absurd h.symm (Option.some_ne_none t)
  complete _ _ _ hz := (List.not_mem_nil hz).elim

theorem subjectKey_eq_iff {x y : MailMessage} :
    x.subjectKey f = y.subjectKey f ↔ x.accountId = y.accountId ∧
      normalizeSubject f x.rawSubject = normalizeSubject f y.rawSubject := by
  constructor
  · exact AccountId.key_inj
  · rintro ⟨hacc, hsubj⟩
    rw [MailMessage.subjectKey, MailMessage.subjectKey, hacc, hsubj]

theorem noteSubject_spec {done : List MailMessage} {m : MailMessage} {index : Index}
    (h : Notes f done index) : Notes f (done ++ [m]) (noteSubject f index m) := by
  -- a message that `m` does not fit sees the same index and the same last message
  have hold : ∀ x, ¬Fits f HasSubject x m → ∀ t, index (x.subjectKey f) = some t →
      ∃ y, y.id = t ∧ LastFit f (done ++ [m]) x y := by
    intro x hx t ht
    obtain ⟨y, hy, before, between, hdone, hfit, hbetween⟩ := h.sound x t ht
    refine ⟨y, hy, before, between ++ [m], by rw [hdone, List.append_assoc]; rfl, hfit, ?_⟩
    intro z hz
    rcases List.mem_append.mp hz with hz | hz
    · exact hbetween z hz
    · cases List.mem_singleton.mp hz
      exact hx
  have hnone : ∀ x, ¬Fits f HasSubject x m → index (x.subjectKey f) = none →
      ∀ z ∈ done ++ [m], ¬Fits f HasSubject x z := by
    intro x hx hnone z hz
    rcases List.mem_append.mp hz with hz | hz
    · exact h.complete x hnone z hz
    · cases List.mem_singleton.mp hz
      exact hx
  unfold noteSubject
  split
  case isTrue hsubj =>
    constructor
    · intro x t ht
      simp only [Index.set] at ht
      split at ht
      case isTrue hkey =>
        cases ht
        obtain ⟨hacc, hnorm⟩ := subjectKey_eq_iff.mp hkey
        exact ⟨m, rfl, done, [], rfl, ⟨hacc, hnorm, hsubj⟩, nofun⟩
      case isFalse hkey =>
        exact hold x (fun hfit => hkey (subjectKey_eq_iff.mpr ⟨hfit.1, hfit.2.1⟩)) t ht
    · intro x hx
      simp only [Index.set] at hx
      split at hx
      case isTrue => cases hx
      case isFalse hkey =>
        exact hnone x (fun hfit => hkey (subjectKey_eq_iff.mpr ⟨hfit.1, hfit.2.1⟩)) hx
  case isFalse hsubj =>
    have hm : ∀ x, ¬Fits f HasSubject x m := fun x hfit => hsubj hfit.2.2
    exact ⟨fun x t => hold x (hm x) t, fun x => hnone x (hm x)⟩

theorem LastFit.eq {done : List MailMessage} {x y z : MailMessage} (h : LastFit f done x y)
    (h' : LastFit f done x z) : y = z := by
  obtain ⟨b, t, rfl, hy, ht⟩ := h
  obtain ⟨b', t', heq, hz, ht'⟩ := h'
  rcases List.append_eq_append_iff.mp heq with ⟨c, rfl, hc⟩ | ⟨c, rfl, hc⟩
  · cases c with
    | nil => exact (List.cons.inj hc).1
    | cons w c =>
      -- `z` would be among what follows `y`
      have hzt : z ∈ t := by
        rw [(List.cons.inj hc).2]
        exact List.mem_append_right _ List.mem_cons_self
      exact absurd hz (ht z hzt)
  · cases c with
    | nil => exact (List.cons.inj hc).1.symm
    | cons w c =>
      have hyt : y ∈ t' := by
        rw [(List.cons.inj hc).2]
        exact List.mem_append_right _ List.mem_cons_self
      exact absurd hy (ht' y hyt)

theorem rawSubject_ne_nil {m : MailMessage}
    (h : (replyOnlyPrefix (trim m.rawSubject)).isSome = true) : m.rawSubject ≠ [] := by
  intro hnil
  rw [hnil] at h
  cases h

/-! ## One message of the second loop -/

variable {messages : List MailMessage}

/-- Ids of messages that a message of `done` names or falls back to. -/
def Links (f : Text → Text) (messages done : List MailMessage) (x y : MessageId) : Prop :=
  ∃ a ∈ done, ∃ b ∈ byDateAsc messages, a.id = x ∧ b.id = y ∧
    (Names f a b ∨ FallsBack f HasSubject messages a b)

theorem mem_byDateAsc {m : MailMessage} : m ∈ byDateAsc messages ↔ m ∈ messages :=
  List.mem_mergeSort

/-- The place of a message in the sorted list is unique. -/
theorem done_unique {done rest done' rest' : List MailMessage} {m : MailMessage}
    (hids : ((byDateAsc messages).map MailMessage.id).Nodup)
    (h : byDateAsc messages = done ++ m :: rest) (h' : byDateAsc messages = done' ++ m :: rest') :
    done = done' := by
  have hnodup : (done ++ m :: rest).Nodup := by
    rw [← h]
    exact List.Nodup.of_map _ hids
  have hnot : m ∉ done := by
    intro hin
    exact (List.nodup_append.mp hnodup).2.2 m hin m List.mem_cons_self rfl
  have hnot' : m ∉ done' := by
    intro hin
    rw [← h, h'] at hnodup
    exact (List.nodup_append.mp hnodup).2.2 m hin m List.mem_cons_self rfl
  rw [h] at h'
  rcases List.append_eq_append_iff.mp h' with ⟨c, rfl, hc⟩ | ⟨c, rfl, hc⟩
  · cases c with
    | nil => rw [List.append_nil]
    | cons w c =>
      rw [(List.cons.inj hc).1] at hnot'
      exact absurd (List.mem_append_right _ List.mem_cons_self) hnot'
  · cases c with
    | nil => rw [List.append_nil]
    | cons w c =>
      rw [(List.cons.inj hc).1] at hnot
      exact absurd (List.mem_append_right _ List.mem_cons_self) hnot

/-- A message falls back to the last of those before it that fit. -/
theorem fallsBack_iff {done rest : List MailMessage} {m y : MailMessage}
    (hids : ((byDateAsc messages).map MailMessage.id).Nodup)
    (hsorted : byDateAsc messages = done ++ m :: rest) :
    FallsBack f HasSubject messages m y ↔
      (replyOnlyPrefix (trim m.rawSubject)).isSome = true ∧ (∀ z ∈ messages, ¬Names f m z) ∧
        LastFit f done m y := by
  constructor
  · rintro ⟨hinitial, hnames, before, between, after, heq, hfit, hbetween⟩
    refine ⟨hinitial, hnames, before, between, ?_, hfit, hbetween⟩
    exact done_unique hids hsorted heq
  · rintro ⟨hinitial, hnames, before, between, rfl, hfit, hbetween⟩
    exact ⟨hinitial, hnames, before, between, rest, hsorted, hfit, hbetween⟩

theorem linked_iff {index : Index} {m : MailMessage}
    (hidx : Indexes f (byDateAsc messages) index) :
    ((m.named f).any fun id => (index (m.accountId.key id)).isSome) = true ↔
      ∃ z ∈ messages, Names f m z := by
  rw [List.any_eq_true]
  constructor
  · rintro ⟨id, hid, hsome⟩
    obtain ⟨t, ht⟩ := Option.isSome_iff_exists.mp hsome
    obtain ⟨z, hz, -, hacc, hzid⟩ := hidx.sound _ _ _ ht
    exact ⟨z, mem_byDateAsc.mp hz, hacc.symm, id, hid, hzid⟩
  · rintro ⟨z, hz, hacc, id, hid, hzid⟩
    have hsome := hidx.complete z (mem_byDateAsc.mpr hz) id hzid
    rw [← hacc] at hsome
    exact ⟨id, hid, Option.isSome_iff_ne_none.mpr hsome⟩

/-- What the fallback adds for a message. -/
theorem linkSubject_spec {done rest : List MailMessage} {m : MailMessage} {last : Index}
    {st : UnionFind.Parents MessageId × Bool} {R : MessageId → MessageId → Prop}
    (hids : ((byDateAsc messages).map MailMessage.id).Nodup)
    (hsorted : byDateAsc messages = done ++ m :: rest)
    (hrounds : ((byDateAsc messages).map MailMessage.id).length ≤ rounds)
    (hlinked : st.2 = true ↔ ∃ z ∈ messages, Names f m z) (hnotes : Notes f done last)
    (hrep : UnionFind.Represents st.1 ((byDateAsc messages).map MailMessage.id) R) :
    ∃ parent, linkSubject f rounds last m st = some parent ∧
      UnionFind.Represents parent ((byDateAsc messages).map MailMessage.id) fun x y =>
        R x y ∨ (x = m.id ∧ ∃ b, b.id = y ∧ FallsBack f HasSubject messages m b) := by
  have hnode : ∀ a ∈ byDateAsc messages, a.id ∈ (byDateAsc messages).map MailMessage.id :=
    fun a ha => List.mem_map_of_mem ha
  have hm : m ∈ byDateAsc messages := by
    rw [hsorted]
    exact List.mem_append_right _ List.mem_cons_self
  have hmem : ∀ y, LastFit f done m y → y ∈ byDateAsc messages := by
    rintro y ⟨before, between, hdone, -⟩
    rw [hsorted, hdone]
    exact List.mem_append_left _ (List.mem_append_right _ List.mem_cons_self)
  have hiff := fun y => fallsBack_iff (f := f) (y := y) hids hsorted
  -- without a target nothing is added
  have hsame : (∀ b, ¬FallsBack f HasSubject messages m b) →
      UnionFind.Represents st.1 ((byDateAsc messages).map MailMessage.id) fun x y =>
        R x y ∨ (x = m.id ∧ ∃ b, b.id = y ∧ FallsBack f HasSubject messages m b) := by
    intro hnone
    refine hrep.of_generators ?_ (fun x y h => .rel x y (.inl h)) ?_
    · rintro x y (h | ⟨-, b, -, hb⟩)
      · exact hrep.inside x y h
      · exact absurd hb (hnone b)
    · rintro x y (h | ⟨-, b, -, hb⟩)
      · exact .rel x y h
      · exact absurd hb (hnone b)
  unfold linkSubject
  split
  case isTrue hcond =>
    simp only [Bool.and_eq_true, Bool.not_eq_true', decide_eq_true_eq] at hcond
    obtain ⟨⟨hnot, -⟩, hinitial⟩ := hcond
    have hnames : ∀ z ∈ messages, ¬Names f m z := by
      intro z hz hmz
      rw [hlinked.mpr ⟨z, hz, hmz⟩] at hnot
      cases hnot
    cases hlast : last (m.subjectKey f) with
    | none =>
      refine ⟨st.1, rfl, hsame ?_⟩
      intro b hb
      obtain ⟨-, -, before, between, hdone, hfit, -⟩ := (hiff b).mp hb
      refine hnotes.complete m hlast b ?_ hfit
      rw [hdone]
      exact List.mem_append_right _ List.mem_cons_self
    | some t =>
      obtain ⟨y, rfl, hy⟩ := hnotes.sound m t hlast
      obtain ⟨parent, hunion, hrep'⟩ := hrep.union (hnode m hm) (hnode y (hmem y hy)) hrounds
      refine ⟨parent, hunion, ?_⟩
      have hback : FallsBack f HasSubject messages m y := (hiff y).mpr ⟨hinitial, hnames, hy⟩
      refine hrep'.of_generators ?_ ?_ ?_
      · rintro x z (h | ⟨rfl, b, rfl, hb⟩)
        · exact hrep.inside x z h
        · exact ⟨hnode m hm, hnode b (hmem b ((hiff b).mp hb).2.2)⟩
      · rintro x z (h | ⟨rfl, rfl⟩)
        · exact .rel _ _ (.inl h)
        · exact .rel _ _ (.inr ⟨rfl, y, rfl, hback⟩)
      · rintro x z (h | ⟨rfl, b, rfl, hb⟩)
        · exact .rel _ _ (.inl h)
        · rw [((hiff b).mp hb).2.2.eq hy]
          exact .rel _ _ (.inr ⟨rfl, rfl⟩)
  case isFalse hcond =>
    refine ⟨st.1, rfl, hsame ?_⟩
    intro b hb
    obtain ⟨hinitial, hnames, -⟩ := (hiff b).mp hb
    apply hcond
    simp only [Bool.and_eq_true, Bool.not_eq_true', decide_eq_true_eq]
    refine ⟨⟨?_, rawSubject_ne_nil hinitial⟩, hinitial⟩
    cases hst : st.2 with
    | false => rfl
    | true =>
      obtain ⟨z, hz, hmz⟩ := hlinked.mp hst
      exact absurd hmz (hnames z hz)

theorem linkMessage_spec {done rest : List MailMessage} {m : MailMessage} {index : Index}
    {st : Linking} (hids : ((byDateAsc messages).map MailMessage.id).Nodup)
    (hsorted : byDateAsc messages = done ++ m :: rest)
    (hrounds : ((byDateAsc messages).map MailMessage.id).length ≤ rounds)
    (hidx : Indexes f (byDateAsc messages) index) (hnotes : Notes f done st.lastBySubject)
    (hrep : UnionFind.Represents st.parent ((byDateAsc messages).map MailMessage.id) fun x y =>
      SameIds f (byDateAsc messages) x y ∨ Links f messages done x y) :
    ∃ st', linkMessage f rounds index st m = some st' ∧ Notes f (done ++ [m]) st'.lastBySubject ∧
      UnionFind.Represents st'.parent ((byDateAsc messages).map MailMessage.id) fun x y =>
        SameIds f (byDateAsc messages) x y ∨ Links f messages (done ++ [m]) x y := by
  have hnode : ∀ a ∈ byDateAsc messages, a.id ∈ (byDateAsc messages).map MailMessage.id :=
    fun a ha => List.mem_map_of_mem ha
  have hm : m ∈ byDateAsc messages := by
    rw [hsorted]
    exact List.mem_append_right _ List.mem_cons_self
  have hsub : ∀ a ∈ done ++ [m], a ∈ byDateAsc messages := by
    intro a ha
    rw [hsorted]
    simp only [List.mem_append, List.mem_cons, List.not_mem_nil, or_false] at ha ⊢
    tauto
  have hindex : ∀ id t, index (m.accountId.key id) = some t →
      t ∈ (byDateAsc messages).map MailMessage.id := by
    intro id t ht
    obtain ⟨z, hz, rfl, -⟩ := hidx.sound _ _ _ ht
    exact hnode z hz
  obtain ⟨st₁, htokens, hlinked, hrep₁⟩ :=
    linkToken_loop index (m.named f) (st.parent, false) (hnode m hm) hrounds hindex hrep
  rw [Bool.false_or] at hlinked
  have hlinked' : st₁.2 = true ↔ ∃ z ∈ messages, Names f m z := by
    rw [hlinked]
    exact linked_iff hidx
  obtain ⟨parent, hsubject, hrep₂⟩ := linkSubject_spec hids hsorted hrounds hlinked' hnotes hrep₁
  refine ⟨⟨parent, noteSubject f st.lastBySubject m⟩, ?_, noteSubject_spec hnotes, ?_⟩
  · rw [linkMessage, htokens, Option.bind_some, hsubject]
    rfl
  refine hrep₂.of_generators ?_ ?_ ?_
  · rintro x y (⟨a, ha, b, hb, rfl, rfl, -⟩ | ⟨a, ha, b, hb, rfl, rfl, -⟩)
    · exact ⟨hnode a ha, hnode b hb⟩
    · exact ⟨hnode a (hsub a ha), hnode b hb⟩
  · have hmem : m ∈ done ++ [m] := List.mem_append_right _ List.mem_cons_self
    rintro x y (((h | ⟨a, ha, hab⟩) | ⟨rfl, id, hid, hy⟩) | ⟨rfl, b, rfl, hb⟩)
    · exact .rel _ _ (.inl h)
    · exact .rel _ _ (.inr ⟨a, List.mem_append_left _ ha, hab⟩)
    · obtain ⟨z, hz, rfl, hacc, hzid⟩ := hidx.sound _ _ _ hy
      exact .rel _ _ (.inr ⟨m, hmem, z, hz, rfl, rfl, .inl ⟨hacc.symm, id, hid, hzid⟩⟩)
    · have hbmem : b ∈ byDateAsc messages := by
        obtain ⟨-, -, before, between, hdone, -⟩ := (fallsBack_iff hids hsorted).mp hb
        apply hsub
        rw [hdone]
        simp
      exact .rel _ _ (.inr ⟨m, hmem, b, hbmem, rfl, rfl, .inr hb⟩)
  · rintro x y (h | ⟨a, ha, b, hb, rfl, rfl, hab⟩)
    · exact .rel _ _ (.inl (.inl (.inl h)))
    · rcases List.mem_append.mp ha with ha | ha
      · exact .rel _ _ (.inl (.inl (.inr ⟨a, ha, b, hb, rfl, rfl, hab⟩)))
      · cases List.mem_singleton.mp ha
        rcases hab with ⟨hacc, id, hid, hbid⟩ | hback
        · -- the index leads to a message with the id of `b`
          have hsome := hidx.complete b hb id hbid
          rw [← hacc] at hsome
          obtain ⟨t, ht⟩ := Option.ne_none_iff_exists'.mp hsome
          obtain ⟨z, hz, rfl, hzacc, hzid⟩ := hidx.sound _ _ _ ht
          refine .trans _ z.id _ (.rel _ _ (.inl (.inr ⟨rfl, id, hid, ht⟩))) ?_
          exact .rel _ _ (.inl (.inl (.inl ⟨z, hz, b, hb, rfl, rfl, hzacc.trans hacc, id, hzid, hbid⟩)))
        · exact .rel _ _ (.inr ⟨rfl, b, rfl, hback⟩)

/-! ## Groups -/

theorem flatten_pushGroup (root : MessageId) (m : MailMessage) (groups : Groups) :
    ((pushGroup root m groups).map Prod.snd).flatten.Perm (m :: (groups.map Prod.snd).flatten) := by
  induction groups with
  | nil => exact List.Perm.refl _
  | cons g groups ih =>
    obtain ⟨r, members⟩ := g
    rw [pushGroup]
    split
    · simp only [List.map_cons, List.flatten_cons, List.append_assoc]
      exact List.perm_middle
    · simp only [List.map_cons, List.flatten_cons]
      exact (List.Perm.append_left members ih).trans List.perm_middle

theorem keys_pushGroup (root : MessageId) (m : MailMessage) (groups : Groups) :
    (pushGroup root m groups).map Prod.fst =
      if root ∈ groups.map Prod.fst then groups.map Prod.fst else groups.map Prod.fst ++ [root] := by
  induction groups with
  | nil => rfl
  | cons g groups ih =>
    obtain ⟨r, members⟩ := g
    rw [pushGroup]
    by_cases hr : r = root
    · simp [hr]
    · rw [if_neg hr, List.map_cons, ih, List.map_cons]
      by_cases hin : root ∈ groups.map Prod.fst
      · rw [if_pos hin, if_pos (List.mem_cons_of_mem _ hin)]
      · rw [if_neg hin, if_neg, List.cons_append]
        intro h
        rcases List.mem_cons.mp h with he | h
        · exact hr he.symm
        · exact hin h

theorem mem_pushGroup {root : MessageId} {m : MailMessage} {groups : Groups}
    (hkeys : (groups.map Prod.fst).Nodup) {g : MessageId × List MailMessage}
    (h : g ∈ pushGroup root m groups) :
    (g.1 ≠ root ∧ g ∈ groups) ∨
      (g.1 = root ∧ ∃ members, (root, members) ∈ groups ∧ g.2 = members ++ [m]) ∨
      (g = (root, [m]) ∧ root ∉ groups.map Prod.fst) := by
  induction groups with
  | nil => exact .inr (.inr ⟨List.mem_singleton.mp h, List.not_mem_nil⟩)
  | cons g' groups ih =>
    obtain ⟨r, members⟩ := g'
    obtain ⟨hnot, hkeys⟩ := List.nodup_cons.mp hkeys
    rw [pushGroup] at h
    split at h
    case isTrue hr =>
      subst hr
      rcases List.mem_cons.mp h with rfl | h
      · exact .inr (.inl ⟨rfl, members, List.mem_cons_self, rfl⟩)
      · refine .inl ⟨?_, List.mem_cons_of_mem _ h⟩
        intro he
        have hin : g.1 ∈ groups.map Prod.fst := List.mem_map_of_mem h
        rw [he] at hin
        exact hnot hin
    case isFalse hr =>
      rcases List.mem_cons.mp h with rfl | h
      · exact .inl ⟨hr, List.mem_cons_self⟩
      · rcases ih hkeys h with ⟨hne, hin⟩ | ⟨he, members', hin, hm⟩ | ⟨he, hfree⟩
        · exact .inl ⟨hne, List.mem_cons_of_mem _ hin⟩
        · exact .inr (.inl ⟨he, members', List.mem_cons_of_mem _ hin, hm⟩)
        · refine .inr (.inr ⟨he, ?_⟩)
          rw [List.map_cons, List.mem_cons]
          exact not_or.mpr ⟨Ne.symm hr, hfree⟩

/-- The buckets by root of the messages that are done. -/
structure Buckets (rootOf : MessageId → MessageId) (done : List MailMessage) (groups : Groups) :
    Prop where
  keys : (groups.map Prod.fst).Nodup
  bucket : ∀ g ∈ groups, g.2 = done.filter fun m => rootOf m.id = g.1
  every : ∀ m ∈ done, rootOf m.id ∈ groups.map Prod.fst
  flatten : (groups.map Prod.snd).flatten.Perm done

theorem Buckets.push {rootOf : MessageId → MessageId} {done : List MailMessage} {groups : Groups}
    (h : Buckets rootOf done groups) (m : MailMessage) :
    Buckets rootOf (done ++ [m]) (pushGroup (rootOf m.id) m groups) := by
  refine ⟨?_, ?_, ?_, ?_⟩
  · rw [keys_pushGroup]
    split
    case isTrue => exact h.keys
    case isFalse hfree =>
      rw [List.nodup_append]
      refine ⟨h.keys, List.nodup_singleton _, ?_⟩
      rintro r hr r' hr' rfl
      rw [List.mem_singleton.mp hr'] at hr
      exact hfree hr
  · intro g hg
    rw [List.filter_append, List.filter_singleton]
    rcases mem_pushGroup h.keys hg with ⟨hne, hin⟩ | ⟨he, members, hin, hm⟩ | ⟨rfl, hfree⟩
    · rw [h.bucket g hin]
      simp [Ne.symm hne]
    · have hbucket := h.bucket _ hin
      dsimp only at hbucket
      rw [hm, hbucket, he]
      simp
    · -- no message of this root was done
      have hnone : done.filter (fun m' => rootOf m'.id = rootOf m.id) = [] := by
        rw [List.filter_eq_nil_iff]
        intro m' hm' he
        rw [decide_eq_true_eq] at he
        exact hfree (he ▸ h.every m' hm')
      simp [hnone]
  · intro m' hm'
    rw [keys_pushGroup]
    rcases List.mem_append.mp hm' with hm' | hm'
    · have hin := h.every m' hm'
      split
      · exact hin
      · exact List.mem_append_left _ hin
    · rw [List.mem_singleton.mp hm']
      split
      · assumption
      · exact List.mem_append_right _ List.mem_cons_self
  · exact ((flatten_pushGroup _ m groups).trans (h.flatten.cons m)).trans
      (List.perm_append_singleton m done).symm

/-- Two messages are in one bucket when they have one root. -/
theorem Buckets.sameGroup_iff {rootOf : MessageId → MessageId} {all : List MailMessage}
    {groups : Groups} (h : Buckets rootOf all groups) {x y : MailMessage} (hx : x ∈ all)
    (hy : y ∈ all) : SameGroup groups x y ↔ rootOf x.id = rootOf y.id := by
  constructor
  · rintro ⟨g, hg, hxg, hyg⟩
    rw [h.bucket g hg, List.mem_filter, decide_eq_true_eq] at hxg hyg
    exact hxg.2.trans hyg.2.symm
  · intro he
    obtain ⟨g, hg, hroot⟩ := List.mem_map.mp (h.every x hx)
    refine ⟨g, hg, ?_, ?_⟩
    · rw [h.bucket g hg, List.mem_filter, decide_eq_true_eq]
      exact ⟨hx, hroot.symm⟩
    · rw [h.bucket g hg, List.mem_filter, decide_eq_true_eq]
      exact ⟨hy, (hroot.trans he).symm⟩

/-- The third loop. -/
theorem groupMessage_loop {parent : UnionFind.Parents MessageId} {all : List MailMessage}
    (hforest : UnionFind.Forest parent (all.map MailMessage.id))
    (hrounds : (all.map MailMessage.id).length ≤ rounds) (rootOf : MessageId → MessageId)
    (hroot : ∀ m ∈ all, UnionFind.HasRoot parent m.id (rootOf m.id)) :
    ∃ st, all.foldlM (groupMessage rounds) (parent, []) = some st ∧ Buckets rootOf all st.2 := by
  have hloop : ∃ st, all.foldlM (groupMessage rounds) (parent, []) = some st ∧
      (UnionFind.Forest st.1 (all.map MailMessage.id) ∧
        (∀ m ∈ all, UnionFind.HasRoot st.1 m.id (rootOf m.id)) ∧ Buckets rootOf all st.2) := by
    refine foldlM_done (P := fun done (st : UnionFind.Parents MessageId × Groups) =>
      UnionFind.Forest st.1 (all.map MailMessage.id) ∧
        (∀ m ∈ all, UnionFind.HasRoot st.1 m.id (rootOf m.id)) ∧ Buckets rootOf done st.2)
      ?_ all [] (parent, []) rfl ⟨hforest, hroot, ?_⟩
    · rintro done m rest ⟨parent, groups⟩ hall ⟨hforest, hroot, hbuckets⟩
      have hm : m ∈ all := by
        rw [hall]
        exact List.mem_append_right _ List.mem_cons_self
      obtain ⟨r, parent', hfind, hr, hforest', hkeep⟩ :=
        UnionFind.find_spec hforest (List.mem_map_of_mem hm) hrounds
      have he : r = rootOf m.id := hr.eq (hroot m hm)
      subst he
      refine ⟨(parent', pushGroup (rootOf m.id) m groups), ?_, hforest', ?_, hbuckets.push m⟩
      · rw [groupMessage, hfind]
        rfl
      · intro m' hm'
        exact hkeep _ _ (hroot m' hm')
    · exact ⟨List.nodup_nil, nofun, nofun, List.Perm.refl _⟩
  obtain ⟨st, hst, -, -, hbuckets⟩ := hloop
  exact ⟨st, hst, hbuckets⟩

/-! ## All loops -/

/-- Ids of related messages. -/
def RelatedIds (f : Text → Text) (messages : List MailMessage) (x y : MessageId) : Prop :=
  ∃ a b, a.id = x ∧ b.id = y ∧ Related f HasSubject messages a b

/-- The loops end, and group the messages by the classes of related ids. -/
theorem linkSorted_spec (f : Text → Text)
    (hids : ((byDateAsc messages).map MailMessage.id).Nodup)
    (hrounds : ((byDateAsc messages).map MailMessage.id).length ≤ rounds) :
    ∃ groups, linkSorted f rounds (byDateAsc messages) = some groups ∧
      ∃ rootOf : MessageId → MessageId, Buckets rootOf (byDateAsc messages) groups ∧
        ∀ x ∈ byDateAsc messages, ∀ y ∈ byDateAsc messages,
          rootOf x.id = rootOf y.id ↔ Relation.EqvGen (RelatedIds f messages) x.id y.id := by
  -- the Message-ID index
  have hinit : UnionFind.Represents (singletons (byDateAsc messages))
      ((byDateAsc messages).map MailMessage.id) (SameIds f []) := by
    have h : UnionFind.Represents (singletons (byDateAsc messages))
        ((byDateAsc messages).map MailMessage.id) fun _ _ => False := by
      apply UnionFind.represents_init
      · exact fun x hx => if_pos hx
      · intro x hx
        unfold singletons at hx
        split at hx
        · assumption
        · exact absurd rfl hx
    refine h.of_generators ?_ nofun ?_
    · rintro x y ⟨a, ha, -⟩
      cases ha
    · rintro x y ⟨a, ha, -⟩
      cases ha
  obtain ⟨indexed, hindexed, hidx, hrep₁⟩ : ∃ st, (byDateAsc messages).foldlM
      (indexMessage f rounds) ⟨singletons (byDateAsc messages), fun _ => none⟩ = some st ∧
      Indexes f (byDateAsc messages) st.byMsgId ∧ UnionFind.Represents st.parent
        ((byDateAsc messages).map MailMessage.id) (SameIds f (byDateAsc messages)) := by
    refine foldlM_done (P := fun done (st : Indexing) => Indexes f done st.byMsgId ∧
      UnionFind.Represents st.parent ((byDateAsc messages).map MailMessage.id) (SameIds f done))
      ?_ _ [] _ rfl ⟨⟨nofun, nofun⟩, hinit⟩
    rintro done m rest st hall ⟨hidx, hrep⟩
    refine indexMessage_spec ?_ hrounds hidx hrep
    intro a ha
    rw [hall]
    simp only [List.mem_append, List.mem_cons, List.not_mem_nil, or_false] at ha ⊢
    tauto
  -- the links
  obtain ⟨linked, hlinked, -, hrep₂⟩ : ∃ st, (byDateAsc messages).foldlM
      (linkMessage f rounds indexed.byMsgId) ⟨indexed.parent, fun _ => none⟩ = some st ∧
      Notes f (byDateAsc messages) st.lastBySubject ∧ UnionFind.Represents st.parent
        ((byDateAsc messages).map MailMessage.id) (fun x y =>
          SameIds f (byDateAsc messages) x y ∨ Links f messages (byDateAsc messages) x y) := by
    refine foldlM_done (P := fun done (st : Linking) => Notes f done st.lastBySubject ∧
      UnionFind.Represents st.parent ((byDateAsc messages).map MailMessage.id) (fun x y =>
        SameIds f (byDateAsc messages) x y ∨ Links f messages done x y))
      ?_ _ [] _ rfl ⟨Notes.empty, ?_⟩
    · rintro done m rest st hall ⟨hnotes, hrep⟩
      exact linkMessage_spec hids hall hrounds hidx hnotes hrep
    · refine hrep₁.of_generators ?_ (fun x y h => .rel x y (.inl h)) ?_
      · rintro x y (h | ⟨a, ha, -⟩)
        · exact hrep₁.inside x y h
        · cases ha
      · rintro x y (h | ⟨a, ha, -⟩)
        · exact .rel x y h
        · cases ha
  have hrep : UnionFind.Represents linked.parent ((byDateAsc messages).map MailMessage.id)
      (RelatedIds f messages) := by
    refine hrep₂.of_generators ?_ ?_ ?_
    · rintro x y ⟨a, b, rfl, rfl, ha, hb, -⟩
      exact ⟨List.mem_map_of_mem (mem_byDateAsc.mpr ha), List.mem_map_of_mem (mem_byDateAsc.mpr hb)⟩
    · rintro x y (⟨a, ha, b, hb, rfl, rfl, hab⟩ | ⟨a, ha, b, hb, rfl, rfl, hab⟩)
      · exact .rel _ _ ⟨a, b, rfl, rfl, mem_byDateAsc.mp ha, mem_byDateAsc.mp hb, .inl hab⟩
      · exact .rel _ _ ⟨a, b, rfl, rfl, mem_byDateAsc.mp ha, mem_byDateAsc.mp hb, .inr hab⟩
    · rintro x y ⟨a, b, rfl, rfl, ha, hb, hab | hab⟩
      · exact .rel _ _ (.inl ⟨a, mem_byDateAsc.mpr ha, b, mem_byDateAsc.mpr hb, rfl, rfl, hab⟩)
      · exact .rel _ _ (.inr ⟨a, mem_byDateAsc.mpr ha, b, mem_byDateAsc.mpr hb, rfl, rfl, hab⟩)
  -- the groups
  have hroot : ∀ m ∈ byDateAsc messages, UnionFind.HasRoot linked.parent m.id
      ((UnionFind.root linked.parent rounds m.id).getD m.id) := by
    intro m hm
    obtain ⟨r, k, hd⟩ := hrep.forest.rooted m.id (List.mem_map_of_mem hm)
    have hk := Nat.lt_of_lt_of_le (hd.lt_length hrep.forest.known) hrounds
    rw [UnionFind.root_eq hd hk]
    exact ⟨k, hd⟩
  obtain ⟨grouped, hgrouped, hbuckets⟩ := groupMessage_loop hrep.forest hrounds
    (fun x => (UnionFind.root linked.parent rounds x).getD x) hroot
  refine ⟨grouped.2, ?_, _, hbuckets, ?_⟩
  · rw [linkSorted, hindexed, Option.bind_eq_bind, Option.bind_some, hlinked, Option.bind_eq_bind,
      Option.bind_some, hgrouped]
    rfl
  · intro x hx y hy
    rw [← hrep.classes _ (List.mem_map_of_mem hx) _ (List.mem_map_of_mem hy)]
    constructor
    · intro he
      exact ⟨_, hroot x hx, by rw [he]; exact hroot y hy⟩
    · rintro ⟨r, hxr, hyr⟩
      exact ((hroot x hx).eq hxr).trans ((hroot y hy).eq hyr).symm

end Loops

/-! ## The threads -/

section Threading

variable {f : Text → Text} {messages : List MailMessage}

/-- Messages of distinct ids are related as their ids are. -/
theorem eqvGen_ids (hids : (messages.map MailMessage.id).Nodup) {x y : MailMessage}
    (hx : x ∈ messages) (hy : y ∈ messages) :
    Relation.EqvGen (RelatedIds f messages) x.id y.id ↔
      Relation.EqvGen (Related f HasSubject messages) x y := by
  have hinj : ∀ a ∈ messages, ∀ b ∈ messages, a.id = b.id → a = b :=
    fun a ha b hb => List.inj_on_of_nodup_map hids ha hb
  constructor
  · intro h
    have hgen : ∀ u v, Relation.EqvGen (RelatedIds f messages) u v → u = v ∨
        ∃ a ∈ messages, ∃ b ∈ messages, a.id = u ∧ b.id = v ∧
          Relation.EqvGen (Related f HasSubject messages) a b := by
      intro u v h
      induction h with
      | rel u v h =>
        obtain ⟨a, b, rfl, rfl, hab⟩ := h
        exact .inr ⟨a, hab.1, b, hab.2.1, rfl, rfl, .rel a b hab⟩
      | refl u => exact .inl rfl
      | symm u v _ ih =>
        rcases ih with rfl | ⟨a, ha, b, hb, hau, hbv, hab⟩
        · exact .inl rfl
        · exact .inr ⟨b, hb, a, ha, hbv, hau, .symm a b hab⟩
      | trans u v w _ _ ih ih' =>
        rcases ih with rfl | ⟨a, ha, b, hb, hau, hbv, hab⟩
        · exact ih'
        · rcases ih' with rfl | ⟨b', hb', c, hc, hbv', hcw, hbc⟩
          · exact .inr ⟨a, ha, b, hb, hau, hbv, hab⟩
          · cases hinj b hb b' hb' (hbv.trans hbv'.symm)
            exact .inr ⟨a, ha, c, hc, hau, hcw, .trans a b c hab hbc⟩
    rcases hgen _ _ h with he | ⟨a, ha, b, hb, hax, hby, hab⟩
    · rw [hinj x hx y hy he]
      exact .refl y
    · rw [← hinj a ha x hx hax, ← hinj b hb y hy hby]
      exact hab
  · intro h
    clear hx hy
    induction h with
    | rel a b hab => exact .rel _ _ ⟨a, b, rfl, rfl, hab⟩
    | refl a => exact .refl _
    | symm a b _ ih => exact .symm _ _ ih
    | trans a b c _ _ ih ih' => exact .trans _ _ _ ih ih'

theorem accountId_eq_of_eqvGen {counts : MailMessage → Prop} {x y : MailMessage}
    (h : Relation.EqvGen (Related f counts messages) x y) : x.accountId = y.accountId := by
  induction h with
  | rel a b hab =>
    obtain ⟨-, -, hab | hab | ⟨-, -, -, -, -, -, hfit, -⟩⟩ := hab
    · exact hab.1
    · exact hab.1
    · exact hfit.1
  | refl a => rfl
  | symm a b _ ih => exact ih.symm
  | trans a b c _ _ ih ih' => exact ih.trans ih'

theorem pairwise_byDateAsc (messages : List MailMessage) :
    (byDateAsc messages).Pairwise fun a b => a.date ≤ b.date := by
  have h : (byDateAsc messages).Pairwise fun a b => decide (a.date ≤ b.date) = true := by
    apply List.pairwise_mergeSort
    · intro a b c hab hbc
      simp only [decide_eq_true_eq] at hab hbc ⊢
      exact Int.le_trans hab hbc
    · intro a b
      simp only [Bool.or_eq_true, decide_eq_true_eq]
      exact Int.le_total _ _
  exact h.imp fun hab => of_decide_eq_true hab

/-- With distinct dates the input order is lost in sorting. -/
theorem byDateAsc_eq_of_perm {messages' : List MailMessage} (hperm : messages'.Perm messages)
    (hdates : (messages.map MailMessage.date).Nodup) : byDateAsc messages' = byDateAsc messages := by
  have hsorted : (byDateAsc messages').Perm (byDateAsc messages) :=
    (List.mergeSort_perm _ _).trans (hperm.trans (List.mergeSort_perm _ _).symm)
  refine List.Perm.eq_of_pairwise ?_ (pairwise_byDateAsc messages') (pairwise_byDateAsc messages)
    hsorted
  intro a b ha hb hab hba
  apply List.inj_on_of_nodup_map hdates
  · exact hperm.mem_iff.mp (mem_byDateAsc.mp ha)
  · exact mem_byDateAsc.mp hb
  · exact Int.le_antisymm hab hba

/-- What the groups should be: all the messages, each once, by the equivalence that the
relation generates; each group of one account and sorted by date. -/
structure ThreadsRight (f : Text → Text) (counts : MailMessage → Prop)
    (messages : List MailMessage) (groups : Groups) : Prop where
  partition : (groups.map Prod.snd).flatten.Perm messages
  closure : ∀ x ∈ messages, ∀ y ∈ messages,
    SameGroup groups x y ↔ Relation.EqvGen (Related f counts messages) x y
  account : ∀ g ∈ groups, ∀ x ∈ g.2, ∀ y ∈ g.2, x.accountId = y.accountId
  sorted : ∀ g ∈ groups, g.2.Pairwise fun x y => x.date ≤ y.date

/-- The loops end, and the groups are the messages of one root in the sorted order. -/
theorem linkThreads_buckets (f : Text → Text) {rounds : Nat}
    (hids : (messages.map MailMessage.id).Nodup) (hrounds : messages.length ≤ rounds) :
    ∃ groups, linkThreads f rounds messages = some groups ∧
      ∃ rootOf : MessageId → MessageId, Buckets rootOf (byDateAsc messages) groups ∧
        ∀ x ∈ messages, ∀ y ∈ messages,
          rootOf x.id = rootOf y.id ↔ Relation.EqvGen (Related f HasSubject messages) x y := by
  have hperm : (byDateAsc messages).Perm messages := List.mergeSort_perm _ _
  have hids' : ((byDateAsc messages).map MailMessage.id).Nodup :=
    (hperm.map MailMessage.id).nodup_iff.mpr hids
  have hrounds' : ((byDateAsc messages).map MailMessage.id).length ≤ rounds := by
    rw [List.length_map, hperm.length_eq]
    exact hrounds
  obtain ⟨groups, hgroups, rootOf, hbuckets, hroots⟩ := linkSorted_spec f hids' hrounds'
  refine ⟨groups, hgroups, rootOf, hbuckets, ?_⟩
  intro x hx y hy
  rw [hroots x (mem_byDateAsc.mpr hx) y (mem_byDateAsc.mpr hy), eqvGen_ids hids hx hy]

theorem linkThreads_spec (f : Text → Text) {rounds : Nat}
    (hids : (messages.map MailMessage.id).Nodup) (hrounds : messages.length ≤ rounds) :
    ∃ groups, linkThreads f rounds messages = some groups ∧
      ThreadsRight f HasSubject messages groups := by
  obtain ⟨groups, hgroups, rootOf, hbuckets, hroots⟩ := linkThreads_buckets f hids hrounds
  have hclosure : ∀ x ∈ messages, ∀ y ∈ messages,
      SameGroup groups x y ↔ Relation.EqvGen (Related f HasSubject messages) x y := by
    intro x hx y hy
    rw [hbuckets.sameGroup_iff (mem_byDateAsc.mpr hx) (mem_byDateAsc.mpr hy), hroots x hx y hy]
  have hmem : ∀ g ∈ groups, ∀ x ∈ g.2, x ∈ messages := by
    intro g hg x hx
    rw [hbuckets.bucket g hg] at hx
    exact mem_byDateAsc.mp (List.mem_filter.mp hx).1
  refine ⟨groups, hgroups, hbuckets.flatten.trans (List.mergeSort_perm _ _), hclosure, ?_, ?_⟩
  · intro g hg x hx y hy
    exact accountId_eq_of_eqvGen
      ((hclosure x (hmem g hg x hx) y (hmem g hg y hy)).mp ⟨g, hg, hx, hy⟩)
  · intro g hg
    rw [hbuckets.bucket g hg]
    exact (pairwise_byDateAsc messages).sublist List.filter_sublist

/-- No message of the list falls back to another. -/
def NoFallback (f : Text → Text) (messages : List MailMessage) : Prop :=
  ∀ x y, ¬FallsBack f HasSubject messages x y

theorem related_of_noFallback {messages' : List MailMessage} (hmem : ∀ m, m ∈ messages ↔ m ∈ messages')
    (hno : NoFallback f messages) {x y : MailMessage} (h : Related f HasSubject messages x y) :
    Related f HasSubject messages' x y := by
  obtain ⟨hx, hy, hxy⟩ := h
  refine ⟨(hmem x).mp hx, (hmem y).mp hy, ?_⟩
  rcases hxy with hxy | hxy | hxy
  · exact .inl hxy
  · exact .inr (.inl hxy)
  · exact absurd hxy (hno x y)

/-- For messages of distinct ids the loops end and the groups are right; another order of the
messages gives the same groups when neither order uses the fallback, or the dates differ. -/
theorem threads_partition (f : Text → Text) (messages : List MailMessage) (rounds : Nat)
    (hids : (messages.map MailMessage.id).Nodup) (hrounds : messages.length ≤ rounds) :
    ∃ groups, linkThreads f rounds messages = some groups ∧
      ThreadsRight f HasSubject messages groups ∧
      ∀ messages' groups', messages'.Perm messages → linkThreads f rounds messages' = some groups' →
        (NoFallback f messages ∧ NoFallback f messages') ∨ (messages.map MailMessage.date).Nodup →
        ∀ x ∈ messages, ∀ y ∈ messages, SameGroup groups' x y ↔ SameGroup groups x y := by
  obtain ⟨groups, hgroups, hright⟩ := linkThreads_spec f hids hrounds
  refine ⟨groups, hgroups, hright, ?_⟩
  intro messages' groups' hperm hgroups' horder x hx y hy
  rcases horder with ⟨hno, hno'⟩ | hdates
  · have hids' : (messages'.map MailMessage.id).Nodup :=
      (hperm.map MailMessage.id).nodup_iff.mpr hids
    obtain ⟨_, heq, hright'⟩ := linkThreads_spec f hids' (hperm.length_eq ▸ hrounds)
    rw [hgroups'] at heq
    cases heq
    rw [hright'.closure x (hperm.mem_iff.mpr hx) y (hperm.mem_iff.mpr hy), hright.closure x hx y hy]
    constructor
    · apply UnionFind.eqvGen_of_generators
      exact fun a b hab => .rel a b (related_of_noFallback (fun m => hperm.mem_iff) hno' hab)
    · apply UnionFind.eqvGen_of_generators
      exact fun a b hab => .rel a b (related_of_noFallback (fun m => hperm.mem_iff.symm) hno hab)
  · have heq : groups' = groups := by
      rw [linkThreads, byDateAsc_eq_of_perm hperm hdates, ← linkThreads, hgroups] at hgroups'
      cases hgroups'
      rfl
    rw [heq]

end Threading

/-! ## An empty subject -/

/-- A message without a subject, and then one with an empty reply subject. -/
def emptySubject : MailMessage where
  id := ⟨['1'], by simp⟩
  accountId := ⟨['a'], by simp⟩
  date := 1

def emptyReply : MailMessage where
  id := ⟨['2'], by simp⟩
  accountId := ⟨['a'], by simp⟩
  subject := some "Re: ".toList
  date := 2

def asciiLower (s : Text) : Text := s.map Char.toLower

theorem byDateAsc_empty : byDateAsc [emptySubject, emptyReply] = [emptySubject, emptyReply] := by
  apply List.mergeSort_of_pairwise
  simp [emptySubject, emptyReply]

/-- The threads of the two are right when only messages with a subject count. -/
theorem threads_partition_empty :
    ∃ groups, linkThreads asciiLower 2 [emptySubject, emptyReply] = some groups ∧
      ThreadsRight asciiLower HasSubject [emptySubject, emptyReply] groups := by
  obtain ⟨groups, hgroups, hright, -⟩ := threads_partition asciiLower [emptySubject, emptyReply] 2
    (by decide) (by decide)
  exact ⟨groups, hgroups, hright⟩

/-- The reply is the only message after one of its normalised subject, and stays apart. -/
theorem empty_subject_apart :
    ¬∃ groups, linkThreads asciiLower 2 [emptySubject, emptyReply] = some groups ∧
      ThreadsRight asciiLower (fun _ => True) [emptySubject, emptyReply] groups := by
  rintro ⟨groups, hgroups, hright⟩
  have hapart : linkThreads asciiLower 2 [emptySubject, emptyReply] =
      some [(emptySubject.id, [emptySubject]), (emptyReply.id, [emptyReply])] := by
    rw [linkThreads, byDateAsc_empty]
    decide +kernel
  rw [hapart] at hgroups
  cases hgroups
  have hback : FallsBack asciiLower (fun _ => True) [emptySubject, emptyReply] emptyReply
      emptySubject := by
    refine ⟨by decide +kernel, ?_, [], [], [], byDateAsc_empty, ⟨rfl, by decide +kernel, trivial⟩,
      nofun⟩
    rintro z - ⟨-, id, hid, -⟩
    cases hid
  have hsame := (hright.closure emptyReply (by simp) emptySubject (by simp)).mpr
    (.rel _ _ ⟨by simp, by simp, .inr (.inr hback)⟩)
  obtain ⟨g, hg, hx, hy⟩ := hsame
  simp only [List.mem_cons, List.not_mem_nil, or_false] at hg
  rcases hg with rfl | rfl
  · exact absurd hx (by decide)
  · exact absurd hy (by decide)

end Lyra.Conversation
