import Lyra.Http.Requests

/-!
# Labels on the server

A label patch is mirrored onto the server as keywords `label-<slug>` (`sync/labels.rs`).
`label_diff` gives keywords; the IMAP path stores them as flags one by one, the JMAP path
hands them to `set_email_keywords_full`, which takes labels and puts the prefix before them
once more.  Either path is only taken when the patch also carries a flag.

The keywords of the row's message on the server are a list read as a set.  IMAP keywords
are compared without regard to case, so they are kept in lower case.

* `labels_mirrored_iff`: the label keywords follow the patch exactly when no label changes,
  or the message is an IMAP one, the patch carries a flag, and the keyword commands that
  are needed take effect and hit no label that stays;
* `labels_not_mirrored`: a new label on a JMAP message, with a flag.
-/

namespace Lyra

/-! ## Keywords -/

def isLabelKeyword (k : Text) : Bool := keywordPrefix.isPrefixOf k

/-- A keyword as the server keeps it. -/
def Protocol.keyword : Protocol → Text → Text
  | .imap, k => k.map Char.toLower
  | _, k => k

/-- The keyword a label stands for. -/
def Protocol.label (p : Protocol) (l : Text) : Text := p.keyword (labelKeyword l)

def Protocol.seen : Protocol → Text
  | .imap => Protocol.imap.keyword "\\Seen".toList
  | _ => "$seen".toList

def Protocol.flagged : Protocol → Text
  | .imap => Protocol.imap.keyword "\\Flagged".toList
  | _ => "$flagged".toList

/-- An error does not tell whether the command took effect. -/
def Reply.applied : Reply → Bool
  | .ok => true
  | .failed applied => applied

/-! ## IMAP -/

/-- What a command does to the keywords. -/
def ServerOp.keywords (ks : List Text) : ServerOp → List Text
  | .addFlags flags => flags.map Protocol.imap.keyword ++ ks
  | .removeFlags flags => ks.filter fun k => k ∉ flags.map Protocol.imap.keyword
  | .moveUid _ => ks
  | .deleteUid => ks

/-- The commands that took effect. -/
def effects (issued : List (ImapCommand × Reply)) : List ServerOp :=
  (issued.filter fun c => c.2.applied).map fun c => c.1.op

/-! ## JMAP -/

/-- A keyword patch: `true` sets, `null` (here `false`) removes; a later entry for a
keyword replaces an earlier one. -/
abbrev KeywordPatch := List (Text × Bool)

def KeywordPatch.insert (patch : KeywordPatch) (k : Text) (v : Bool) : KeywordPatch := (k, v) :: patch

def keywordPatch (isRead isStarred : Option Bool) : KeywordPatch :=
  let patch : KeywordPatch := match isRead with
    | some read => KeywordPatch.insert [] "$seen".toList read
    | none => []
  match isStarred with
  | some star => patch.insert "$flagged".toList star
  | none => patch

/-- `set_email_keywords_full`: `label_keyword` is applied to what it is given. -/
def setEmailKeywordsFull (isRead isStarred : Option Bool) (labelAdd labelRemove : List Text) :
    KeywordPatch :=
  let patch := keywordPatch isRead isStarred
  let patch := labelAdd.foldl (fun p l => p.insert (labelKeyword l) true) patch
  labelRemove.foldl (fun p l => p.insert (labelKeyword l) false) patch

/-- The server's part of an `Email/set`. -/
def KeywordPatch.apply (patch : KeywordPatch) (ks : List Text) : List Text :=
  (patch.map Prod.fst).filter (fun k => patch.lookup k = some true) ++
    ks.filter fun k => patch.lookup k ≠ some false

/-! ## A patch request -/

/-- The labels of the row. -/
def storedLabels (decodeLabels : Text → Option (List Text)) (loaded : LoadedRow) : List Text :=
  (loaded.row.labels.bind decodeLabels).getD []

/-- The labels a patch asks for; those of the row when it names none. -/
def PatchMessageRequest.nextLabels (body : PatchMessageRequest) (old : List Text) : List Text :=
  (body.labels.map sanitizeLabels).getD old

def PatchMessageRequest.hasFlag (body : PatchMessageRequest) : Bool :=
  body.isRead.isSome || body.isStarred.isSome

/-- The label push of a JMAP patch. -/
def jmapLabelPush (old : List Text) (next : Option (List Text)) (reply : Reply) (ks : List Text) :
    List Text :=
  match next with
  | none => ks
  | some next =>
    if reply.applied then
      (setEmailKeywordsFull none none (labelDiff old next).1 (labelDiff old next).2).apply ks
    else ks

/-- The keywords of the row's message after the request.  `labelReply` answers the label
push of a JMAP patch, whose failure is only logged. -/
def keywordsAfter (decodeLabels : Text → Option (List Text)) (protocol : Protocol) (db : Db)
    (id : Nat) (body : PatchMessageRequest) (replies : Replies) (labelReply : Reply)
    (ks : List Text) : List Text :=
  match protocol, loadMessageRow db id with
  | .imap, _ =>
    (effects (patchMessage decodeLabels .imap db id body replies).issued).foldl ServerOp.keywords ks
  | .jmap, .ok loaded =>
    if body.hasFlag && replies.jmap then
      jmapLabelPush (storedLabels decodeLabels loaded) (body.labels.map sanitizeLabels) labelReply
        ((setEmailKeywordsFull body.isRead body.isStarred [] []).apply ks)
    else ks
  | _, _ => ks

/-! ## The property and the condition -/

section Property

variable (protocol : Protocol) (body : PatchMessageRequest)

/-- The label keywords are those of `labels`. -/
def LabelsAre (ks labels : List Text) : Prop :=
  ∀ k, isLabelKeyword k = true → (k ∈ ks ↔ ∃ l ∈ labels, k = protocol.label l)

/-- The patch asks for the flag `k` to be `b`. -/
def FlagSays (k : Text) (b : Bool) : Prop :=
  (k = protocol.seen ∧ body.isRead = some b) ∨ (k = protocol.flagged ∧ body.isStarred = some b)

/-- Other keywords only change as the flag fields say. -/
def OthersKept (ks ks' : List Text) : Prop :=
  ∀ k, isLabelKeyword k = false →
    (k ∈ ks' → k ∉ ks → FlagSays protocol body k true) ∧
      (k ∈ ks → k ∉ ks' → FlagSays protocol body k false)

end Property

/-- After a request on a message that carried the labels of its row, it carries those the
patch asks for, and its other keywords only changed as the flags say. -/
def LabelsMirrored (decodeLabels : Text → Option (List Text)) (protocol : Protocol) (db : Db)
    (id : Nat) (body : PatchMessageRequest) (replies : Replies) (labelReply : Reply)
    (loaded : LoadedRow) : Prop :=
  ∀ ks, LabelsAre protocol ks (storedLabels decodeLabels loaded) →
    LabelsAre protocol (keywordsAfter decodeLabels protocol db id body replies labelReply ks)
        (body.nextLabels (storedLabels decodeLabels loaded)) ∧
      OthersKept protocol body ks
        (keywordsAfter decodeLabels protocol db id body replies labelReply ks)

/-- The label commands of an IMAP patch, with the replies that are left for them, that take
effect. -/
def labelEffects (old next : List Text) (replies : List Reply) : List ServerOp :=
  let ops := (labelDiff old next).1.map (fun k => ServerOp.addFlags [k]) ++
    (labelDiff old next).2.map fun k => ServerOp.removeFlags [k]
  ((ops.zip replies).filter fun c => c.2.applied).map Prod.fst

/-- Every label that is missing is added, every label that goes is removed, and no removal
hits a label that stays. -/
structure LabelsPushed (old next : List Text) (did : List ServerOp) : Prop where
  added : ∀ l ∈ next, (∃ m ∈ old, Protocol.imap.label m = Protocol.imap.label l) ∨
    ∃ m, Protocol.imap.label m = Protocol.imap.label l ∧ .addFlags [labelKeyword m] ∈ did
  removed : ∀ m ∈ old, (∃ l ∈ next, Protocol.imap.label l = Protocol.imap.label m) ∨
    ∃ m', Protocol.imap.label m' = Protocol.imap.label m ∧ .removeFlags [labelKeyword m'] ∈ did
  spared : ∀ m, .removeFlags [labelKeyword m] ∈ did →
    ∀ l ∈ next, Protocol.imap.label l ≠ Protocol.imap.label m

/-- The flag commands an IMAP patch sends. -/
def flagCommands (loaded : LoadedRow) (uid : Uid) (body : PatchMessageRequest) :
    List (ImapCommand × Bool) :=
  flagCommand loaded uid "\\Seen" body.isRead loaded.row.isRead ++
    flagCommand loaded uid "\\Flagged" body.isStarred loaded.row.isStarred

/-- When the label keywords follow a patch. -/
def PushReaches (decodeLabels : Text → Option (List Text)) (protocol : Protocol)
    (body : PatchMessageRequest) (replies : Replies) (loaded : LoadedRow) : Prop :=
  let old := storedLabels decodeLabels loaded
  let next := body.nextLabels old
  if protocol = .imap ∧ body.hasFlag = true ∧ body.labels.isSome = true then
    LabelsPushed old next
      (labelEffects old next (replies.imap.drop (flagCommands loaded 0 body).length))
  else ∀ k, (∃ l ∈ old, k = protocol.label l) ↔ ∃ l ∈ next, k = protocol.label l

/-! ## Keyword texts -/

theorem labelKeyword_injective {a b : Text} (h : labelKeyword a = labelKeyword b) : a = b :=
  List.append_cancel_left h

theorem isLabelKeyword_iff {k : Text} : isLabelKeyword k = true ↔ ∃ l, k = labelKeyword l := by
  rw [isLabelKeyword, List.isPrefixOf_iff_prefix]
  constructor
  · rintro ⟨l, rfl⟩
    exact ⟨l, rfl⟩
  · rintro ⟨l, rfl⟩
    exact ⟨l, rfl⟩

theorem imap_label (l : Text) : Protocol.imap.label l = labelKeyword (l.map Char.toLower) := by
  show (keywordPrefix ++ l).map Char.toLower = keywordPrefix ++ l.map Char.toLower
  rw [List.map_append]
  rfl

theorem isLabelKeyword_label (p : Protocol) (l : Text) : isLabelKeyword (p.label l) = true := by
  apply isLabelKeyword_iff.mpr
  cases p with
  | imap => exact ⟨_, imap_label l⟩
  | jmap => exact ⟨l, rfl⟩
  | other _ => exact ⟨l, rfl⟩

theorem not_isLabelKeyword_seen (p : Protocol) : isLabelKeyword p.seen = false := by
  cases p <;> rfl

theorem not_isLabelKeyword_flagged (p : Protocol) : isLabelKeyword p.flagged = false := by
  cases p <;> rfl

theorem not_isLabelKeyword_of_flagSays {p : Protocol} {body : PatchMessageRequest} {k : Text}
    {b : Bool} (h : FlagSays p body k b) : isLabelKeyword k = false := by
  rcases h with ⟨rfl, -⟩ | ⟨rfl, -⟩
  · exact not_isLabelKeyword_seen p
  · exact not_isLabelKeyword_flagged p

theorem labelsAre_map (p : Protocol) (labels : List Text) :
    LabelsAre p (labels.map p.label) labels := by
  intro k _
  rw [List.mem_map]
  exact ⟨fun ⟨l, hl, h⟩ => ⟨l, hl, h.symm⟩, fun ⟨l, hl, h⟩ => ⟨l, hl, h.symm⟩⟩

/-- When a push leaves the label keywords, they are the wanted ones exactly if the labels are
the same. -/
theorem labelsAre_iff_same {p : Protocol} {old next : List Text} {after : List Text → List Text}
    (hafter : ∀ ks k, isLabelKeyword k = true → (k ∈ after ks ↔ k ∈ ks)) :
    (∀ ks, LabelsAre p ks old → LabelsAre p (after ks) next) ↔
      ∀ k, (∃ l ∈ old, k = p.label l) ↔ ∃ l ∈ next, k = p.label l := by
  constructor
  · intro h k
    have hold := labelsAre_map p old
    have hnext := h _ hold
    constructor
    · rintro ⟨l, hl, rfl⟩
      have hk := isLabelKeyword_label p l
      rw [← hnext _ hk, hafter _ _ hk, hold _ hk]
      exact ⟨l, hl, rfl⟩
    · rintro ⟨l, hl, rfl⟩
      have hk := isLabelKeyword_label p l
      rw [← hold _ hk, ← hafter _ _ hk, hnext _ hk]
      exact ⟨l, hl, rfl⟩
  · intro h ks hks k hk
    rw [hafter ks k hk, hks k hk]
    exact h k

/-! ## What the commands of an IMAP patch do -/

theorem issue_append {fl lb : List (ImapCommand × Bool)} {rs : List Reply}
    (hfl : ∀ c ∈ fl, c.2 = false) (hfine : (issue (fl ++ lb) rs).2 = true) :
    (issue (fl ++ lb) rs).1 =
      fl.map (fun c => (c.1, Reply.ok)) ++ (issue lb (rs.drop fl.length)).1 := by
  induction fl generalizing rs with
  | nil => rfl
  | cons c fl ih =>
    obtain ⟨c, b⟩ := c
    have hb : b = false := hfl _ List.mem_cons_self
    subst hb
    cases rs with
    | nil => cases hfine
    | cons r rs =>
      cases r with
      | failed a => cases hfine
      | ok =>
        have ih := ih (fun c hc => hfl c (List.mem_cons_of_mem _ hc)) hfine
        simp only [List.cons_append, List.map_cons, List.length_cons, List.drop_succ_cons]
        rw [← ih]
        rfl

theorem issue_bestEffort {lb : List (ImapCommand × Bool)} (rs : List Reply)
    (hlb : ∀ c ∈ lb, c.2 = true) : (issue lb rs).1 = (lb.map Prod.fst).zip rs := by
  induction lb generalizing rs with
  | nil => simp [issue]
  | cons c lb ih =>
    obtain ⟨c, b⟩ := c
    have hb : b = true := hlb _ List.mem_cons_self
    subst hb
    have ih := fun rs => ih rs fun c hc => hlb c (List.mem_cons_of_mem _ hc)
    cases rs with
    | nil =>
      rw [issue, if_pos rfl, ih]
      simp
    | cons r rs =>
      rw [issue, if_pos (by simp)]
      simp only [List.map_cons, List.zip_cons_cons]
      rw [← ih]

theorem effects_append (a b : List (ImapCommand × Reply)) :
    effects (a ++ b) = effects a ++ effects b := by
  simp [effects]

theorem effects_zip (cs : List ImapCommand) (rs : List Reply) :
    effects (cs.zip rs) =
      (((cs.map ImapCommand.op).zip rs).filter fun c => c.2.applied).map Prod.fst := by
  rw [List.zip_map_left, List.filter_map, List.map_map]
  rfl

/-- The command puts the keyword. -/
def ServerOp.Adds (k : Text) (op : ServerOp) : Prop :=
  ∃ flags, op = .addFlags flags ∧ k ∈ flags.map Protocol.imap.keyword

/-- The command takes the keyword away. -/
def ServerOp.Removes (k : Text) (op : ServerOp) : Prop :=
  ∃ flags, op = .removeFlags flags ∧ k ∈ flags.map Protocol.imap.keyword

theorem ServerOp.mem_keywords {op : ServerOp} {ks : List Text} {k : Text} :
    k ∈ op.keywords ks ↔ op.Adds k ∨ (k ∈ ks ∧ ¬op.Removes k) := by
  cases op <;> simp [ServerOp.keywords, ServerOp.Adds, ServerOp.Removes]

theorem mem_foldl_of_untouched {did : List ServerOp} {ks : List Text} {k : Text}
    (h : ∀ op ∈ did, ¬op.Adds k ∧ ¬op.Removes k) :
    k ∈ did.foldl ServerOp.keywords ks ↔ k ∈ ks := by
  induction did generalizing ks with
  | nil => rfl
  | cons op did ih =>
    obtain ⟨hadd, hrem⟩ := h op List.mem_cons_self
    rw [List.foldl_cons, ih fun op hop => h op (List.mem_cons_of_mem _ hop),
      ServerOp.mem_keywords]
    simp [hadd, hrem]

theorem adds_of_mem_foldl {did : List ServerOp} {ks : List Text} {k : Text}
    (h : k ∈ did.foldl ServerOp.keywords ks) (hk : k ∉ ks) : ∃ op ∈ did, op.Adds k := by
  induction did generalizing ks with
  | nil => exact absurd h hk
  | cons op did ih =>
    by_cases hop : k ∈ op.keywords ks
    · rw [ServerOp.mem_keywords] at hop
      exact ⟨op, List.mem_cons_self, hop.resolve_right fun h => hk h.1⟩
    · obtain ⟨op', hmem, hadds⟩ := ih h hop
      exact ⟨op', List.mem_cons_of_mem _ hmem, hadds⟩

theorem removes_of_not_mem_foldl {did : List ServerOp} {ks : List Text} {k : Text}
    (h : k ∉ did.foldl ServerOp.keywords ks) (hk : k ∈ ks) : ∃ op ∈ did, op.Removes k := by
  induction did generalizing ks with
  | nil => exact absurd hk h
  | cons op did ih =>
    by_cases hop : k ∈ op.keywords ks
    · obtain ⟨op', hmem, hrem⟩ := ih h hop
      exact ⟨op', List.mem_cons_of_mem _ hmem, hrem⟩
    · rw [ServerOp.mem_keywords] at hop
      refine ⟨op, List.mem_cons_self, ?_⟩
      by_contra hrem
      exact hop (.inr ⟨hk, hrem⟩)

/-- No keyword is put after one was taken away. -/
def AddsFirst (did : List ServerOp) : Prop :=
  did.Pairwise fun a b => ∀ k k', a.Removes k → ¬b.Adds k'

theorem mem_foldl_of_addsFirst {did : List ServerOp} (hdid : AddsFirst did) (ks : List Text)
    (k : Text) :
    k ∈ did.foldl ServerOp.keywords ks ↔
      (k ∈ ks ∨ ∃ op ∈ did, op.Adds k) ∧ ∀ op ∈ did, ¬op.Removes k := by
  induction did generalizing ks with
  | nil => simp
  | cons op did ih =>
    obtain ⟨hop, hdid⟩ := List.pairwise_cons.mp hdid
    rw [List.foldl_cons, ih hdid, ServerOp.mem_keywords]
    simp only [List.mem_cons, exists_eq_or_imp, forall_eq_or_imp]
    constructor
    · rintro ⟨h, hnone⟩
      refine ⟨by tauto, ?_, hnone⟩
      intro hrem
      rcases h with (hadd | ⟨_, hno⟩) | ⟨op', hop', hadd⟩
      · obtain ⟨_, rfl, _⟩ := hadd
        obtain ⟨_, h, _⟩ := hrem
        cases h
      · exact hno hrem
      · exact hop op' hop' k k hrem hadd
    · rintro ⟨h, hrem, hnone⟩
      exact ⟨by tauto, hnone⟩

/-! ## The label commands -/

theorem map_fst_zip_sublist {α β : Type} (l : List α) (l' : List β) :
    ((l.zip l').map Prod.fst).Sublist l := by
  induction l generalizing l' with
  | nil => simp
  | cons a l ih =>
    cases l' with
    | nil => simp
    | cons b l' => exact (ih l').cons_cons a

theorem labelEffects_sublist (old next : List Text) (rs : List Reply) :
    (labelEffects old next rs).Sublist
      ((labelDiff old next).1.map (fun k => ServerOp.addFlags [k]) ++
        (labelDiff old next).2.map fun k => ServerOp.removeFlags [k]) := by
  unfold labelEffects
  refine (List.filter_sublist.map Prod.fst).trans ?_
  exact map_fst_zip_sublist _ _

theorem addsFirst_labelEffects (old next : List Text) (rs : List Reply) :
    AddsFirst (labelEffects old next rs) := by
  refine List.Pairwise.sublist (labelEffects_sublist old next rs) ?_
  apply List.pairwise_append.mpr
  refine ⟨?_, ?_, ?_⟩
  · apply List.pairwise_map.mpr
    apply List.pairwise_of_forall
    rintro a b k k' ⟨_, h, _⟩
    cases h
  · apply List.pairwise_map.mpr
    apply List.pairwise_of_forall
    rintro a b k k' - ⟨_, h, _⟩
    cases h
  · intro a ha b hb k k' hrem
    obtain ⟨x, -, rfl⟩ := List.mem_map.mp ha
    obtain ⟨_, h, _⟩ := hrem
    cases h

/-- A label command that took effect names a label that comes, or one that goes. -/
theorem labelEffects_cases {old next : List Text} {rs : List Reply} {op : ServerOp}
    (h : op ∈ labelEffects old next rs) :
    (∃ m ∈ next, m ∉ old ∧ op = .addFlags [labelKeyword m]) ∨
      ∃ m ∈ old, m ∉ next ∧ op = .removeFlags [labelKeyword m] := by
  have h := (labelEffects_sublist old next rs).subset h
  simp only [labelDiff, List.map_map, List.mem_append, List.mem_map, List.mem_filter,
    decide_eq_true_eq, Function.comp] at h
  rcases h with ⟨m, ⟨hm, hold⟩, rfl⟩ | ⟨m, ⟨hm, hnext⟩, rfl⟩
  · exact .inl ⟨m, hm, hold, rfl⟩
  · exact .inr ⟨m, hm, hnext, rfl⟩

theorem adds_addFlags_single {k m : Text} :
    (ServerOp.addFlags [labelKeyword m]).Adds k ↔ k = Protocol.imap.label m := by
  simp [ServerOp.Adds, Protocol.label, eq_comm]

theorem removes_removeFlags_single {k m : Text} :
    (ServerOp.removeFlags [labelKeyword m]).Removes k ↔ k = Protocol.imap.label m := by
  simp [ServerOp.Removes, Protocol.label, eq_comm]

/-- The label commands that took effect bring the label keywords from `old` to `next` exactly
when `LabelsPushed` says so; `before` is what the flag commands did. -/
theorem labelEffects_iff {old next : List Text} {rs : List Reply} {before : List Text → List Text}
    (hbefore : ∀ ks k, isLabelKeyword k = true → (k ∈ before ks ↔ k ∈ ks)) :
    (∀ ks, LabelsAre .imap ks old →
        LabelsAre .imap ((labelEffects old next rs).foldl ServerOp.keywords (before ks)) next) ↔
      LabelsPushed old next (labelEffects old next rs) := by
  have hfold := fun ks k hk =>
    (mem_foldl_of_addsFirst (addsFirst_labelEffects old next rs) (before ks) k).trans
      (and_congr_left' (or_congr_left (hbefore ks k hk)))
  constructor
  · intro h
    have hold := labelsAre_map .imap old
    -- the final keywords of a message that carries just the labels of `old`
    have hlabel : ∀ l, ((∃ m ∈ old, Protocol.imap.label l = Protocol.imap.label m) ∨
        ∃ op ∈ labelEffects old next rs, op.Adds (Protocol.imap.label l)) ∧
        (∀ op ∈ labelEffects old next rs, ¬op.Removes (Protocol.imap.label l)) ↔
        ∃ m ∈ next, Protocol.imap.label l = Protocol.imap.label m := by
      intro l
      have hk := isLabelKeyword_label .imap l
      rw [← h _ hold _ hk, hfold _ _ hk, hold _ hk]
    refine ⟨?_, ?_, ?_⟩
    · intro l hl
      obtain ⟨⟨m, hm, heq⟩ | ⟨op, hop, hadds⟩, -⟩ := (hlabel l).mpr ⟨l, hl, rfl⟩
      · exact .inl ⟨m, hm, heq.symm⟩
      · rcases labelEffects_cases hop with ⟨m, -, -, rfl⟩ | ⟨m, -, -, rfl⟩
        · exact .inr ⟨m, (adds_addFlags_single.mp hadds).symm, hop⟩
        · obtain ⟨_, h, _⟩ := hadds
          cases h
    · intro m hm
      by_cases hgone : ∃ op ∈ labelEffects old next rs, op.Removes (Protocol.imap.label m)
      · obtain ⟨op, hop, hrem⟩ := hgone
        rcases labelEffects_cases hop with ⟨m', -, -, rfl⟩ | ⟨m', -, -, rfl⟩
        · obtain ⟨_, h, _⟩ := hrem
          cases h
        · exact .inr ⟨m', (removes_removeFlags_single.mp hrem).symm, hop⟩
      · obtain ⟨l, hl, heq⟩ := (hlabel m).mp
          ⟨.inl ⟨m, hm, rfl⟩, fun op hop hrem => hgone ⟨op, hop, hrem⟩⟩
        exact .inl ⟨l, hl, heq.symm⟩
    · intro m hop l hl heq
      exact ((hlabel l).mpr ⟨l, hl, rfl⟩).2 _ hop (removes_removeFlags_single.mpr heq)
  · intro h ks hks k hk
    rw [hfold ks k hk, hks k hk]
    constructor
    · rintro ⟨⟨m, hm, rfl⟩ | ⟨op, hop, hadds⟩, hnone⟩
      · rcases h.removed m hm with ⟨l, hl, heq⟩ | ⟨m', heq, hop⟩
        · exact ⟨l, hl, heq.symm⟩
        · exact absurd (removes_removeFlags_single.mpr heq.symm) (hnone _ hop)
      · rcases labelEffects_cases hop with ⟨m, hm, -, rfl⟩ | ⟨m, -, -, rfl⟩
        · exact ⟨m, hm, adds_addFlags_single.mp hadds⟩
        · obtain ⟨_, h, _⟩ := hadds
          cases h
    · rintro ⟨l, hl, rfl⟩
      constructor
      · rcases h.added l hl with ⟨m, hm, heq⟩ | ⟨m, heq, hop⟩
        · exact .inl ⟨m, hm, heq.symm⟩
        · exact .inr ⟨_, hop, adds_addFlags_single.mpr heq.symm⟩
      · intro op hop hrem
        rcases labelEffects_cases hop with ⟨m, -, -, rfl⟩ | ⟨m, -, -, rfl⟩
        · obtain ⟨_, h, _⟩ := hrem
          cases h
        · exact h.spared m hop l hl (removes_removeFlags_single.mp hrem)

/-! ## The flag commands -/

theorem flagCommands_length (loaded : LoadedRow) (uid uid' : Uid) (body : PatchMessageRequest) :
    (flagCommands loaded uid body).length = (flagCommands loaded uid' body).length := by
  have hone : ∀ flag wanted stored, (flagCommand loaded uid flag wanted stored).length =
      (flagCommand loaded uid' flag wanted stored).length := by
    intro flag wanted stored
    unfold flagCommand
    cases wanted with
    | none => rfl
    | some b => cases b <;> cases stored <;> rfl
  rw [flagCommands, flagCommands, List.length_append, List.length_append, hone, hone]

theorem flagCommand_cases {loaded : LoadedRow} {uid : Uid} {flag : String} {wanted : Option Bool}
    {stored : Bool} {c : ImapCommand × Bool} (h : c ∈ flagCommand loaded uid flag wanted stored) :
    c.2 = false ∧
      (∀ k, c.1.op.Adds k → k = Protocol.imap.keyword flag.toList ∧ wanted = some true) ∧
      ∀ k, c.1.op.Removes k → k = Protocol.imap.keyword flag.toList ∧ wanted = some false := by
  unfold flagCommand at h
  cases wanted with
  | none => cases h
  | some b =>
    cases b <;> cases stored <;> simp at h <;> subst h <;>
      simp [ServerOp.Adds, ServerOp.Removes, eq_comm]

theorem flagCommands_cases {loaded : LoadedRow} {uid : Uid} {body : PatchMessageRequest}
    {c : ImapCommand × Bool} (h : c ∈ flagCommands loaded uid body) :
    c.2 = false ∧ (∀ k, c.1.op.Adds k → FlagSays .imap body k true) ∧
      ∀ k, c.1.op.Removes k → FlagSays .imap body k false := by
  rcases List.mem_append.mp h with h | h
  · obtain ⟨hb, hadds, hrem⟩ := flagCommand_cases h
    exact ⟨hb, fun k hk => .inl (hadds k hk), fun k hk => .inl (hrem k hk)⟩
  · obtain ⟨hb, hadds, hrem⟩ := flagCommand_cases h
    exact ⟨hb, fun k hk => .inr (hadds k hk), fun k hk => .inr (hrem k hk)⟩

theorem effects_flags (cs : List (ImapCommand × Bool)) :
    effects (cs.map fun c => (c.1, Reply.ok)) = cs.map fun c => c.1.op := by
  induction cs with
  | nil => rfl
  | cons c cs ih => simpa [effects, Reply.applied] using ih

theorem labelCommands_ops (loaded : LoadedRow) (uid : Uid) (old next : List Text) :
    ((labelCommands loaded uid old (some next)).map Prod.fst).map ImapCommand.op =
      (labelDiff old next).1.map (fun k => ServerOp.addFlags [k]) ++
        (labelDiff old next).2.map fun k => ServerOp.removeFlags [k] := by
  simp only [labelCommands, List.map_append, List.map_map]
  rfl

theorem labelCommands_bestEffort {loaded : LoadedRow} {uid : Uid} {old : List Text}
    {next : Option (List Text)} {c : ImapCommand × Bool}
    (h : c ∈ labelCommands loaded uid old next) : c.2 = true := by
  cases next with
  | none => cases h
  | some next =>
    rcases List.mem_append.mp h with h | h <;> obtain ⟨k, -, rfl⟩ := List.mem_map.mp h <;> rfl

/-- The commands of a successful IMAP patch with a flag that took effect: all the flag
commands, then the label commands the server took. -/
theorem imap_effects {decodeLabels : Text → Option (List Text)} {db db' : Db} {id : Nat}
    {body : PatchMessageRequest} {replies : Replies} {loaded : LoadedRow}
    (hload : loadMessageRow db id = .ok loaded)
    (hok : (patchMessage decodeLabels .imap db id body replies).result = .ok db')
    (hflag : body.hasFlag = true) :
    ∃ uid, effects (patchMessage decodeLabels .imap db id body replies).issued =
      (flagCommands loaded uid body).map (fun c => c.1.op) ++
        ((body.labels.map sanitizeLabels).map fun next =>
          labelEffects (storedLabels decodeLabels loaded) next
            (replies.imap.drop (flagCommands loaded 0 body).length)).getD [] := by
  have hsome : (body.isRead.isNone && body.isStarred.isNone) = false := by
    cases hr : body.isRead <;> cases hs : body.isStarred <;>
      simp_all [PatchMessageRequest.hasFlag]
  unfold patchMessage at hok ⊢
  simp only [hload, hsome, Bool.false_and, Bool.false_eq_true, if_false] at hok ⊢
  unfold imapBranch at hok ⊢
  split at hok
  case h_1 => cases hok
  case h_2 uid _ =>
    split at hok
    case isFalse => cases hok
    case isTrue hconn =>
      refine ⟨uid, ?_⟩
      simp only [hconn, if_true]
      have hfine : (issue (flagCommands loaded uid body ++
          labelCommands loaded uid (storedLabels decodeLabels loaded)
            (body.labels.map sanitizeLabels)) replies.imap).2 = true := by
        dsimp only at hok
        split at hok
        · assumption
        · cases hok
      have hissue := issue_append (fun c hc => (flagCommands_cases hc).1) hfine
      rw [issue_bestEffort _ fun c hc => labelCommands_bestEffort hc] at hissue
      show effects (issue (flagCommands loaded uid body ++
        labelCommands loaded uid (storedLabels decodeLabels loaded) _) _).1 = _
      rw [hissue, effects_append, effects_flags, effects_zip, flagCommands_length loaded uid 0 body]
      cases body.labels.map sanitizeLabels with
      | none => rfl
      | some next =>
        rw [labelCommands_ops]
        rfl

/-! ## The JMAP patches -/

theorem KeywordPatch.mem_apply {patch : KeywordPatch} {ks : List Text} {k : Text} :
    k ∈ patch.apply ks ↔
      patch.lookup k = some true ∨ (k ∈ ks ∧ patch.lookup k ≠ some false) := by
  simp only [KeywordPatch.apply, List.mem_append, List.mem_filter, decide_eq_true_eq,
    ne_eq, decide_not, Bool.not_eq_true', decide_eq_false_iff_not]
  apply or_congr_left
  constructor
  · exact fun h => h.2
  · intro h
    refine ⟨?_, h⟩
    by_contra hmem
    rw [List.lookup_eq_none_iff.mpr] at h
    · cases h
    · intro p hp
      apply bne_iff_ne.mpr
      rintro rfl
      exact hmem (List.mem_map_of_mem hp)

theorem lookup_foldl_insert (labels : List Text) (v : Bool) (patch : KeywordPatch) (k : Text) :
    (labels.foldl (fun p l => p.insert (labelKeyword l) v) patch).lookup k =
      if k ∈ labels.map labelKeyword then some v else patch.lookup k := by
  induction labels generalizing patch with
  | nil => simp
  | cons l labels ih =>
    rw [List.foldl_cons, ih, KeywordPatch.insert, List.lookup_cons]
    by_cases hl : k = labelKeyword l
    · subst hl
      simp
    · rw [beq_eq_false_iff_ne.mpr hl]
      simp [hl]

theorem lookup_setEmailKeywordsFull (r s : Option Bool) (add remove : List Text) (k : Text) :
    (setEmailKeywordsFull r s add remove).lookup k =
      if k ∈ remove.map labelKeyword then some false
      else if k ∈ add.map labelKeyword then some true
      else (keywordPatch r s).lookup k := by
  rw [setEmailKeywordsFull, lookup_foldl_insert, lookup_foldl_insert]

/-- The flags of a patch are set as it says. -/
theorem flagSays_of_lookup {body : PatchMessageRequest} {k : Text} {b : Bool}
    (h : (keywordPatch body.isRead body.isStarred).lookup k = some b) :
    FlagSays .jmap body k b := by
  unfold keywordPatch KeywordPatch.insert at h
  cases hr : body.isRead with
  | none =>
    cases hs : body.isStarred with
    | none => simp [hr, hs] at h
    | some star =>
      simp only [hr, hs, List.lookup_cons, List.lookup_nil] at h
      split at h
      · exact .inr ⟨by simpa using ‹(k == _) = true›, hs.trans h⟩
      · cases h
  | some read =>
    cases hs : body.isStarred with
    | none =>
      simp only [hr, hs, List.lookup_cons, List.lookup_nil] at h
      split at h
      · exact .inl ⟨by simpa using ‹(k == _) = true›, hr.trans h⟩
      · cases h
    | some star =>
      simp only [hr, hs, List.lookup_cons, List.lookup_nil] at h
      split at h
      · exact .inr ⟨by simpa using ‹(k == _) = true›, hs.trans h⟩
      · split at h
        · exact .inl ⟨by simpa using ‹(k == _) = true›, hr.trans h⟩
        · cases h

/-- The label push of a JMAP patch leaves the keywords it does not name. -/
theorem mem_jmapLabelPush_of_not_label {old : List Text} {next : Option (List Text)}
    {reply : Reply} {ks : List Text} {k : Text} (hk : isLabelKeyword k = false) :
    k ∈ jmapLabelPush old next reply ks ↔ k ∈ ks := by
  have hnot : ∀ labels : List Text, k ∉ labels.map labelKeyword := by
    intro labels hmem
    obtain ⟨l, -, rfl⟩ := List.mem_map.mp hmem
    rw [isLabelKeyword_iff.mpr ⟨l, rfl⟩] at hk
    cases hk
  unfold jmapLabelPush
  cases next with
  | none => rfl
  | some next =>
    dsimp only
    split
    · rw [KeywordPatch.mem_apply, lookup_setEmailKeywordsFull, if_neg (hnot _), if_neg (hnot _)]
      simp [keywordPatch]
    · rfl

theorem mem_flags_of_label {body : PatchMessageRequest} {ks : List Text} {k : Text}
    (hk : isLabelKeyword k = true) :
    k ∈ (setEmailKeywordsFull body.isRead body.isStarred [] []).apply ks ↔ k ∈ ks := by
  have hnone : ∀ b, (setEmailKeywordsFull body.isRead body.isStarred [] []).lookup k ≠ some b := by
    intro b h
    rw [not_isLabelKeyword_of_flagSays (flagSays_of_lookup h)] at hk
    cases hk
  rw [KeywordPatch.mem_apply]
  simp [hnone]

/-- Where shorter labels are the same, the doubled prefix names no label of this length. -/
theorem lookup_labelPush_none {old next : List Text} {x : Text}
    (h : ∀ y : Text, y.length < x.length → (y ∈ old ↔ y ∈ next)) :
    (setEmailKeywordsFull none none (labelDiff old next).1 (labelDiff old next).2).lookup
      (labelKeyword x) = none := by
  have hshort : ∀ y, labelKeyword y = x → y.length < x.length := by
    rintro y rfl
    rw [labelKeyword, List.length_append]
    exact Nat.lt_add_of_pos_left (by decide)
  rw [lookup_setEmailKeywordsFull, if_neg, if_neg]
  · rfl
  · intro hmem
    simp only [labelDiff, List.map_map, List.mem_map, List.mem_filter, decide_eq_true_eq,
      Function.comp] at hmem
    obtain ⟨y, ⟨hnext, hold⟩, heq⟩ := hmem
    exact hold ((h y (hshort y (labelKeyword_injective heq))).mpr hnext)
  · intro hmem
    simp only [labelDiff, List.map_map, List.mem_map, List.mem_filter, decide_eq_true_eq,
      Function.comp] at hmem
    obtain ⟨y, ⟨hold, hnext⟩, heq⟩ := hmem
    exact hnext ((h y (hshort y (labelKeyword_injective heq))).mp hold)

/-- The label push of a JMAP patch brings the label keywords from `old` to `next` only when
these are the same; `before` is what the flag patch did. -/
theorem jmapLabelPush_iff {old next : List Text} {reply : Reply} {before : List Text → List Text}
    (hbefore : ∀ ks k, isLabelKeyword k = true → (k ∈ before ks ↔ k ∈ ks)) :
    (∀ ks, LabelsAre .jmap ks old →
        LabelsAre .jmap (jmapLabelPush old (some next) reply (before ks)) next) ↔
      ∀ k, (∃ l ∈ old, k = Protocol.jmap.label l) ↔ ∃ l ∈ next, k = Protocol.jmap.label l := by
  cases happ : reply.applied with
  | false =>
    apply labelsAre_iff_same
    intro ks k hk
    simpa [jmapLabelPush, happ] using hbefore ks k hk
  | true =>
    have hmem : ∀ labels : List Text, ∀ x,
        (∃ l ∈ labels, labelKeyword x = Protocol.jmap.label l) ↔ x ∈ labels := by
      intro labels x
      constructor
      · rintro ⟨l, hl, heq⟩
        rw [labelKeyword_injective heq]
        exact hl
      · exact fun hx => ⟨x, hx, rfl⟩
    have hpush : ∀ ks x, (∀ y : Text, y.length < x.length → (y ∈ old ↔ y ∈ next)) →
        (labelKeyword x ∈ jmapLabelPush old (some next) reply (before ks) ↔ labelKeyword x ∈ ks) := by
      intro ks x hx
      have hbefore : labelKeyword x ∈ before ks ↔ labelKeyword x ∈ ks :=
        hbefore ks _ (isLabelKeyword_label .jmap x)
      simp only [jmapLabelPush, happ, if_true, KeywordPatch.mem_apply, lookup_labelPush_none hx]
      simpa using hbefore
    constructor
    · intro h
      have hold := labelsAre_map .jmap old
      have hsame : ∀ n, ∀ x : Text, x.length = n → (x ∈ old ↔ x ∈ next) := by
        intro n
        induction n using Nat.strongRecOn with
        | ind n ih =>
          rintro x rfl
          have hk : isLabelKeyword (labelKeyword x) = true := isLabelKeyword_label .jmap x
          rw [← hmem old x, ← hmem next x, ← hold _ hk, ← h _ hold _ hk]
          exact (hpush _ x fun y hy => ih _ hy y rfl).symm
      intro k
      constructor
      · rintro ⟨l, hl, rfl⟩
        exact ⟨l, (hsame _ l rfl).mp hl, rfl⟩
      · rintro ⟨l, hl, rfl⟩
        exact ⟨l, (hsame _ l rfl).mpr hl, rfl⟩
    · intro h ks hks k hk
      obtain ⟨x, rfl⟩ := isLabelKeyword_iff.mp hk
      have hsame : ∀ y : Text, y ∈ old ↔ y ∈ next := by
        intro y
        rw [← hmem old y, ← hmem next y]
        exact h _
      rw [hpush ks x fun y _ => hsame y, hks _ hk]
      exact h _

/-! ## The patch -/

section Patch

variable {decodeLabels : Text → Option (List Text)} {db db' : Db} {id : Nat}
  {body : PatchMessageRequest} {replies : Replies} {loaded : LoadedRow}

theorem keywordsAfter_no_flag {protocol : Protocol} {labelReply : Reply} {ks : List Text}
    (hload : loadMessageRow db id = .ok loaded) (hflag : body.hasFlag = false) :
    keywordsAfter decodeLabels protocol db id body replies labelReply ks = ks := by
  have hnone : (body.isRead.isNone && body.isStarred.isNone) = true := by
    cases hr : body.isRead <;> cases hs : body.isStarred <;>
      simp_all [PatchMessageRequest.hasFlag]
  unfold keywordsAfter
  cases protocol with
  | imap =>
    have hissued : (patchMessage decodeLabels .imap db id body replies).issued = [] := by
      unfold patchMessage
      simp only [hload, hnone]
      cases body.labels <;> rfl
    simp [hissued, effects]
  | jmap => simp [hload, hflag]
  | other _ => rfl

/-- A JMAP patch with a flag only succeeds when the server took it. -/
theorem jmap_accepted (hload : loadMessageRow db id = .ok loaded)
    (hok : (patchMessage decodeLabels .jmap db id body replies).result = .ok db')
    (hflag : body.hasFlag = true) : replies.jmap = true := by
  have hsome : (body.isRead.isNone && body.isStarred.isNone) = false := by
    cases hr : body.isRead <;> cases hs : body.isStarred <;>
      simp_all [PatchMessageRequest.hasFlag]
  unfold patchMessage at hok
  simp only [hload, hsome, Bool.false_and, Bool.false_eq_true, if_false] at hok
  unfold jmapBranch at hok
  split at hok
  · cases hok
  · dsimp only at hok
    split at hok
    · assumption
    · cases hok

/-- Whatever becomes of the labels, the other keywords follow the flags. -/
theorem others_kept {protocol : Protocol} (labelReply : Reply) (ks : List Text)
    (hload : loadMessageRow db id = .ok loaded)
    (hok : (patchMessage decodeLabels protocol db id body replies).result = .ok db') :
    OthersKept protocol body ks
      (keywordsAfter decodeLabels protocol db id body replies labelReply ks) := by
  cases hflag : body.hasFlag with
  | false =>
    rw [keywordsAfter_no_flag hload hflag]
    exact fun k _ => ⟨fun h hn => absurd h hn, fun h hn => absurd h hn⟩
  | true =>
    cases protocol with
    | other _ => exact fun k _ => ⟨fun h hn => absurd h hn, fun h hn => absurd h hn⟩
    | imap =>
      obtain ⟨uid, heff⟩ := imap_effects hload hok hflag
      have hops : ∀ op ∈ effects (patchMessage decodeLabels .imap db id body replies).issued,
          ∀ k, isLabelKeyword k = false → (op.Adds k → FlagSays .imap body k true) ∧
            (op.Removes k → FlagSays .imap body k false) := by
        intro op hop k hk
        rw [heff] at hop
        rcases List.mem_append.mp hop with hop | hop
        · obtain ⟨c, hc, rfl⟩ := List.mem_map.mp hop
          obtain ⟨-, hadds, hrem⟩ := flagCommands_cases hc
          exact ⟨hadds k, hrem k⟩
        · cases hnext : body.labels.map sanitizeLabels with
          | none =>
            rw [hnext] at hop
            cases hop
          | some next =>
            rw [hnext] at hop
            have hlabel : ∀ m, k ≠ Protocol.imap.label m := by
              rintro m rfl
              rw [isLabelKeyword_label] at hk
              cases hk
            rcases labelEffects_cases hop with ⟨m, -, -, rfl⟩ | ⟨m, -, -, rfl⟩
            · refine ⟨fun h => absurd (adds_addFlags_single.mp h) (hlabel m), ?_⟩
              rintro ⟨_, h, _⟩
              cases h
            · refine ⟨?_, fun h => absurd (removes_removeFlags_single.mp h) (hlabel m)⟩
              rintro ⟨_, h, _⟩
              cases h
      intro k hk
      constructor
      · intro hin hout
        obtain ⟨op, hop, hadds⟩ := adds_of_mem_foldl hin hout
        exact (hops op hop k hk).1 hadds
      · intro hin hout
        obtain ⟨op, hop, hrem⟩ := removes_of_not_mem_foldl hout hin
        exact (hops op hop k hk).2 hrem
    | jmap =>
      intro k hk
      unfold keywordsAfter
      simp only [hload, hflag, Bool.true_and]
      split
      · rw [mem_jmapLabelPush_of_not_label hk, KeywordPatch.mem_apply]
        constructor
        · rintro (h | h) hout
          · exact flagSays_of_lookup h
          · exact absurd h.1 hout
        · intro hin hout
          apply flagSays_of_lookup
          by_contra hne
          exact hout (.inr ⟨hin, hne⟩)
      · exact ⟨fun h hn => absurd h hn, fun h hn => absurd h hn⟩

/-- The label keywords of the row's message follow a successful patch, and nothing else
changes but as the flags say, exactly when the push reaches the server. -/
theorem labels_mirrored_iff {protocol : Protocol} (labelReply : Reply)
    (hload : loadMessageRow db id = .ok loaded)
    (hok : (patchMessage decodeLabels protocol db id body replies).result = .ok db') :
    LabelsMirrored decodeLabels protocol db id body replies labelReply loaded ↔
      PushReaches decodeLabels protocol body replies loaded := by
  have hothers := fun ks => others_kept labelReply ks hload hok
  have hlabels : LabelsMirrored decodeLabels protocol db id body replies labelReply loaded ↔
      ∀ ks, LabelsAre protocol ks (storedLabels decodeLabels loaded) →
        LabelsAre protocol (keywordsAfter decodeLabels protocol db id body replies labelReply ks)
          (body.nextLabels (storedLabels decodeLabels loaded)) :=
    ⟨fun h ks hks => (h ks hks).1, fun h ks hks => ⟨h ks hks, hothers ks⟩⟩
  rw [hlabels]
  unfold PushReaches
  cases hflag : body.hasFlag with
  | false =>
    rw [if_neg (by simp)]
    exact labelsAre_iff_same fun ks k _ => by rw [keywordsAfter_no_flag hload hflag]
  | true =>
    cases protocol with
    | other name =>
      rw [if_neg (by simp)]
      exact labelsAre_iff_same fun ks k _ => Iff.rfl
    | imap =>
      obtain ⟨uid, heff⟩ := imap_effects hload hok hflag
      have hflags : ∀ ks k, isLabelKeyword k = true →
          (k ∈ ((flagCommands loaded uid body).map fun c => c.1.op).foldl ServerOp.keywords ks ↔
            k ∈ ks) := by
        intro ks k hk
        apply mem_foldl_of_untouched
        intro op hop
        obtain ⟨c, hc, rfl⟩ := List.mem_map.mp hop
        obtain ⟨-, hadds, hrem⟩ := flagCommands_cases hc
        constructor
        · intro h
          rw [not_isLabelKeyword_of_flagSays (hadds k h)] at hk
          cases hk
        · intro h
          rw [not_isLabelKeyword_of_flagSays (hrem k h)] at hk
          cases hk
      cases hl : body.labels with
      | none =>
        rw [if_neg (by simp)]
        apply labelsAre_iff_same
        intro ks k hk
        rw [keywordsAfter, heff, hl]
        simpa using hflags ks k hk
      | some raw =>
        rw [if_pos ⟨rfl, rfl, rfl⟩]
        have hnext : body.nextLabels (storedLabels decodeLabels loaded) = sanitizeLabels raw := by
          rw [PatchMessageRequest.nextLabels, hl]
          rfl
        rw [hnext, ← labelEffects_iff hflags]
        apply forall_congr'
        intro ks
        rw [keywordsAfter, heff, hl, List.foldl_append]
        rfl
    | jmap =>
      rw [if_neg (by simp)]
      have hjmap := jmap_accepted hload hok hflag
      have hafter : ∀ ks, keywordsAfter decodeLabels .jmap db id body replies labelReply ks =
          jmapLabelPush (storedLabels decodeLabels loaded) (body.labels.map sanitizeLabels)
            labelReply ((setEmailKeywordsFull body.isRead body.isStarred [] []).apply ks) := by
        intro ks
        simp only [keywordsAfter, hload, hflag, hjmap, Bool.and_self, if_true]
      simp only [hafter]
      cases hl : body.labels with
      | none =>
        rw [PatchMessageRequest.nextLabels, hl]
        exact labelsAre_iff_same fun ks k hk => mem_flags_of_label hk
      | some raw =>
        rw [PatchMessageRequest.nextLabels, hl]
        exact jmapLabelPush_iff fun ks k hk => mem_flags_of_label hk

end Patch

/-- One unread message without labels in one folder. -/
def unlabelledRow : MessageRow where
  id := 0
  accountId := ['a']
  folderId := ['f']
  externalId := some "f:1".toList

def unlabelled : Db where
  messages := ⟨[unlabelledRow], by decide, List.pairwise_singleton _ _⟩
  folders := ⟨[⟨['f'], ['a'], some "INBOX".toList, "INBOX".toList, none, none, none, 0, 1, 1⟩],
    by decide, List.pairwise_singleton _ _⟩
  cursors := .empty
  now := 0

def workPatch : PatchMessageRequest where
  isRead := some true
  labels := some ["Work".toList]

/-- An IMAP server that takes both commands gives the message its label. -/
theorem labels_mirrored_work :
    LabelsAre .imap (keywordsAfter (fun _ => none) .imap unlabelled 0 workPatch
      ⟨true, [.ok, .ok], true⟩ .ok []) ["work".toList] := by
  have hload : loadMessageRow unlabelled 0 = .ok ⟨unlabelledRow, "INBOX".toList, none⟩ := rfl
  have hreach : PushReaches (fun _ => none) .imap workPatch ⟨true, [.ok, .ok], true⟩
      ⟨unlabelledRow, "INBOX".toList, none⟩ := by
    refine ⟨?_, ?_, ?_⟩
    · intro l hl
      refine .inr ⟨"work".toList, ?_, by decide⟩
      rw [List.mem_singleton.mp (show l ∈ ["work".toList] from hl)]
    · intro m hm
      cases hm
    · intro m hm
      rcases labelEffects_cases hm with ⟨_, -, -, h⟩ | ⟨_, h, -⟩
      · cases h
      · cases h
  have hmirror := (labels_mirrored_iff .ok hload rfl).mpr hreach
  have hnone : LabelsAre .imap [] [] := by
    intro k
    simp
  exact (hmirror [] hnone).1

/-- A JMAP server that takes both patches puts `label-label-work` on the message. -/
theorem labels_not_mirrored :
    ¬LabelsMirrored (fun _ => none) .jmap unlabelled 0 workPatch ⟨true, [], true⟩ .ok
      ⟨unlabelledRow, "INBOX".toList, none⟩ := by
  intro h
  have hlabels := (h [] fun k _ => by simp [storedLabels, unlabelledRow]).1
  have hwork := (hlabels "label-work".toList (by decide)).mpr ⟨"work".toList, by decide, by decide⟩
  exact absurd hwork (by decide)

end Lyra
