import Lyra.Opengpg.Read

/-!
# Sending and reading OpenPGP mail

Whether a message that `wrap_outbound_opengpg` makes is well formed and read as it was written.

What is signed and what is encrypted is the payload's body; the payload's type stands before the
signature's data, and is lost with the ciphertext.  A text that is attached to a key has no line
break of its own between it and the delimiter behind it.

* `startsLines_enclose`, `readParts_enclose`: a wrapper around parts that end their lines is well
  formed and read part by part;
* `leaves_html`, `leaves_empty`, `leaves_plain`: what is read of a message with an attached key;
* `roundTrips_iff`: a message round trips exactly if it is neither signed nor encrypted, and its
  draft has HTML or no text and no block that the reader would take for a message.
-/

namespace Lyra.Opengpg

open Lyra.Lib

/-! ## Boundaries -/

/-- What `mime_boundary` makes: a mark and 32 hexadecimal digits. -/
def IsMimeBoundary (boundary : Text) : Prop :=
  ∃ id : Text, boundary = "_lyra_".toList ++ id ∧ id.length = 32 ∧
    ∀ c ∈ id, c ∈ "0123456789abcdef".toList

section Boundary

variable {b : Text}

theorem IsMimeBoundary.not_mem (h : IsMimeBoundary b) {c : Char}
    (hc : c ∉ "_lyra_0123456789abcdef".toList) : c ∉ b := by
  obtain ⟨id, rfl, -, hid⟩ := h
  have hliteral : "_lyra_0123456789abcdef".toList = "_lyra_".toList ++ "0123456789abcdef".toList :=
    literal_append rfl
  rw [hliteral] at hc
  intro hmem
  apply hc
  rcases List.mem_append.mp hmem with hmem | hmem
  · exact List.mem_append_left _ hmem
  · exact List.mem_append_right _ (hid c hmem)

theorem IsMimeBoundary.not_mem_dash (h : IsMimeBoundary b) {c : Char}
    (hc : c ∉ "-_lyra_0123456789abcdef".toList) : c ∉ dashBoundary b := by
  have hdash : c ≠ '-' := by
    rintro rfl
    exact hc List.mem_cons_self
  have hb : c ∉ b := h.not_mem fun hmem => hc (List.mem_cons_of_mem _ hmem)
  simp [dashBoundary, hdash, hb]

theorem delimiter_eq : delimiter b = dashBoundary b ++ crlf := rfl

theorem closeDelimiter_eq : closeDelimiter b = closeBoundary b ++ crlf := rfl

theorem IsMimeBoundary.eq_cons (h : IsMimeBoundary b) :
    ∃ r, dashBoundary b = '-' :: '-' :: '_' :: r := by
  obtain ⟨id, rfl, -, -⟩ := h
  have hmark : "_lyra_".toList = '_' :: "lyra_".toList := by decide
  rw [hmark]
  exact ⟨"lyra_".toList ++ id, rfl⟩

theorem IsMimeBoundary.absent (h : IsMimeBoundary b) {t : Text} (ht : '_' ∉ t) :
    ¬ dashBoundary b <:+: t := by
  intro hoccurs
  obtain ⟨r, hr⟩ := h.eq_cons
  rw [hr] at hoccurs
  exact ht (hoccurs.subset (by simp))

/-- A boundary occurs once in its own delimiter. -/
theorem IsMimeBoundary.startsLines (h : IsMimeBoundary b) {suffix : Text} (hsuffix : '_' ∉ suffix) :
    StartsLines (dashBoundary b) (dashBoundary b ++ suffix) := by
  obtain ⟨r, hr⟩ := h.eq_cons
  rw [hr]
  intro pre post heq
  left
  have hcount := congrArg (List.count '_') heq
  rw [List.count_append, List.count_append, List.count_append,
    List.count_eq_zero_of_not_mem hsuffix] at hcount
  have hpre : '_' ∉ pre := List.count_eq_zero.mp (by omega)
  -- behind its two dashes, the mark would stand in what comes before it
  match pre with
  | [] => rfl
  | [c] => simp at heq
  | [c, d] => simp at heq
  | c :: d :: e :: pre =>
    have he : '_' = e := by
      simp only [List.cons_append, List.cons.injEq] at heq
      exact heq.2.2.1
    exact absurd (he ▸ hpre) (by simp)

end Boundary

/-! ## Two parts -/

/-- The text of a wrapper, up to its last line break. -/
def enclose (boundary p q : Text) : Text :=
  preamble ++ (delimiter boundary ++ (p ++ (delimiter boundary ++ (q ++ closeBoundary boundary))))

def preambleLine : Text := "This is a multi-part message in MIME format.".toList

theorem preamble_eq : preamble = line preambleLine ++ crlf := rfl

/-- A part of the inner body. -/
def bodyPart (contentType text : Text) : Text :=
  line ("Content-Type: ".toList ++ contentType) ++ eightBit ++ crlf ++ line text

theorem wrapParts_eq (boundary second : Text) (payload : OpengpgMimeBody) :
    wrapParts boundary payload second =
      line (enclose boundary (typeHeader payload.contentType ++ payload.body) second) := by
  simp [wrapParts, enclose, line, closeDelimiter_eq]

/-- The body of a draft with HTML. -/
def alternativeBody (boundary text html : Text) : OpengpgMimeBody where
  contentType := multipartType "alternative".toList boundary
  body := line (enclose boundary (bodyPart plainType text) (bodyPart htmlType html))

theorem buildInnerBody_html {b : Boundaries} {bodyText bodyHtml : Option Text} {html : Text}
    (h : bodyHtml.filter (!·.isEmpty) = some html) :
    buildInnerBody b bodyText bodyHtml =
      alternativeBody b.inner (crlfLines (bodyText.getD [])) (crlfLines html) := by
  unfold buildInnerBody alternativeBody
  simp [h, enclose, bodyPart, line, closeDelimiter_eq, -String.reduceToList]

theorem buildInnerBody_plain {b : Boundaries} {bodyText bodyHtml : Option Text}
    (h : bodyHtml.filter (!·.isEmpty) = none) :
    buildInnerBody b bodyText bodyHtml =
      { contentType := plainType, body := crlfLines (bodyText.getD []) } := by
  unfold buildInnerBody
  simp [h]

section Enclose

variable {b p q : Text}

theorem splitCrlf_line (s : Text) : splitCrlf (line s) = splitCrlf s ++ [[]] := splitCrlf_append s []

theorem splitCrlf_enclose (hb : IsMimeBoundary b) :
    splitCrlf (enclose b (line p) (line q)) =
      [preambleLine, []] ++ dashBoundary b :: (splitCrlf p ++
        dashBoundary b :: (splitCrlf q ++ closeBoundary b :: [])) := by
  have hmessage : '\n' ∉ preambleLine := not_mem_literal (by decide)
  have hdash : '\n' ∉ dashBoundary b := hb.not_mem_dash (not_mem_literal (by decide))
  have hclose : '\n' ∉ closeBoundary b := by
    unfold closeBoundary
    simp [hdash]
  have htext : enclose b (line p) (line q) =
      preambleLine ++ '\r' :: '\n' :: ([] ++ '\r' :: '\n' :: (dashBoundary b ++ '\r' :: '\n' ::
        (p ++ '\r' :: '\n' :: (dashBoundary b ++ '\r' :: '\n' ::
          (q ++ '\r' :: '\n' :: closeBoundary b))))) := by
    simp only [enclose, preamble_eq, line, crlf, delimiter_eq, List.append_assoc, List.cons_append,
      List.nil_append]
  rw [htext]
  generalize preambleLine = message at hmessage ⊢
  rw [splitCrlf_append, splitCrlf_append, splitCrlf_append, splitCrlf_append,
    splitCrlf_append, splitCrlf_append, splitCrlf_of_not_mem hmessage, splitCrlf_of_not_mem hdash,
    splitCrlf_of_not_mem hclose]
  simp [splitCrlf]

/-- The parts between the delimiters are read again, if the boundary is not in them. -/
theorem readParts_enclose (hb : IsMimeBoundary b) (hp : ¬ dashBoundary b <:+: line p)
    (hq : ¬ dashBoundary b <:+: line q) (post : List Text) :
    readParts b (splitCrlf (enclose b (line p) (line q)) ++ post) = [splitCrlf p, splitCrlf q] := by
  have hlines : ∀ s, ¬ dashBoundary b <:+: line s →
      ∀ l ∈ splitCrlf s, (dashBoundary b).isPrefixOf l = false := by
    intro s hs l hl
    rw [← Bool.not_eq_true, List.isPrefixOf_iff_prefix]
    intro hstarts
    exact hs ((hstarts.isInfix.trans (infix_of_mem_splitCrlf hl)).trans
      (List.prefix_append _ _).isInfix)
  have hpre : ∀ l ∈ [preambleLine, []], (dashBoundary b).isPrefixOf l = false := by
    intro l hl
    rw [← Bool.not_eq_true, List.isPrefixOf_iff_prefix]
    intro hstarts
    simp only [List.mem_cons, List.not_mem_nil, or_false] at hl
    have hmark : '_' ∉ preambleLine := not_mem_literal (by decide)
    rcases hl with rfl | rfl
    · exact hb.absent hmark hstarts.isInfix
    · exact hb.absent (List.not_mem_nil) hstarts.isInfix
  have hparts := readParts_two hpre (hlines p hp) (hlines q hq) post
  rw [splitCrlf_enclose hb, ← hparts]
  simp

/-- Delimiters start lines. -/
theorem startsLines_enclose (hb : IsMimeBoundary b) (hp : ¬ dashBoundary b <:+: line p)
    (hq : ¬ dashBoundary b <:+: line q) :
    StartsLines (dashBoundary b) (line (enclose b (line p) (line q))) := by
  have htext : line (enclose b (line p) (line q)) =
      [preamble, delimiter b, line p, delimiter b, line q, closeDelimiter b].flatten := by
    simp [enclose, line, closeDelimiter_eq]
  have hpreamble : ¬ dashBoundary b <:+: preamble := hb.absent (by decide)
  have hdelimiter : StartsLines (dashBoundary b) (delimiter b) := hb.startsLines (by decide)
  rw [htext]
  apply startsLines_flatten (hb.not_mem_dash (not_mem_literal (by decide)))
  intro t ht
  simp only [List.mem_cons, List.not_mem_nil, or_false] at ht
  rcases ht with rfl | rfl | rfl | rfl | rfl | rfl
  · exact ⟨startsLines_of_absent hpreamble, List.suffix_append _ _⟩
  · exact ⟨hdelimiter, List.suffix_append _ _⟩
  · exact ⟨startsLines_of_absent hp, List.suffix_append _ _⟩
  · exact ⟨hdelimiter, List.suffix_append _ _⟩
  · exact ⟨startsLines_of_absent hq, List.suffix_append _ _⟩
  · refine ⟨?_, List.suffix_append _ _⟩
    rw [closeDelimiter_eq, closeBoundary, List.append_assoc]
    exact hb.startsLines (by decide)

end Enclose

/-! ## Leaves of a wrapper -/

def plainField : Text := typeField ++ plainType

def htmlField : Text := typeField ++ htmlType

def encodingField : Text := "Content-Transfer-Encoding: 8bit".toList

def keyType : Text := "application/pgp-keys; name=\"public-key.asc\"".toList

def keyFields : List Text :=
  [typeField ++ keyType, "Content-Disposition: attachment; filename=\"public-key.asc\"".toList]

/-- The attached key as it is read. -/
def keyLeaf (armor : Text) : Leaf := ⟨keyType, keyFields.findSome? (quoted "filename".toList), armor⟩

section Leaves

variable {b p q s subtype : Text} {headers hp hq lp lq : List Text}

/-- Header fields, the empty line and a body. -/
def entity (fields : List Text) (text : Text) : Text := fields.flatMap line ++ (crlf ++ text)

theorem splitCrlf_entity {fields : List Text} (h : ∀ f ∈ fields, '\n' ∉ f) (text : Text) :
    splitCrlf (entity fields text) = fields ++ [] :: splitCrlf text := by
  induction fields with
  | nil => exact splitCrlf_crlf text
  | cons f fields ih =>
    have hentity : entity (f :: fields) text = f ++ '\r' :: '\n' :: entity fields text := by
      simp [entity, line, crlf]
    rw [hentity, splitCrlf_append, splitCrlf_of_not_mem (h f List.mem_cons_self),
      ih fun f hf => h f (List.mem_cons_of_mem _ hf)]
    rfl

theorem line_entity (fields : List Text) (text : Text) :
    line (entity fields text) = entity fields (line text) := by
  simp [line, entity]

theorem typeHeader_append (contentType text : Text) :
    typeHeader contentType ++ text = entity [typeField ++ contentType] text := by
  unfold typeHeader entity typeField
  simp only [List.flatMap_cons, List.flatMap_nil, List.append_nil, List.append_assoc]

theorem bodyPart_eq (contentType text : Text) :
    bodyPart contentType text = line (entity [typeField ++ contentType, encodingField] text) := by
  rw [line_entity]
  unfold bodyPart entity typeField encodingField eightBit
  simp only [List.flatMap_cons, List.flatMap_nil, List.append_nil, List.append_assoc]

theorem keyPart_eq (armor : Text) : keyPart armor = line (entity keyFields armor) := by
  have htype : "Content-Type: application/pgp-keys; name=\"public-key.asc\"".toList =
      typeField ++ keyType := literal_append rfl
  rw [line_entity]
  unfold keyPart entity keyFields
  rw [htype]
  simp only [List.flatMap_cons, List.flatMap_nil, List.append_nil, List.append_assoc]

theorem boundaryOf_multipart (hsubtype : 'b' ∉ subtype) (hb : IsMimeBoundary b) :
    boundaryOf (multipartType subtype b) = some b := by
  have hbefore : 'b' ∉ "multipart/".toList ++ subtype ++ "; ".toList := by
    simp only [List.mem_append, not_or]
    exact ⟨⟨not_mem_literal (by decide), hsubtype⟩, not_mem_literal (by decide)⟩
  have hrest : "oundary=\"".toList = _ := String.toList_ofList
  have hpattern : "; boundary=\"".toList = "; ".toList ++ ('b' :: "oundary=\"".toList) := by
    rw [hrest, show "; boundary=\"".toList = _ from String.toList_ofList,
      show "; ".toList = _ from String.toList_ofList]
    rfl
  have hquoted : "boundary".toList ++ ['=', '"'] = 'b' :: "oundary=\"".toList := by
    rw [hrest, show "boundary".toList = _ from String.toList_ofList]
    rfl
  have htype : multipartType subtype b = ("multipart/".toList ++ subtype ++ "; ".toList) ++
      ('b' :: "oundary=\"".toList ++ (b ++ "\"".toList)) := by
    unfold multipartType
    rw [hpattern]
    simp only [List.append_assoc]
  have hstarts : "multipart/".toList.isPrefixOf (multipartType subtype b) = true := by
    rw [List.isPrefixOf_iff_prefix]
    unfold multipartType
    simp only [List.append_assoc]
    exact List.prefix_append _ _
  have hquote : ∀ c ∈ b, decide (c ≠ '"') = true := by
    intro c hc
    apply decide_eq_true
    rintro rfl
    exact hb.not_mem (not_mem_literal (by decide)) hc
  have hstop : "\"".toList.takeWhile (fun c => decide (c ≠ '"')) = [] := by decide
  unfold boundaryOf quoted
  rw [if_pos hstarts, hquoted, htype, behind_append hbefore, Option.map_some,
    List.takeWhile_append_of_pos hquote, hstop, List.append_nil]

/-- The leaves of two parts, one after the other. -/
theorem readLeaves_enclose (hb : IsMimeBoundary b)
    (hheaders : boundaryOf (contentTypeOf headers) = some b)
    (hpb : ¬ dashBoundary b <:+: line p) (hqb : ¬ dashBoundary b <:+: line q)
    (hlp : splitCrlf p = hp ++ [] :: lp) (hlq : splitCrlf q = hq ++ [] :: lq)
    (hhp : ∀ h ∈ hp, h ≠ []) (hhq : ∀ h ∈ hq, h ≠ []) (depth : Nat) (post : List Text) :
    readLeaves (depth + 1) headers (splitCrlf (enclose b (line p) (line q)) ++ post) =
      readLeaves depth hp lp ++ readLeaves depth hq lq := by
  obtain ⟨hp1, hp2⟩ := headers_append hhp lp
  obtain ⟨hq1, hq2⟩ := headers_append hhq lq
  rw [readLeaves_multipart hheaders, readParts_enclose hb hpb hqb, hlp, hlq, List.flatMap_cons,
    List.flatMap_cons, List.flatMap_nil, List.append_nil, hp1, hp2, hq1, hq2]

theorem typeField_ne_nil (contentType : Text) : ∀ f ∈ [typeField ++ contentType], f ≠ [] := by
  intro f hf
  rw [List.mem_singleton.mp hf]
  exact List.append_ne_nil_of_left_ne_nil (by decide) _

/-- The leaves of a message with an attached key: those of the payload, whose last line break
goes to the delimiter, and the key. -/
theorem leaves_attachPublicKeyPart {bs : Boundaries} {armor : Text} (payload : OpengpgMimeBody)
    (hb : IsMimeBoundary bs.attached)
    (hpart : typeHeader payload.contentType ++ payload.body = line p)
    (hlines : splitCrlf p = [typeField ++ payload.contentType] ++ [] :: lp)
    (hfresh : ¬ dashBoundary bs.attached <:+: typeHeader payload.contentType ++ payload.body)
    (hkey : ¬ dashBoundary bs.attached <:+: keyPart armor) :
    ∃ depth, (attachPublicKeyPart bs payload armor).leaves =
      readLeaves (depth + 2) [typeField ++ payload.contentType] lp ++ [keyLeaf armor] := by
  have hfields : ∀ f ∈ keyFields, '\n' ∉ f := by
    intro f hf
    rcases List.mem_pair.mp hf with rfl | rfl
    · unfold typeField keyType
      rw [List.mem_append, not_or]
      exact ⟨not_mem_literal (by decide), not_mem_literal (by decide)⟩
    · exact not_mem_literal (by decide)
  have hnonempty : ∀ f ∈ keyFields, f ≠ [] := forall_mem_of_all (by decide)
  have hlq := splitCrlf_entity hfields armor
  have hbody : (attachPublicKeyPart bs payload armor).body =
      line (enclose bs.attached (line p) (line (entity keyFields armor))) := by
    unfold attachPublicKeyPart
    rw [wrapParts_eq, hpart, keyPart_eq]
  rw [hpart] at hfresh
  rw [keyPart_eq] at hkey
  have hheaders : boundaryOf (contentTypeOf
      [typeField ++ (attachPublicKeyPart bs payload armor).contentType]) = some bs.attached := by
    rw [contentTypeOf_cons]
    exact boundaryOf_multipart (by decide) hb
  obtain ⟨depth, hdepth⟩ : ∃ depth,
      (splitCrlf (enclose bs.attached (line p) (line (entity keyFields armor))) ++ [[]]).length =
        depth + 3 := by
    rw [splitCrlf_enclose hb]
    simp only [List.length_append, List.length_cons]
    exact ⟨_, rfl⟩
  refine ⟨depth, ?_⟩
  unfold OpengpgMimeBody.leaves
  rw [hbody, splitCrlf_line, hdepth,
    readLeaves_enclose hb hheaders hfresh hkey hlines hlq (typeField_ne_nil _) hnonempty]
  have htype : contentTypeOf keyFields = keyType := contentTypeOf_cons keyType
  have hleaf : boundaryOf (contentTypeOf keyFields) = none := by
    have hkeyType : keyType = _ := String.toList_ofList
    have hmultipart : "multipart/".toList = _ := String.toList_ofList
    rw [htype, boundaryOf, hkeyType, hmultipart]
    exact if_neg (by decide)
  rw [readLeaves_leaf hleaf, joinLines_splitCrlf, htype]
  rfl

theorem readLeaves_part {contentType : Text} (h : boundaryOf contentType = none) (depth : Nat)
    (fields : List Text) (text : Text) :
    readLeaves (depth + 1) ((typeField ++ contentType) :: fields) (splitCrlf text) =
      [⟨contentType, ((typeField ++ contentType) :: fields).findSome? (quoted "filename".toList),
        text⟩] := by
  have hleaf : boundaryOf (contentTypeOf ((typeField ++ contentType) :: fields)) = none := by
    rw [contentTypeOf_cons]
    exact h
  rw [readLeaves_leaf hleaf, contentTypeOf_cons, joinLines_splitCrlf]

theorem lineFeed_not_mem_field {contentType : Text} (h : '\n' ∉ contentType) :
    ∀ f ∈ [typeField ++ contentType], '\n' ∉ f := by
  intro f hf
  rw [List.mem_singleton.mp hf, List.mem_append, not_or]
  exact ⟨by decide, h⟩

theorem lineFeed_not_mem_multipart (hsubtype : '\n' ∉ subtype) (hb : IsMimeBoundary b) :
    '\n' ∉ multipartType subtype b := by
  unfold multipartType
  simp only [List.mem_append, not_or]
  exact ⟨⟨⟨⟨not_mem_literal (by decide), hsubtype⟩, not_mem_literal (by decide)⟩,
    hb.not_mem (not_mem_literal (by decide))⟩, not_mem_literal (by decide)⟩

/-- The alternative bodies are found again. -/
theorem readLeaves_alternative {text html : Text} (hb : IsMimeBoundary b)
    (htext : ¬ dashBoundary b <:+: bodyPart plainType text)
    (hhtml : ¬ dashBoundary b <:+: bodyPart htmlType html) (depth : Nat) :
    readLeaves (depth + 2) [typeField ++ multipartType "alternative".toList b]
        (splitCrlf (enclose b (bodyPart plainType text) (bodyPart htmlType html))) =
      [⟨plainType, [plainField, encodingField].findSome? (quoted "filename".toList), text⟩,
        ⟨htmlType, [htmlField, encodingField].findSome? (quoted "filename".toList), html⟩] := by
  have hplain : ∀ f ∈ [plainField, encodingField], '\n' ∉ f := forall_mem_of_all (by decide)
  have hplain' : ∀ f ∈ [plainField, encodingField], f ≠ [] := forall_mem_of_all (by decide)
  have hhtmlFields : ∀ f ∈ [htmlField, encodingField], '\n' ∉ f := forall_mem_of_all (by decide)
  have hhtmlFields' : ∀ f ∈ [htmlField, encodingField], f ≠ [] := forall_mem_of_all (by decide)
  have hheaders : boundaryOf (contentTypeOf [typeField ++ multipartType "alternative".toList b]) =
      some b := by
    rw [contentTypeOf_cons]
    exact boundaryOf_multipart (by decide) hb
  rw [bodyPart_eq] at htext hhtml ⊢
  rw [bodyPart_eq, ← List.append_nil (splitCrlf _),
    readLeaves_enclose hb hheaders htext hhtml (splitCrlf_entity hplain text)
      (splitCrlf_entity hhtmlFields html) hplain' hhtmlFields']
  have hplainType : boundaryOf plainType = none := by decide
  have hhtmlType : boundaryOf htmlType = none := by decide
  rw [plainField, htmlField, readLeaves_part hplainType, readLeaves_part hhtmlType]
  rfl

end Leaves

/-! ## What a message must be -/

/-- The HTML of a draft, if it has some. -/
def givenHtml (draft : OutboundDraft) : Option Text := draft.bodyHtml.filter (!·.isEmpty)

def sentText (draft : OutboundDraft) : Text := crlfLines (draft.bodyText.getD [])

/-- The data are a part with the payload as its body, whose headers name the type. -/
def CarriesType (payload : OpengpgMimeBody) (data : Text) : Prop :=
  ∃ headers, line ("Content-Type: ".toList ++ payload.contentType) <:+: headers ∧
    data = headers ++ crlf ++ payload.body

section Property

variable {κ σ μ δ γ : Type} (lib : PgpReader κ σ μ δ γ) (mail : MailReader) (b : Boundaries)
  (toLowercase : Text → Text) (ring : Keyring) (account : Text) (opts : OpengpgSendOptions)
  (draft : OutboundDraft)

/-- The steps of a request, with what is signed, what is encrypted and what is sent. -/
def Wraps (signed encrypted sent : OpengpgMimeBody) : Prop :=
  ∃ keys signing, ring.keys = .ok keys ∧ signingKey keys opts account = .ok signing ∧
    signStep lib.toPgp b ring.unlocked opts signing
      (buildInnerBody b draft.bodyText draft.bodyHtml) = .ok signed ∧
    encryptStep lib.toPgp b toLowercase keys opts draft.recipientEmails signed = .ok encrypted ∧
    attachStep lib.toPgp b opts signing encrypted = .ok sent

/-- One of the keys decrypts the message. -/
def CanDecrypt (secretKeys : List (StoredKey × Text)) (data : Text) : Prop :=
  ∃ k ∈ secretKeys, ∃ secret message,
    lib.readSecret k.1.keyData = some secret ∧ lib.readMessage data = some message ∧
      ((lib.decrypt message k.2 secret).bind lib.decompress).isSome

/-- A reader with these keys is shown the text and the HTML of the draft. -/
def ShowsDraft (leaves : List Leaf) (secretKeys : List (StoredKey × Text))
    (publicKeys : List StoredKey) : Prop :=
  (shownBodies lib mail leaves secretKeys publicKeys).1 = some (sentText draft) ∧
    ∀ html, givenHtml draft = some html →
      (shownBodies lib mail leaves secretKeys publicKeys).2 = some (mail.sanitize (crlfLines html))

/-- The layers are well formed, and what is read is the draft. -/
structure WellSent (signed encrypted sent : OpengpgMimeBody) : Prop where
  /-- Delimiters start lines. -/
  innerLines : StartsLines (dashBoundary b.inner)
    (buildInnerBody b draft.bodyText draft.bodyHtml).body
  signedLines : opts.sign = true → StartsLines (dashBoundary b.signed) signed.body
  encryptedLines : opts.encrypt = true → StartsLines (dashBoundary b.encrypted) encrypted.body
  attachedLines : opts.attachPublicKey = true → StartsLines (dashBoundary b.attached) sent.body
  /-- What is signed has a type, and is the first part as it stands between the delimiters. -/
  signs : opts.sign = true → ∀ key password data armored,
    lib.sign key password data = some armored →
    signed.body = wrapParts b.signed (buildInnerBody b draft.bodyText draft.bodyHtml)
      (signaturePart armored) →
    CarriesType (buildInnerBody b draft.bodyText draft.bodyHtml) data ∧
      (readParts b.signed (splitCrlf signed.body)).head?.map joinLines = some data
  /-- What is encrypted has a type. -/
  encrypts : opts.encrypt = true → ∀ pubKeys data ciphertext,
    lib.encrypt pubKeys data = some ciphertext →
    encrypted.body = encryptedBody b.encrypted ciphertext → CarriesType signed data
  /-- The text is in the message, unless it is encrypted. -/
  stored : opts.encrypt = false → storedText mail sent.leaves = some (sentText draft)
  /-- Whoever can decrypt the message is shown the draft. -/
  shown : ∀ secretKeys publicKeys,
    (opts.encrypt = true → ∀ ciphertext armor,
      encrypted.body = encryptedBody b.encrypted ciphertext →
      extractArmoredMessage ciphertext = some armor → CanDecrypt lib secretKeys armor) →
    ShowsDraft lib mail draft sent.leaves secretKeys publicKeys

/-- The message is well formed and read as it was written. -/
def RoundTrips (sent : OpengpgMimeBody) : Prop :=
  ∀ signed encrypted, Wraps lib b toLowercase ring account opts draft signed encrypted sent →
    WellSent lib mail b opts draft signed encrypted sent

/-- The draft has HTML or no text, and nothing in it that looks like a message to decrypt or to
verify. -/
def PlainDraft : Prop :=
  ((givenHtml draft).isSome = true ∨ draft.bodyText.getD [] = []) ∧ ¬ HasBlock (sentText draft) ∧
    ∀ html, givenHtml draft = some html → ¬ HasBlock (mail.sanitize (crlfLines html))

/-- The boundaries are not in what they are put around. -/
structure FreshBoundaries : Prop where
  inner : IsMimeBoundary b.inner
  attached : IsMimeBoundary b.attached
  innerText : ¬ dashBoundary b.inner <:+: bodyPart plainType (sentText draft)
  innerHtml : ∀ html, givenHtml draft = some html →
    ¬ dashBoundary b.inner <:+: bodyPart htmlType (crlfLines html)
  attachedBody : ¬ dashBoundary b.attached <:+:
    typeHeader (buildInnerBody b draft.bodyText draft.bodyHtml).contentType ++
      (buildInnerBody b draft.bodyText draft.bodyHtml).body
  attachedKey : ∀ data armor, lib.publicArmored data = some armor →
    ¬ dashBoundary b.attached <:+: keyPart armor

/-- An armored public key is ASCII text without an armored message. -/
def ArmorsKeys : Prop :=
  ∀ data armor, lib.publicArmored data = some armor →
    extractArmoredMessage armor = none ∧ looksLikeBinaryOpenpgp armor = false

end Property

/-! ## The layers of a request -/

section Layers

variable {κ σ μ δ γ : Type} {lib : PgpReader κ σ μ δ γ} {mail : MailReader} {b : Boundaries}
  {toLowercase : Text → Text} {ring : Keyring} {account : Text} {opts : OpengpgSendOptions}
  {draft : OutboundDraft} {signed encrypted sent : OpengpgMimeBody}

theorem exists_wraps
    (h : wrapOutboundOpengpg lib.toPgp b toLowercase ring account opts draft = .ok (some sent)) :
    ∃ signed encrypted, Wraps lib b toLowercase ring account opts draft signed encrypted sent := by
  obtain ⟨-, -, keys, signing, hkeys, hsigning, hlayers⟩ := wrapOutbound_eq_some.mp h
  obtain ⟨signed, encrypted, hsigned, hencrypted, hsent⟩ := wrapLayers_eq_ok.mp hlayers
  exact ⟨signed, encrypted, keys, signing, hkeys, hsigning, hsigned, hencrypted, hsent⟩

theorem signingKey_eq_ok {keys : List StoredKey} {signing : Option StoredKey}
    (hneeded : (opts.sign || opts.attachPublicKey) = true)
    (h : signingKey keys opts account = .ok signing) : ∃ stored, signing = some stored := by
  unfold signingKey at h
  rw [if_pos hneeded] at h
  cases hkey : resolveSigningKey keys opts account with
  | error e =>
    rw [hkey] at h
    cases h
  | ok stored =>
    rw [hkey] at h
    exact ⟨stored, (Except.ok.inj h).symm⟩

/-- The body of the payload is signed. -/
theorem Wraps.signs (h : Wraps lib b toLowercase ring account opts draft signed encrypted sent)
    (hsign : opts.sign = true) :
    ∃ key password armored,
      lib.sign key password (buildInnerBody b draft.bodyText draft.bodyHtml).body = some armored ∧
      signed.body = wrapParts b.signed (buildInnerBody b draft.bodyText draft.bodyHtml)
        (signaturePart armored) := by
  obtain ⟨keys, signing, -, hsigning, hsigned, -, -⟩ := h
  obtain ⟨stored, rfl⟩ := signingKey_eq_ok (by rw [hsign]; rfl) hsigning
  unfold signStep at hsigned
  simp only [hsign, if_true] at hsigned
  cases hpassword : ring.unlocked stored.id with
  | none =>
    rw [hpassword] at hsigned
    cases hsigned
  | some password =>
    simp only [hpassword, wrapSigned] at hsigned
    cases harmored : lib.sign stored.keyData password
        (buildInnerBody b draft.bodyText draft.bodyHtml).body with
    | none =>
      rw [harmored] at hsigned
      cases hsigned
    | some armored =>
      rw [harmored] at hsigned
      obtain rfl := Except.ok.inj hsigned
      exact ⟨_, _, armored, harmored, rfl⟩

/-- The body of the payload is encrypted. -/
theorem Wraps.encrypts (h : Wraps lib b toLowercase ring account opts draft signed encrypted sent)
    (hencrypt : opts.encrypt = true) :
    ∃ pubKeys ciphertext, lib.encrypt pubKeys signed.body = some ciphertext ∧
      encrypted.body = encryptedBody b.encrypted ciphertext := by
  obtain ⟨keys, signing, -, -, -, hencrypted, -⟩ := h
  unfold encryptStep at hencrypted
  rw [if_pos hencrypt] at hencrypted
  cases hpubKeys : resolveRecipientPublicKeys lib.toPgp toLowercase keys opts.recipientKeyIds
      draft.recipientEmails with
  | error e =>
    rw [hpubKeys] at hencrypted
    cases hencrypted
  | ok pubKeys =>
    simp only [hpubKeys, wrapEncrypted] at hencrypted
    split at hencrypted
    · cases hencrypted
    · split at hencrypted
      · cases hencrypted
      · cases hciphertext : lib.encrypt pubKeys signed.body with
        | none =>
          rw [hciphertext] at hencrypted
          cases hencrypted
        | some ciphertext =>
          rw [hciphertext] at hencrypted
          obtain rfl := Except.ok.inj hencrypted
          exact ⟨pubKeys, ciphertext, hciphertext, rfl⟩

/-- Only a key is attached. -/
theorem Wraps.attaches (h : Wraps lib b toLowercase ring account opts draft signed encrypted sent)
    (hsign : opts.sign = false) (hencrypt : opts.encrypt = false)
    (hattach : opts.attachPublicKey = true) :
    ∃ data armor, lib.publicArmored data = some armor ∧
      sent = attachPublicKeyPart b (buildInnerBody b draft.bodyText draft.bodyHtml) armor := by
  obtain ⟨keys, signing, -, hsigning, hsigned, hencrypted, hsent⟩ := h
  obtain ⟨stored, rfl⟩ := signingKey_eq_ok (by rw [hattach, Bool.or_true]) hsigning
  simp only [signStep, hsign, Bool.false_eq_true, if_false] at hsigned
  obtain rfl := Except.ok.inj hsigned
  simp only [encryptStep, hencrypt, Bool.false_eq_true, if_false] at hencrypted
  obtain rfl := Except.ok.inj hencrypted
  simp only [attachStep, hattach, if_true] at hsent
  cases harmor : lib.publicArmored stored.keyData with
  | none =>
    rw [harmor] at hsent
    cases hsent
  | some armor =>
    rw [harmor] at hsent
    exact ⟨stored.keyData, armor, harmor, (Except.ok.inj hsent).symm⟩

/-- A body alone has no type. -/
theorem not_carriesType_body (payload : OpengpgMimeBody) : ¬ CarriesType payload payload.body := by
  rintro ⟨headers, -, heq⟩
  have hlength := congrArg List.length heq
  simp only [List.length_append, crlf, List.length_cons, List.length_nil] at hlength
  omega

theorem WellSent.sign_eq_false
    (h : Wraps lib b toLowercase ring account opts draft signed encrypted sent)
    (hwell : WellSent lib mail b opts draft signed encrypted sent) : opts.sign = false := by
  cases hsign : opts.sign with
  | false => rfl
  | true =>
    obtain ⟨key, password, armored, harmored, hbody⟩ := h.signs hsign
    exact absurd (hwell.signs hsign key password _ armored harmored hbody).1
      (not_carriesType_body _)

theorem WellSent.encrypt_eq_false
    (h : Wraps lib b toLowercase ring account opts draft signed encrypted sent)
    (hwell : WellSent lib mail b opts draft signed encrypted sent) : opts.encrypt = false := by
  cases hencrypt : opts.encrypt with
  | false => rfl
  | true =>
    obtain ⟨pubKeys, ciphertext, hciphertext, hbody⟩ := h.encrypts hencrypt
    exact absurd (hwell.encrypts hencrypt pubKeys _ ciphertext hciphertext hbody)
      (not_carriesType_body _)

end Layers

/-! ## An attached key -/

section Attached

variable {κ σ μ δ γ : Type} {lib : PgpReader κ σ μ δ γ} {mail : MailReader} {b : Boundaries}
  {draft : OutboundDraft} {data armor : Text}

theorem unixLines_eq_nil {s : Text} : unixLines s = [] ↔ s = [] := by
  fun_cases unixLines s <;> simp

theorem crlfLines_eq_nil {s : Text} : crlfLines s = [] ↔ s = [] := by
  unfold crlfLines
  rw [List.flatMap_eq_nil_iff, ← unixLines_eq_nil (s := s)]
  constructor
  · intro h
    rw [List.eq_nil_iff_forall_not_mem]
    intro c hc
    have hnil := h c hc
    split at hnil <;> cases hnil
  · intro h c hc
    rw [h] at hc
    cases hc

/-- The leaf of a text body. -/
def plainLeaf (fields : List Text) (text : Text) : Leaf :=
  ⟨plainType, fields.findSome? (quoted "filename".toList), text⟩

def htmlLeaf (text : Text) : Leaf :=
  ⟨htmlType, [htmlField, encodingField].findSome? (quoted "filename".toList), text⟩

/-- With HTML, the text, the HTML and the key are read again. -/
theorem leaves_html (hfresh : FreshBoundaries lib b draft)
    (harmor : lib.publicArmored data = some armor) {html : Text}
    (hhtml : givenHtml draft = some html) :
    (attachPublicKeyPart b (buildInnerBody b draft.bodyText draft.bodyHtml) armor).leaves =
      [plainLeaf [plainField, encodingField] (sentText draft), htmlLeaf (crlfLines html),
        keyLeaf armor] := by
  have hbody := hfresh.attachedBody
  rw [buildInnerBody_html hhtml] at hbody ⊢
  have hsubtype : '\n' ∉ "alternative".toList := by decide
  have hfield := lineFeed_not_mem_field (lineFeed_not_mem_multipart hsubtype hfresh.inner)
  have hpart := (typeHeader_append (multipartType "alternative".toList b.inner)
    (alternativeBody b.inner (sentText draft) (crlfLines html)).body).trans (line_entity _ _).symm
  obtain ⟨depth, hleaves⟩ := leaves_attachPublicKeyPart
    (alternativeBody b.inner (sentText draft) (crlfLines html)) hfresh.attached hpart
    (splitCrlf_entity hfield _) hbody (hfresh.attachedKey data armor harmor)
  have hread := readLeaves_alternative hfresh.inner hfresh.innerText (hfresh.innerHtml html hhtml)
    depth
  exact hleaves.trans (congrArg (· ++ [keyLeaf armor]) hread)

/-- Without HTML, a text that ends its line loses the line break. -/
theorem leaves_plain (hfresh : FreshBoundaries lib b draft)
    (harmor : lib.publicArmored data = some armor) (hhtml : givenHtml draft = none) {text : Text}
    (htext : sentText draft = line text) :
    (attachPublicKeyPart b (buildInnerBody b draft.bodyText draft.bodyHtml) armor).leaves =
      [plainLeaf [plainField] text, keyLeaf armor] := by
  have hbody := hfresh.attachedBody
  have htext' : crlfLines (draft.bodyText.getD []) = line text := htext
  rw [buildInnerBody_plain hhtml, htext'] at hbody ⊢
  have hplain : '\n' ∉ plainType := by decide
  have hfield := lineFeed_not_mem_field hplain
  have hpart := typeHeader_append plainType (line text)
  rw [← line_entity] at hpart
  obtain ⟨depth, hleaves⟩ := leaves_attachPublicKeyPart ⟨plainType, line text⟩ hfresh.attached
    hpart (splitCrlf_entity hfield _) hbody (hfresh.attachedKey data armor harmor)
  have hplainType : boundaryOf plainType = none := by decide
  have hread := readLeaves_part hplainType (depth + 1) [] text
  exact hleaves.trans (congrArg (· ++ [keyLeaf armor]) hread)

/-- No text is read as no text. -/
theorem leaves_empty (hfresh : FreshBoundaries lib b draft)
    (harmor : lib.publicArmored data = some armor) (hhtml : givenHtml draft = none)
    (htext : sentText draft = []) :
    (attachPublicKeyPart b (buildInnerBody b draft.bodyText draft.bodyHtml) armor).leaves =
      [plainLeaf [plainField] [], keyLeaf armor] := by
  have hbody := hfresh.attachedBody
  have htext' : crlfLines (draft.bodyText.getD []) = [] := htext
  rw [buildInnerBody_plain hhtml, htext'] at hbody ⊢
  have hfield : '\n' ∉ plainField := by decide
  have hpart : typeHeader plainType ++ [] = line (line plainField) := by
    rw [typeHeader_append]
    simp [entity, line, plainField]
  have hlines : splitCrlf (line plainField) = [plainField] ++ [] :: [] := by
    rw [splitCrlf_line, splitCrlf_of_not_mem hfield]
  obtain ⟨depth, hleaves⟩ := leaves_attachPublicKeyPart ⟨plainType, []⟩ hfresh.attached hpart
    hlines hbody (hfresh.attachedKey data armor harmor)
  have hleaf : boundaryOf (contentTypeOf [typeField ++ plainType]) = none := by
    rw [contentTypeOf_cons]
    decide
  have hread := readLeaves_leaf hleaf (depth + 1) []
  rw [contentTypeOf_cons] at hread
  exact hleaves.trans (congrArg (· ++ [keyLeaf armor]) hread)

theorem mem_candidates {leaves : List Leaf} {att : Text}
    (hleaves : ∀ leaf ∈ leaves, isPlain leaf = true ∨ isHtml leaf = true ∨ leaf = keyLeaf armor)
    (h : att ∈ candidates leaves) : att = armor := by
  unfold candidates at h
  obtain ⟨leaf, hleaf, rfl⟩ := List.mem_map.mp (List.mem_of_mem_filter h)
  obtain ⟨hmem, hbody⟩ := List.mem_filter.mp (List.mem_of_mem_filter hleaf)
  simp only [Bool.and_eq_true, Bool.not_eq_true'] at hbody
  rcases hleaves leaf hmem with hplain | hhtml | rfl
  · rw [hplain] at hbody
    cases hbody.1
  · rw [hhtml] at hbody
    cases hbody.2
  · rfl

/-- Where nothing looks like a message, the stored bodies are shown. -/
theorem shownBodies_stored {leaves : List Leaf} {secretKeys : List (StoredKey × Text)}
    {publicKeys : List StoredKey} (hkeys : ArmorsKeys lib)
    (harmor : lib.publicArmored data = some armor)
    (hleaves : ∀ leaf ∈ leaves, isPlain leaf = true ∨ isHtml leaf = true ∨ leaf = keyLeaf armor)
    (htext : ¬ HasBlock ((storedText mail leaves).getD []))
    (hhtml : ¬ HasBlock ((storedHtml mail leaves).getD [])) :
    shownBodies lib mail leaves secretKeys publicKeys =
      (storedText mail leaves, storedHtml mail leaves) := by
  obtain ⟨harmored, hbinary⟩ := hkeys data armor harmor
  have hatts : ∀ att ∈ candidates leaves, extractArmoredMessage att = none := by
    intro att hatt
    rw [mem_candidates hleaves hatt]
    exact harmored
  have hbinaries : ∀ att ∈ candidates leaves, looksLikeBinaryOpenpgp att = false := by
    intro att hatt
    rw [mem_candidates hleaves hatt]
    exact hbinary
  unfold shownBodies
  rw [processMessageBodies_eq_none htext hhtml hatts hbinaries]

/-- Behind a line break, only a text that ends its line lets a delimiter start one. -/
theorem suffix_of_startsLines {p before text after : Text}
    (h : StartsLines p (line before ++ text ++ (p ++ after))) (hne : text ≠ []) :
    crlf <:+ text := by
  rcases h (line before ++ text) after (by simp) with hnil | ⟨front, hfront⟩
  · exact absurd (List.append_eq_nil_iff.mp hnil).2 hne
  · rcases List.append_eq_append_iff.mp hfront with ⟨more, hbefore, hmore⟩ | ⟨more, -, rfl⟩
    · -- the line break is made by the end of the line before and the text
      match more with
      | [] => exact ⟨[], hmore⟩
      | [c] =>
        exfalso
        have hlast := congrArg List.getLast? hbefore
        simp only [line, crlf, List.getLast?_append, List.getLast?_cons_cons,
          List.getLast?_singleton, Option.some_or, Option.some.injEq] at hlast
        simp only [List.cons_append, List.nil_append, List.cons.injEq] at hmore
        rw [← hlast] at hmore
        exact absurd hmore.1 (by decide)
      | [c, d] =>
        exfalso
        simp only [List.cons_append, List.nil_append, List.cons.injEq] at hmore
        exact hne hmore.2.2.symm
      | c :: d :: e :: more =>
        exfalso
        simp at hmore
    · exact List.suffix_append _ _

theorem attachPublicKeyPart_body (payload : OpengpgMimeBody) (armor : Text) :
    (attachPublicKeyPart b payload armor).body =
      line (enclose b.attached (typeHeader payload.contentType ++ payload.body) (keyPart armor)) :=
  wrapParts_eq b.attached (keyPart armor) payload

/-- A text alone that is attached to a key ends its line. -/
theorem suffix_of_attachedLines {text : Text} (hne : text ≠ [])
    (h : StartsLines (dashBoundary b.attached)
      (attachPublicKeyPart b { contentType := plainType, body := text } armor).body) :
    ∃ t, text = line t := by
  have hbody : (attachPublicKeyPart b { contentType := plainType, body := text } armor).body =
      line (preamble ++ delimiter b.attached ++ line plainField) ++ text ++
        (dashBoundary b.attached ++
          (crlf ++ (keyPart armor ++ (closeBoundary b.attached ++ crlf)))) := by
    rw [attachPublicKeyPart_body]
    unfold enclose typeHeader plainField typeField
    simp only [line, delimiter_eq, List.append_assoc]
  rw [hbody] at h
  obtain ⟨t, ht⟩ := suffix_of_startsLines h hne
  exact ⟨t, ht.symm⟩

theorem startsLines_attached (hfresh : FreshBoundaries lib b draft)
    (harmor : lib.publicArmored data = some armor) {p : Text}
    (hpart : typeHeader (buildInnerBody b draft.bodyText draft.bodyHtml).contentType ++
      (buildInnerBody b draft.bodyText draft.bodyHtml).body = line p) :
    StartsLines (dashBoundary b.attached)
      (attachPublicKeyPart b (buildInnerBody b draft.bodyText draft.bodyHtml) armor).body := by
  have hbody := hfresh.attachedBody
  have hkey := hfresh.attachedKey data armor harmor
  rw [hpart] at hbody
  rw [keyPart_eq] at hkey
  rw [attachPublicKeyPart_body, hpart, keyPart_eq]
  exact startsLines_enclose hfresh.attached hbody hkey

end Attached

/-! ## The condition -/

section Condition

variable {κ σ μ δ γ : Type} {lib : PgpReader κ σ μ δ γ} {mail : MailReader} {b : Boundaries}
  {opts : OpengpgSendOptions} {draft : OutboundDraft} {data armor : Text}

theorem sentText_eq_nil : sentText draft = [] ↔ draft.bodyText.getD [] = [] := crlfLines_eq_nil

/-- What a plain draft with a key is read as. -/
theorem shownBodies_attached (hkeys : ArmorsKeys lib)
    (hempty : ¬ HasBlock (mail.sanitize (mail.textToHtml []))) (hfresh : FreshBoundaries lib b draft)
    (harmor : lib.publicArmored data = some armor) (hplain : PlainDraft mail draft)
    {sent : OpengpgMimeBody}
    (hsent : sent = attachPublicKeyPart b (buildInnerBody b draft.bodyText draft.bodyHtml) armor)
    (secretKeys : List (StoredKey × Text)) (publicKeys : List StoredKey) :
    storedText mail sent.leaves = some (sentText draft) ∧
      shownBodies lib mail sent.leaves secretKeys publicKeys =
        (storedText mail sent.leaves, storedHtml mail sent.leaves) ∧
      ∀ html, givenHtml draft = some html →
        storedHtml mail sent.leaves = some (mail.sanitize (crlfLines html)) := by
  obtain ⟨hbody, htext, hhtml⟩ := hplain
  cases hgiven : givenHtml draft with
  | some html =>
    rw [hsent, leaves_html hfresh harmor hgiven]
    refine ⟨rfl, ?_, ?_⟩
    · apply shownBodies_stored hkeys harmor
      · intro leaf hleaf
        simp only [List.mem_cons, List.not_mem_nil, or_false] at hleaf
        rcases hleaf with rfl | rfl | rfl
        · exact .inl rfl
        · exact .inr (.inl rfl)
        · exact .inr (.inr rfl)
      · exact htext
      · exact hhtml html hgiven
    · intro html' hhtml'
      obtain rfl := Option.some.inj hhtml'
      rfl
  | none =>
    rw [hgiven] at hbody
    have hnil : sentText draft = [] := sentText_eq_nil.mpr (hbody.resolve_left (by simp))
    rw [hsent, leaves_empty hfresh harmor hgiven hnil]
    refine ⟨?_, ?_, ?_⟩
    · rw [hnil]
      rfl
    · apply shownBodies_stored hkeys harmor
      · intro leaf hleaf
        simp only [List.mem_cons, List.not_mem_nil, or_false] at hleaf
        rcases hleaf with rfl | rfl
        · exact .inl rfl
        · exact .inr (.inr rfl)
      · exact not_hasBlock_nil
      · exact hempty
    · intro html hhtml
      cases hhtml

theorem innerLines_of_plain (hfresh : FreshBoundaries lib b draft)
    (hplain : PlainDraft mail draft) :
    StartsLines (dashBoundary b.inner)
        (buildInnerBody b draft.bodyText draft.bodyHtml).body ∧
      ∃ p, typeHeader (buildInnerBody b draft.bodyText draft.bodyHtml).contentType ++
        (buildInnerBody b draft.bodyText draft.bodyHtml).body = line p := by
  cases hgiven : givenHtml draft with
  | some html =>
    have htext := hfresh.innerText
    have hhtml := hfresh.innerHtml html hgiven
    rw [buildInnerBody_html hgiven]
    refine ⟨?_, _, (typeHeader_append _ _).trans (line_entity _ _).symm⟩
    rw [bodyPart_eq] at htext hhtml
    unfold alternativeBody
    rw [bodyPart_eq, bodyPart_eq]
    exact startsLines_enclose hfresh.inner htext hhtml
  | none =>
    have hbody := hplain.1
    rw [hgiven] at hbody
    have hnil : crlfLines (draft.bodyText.getD []) = [] :=
      sentText_eq_nil.mpr (hbody.resolve_left (by simp))
    rw [buildInnerBody_plain hgiven, hnil]
    refine ⟨startsLines_nil, line ("Content-Type: ".toList ++ plainType), ?_⟩
    unfold typeHeader
    rw [List.append_nil]
    rfl

/-- A draft that is read as it was written has HTML or no text. -/
theorem WellSent.html_or_empty {signed encrypted : OpengpgMimeBody}
    (hfresh : FreshBoundaries lib b draft) (harmor : lib.publicArmored data = some armor)
    (hattach : opts.attachPublicKey = true) (hencrypt : opts.encrypt = false)
    (hwell : WellSent lib mail b opts draft signed encrypted
      (attachPublicKeyPart b (buildInnerBody b draft.bodyText draft.bodyHtml) armor)) :
    (givenHtml draft).isSome = true ∨ draft.bodyText.getD [] = [] := by
  cases hgiven : givenHtml draft with
  | some html => exact .inl rfl
  | none =>
    right
    rw [← sentText_eq_nil]
    by_contra hne
    have hlines := hwell.attachedLines hattach
    have hstored := hwell.stored hencrypt
    obtain ⟨t, ht⟩ : ∃ t, sentText draft = line t := by
      rw [buildInnerBody_plain hgiven] at hlines
      exact suffix_of_attachedLines hne hlines
    -- the line break at the end goes to the delimiter
    rw [leaves_plain hfresh harmor hgiven ht, ht] at hstored
    have hlength := congrArg List.length (Option.some.inj hstored)
    simp only [plainLeaf, line, crlf, List.length_append, List.length_cons, List.length_nil] at hlength
    omega

/-- A block in a draft hides its HTML. -/
theorem WellSent.no_block {signed encrypted : OpengpgMimeBody} {html : Text}
    (hfresh : FreshBoundaries lib b draft) (harmor : lib.publicArmored data = some armor)
    (hencrypt : opts.encrypt = false) (hgiven : givenHtml draft = some html)
    (hwell : WellSent lib mail b opts draft signed encrypted
      (attachPublicKeyPart b (buildInnerBody b draft.bodyText draft.bodyHtml) armor)) :
    ¬ (HasBlock (sentText draft) ∨ HasBlock (mail.sanitize (crlfLines html))) := by
  intro hblock
  have hvacuous : opts.encrypt = true → ∀ ciphertext armor,
      encrypted.body = encryptedBody b.encrypted ciphertext →
      extractArmoredMessage ciphertext = some armor → CanDecrypt lib [] armor := by
    intro h
    rw [hencrypt] at h
    cases h
  have hshown := (hwell.shown [] [] hvacuous).2 html hgiven
  rw [leaves_html hfresh harmor hgiven] at hshown
  exact absurd (hshown.symm.trans (shownBodies_of_block hblock)) (by simp)

end Condition

/-- A message round trips exactly if it is neither signed nor encrypted, and its draft is plain. -/
theorem roundTrips_iff {κ σ μ δ γ : Type} (lib : PgpReader κ σ μ δ γ) (mail : MailReader)
    (b : Boundaries) (toLowercase : Text → Text) (ring : Keyring) (account : Text)
    (opts : OpengpgSendOptions) (draft : OutboundDraft) (sent : OpengpgMimeBody)
    (hkeys : ArmorsKeys lib) (hempty : ¬ HasBlock (mail.sanitize (mail.textToHtml [])))
    (hfresh : FreshBoundaries lib b draft)
    (h : wrapOutboundOpengpg lib.toPgp b toLowercase ring account opts draft = .ok (some sent)) :
    RoundTrips lib mail b toLowercase ring account opts draft sent ↔
      opts.sign = false ∧ opts.encrypt = false ∧ PlainDraft mail draft := by
  have hany := (wrapOutbound_eq_some.mp h).1
  constructor
  · intro hround
    obtain ⟨signed, encrypted, hwraps⟩ := exists_wraps h
    have hwell := hround signed encrypted hwraps
    have hsign := hwell.sign_eq_false hwraps
    have hencrypt := hwell.encrypt_eq_false hwraps
    have hattach : opts.attachPublicKey = true := by simpa [hsign, hencrypt] using hany
    obtain ⟨data, armor, harmor, rfl⟩ := hwraps.attaches hsign hencrypt hattach
    have hbody := hwell.html_or_empty hfresh harmor hattach hencrypt
    refine ⟨hsign, hencrypt, hbody, ?_, ?_⟩
    · intro hblock
      rcases hbody with hsome | hnil
      · obtain ⟨html, hgiven⟩ := Option.isSome_iff_exists.mp hsome
        exact hwell.no_block hfresh harmor hencrypt hgiven (.inl hblock)
      · rw [sentText_eq_nil.mpr hnil] at hblock
        exact not_hasBlock_nil hblock
    · intro html hgiven hblock
      exact hwell.no_block hfresh harmor hencrypt hgiven (.inr hblock)
  · rintro ⟨hsign, hencrypt, hplain⟩ signed encrypted hwraps
    have hattach : opts.attachPublicKey = true := by simpa [hsign, hencrypt] using hany
    obtain ⟨data, armor, harmor, hsent⟩ := hwraps.attaches hsign hencrypt hattach
    obtain ⟨hinner, p, hpart⟩ := innerLines_of_plain hfresh hplain
    have hread := shownBodies_attached hkeys hempty hfresh harmor hplain hsent
    exact
      { innerLines := hinner
        signedLines := fun hsign' => absurd (hsign.symm.trans hsign') (by simp)
        encryptedLines := fun hencrypt' => absurd (hencrypt.symm.trans hencrypt') (by simp)
        attachedLines := fun _ => hsent ▸ startsLines_attached hfresh harmor hpart
        signs := fun hsign' => absurd (hsign.symm.trans hsign') (by simp)
        encrypts := fun hencrypt' => absurd (hencrypt.symm.trans hencrypt') (by simp)
        stored := fun _ => (hread [] []).1
        shown := by
          intro secretKeys publicKeys _
          obtain ⟨htext, hshown, hhtml⟩ := hread secretKeys publicKeys
          unfold ShowsDraft
          rw [hshown]
          exact ⟨htext, hhtml⟩ }

/-! ## Two requests -/

/-- A library that signs and encrypts by copying. -/
def copyingReader : PgpReader Text Text Text Text Text where
  publicArmored _ := some "-----BEGIN PGP PUBLIC KEY BLOCK-----".toList
  readPublic := some
  hasSubkey _ := true
  sign _ _ data := some data
  encrypt _ data := some data
  readSecret := some
  readMessage := some
  decrypt message _ _ := some message
  decompress := some
  content := some
  isSigned _ := false
  verifyNested _ _ := false
  readCleartext _ := none
  cleartext m := m
  verify _ _ := false

def plainMail : MailReader where
  parse _ := none
  textToHtml text := text
  htmlToText html := html
  sanitize html := html

def someBoundaries : Boundaries where
  inner := "_lyra_00000000000000000000000000000001".toList
  signed := "_lyra_00000000000000000000000000000002".toList
  encrypted := "_lyra_00000000000000000000000000000003".toList
  attached := "_lyra_00000000000000000000000000000004".toList

/-- One unlocked identity key. -/
def oneKey : Keyring where
  keys := .ok
    [{ id := ['k'], userId := ['u'], accountId := some ['a'], fingerprint := [], primaryEmail := []
       emails := [], isSecret := true, isPrimary := true, revoked := false, keyData := ['s']
       createdAt := 0, updatedAt := 0 }]
  unlocked _ := some []

def shortDraft (bodyHtml : Option Text) : OutboundDraft where
  bodyText := some ['H', 'i']
  bodyHtml := bodyHtml
  recipientEmails := []

theorem not_mem_enclose {boundary p q : Text} {c : Char} (hpreamble : c ∉ preambleLine)
    (hcrlf : c ∉ crlf) (hb : c ∉ dashBoundary boundary) (hdash : c ∉ ['-', '-']) (hp : c ∉ p)
    (hq : c ∉ q) : c ∉ enclose boundary p q := by
  unfold enclose closeBoundary
  rw [preamble_eq, delimiter_eq]
  simp only [line, List.mem_append, not_or, -String.reduceToList]
  exact ⟨⟨⟨hpreamble, hcrlf⟩, hcrlf⟩, ⟨hb, hcrlf⟩, hp, ⟨hb, hcrlf⟩, hq, hb, hdash⟩

theorem isMimeBoundary_hex {l : List Char} (id : Text)
    (hl : l = ['_', 'l', 'y', 'r', 'a', '_'] ++ id) (hlength : id.length = 32)
    (hid : ∀ c ∈ id, c = '0' ∨ c = '1' ∨ c = '4') : IsMimeBoundary (String.ofList l).toList := by
  have hdigits : "0123456789abcdef".toList = _ := String.toList_ofList
  refine ⟨id, (literal_append hl).trans (congrArg _ String.toList_ofList), hlength, ?_⟩
  intro c hc
  rw [hdigits]
  rcases hid c hc with rfl | rfl | rfl <;> decide

theorem not_mem_bodyPart {t s : Text} {c : Char} (hc : c ∉ "Content-Type: ".toList ++ eightBit)
    (ht : c ∉ t) (hs : c ∉ s) : c ∉ bodyPart t s := by
  simp only [List.mem_append, not_or, eightBit, line] at hc
  simp only [bodyPart, line, eightBit, List.mem_append, not_or]
  exact ⟨⟨⟨⟨⟨hc.1, ht⟩, hc.2.2⟩, hc.2⟩, hc.2.2⟩, hs, hc.2.2⟩

theorem freshBoundaries_short :
    FreshBoundaries copyingReader someBoundaries (shortDraft (some ['H', 'o'])) := by
  have hinner : IsMimeBoundary someBoundaries.inner :=
    isMimeBoundary_hex (List.replicate 31 '0' ++ ['1']) rfl rfl (forall_mem_of_all (by decide))
  have hattached : IsMimeBoundary someBoundaries.attached :=
    isMimeBoundary_hex (List.replicate 31 '0' ++ ['4']) rfl rfl (forall_mem_of_all (by decide))
  have hmark : '_' ∉ "Content-Type: ".toList ++ eightBit := by
    unfold eightBit line
    rw [List.mem_append, List.mem_append, not_or, not_or]
    exact ⟨not_mem_literal (by decide), not_mem_literal (by decide), by decide⟩
  -- the number of the outer boundary is nowhere in the body
  have hpart : '4' ∉ "Content-Type: ".toList ++ eightBit := by
    unfold eightBit line
    rw [List.mem_append, List.mem_append, not_or, not_or]
    exact ⟨not_mem_literal (by decide), not_mem_literal (by decide), by decide⟩
  have hfour : '4' ∉ typeHeader (buildInnerBody someBoundaries (some ['H', 'i'])
      (some ['H', 'o'])).contentType ++
        (buildInnerBody someBoundaries (some ['H', 'i']) (some ['H', 'o'])).body := by
    have hbody : buildInnerBody someBoundaries (some ['H', 'i']) (some ['H', 'o']) = _ :=
      buildInnerBody_html rfl
    rw [hbody]
    have hinnerText : '4' ∉ dashBoundary someBoundaries.inner := by
      have hend : someBoundaries.inner = _ := String.toList_ofList
      rw [dashBoundary, hend]
      decide
    have hinner' : '4' ∉ someBoundaries.inner := fun h =>
      hinnerText (List.mem_cons_of_mem _ (List.mem_cons_of_mem _ h))
    have hplain : '4' ∉ bodyPart plainType (crlfLines ((some ['H', 'i']).getD [])) :=
      not_mem_bodyPart hpart (not_mem_literal (by decide)) (by decide)
    have hhtml : '4' ∉ bodyPart htmlType (crlfLines ['H', 'o']) :=
      not_mem_bodyPart hpart (not_mem_literal (by decide)) (by decide)
    have hpreamble : '4' ∉ preambleLine := not_mem_literal (by decide)
    have hcrlf : '4' ∉ crlf := by decide
    have htype : '4' ∉ typeHeader (multipartType "alternative".toList someBoundaries.inner) := by
      unfold typeHeader multipartType line
      rw [List.mem_append, List.mem_append, List.mem_append, List.mem_append, List.mem_append,
        List.mem_append, List.mem_append, not_or, not_or, not_or, not_or, not_or, not_or, not_or]
      exact ⟨⟨⟨not_mem_literal (by decide), ⟨⟨⟨not_mem_literal (by decide),
        not_mem_literal (by decide)⟩, not_mem_literal (by decide)⟩, hinner'⟩,
        not_mem_literal (by decide)⟩, hcrlf⟩, hcrlf⟩
    have henclosed := not_mem_enclose hpreamble hcrlf hinnerText (by decide) hplain hhtml
    exact fun hmem => (List.mem_append.mp hmem).elim htype fun hmem =>
      (List.mem_append.mp hmem).elim henclosed hcrlf
  have hmem : '4' ∈ dashBoundary someBoundaries.attached := by
    have hend : someBoundaries.attached = _ := String.toList_ofList
    rw [dashBoundary, hend]
    decide
  refine ⟨hinner, hattached, hinner.absent (not_mem_bodyPart hmark (not_mem_literal (by decide))
    (by decide)), ?_, fun hin => hfour (hin.subset hmem), ?_⟩
  · intro html hhtml
    obtain rfl := Option.some.inj hhtml
    exact hinner.absent (not_mem_bodyPart hmark (not_mem_literal (by decide)) (by decide))
  · intro data armor harmor
    obtain rfl := Option.some.inj harmor
    apply hattached.absent
    unfold keyPart line
    simp only [List.mem_append, not_or, -String.reduceToList]
    exact ⟨⟨⟨⟨not_mem_literal (by decide), by decide⟩, not_mem_literal (by decide), by decide⟩,
      by decide⟩, not_mem_literal (by decide), by decide⟩

/-- A text with HTML that is sent with the key. -/
theorem roundTrips_attached :
    ∃ sent, wrapOutboundOpengpg copyingReader.toPgp someBoundaries id oneKey ['a']
        { attachPublicKey := true } (shortDraft (some ['H', 'o'])) = .ok (some sent) ∧
      RoundTrips copyingReader plainMail someBoundaries id oneKey ['a']
        { attachPublicKey := true } (shortDraft (some ['H', 'o'])) sent := by
  have hkeys : ArmorsKeys copyingReader := by
    intro data armor harmor
    obtain rfl := Option.some.inj harmor
    exact ⟨by decide, by decide⟩
  have hsent : ∃ sent, wrapOutboundOpengpg copyingReader.toPgp someBoundaries id oneKey ['a']
      { attachPublicKey := true } (shortDraft (some ['H', 'o'])) = .ok (some sent) := ⟨_, rfl⟩
  obtain ⟨sent, hsent⟩ := hsent
  refine ⟨sent, hsent, (roundTrips_iff _ _ _ _ _ _ _ _ _ hkeys not_hasBlock_nil
    freshBoundaries_short hsent).mpr ⟨rfl, rfl, .inl rfl, ?_, ?_⟩⟩
  · rintro (h | h) <;> exact h (by decide)
  · intro html hhtml
    obtain rfl := Option.some.inj hhtml
    rintro (h | h) <;> exact h (by decide)

/-- What is signed has no type. -/
theorem roundTrips_fails_signed :
    ∃ sent, wrapOutboundOpengpg copyingReader.toPgp someBoundaries id oneKey ['a']
        { sign := true } (shortDraft none) = .ok (some sent) ∧
      ¬ RoundTrips copyingReader plainMail someBoundaries id oneKey ['a']
        { sign := true } (shortDraft none) sent := by
  have hsent : ∃ sent, wrapOutboundOpengpg copyingReader.toPgp someBoundaries id oneKey ['a']
      { sign := true } (shortDraft none) = .ok (some sent) := ⟨_, rfl⟩
  obtain ⟨sent, hsent⟩ := hsent
  refine ⟨sent, hsent, fun hround => ?_⟩
  obtain ⟨signed, encrypted, hwraps⟩ := exists_wraps hsent
  exact absurd (WellSent.sign_eq_false hwraps (hround signed encrypted hwraps)) (by decide)

end Lyra.Opengpg
