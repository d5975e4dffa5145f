import Lyra.Store.Schema

/-!
# Credentials in a backup

An archive holds the credentials of an account in the clear, as JSON: what reads as JSON is kept as
its value, other text as a string, other bytes in base64.  The import writes the value as text
again and encrypts that.

* `fromUtf8_eq_some`: bytes are the text that they decode to, and no other;
* `survivesBackup_iff`: a credential comes back exactly if it is text that is no JSON, or JSON in
  the form in which values are written, neither `null` nor a string;
* `null_password_lost`: the password `null`.
-/

namespace Lyra.Backup

/-! ## Text and bytes -/

def textBytes (t : Text) : ByteArray := (String.ofList t).toByteArray

/-- `std::str::from_utf8`. -/
def fromUtf8 (bytes : ByteArray) : Option Text := bytes.utf8Decode?.map Array.toList

theorem fromUtf8_textBytes (t : Text) : fromUtf8 (textBytes t) = some t := by
  unfold fromUtf8 textBytes
  rw [String.toByteArray_ofList, List.utf8Decode?_utf8Encode]
  rfl

theorem fromUtf8_eq_some {bytes : ByteArray} {t : Text} :
    fromUtf8 bytes = some t ↔ textBytes t = bytes := by
  constructor
  · intro h
    obtain ⟨chars, hchars, rfl⟩ := Option.map_eq_some_iff.mp h
    have hsome : bytes.utf8Decode?.isSome := by rw [hchars]; rfl
    have hback := ByteArray.utf8Encode_get_utf8Decode? (h := hsome)
    simp only [hchars, Option.get_some] at hback
    unfold textBytes
    rw [String.toByteArray_ofList, hback]
  · rintro rfl
    exact fromUtf8_textBytes t

theorem textBytes_inj {s t : Text} : textBytes s = textBytes t ↔ s = t := by
  constructor
  · intro h
    have hs := fromUtf8_textBytes s
    rw [h, fromUtf8_textBytes] at hs
    exact (Option.some.inj hs).symm
  · exact congrArg textBytes

/-! ## The two directions -/

/-- `serde_json::Value`, over the numbers `η`. -/
inductive JsonValue (η : Type)
  | null
  | bool (b : Bool)
  | number (n : η)
  | string (s : Text)
  | array (items : List (JsonValue η))
  | object (fields : List (Text × JsonValue η))

def JsonValue.isNull {η : Type} : JsonValue η → Bool
  | .null => true
  | _ => false

inductive CredentialError
  | crypto
  deriving DecidableEq, Repr

/-- The libraries: AES-256-GCM, serde_json and base64.  `κ` are the keys, `ν` the nonces and `β`
the stored texts of envelopes. -/
structure CredentialLib (κ ν β η : Type) where
  encrypt : κ → ν → ByteArray → β
  decrypt : κ → β → Option ByteArray
  fromStr : Text → Option (JsonValue η)
  toVec : JsonValue η → ByteArray
  base64 : ByteArray → Text

section Credential

variable {κ ν β η : Type} (lib : CredentialLib κ ν β η)

/-- The inner value of a credential. -/
def exportedValue (plain : ByteArray) : JsonValue η :=
  match fromUtf8 plain with
  | some text => (lib.fromStr text).getD (.string text)
  | none => .string (lib.base64 plain)

def decryptCredential (dek : κ) (column : Option β) : Except CredentialError (JsonValue η) :=
  match column with
  | none => .ok .null
  | some raw =>
    match lib.decrypt dek raw with
    | none => .error .crypto
    | some plain => .ok (exportedValue lib plain)

/-- A string is encrypted without its quotes. -/
def importedPlaintext : JsonValue η → ByteArray
  | .string s => textBytes s
  | other => lib.toVec other

def encryptCredential (dek : κ) (nonce : ν) (value : JsonValue η) : Option β :=
  if value.isNull then none else some (lib.encrypt dek nonce (importedPlaintext lib value))

/-- A credential under one key comes back under another: its column is exported and imported, and
the new column opens to the same bytes. -/
def SurvivesBackup (dek dek' : κ) (nonce nonce' : ν) (plain : ByteArray) : Prop :=
  ∃ value column, decryptCredential lib dek (some (lib.encrypt dek nonce plain)) = .ok value ∧
    encryptCredential lib dek' nonce' value = some column ∧ lib.decrypt dek' column = some plain

/-- Text that is no JSON, or a JSON value as it is written, neither null nor a string. -/
def PlainOrCanonical (plain : ByteArray) : Prop :=
  ∃ text, textBytes text = plain ∧
    ∀ value, lib.fromStr text = some value →
      value.isNull = false ∧ (∀ s, value ≠ .string s) ∧ lib.toVec value = plain

/-! ## What comes back -/

theorem importedPlaintext_of_ne_string {value : JsonValue η} (h : ∀ s, value ≠ .string s) :
    importedPlaintext lib value = lib.toVec value := by
  cases value with
  | string s => exact absurd rfl (h s)
  | _ => rfl

variable {lib}

theorem decryptCredential_encrypt
    (hopen : ∀ dek nonce plain, lib.decrypt dek (lib.encrypt dek nonce plain) = some plain)
    (dek : κ) (nonce : ν) (plain : ByteArray) :
    decryptCredential lib dek (some (lib.encrypt dek nonce plain)) =
      .ok (exportedValue lib plain) := by
  unfold decryptCredential
  dsimp only
  rw [hopen]

/-- A credential comes back if its value is not null and stands for the same bytes. -/
theorem survivesBackup_iff_value
    (hopen : ∀ dek nonce plain, lib.decrypt dek (lib.encrypt dek nonce plain) = some plain)
    (dek dek' : κ) (nonce nonce' : ν) (plain : ByteArray) :
    SurvivesBackup lib dek dek' nonce nonce' plain ↔
      (exportedValue lib plain).isNull = false ∧
        importedPlaintext lib (exportedValue lib plain) = plain := by
  unfold SurvivesBackup
  rw [decryptCredential_encrypt hopen]
  constructor
  · rintro ⟨value, column, hvalue, hcolumn, hplain⟩
    obtain rfl := Except.ok.inj hvalue
    unfold encryptCredential at hcolumn
    cases hnull : (exportedValue lib plain).isNull with
    | true =>
      rw [hnull, if_pos rfl] at hcolumn
      exact nomatch hcolumn
    | false =>
      rw [hnull, if_neg Bool.false_ne_true] at hcolumn
      obtain rfl := Option.some.inj hcolumn
      rw [hopen] at hplain
      exact ⟨rfl, Option.some.inj hplain⟩
  · rintro ⟨hnull, hplain⟩
    refine ⟨_, _, rfl, if_neg (by rw [hnull]; exact Bool.false_ne_true), ?_⟩
    rw [hopen, hplain]

/-- Bytes that are no text do not come back as the text of their base64. -/
theorem textBytes_ne_of_fromUtf8 {plain : ByteArray} (h : fromUtf8 plain = none) (t : Text) :
    textBytes t ≠ plain := by
  intro ht
  rw [fromUtf8_eq_some.mpr ht] at h
  exact nomatch h

theorem survivesBackup_iff
    (hopen : ∀ dek nonce plain, lib.decrypt dek (lib.encrypt dek nonce plain) = some plain)
    (hquotes : ∀ text s, lib.fromStr text = some (.string s) → s.length < text.length)
    (dek dek' : κ) (nonce nonce' : ν) (plain : ByteArray) :
    SurvivesBackup lib dek dek' nonce nonce' plain ↔ PlainOrCanonical lib plain := by
  rw [survivesBackup_iff_value hopen]
  unfold PlainOrCanonical exportedValue
  cases htext : fromUtf8 plain with
  | none =>
    have hno := textBytes_ne_of_fromUtf8 htext
    exact ⟨fun h => absurd h.2 (hno _), fun ⟨t, ht, _⟩ => absurd ht (hno t)⟩
  | some text =>
    obtain rfl := fromUtf8_eq_some.mp htext
    dsimp only
    cases hvalue : lib.fromStr text with
    | none =>
      rw [Option.getD_none]
      exact ⟨fun _ => ⟨text, rfl, fun v hv => by rw [hvalue] at hv; exact nomatch hv⟩,
        fun _ => ⟨rfl, rfl⟩⟩
    | some value =>
      rw [Option.getD_some]
      constructor
      · rintro ⟨hnull, hplain⟩
        have hstring : ∀ s, value ≠ .string s := by
          rintro s rfl
          have hlt := hquotes text s hvalue
          rw [textBytes_inj.mp hplain] at hlt
          exact absurd hlt (Nat.lt_irrefl _)
        rw [importedPlaintext_of_ne_string lib hstring] at hplain
        refine ⟨text, rfl, fun v hv => ?_⟩
        obtain rfl := Option.some.inj (hvalue.symm.trans hv)
        exact ⟨hnull, hstring, hplain⟩
      · rintro ⟨t, ht, h⟩
        obtain rfl := textBytes_inj.mp ht
        obtain ⟨hnull, hstring, hplain⟩ := h value hvalue
        exact ⟨hnull, (importedPlaintext_of_ne_string lib hstring).trans hplain⟩

end Credential

/-! ## Two passwords -/

/-- Envelopes in the clear; of JSON it knows the literals. -/
def literalLib : CredentialLib Unit Unit ByteArray Nat where
  encrypt _ _ plain := plain
  decrypt _ envelope := some envelope
  fromStr text :=
    if text = "null".toList then some .null
    else if text = "true".toList then some (.bool true)
    else if text = "false".toList then some (.bool false)
    else none
  toVec value :=
    match value with
    | .bool true => textBytes "true".toList
    | .bool false => textBytes "false".toList
    | _ => textBytes "null".toList
  base64 _ := []

theorem literalLib_opens (dek nonce : Unit) (plain : ByteArray) :
    literalLib.decrypt dek (literalLib.encrypt dek nonce plain) = some plain := rfl

theorem literalLib_quotes (text s : Text) (h : literalLib.fromStr text = some (.string s)) :
    s.length < text.length := by
  unfold literalLib at h
  dsimp only at h
  split_ifs at h
  all_goals exact nomatch h

/-- An ordinary password survives, and so does the password `true`. -/
theorem ordinary_password_survives :
    SurvivesBackup literalLib () () () () (textBytes "hunter2".toList) ∧
      SurvivesBackup literalLib () () () () (textBytes "true".toList) := by
  refine ⟨(survivesBackup_iff literalLib_opens literalLib_quotes () () () () _).mpr
    ⟨_, rfl, fun value h => ?_⟩, (survivesBackup_iff literalLib_opens literalLib_quotes
      () () () () _).mpr ⟨_, rfl, fun value h => ?_⟩⟩
  · exact nomatch h
  · obtain rfl := Option.some.inj (h : some (JsonValue.bool true) = some value)
    exact ⟨rfl, fun s hs => (nomatch hs), rfl⟩

/-- The password `null` is imported as no credential. -/
theorem null_password_lost :
    ¬ SurvivesBackup literalLib () () () () (textBytes "null".toList) ∧
      decryptCredential literalLib () (some (literalLib.encrypt () () (textBytes "null".toList))) =
        .ok .null ∧
      encryptCredential literalLib () () .null = none := by
  have hvalue : exportedValue literalLib (textBytes "null".toList) = .null := by
    unfold exportedValue
    rw [fromUtf8_textBytes]
    rfl
  refine ⟨fun h => ?_, ?_, rfl⟩
  · have hnull := ((survivesBackup_iff_value literalLib_opens () () () () _).mp h).1
    rw [hvalue] at hnull
    exact nomatch hnull
  · rw [decryptCredential_encrypt literalLib_opens, hvalue]

end Lyra.Backup
