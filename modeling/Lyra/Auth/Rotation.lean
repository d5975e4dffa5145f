import Lyra.Auth.Cipher
import Lyra.Store.Kv
import Lyra.Lib.Requests

/-!
# Rotation of legacy secrets

`get_user_dek` of `auth/state.rs` for a user from before the key hierarchy: the first lookup
stores a wrapped key and then re-encrypts the user's secrets one by one (`auth/dek.rs`).  Lookups
and changes of secrets run side by side, call by call; any call may fail, and the process may
stop at any call.

* `secrets_kept`: where the rotation, once its key is stored, neither fails nor stops before the
  last legacy secret is rewritten, and no secret changes between its read and its rewrite, every
  stored secret opens to its current text, and with the readers' key unless the rotation is still
  under way;
* `secrets_stranded`: a stop after the key is stored, and a password changed during the rotation.
-/

namespace Lyra.Dek

open Lyra.Lib

/-! ## Keys -/

/-- `LEGACY_DEFAULT_MASTER_KEY`. -/
def legacyDefaultMasterKey : Text := "lyra-default-master-key-for-dev-only".toList

/-- The key before the hierarchy: 32 bytes of the master key, or it and zeros. -/
def padMasterKeyToDek (master : Text) : Text :=
  master.take 32 ++ List.replicate (32 - master.length) '\x00'

def legacyDekCandidates (master : Text) : List Text :=
  if padMasterKeyToDek master = padMasterKeyToDek legacyDefaultMasterKey then
    [padMasterKeyToDek master]
  else [padMasterKeyToDek master, padMasterKeyToDek legacyDefaultMasterKey]

inductive CryptoError
  | storage
  | missingDek
  | decrypt
  deriving DecidableEq, Repr

/-- A text column: the JSON of an `EncryptedCredential`, or another text. -/
inductive Stored (β : Type)
  | blob (b : β)
  | other (t : Text)
  deriving DecidableEq, Repr

/-- A secret under the user's key. -/
inductive SecretId
  | credential (account : AccountId)
  | totp
  deriving DecidableEq, Repr

section Keys

variable {ν β : Type} (C : Cipher Text ν β) (master kek : Text)

def tryDecryptWithLegacyKeys (b : β) : Option Text :=
  (legacyDekCandidates master).findSome? fun key => C.decrypt key b

def unwrapDek (wrapped : β) : Option Text := C.decrypt kek wrapped

/-- `decrypt_password` and `decrypt_totp_secret`. -/
def Stored.open (key : Text) : Stored β → Option Text
  | .blob b => C.decrypt key b
  | .other _ => none

/-- What the rotation would re-encrypt: a TOTP secret may stand in the clear. -/
def legacyText : SecretId → Stored β → Option Text
  | _, .blob b => tryDecryptWithLegacyKeys C master b
  | .credential _, .other _ => none
  | .totp, .other t => some t

theorem legacyText_sealed {key : Text} (hkey : key ∉ legacyDekCandidates master) (id : SecretId)
    (n : ν) (t : Text) : legacyText C master id (.blob (C.encrypt key n t)) = none := by
  have hnone : tryDecryptWithLegacyKeys C master (C.encrypt key n t) = none := by
    refine List.findSome?_eq_none_iff.mpr ?_
    intro k hk
    refine C.decrypt_other key k n t ?_
    rintro rfl
    exact hkey hk
  cases id with
  | credential a => exact hnone
  | totp => exact hnone

end Keys

/-! ## Calls -/

inductive DekCall (ν β : Type)
  | fetchEncryptedDek
  | generateKey
  | nonce
  /-- `store_wrapped_dek_if_missing`; it answers with the rows affected. -/
  | storeWrapped (wrapped : β)
  | fetchCredentials
  | fetchTotp
  /-- The rotation's UPDATE of a secret. -/
  | rewrite (id : SecretId) (stored : Stored β)
  /-- The rotation is over, with or without an error. -/
  | rotated
  /-- A new password or TOTP secret: the UPDATE. -/
  | change (id : SecretId) (text : Text) (stored : Stored β)
  | insert (account : AccountId) (text : Text) (stored : Stored β)
  /-- An account is deleted, or TOTP disabled. -/
  | clear (id : SecretId)

/-- `none` and `false` are errors of the store. -/
abbrev DekCall.Answer (ν β : Type) : DekCall ν β → Type
  | .fetchEncryptedDek => Option (Option β)
  | .generateKey => Text
  | .nonce => ν
  | .storeWrapped _ => Option Nat
  | .fetchCredentials => Option (List (AccountId × Stored β))
  | .fetchTotp => Option (Option (Stored β))
  | .rewrite .. => Bool
  | .rotated => Unit
  | .change .. => Bool
  | .insert .. => Bool
  | .clear _ => Bool

abbrev DekProg (ν β : Type) := Prog (DekCall ν β) (DekCall.Answer ν β)

section Programs

variable {ν β : Type} (C : Cipher Text ν β) (master kek : Text)

def encryptSecret (dek : Text) (text : Text) : DekProg ν β (Stored β) := do
  let nonce ← Prog.ask DekCall.nonce
  return .blob (C.encrypt dek nonce text)

/-- The loop over the accounts. -/
def rotateCredentials (dek : Text) :
    List (AccountId × Stored β) → DekProg ν β (Except CryptoError Unit)
  | [] => return .ok ()
  | (account, stored) :: rest => do
    match legacyText C master (.credential account) stored with
    | none => rotateCredentials dek rest
    | some plaintext =>
      let rotated ← encryptSecret C dek plaintext
      if ← Prog.ask (DekCall.rewrite (.credential account) rotated) then
        rotateCredentials dek rest
      else return .error .storage

def rotateLegacyTotpSecret (dek : Text) : DekProg ν β (Except CryptoError Unit) := do
  match ← Prog.ask DekCall.fetchTotp with
  | none => return .error .storage
  | some none => return .ok ()
  | some (some stored) =>
    match legacyText C master .totp stored with
    | none => return .ok ()
    | some plaintext =>
      let rotated ← encryptSecret C dek plaintext
      if ← Prog.ask (DekCall.rewrite .totp rotated) then return .ok ()
      else return .error .storage

def rotateLegacySecrets (dek : Text) : DekProg ν β (Except CryptoError Unit) := do
  match ← Prog.ask DekCall.fetchCredentials with
  | none => return .error .storage
  | some accounts =>
    match ← rotateCredentials C master dek accounts with
    | .error e => return .error e
    | .ok _ => rotateLegacyTotpSecret C master dek

def unwrap (wrapped : β) : Except CryptoError Text :=
  match unwrapDek C kek wrapped with
  | some dek => .ok dek
  | none => .error .decrypt

/-- What the caller does whose key was stored. -/
def rotateOnto (dek : Text) : DekProg ν β (Except CryptoError Text) := do
  let result ← rotateLegacySecrets C master dek
  Prog.ask DekCall.rotated
  match result with
  | .error e => return .error e
  | .ok _ => return .ok dek

def provisionAndRotateLegacyDek : DekProg ν β (Except CryptoError Text) := do
  let dek ← Prog.ask DekCall.generateKey
  let nonce ← Prog.ask DekCall.nonce
  match ← Prog.ask (DekCall.storeWrapped (C.encrypt kek nonce dek)) with
  | none => return .error .storage
  | some 0 =>
    match ← Prog.ask DekCall.fetchEncryptedDek with
    | none => return .error .storage
    | some none => return .error .missingDek
    | some (some existing) => return unwrap C kek existing
  | some (_ + 1) => rotateOnto C master dek

def getUserDek : DekProg ν β (Except CryptoError Text) := do
  match ← Prog.ask DekCall.fetchEncryptedDek with
  | none => return .error .storage
  | some (some wrapped) => return unwrap C kek wrapped
  | some none => provisionAndRotateLegacyDek C master kek

/-- The user's requests that need the key, or drop a secret. -/
inductive DekRequest
  | read
  /-- `PATCH` of a password, or a new TOTP enrolment. -/
  | change (id : SecretId) (text : Text)
  | create (account : AccountId) (text : Text)
  | clear (id : SecretId)
  deriving DecidableEq, Repr

/-- A secret is encrypted with the key that is looked up first, and written. -/
def putSecret (text : Text) (write : Stored β → DekProg ν β Bool) : DekProg ν β PUnit := do
  match ← getUserDek C master kek with
  | .error _ => return ⟨⟩
  | .ok dek =>
    let stored ← encryptSecret C dek text
    let _ ← write stored

def DekRequest.steps : DekRequest → DekProg ν β PUnit
  | .read => do
    let _ ← getUserDek C master kek
  | .change id text => putSecret C master kek text fun s => Prog.ask (DekCall.change id text s)
  | .create account text =>
    putSecret C master kek text fun s => Prog.ask (DekCall.insert account text s)
  | .clear id => do
    let _ ← Prog.ask (DekCall.clear id)

end Programs

/-! ## The user's rows -/

structure Vault (β : Type) where
  /-- `lyra_user.encrypted_dek`. -/
  encryptedDek : Option β
  /-- The accounts that were ever there, in the order of the table. -/
  accounts : List AccountId
  stored : SecretId → Option (Stored β)
  /-- What every secret is now. -/
  texts : SecretId → Option Text
  /-- Who stored the key and is rotating. -/
  rotating : Option Nat
  /-- The secrets that are read and not yet rewritten. -/
  pending : List SecretId
  /-- The requests of the process that runs. -/
  alive : List Nat

/-- What the world decides of a call. -/
structure DekChoice (ν : Type) where
  outcome : CallOutcome
  /-- The process stops instead. -/
  stops : Bool
  key : Text
  nonce : ν

namespace Vault

variable {ν β : Type} (C : Cipher Text ν β) (master kek : Text) (w : Vault β)

def rows : List (AccountId × Stored β) :=
  w.accounts.filterMap fun a => (w.stored (.credential a)).map (a, ·)

def isLegacy (id : SecretId) : Bool :=
  ((w.stored id).bind (legacyText C master id)).isSome

/-- There is a secret the rotation has still to rewrite. -/
def legacyLeft : Bool :=
  w.isLegacy C master .totp || w.accounts.any fun a => w.isLegacy C master (.credential a)

/-- The key `get_user_dek` gives once there is one. -/
def readerKey : Option Text := w.encryptedDek.bind (unwrapDek C kek)

/-- The process stops, and no request of it goes on. -/
def stop : Vault β := { w with rotating := none, pending := [], alive := [] }

def storeDek (i : Nat) (wrapped : β) (answered : Bool) : Vault β :=
  { w with encryptedDek := some wrapped, rotating := if answered then some i else none }

/-- The account's row is there, or it is the user's own. -/
def hasRow : SecretId → Bool
  | .credential a => (w.stored (.credential a)).isSome
  | .totp => true

def rewrite (id : SecretId) (stored : Stored β) : Vault β :=
  { w with
    stored := if w.hasRow id then Function.update w.stored id (some stored) else w.stored
    pending := w.pending.filter (· ≠ id) }

def change (id : SecretId) (text : Text) (stored : Stored β) : Vault β :=
  if w.hasRow id then
    { w with
      stored := Function.update w.stored id (some stored)
      texts := Function.update w.texts id (some text) }
  else w

def insert (account : AccountId) (text : Text) (stored : Stored β) : Vault β :=
  if account ∈ w.accounts then w
  else
    { w with
      accounts := w.accounts ++ [account]
      stored := Function.update w.stored (.credential account) (some stored)
      texts := Function.update w.texts (.credential account) (some text) }

def clear (id : SecretId) : Vault β :=
  { w with stored := Function.update w.stored id none, texts := Function.update w.texts id none }

/-- The rotation reads these secrets. -/
def scan (ids : List SecretId) : Vault β :=
  { w with pending := ids.filter (w.isLegacy C master) }

end Vault

section Exec

variable {ν β : Type} (C : Cipher Text ν β) (master kek : Text)

/-- A call of a process that does not stop. -/
def perform (i : Nat) (c : DekChoice ν) (o : DekCall ν β) (w : Vault β) :
    Vault β × o.Answer ν β :=
  let works := decide (c.outcome = .works)
  match o with
  | .fetchEncryptedDek => (w, if works then some w.encryptedDek else none)
  | .generateKey => (w, c.key)
  | .nonce => (w, c.nonce)
  | .storeWrapped wrapped =>
    (if w.encryptedDek.isNone && c.outcome.takesEffect then w.storeDek i wrapped works else w,
      if works then some (if w.encryptedDek.isNone then 1 else 0) else none)
  | .fetchCredentials =>
    (if works then w.scan C master (w.accounts.map .credential) else w,
      if works then some w.rows else none)
  | .fetchTotp =>
    (if works then w.scan C master [.totp] else w, if works then some (w.stored .totp) else none)
  | .rewrite id stored => (if c.outcome.takesEffect then w.rewrite id stored else w, works)
  | .rotated => ({ w with rotating := none, pending := [] }, ())
  | .change id text stored => (if c.outcome.takesEffect then w.change id text stored else w, works)
  | .insert account text stored =>
    (if c.outcome.takesEffect then w.insert account text stored else w,
      works && !w.accounts.contains account)
  | .clear id => (if c.outcome.takesEffect then w.clear id else w, works)

def exec (i : Nat) (c : DekChoice ν) (o : DekCall ν β) (w : Vault β) :
    Option (Vault β × o.Answer ν β) :=
  if i ∈ w.alive then
    let r := perform C master i c o w
    some (if c.stops then (w.stop, r.2) else r)
  else none

/-- The requests of a user whose secrets are all from before the hierarchy. -/
def dekService : Service (Vault β) (DekCall ν β) (DekCall.Answer ν β) DekRequest (DekChoice ν)
    Empty where
  init w := w.encryptedDek = none ∧ w.rotating = none ∧ w.pending = [] ∧ w.alive = [] ∧
    w.accounts.Nodup ∧ (∀ a, w.stored (.credential a) ≠ none → a ∈ w.accounts) ∧
    ∀ id, w.texts id = (w.stored id).bind (legacyText C master id) ∧
      (w.texts id = none → w.stored id = none)
  exec := exec C master
  request q := q.steps C master kek
  arrive i _ w := { w with alive := i :: w.alive }
  env e _ := nomatch e

end Exec

/-! ## The rules -/

section Rules

variable {ν β : Type} (C : Cipher Text ν β) (master kek : Text)

/-- A call of a process that goes on: a rotation neither fails before the last legacy secret is
rewritten, nor does a secret change between its read and its rewrite. -/
def Proceeds (i : Nat) (c : DekChoice ν) (w : Vault β) : DekCall ν β → Prop
  | .generateKey => c.key ∉ legacyDekCandidates master
  | .storeWrapped _ =>
    c.outcome = .lost → w.encryptedDek.isNone = true → w.legacyLeft C master = false
  | .fetchCredentials => c.outcome = .works ∨ w.legacyLeft C master = false
  | .fetchTotp => c.outcome = .works ∨ w.legacyLeft C master = false
  | .rewrite id stored => c.outcome = .works ∨
    (perform C master i c (.rewrite id stored) w).1.legacyLeft C master = false
  | .change id text _ => id ∈ w.pending → w.texts id = some text
  | .clear id => id = .totp → .totp ∉ w.pending
  | _ => True

/-- The call proceeds so, or the process stops with no rotation under way or no legacy secret
left. -/
def Careful (i : Nat) (c : DekChoice ν) (o : DekCall ν β) (w : Vault β) : Prop :=
  if c.stops then w.rotating = none ∨ w.legacyLeft C master = false else Proceeds C master i c w o

instance (i : Nat) (c : DekChoice ν) (w : Vault β) (o : DekCall ν β) :
    Decidable (Proceeds C master i c w o) :=
  match o with
  | .generateKey => inferInstanceAs (Decidable (c.key ∉ legacyDekCandidates master))
  | .storeWrapped _ => inferInstanceAs (Decidable (c.outcome = .lost →
      w.encryptedDek.isNone = true → w.legacyLeft C master = false))
  | .fetchCredentials =>
    inferInstanceAs (Decidable (c.outcome = .works ∨ w.legacyLeft C master = false))
  | .fetchTotp => inferInstanceAs (Decidable (c.outcome = .works ∨ w.legacyLeft C master = false))
  | .rewrite id stored => inferInstanceAs (Decidable (c.outcome = .works ∨
      (perform C master i c (.rewrite id stored) w).1.legacyLeft C master = false))
  | .change id text _ => inferInstanceAs (Decidable (id ∈ w.pending → w.texts id = some text))
  | .clear id => inferInstanceAs (Decidable (id = .totp → .totp ∉ w.pending))
  | .fetchEncryptedDek | .nonce | .rotated | .insert .. => inferInstanceAs (Decidable True)

instance (i : Nat) (c : DekChoice ν) (o : DekCall ν β) (w : Vault β) :
    Decidable (Careful C master i c o w) :=
  inferInstanceAs (Decidable (if c.stops then _ else _))

/-- Encrypted with the readers' key. -/
def Sealed (w : Vault β) (s : Stored β) (t : Text) : Prop :=
  ∃ key n, w.readerKey C kek = some key ∧ s = .blob (C.encrypt key n t)

structure DekInv (w : Vault β) : Prop where
  wrapped : ∀ b, w.encryptedDek = some b →
    ∃ key, unwrapDek C kek b = some key ∧ key ∉ legacyDekCandidates master
  accounts : w.accounts.Nodup
  listed : ∀ a, w.stored (.credential a) ≠ none → a ∈ w.accounts
  pending : ∀ a, .credential a ∈ w.pending → a ∈ w.accounts
  idle : w.rotating = none → w.pending = []
  keyed : w.encryptedDek = none → w.rotating = none
  secret : ∀ id s, w.stored id = some s → ∃ t, w.texts id = some t ∧
    (Sealed C kek w s t ∨
      legacyText C master id s = some t ∧ (w.encryptedDek = none ∨ w.rotating ≠ none))
  gone : ∀ id, w.stored id = none → w.texts id = none

/-- The rotation that has read this text of the secret may write it. -/
def Holds (id : SecretId) (t : Text) (w : Vault β) : Prop :=
  w.texts id = some t ∨ (w.texts id = none ∧ id ≠ .totp)

/-- What others leave of what a request knows, while the process goes on. -/
structure Others (i : Nat) (w w' : Vault β) : Prop where
  dek : ∀ b, w.encryptedDek = some b → w'.encryptedDek = some b
  rotating : w'.rotating = some i ↔ w.rotating = some i
  pending : w.rotating = some i → w'.pending = w.pending
  clean : ∀ id, w.isLegacy C master id = false → w'.isLegacy C master id = false
  texts : w.rotating = some i → ∀ id ∈ w.pending, ∀ t, Holds id t w → Holds id t w'

def DekRely (i : Nat) (w w' : Vault β) : Prop :=
  i ∈ w'.alive → i ∈ w.alive ∧ Others C master i w w'

def dekRules : Service.Rules (Vault β) (DekCall ν β) (DekChoice ν) where
  inv := DekInv C master kek
  ok := Careful C master
  guarantee i w w' := ∀ j, j ≠ i → DekRely C master j w w'
  rely := DekRely C master
  unborn i w := i ∉ w.alive

end Rules

variable {ν β : Type} {C : Cipher Text ν β} {master kek : Text} {i j : Nat} {c : DekChoice ν}
  {w w' : Vault β} {id : SecretId} {t key : Text} {s : Stored β}

theorem Others.refl (i : Nat) (w : Vault β) : Others C master i w w :=
  ⟨fun _ h => h, Iff.rfl, fun _ => rfl, fun _ h => h, fun _ _ _ _ h => h⟩

theorem Others.trans {u : Vault β} (h : Others C master i w w') (h' : Others C master i w' u) :
    Others C master i w u := by
  refine ⟨fun b hb => h'.dek b (h.dek b hb), h'.rotating.trans h.rotating, ?_,
    fun id hid => h'.clean id (h.clean id hid), ?_⟩
  · intro hrot
    exact (h'.pending (h.rotating.mpr hrot)).trans (h.pending hrot)
  · intro hrot id hid t ht
    refine h'.texts (h.rotating.mpr hrot) id ?_ t (h.texts hrot id hid t ht)
    rw [h.pending hrot]
    exact hid

theorem DekRely.refl (i : Nat) (w : Vault β) : DekRely C master i w w :=
  fun h => ⟨h, .refl i w⟩

theorem DekRely.trans {u : Vault β} (h : DekRely C master i w w') (h' : DekRely C master i w' u) :
    DekRely C master i w u := by
  intro hu
  obtain ⟨halive', hothers'⟩ := h' hu
  obtain ⟨halive, hothers⟩ := h halive'
  exact ⟨halive, hothers.trans hothers'⟩

/-! ## The rows -/

theorem isLegacy_none (h : w.stored id = none) : w.isLegacy C master id = false := by
  unfold Vault.isLegacy
  rw [h]
  rfl

theorem isLegacy_some (h : w.stored id = some s) :
    w.isLegacy C master id = (legacyText C master id s).isSome := by
  unfold Vault.isLegacy
  rw [h]
  rfl

theorem DekInv.clean (hinv : DekInv C master kek w) (h : w.legacyLeft C master = false)
    (id : SecretId) : w.isLegacy C master id = false := by
  obtain ⟨htotp, hcredentials⟩ := Bool.or_eq_false_iff.mp h
  cases id with
  | totp => exact htotp
  | credential a =>
    cases hstored : w.stored (.credential a) with
    | none => exact isLegacy_none hstored
    | some s =>
      have hlisted := hinv.listed a (by rw [hstored]; exact Option.some_ne_none s)
      exact eq_false_of_ne_true fun hlegacy =>
        absurd (List.any_eq_false.mp hcredentials a hlisted) (not_not_intro hlegacy)

theorem DekInv.sealed_of_clean (hinv : DekInv C master kek w)
    (hclean : w.isLegacy C master id = false) (hs : w.stored id = some s) :
    ∃ t, w.texts id = some t ∧ Sealed C kek w s t := by
  obtain ⟨t, ht, hsealed | ⟨hlegacy, _⟩⟩ := hinv.secret id s hs
  · exact ⟨t, ht, hsealed⟩
  · rw [isLegacy_some hs, hlegacy] at hclean
    cases hclean

theorem isLegacy_sealed (hkey : key ∉ legacyDekCandidates master) {n : ν}
    (h : w.stored id = some (.blob (C.encrypt key n t))) : w.isLegacy C master id = false := by
  rw [isLegacy_some h, legacyText_sealed C master hkey id n t]
  rfl

theorem readerKey_wrapped (hinv : DekInv C master kek w) (h : w.readerKey C kek = some key) :
    w.encryptedDek ≠ none ∧ key ∉ legacyDekCandidates master := by
  obtain ⟨b, hb, hkey⟩ := Option.bind_eq_some_iff.mp h
  obtain ⟨key', hkey', hfresh⟩ := hinv.wrapped b hb
  obtain rfl := Option.some.inj (hkey.symm.trans hkey')
  refine ⟨?_, hfresh⟩
  rw [hb]
  exact Option.some_ne_none b

theorem Others.readerKey (h : Others C master i w w') (hkey : w.readerKey C kek = some key) :
    w'.readerKey C kek = some key := by
  obtain ⟨b, hb, hunwrap⟩ := Option.bind_eq_some_iff.mp hkey
  exact Option.bind_eq_some_iff.mpr ⟨b, h.dek b hb, hunwrap⟩

/-! ## The steps -/

/-- What a request is to show of each of its calls. -/
def Step (C : Cipher Text ν β) (master kek : Text) (i : Nat) (w w' : Vault β) : Prop :=
  DekInv C master kek w' ∧ ∀ j, j ≠ i → DekRely C master j w w'

theorem step_read (hinv : DekInv C master kek w) : Step C master kek i w w :=
  ⟨hinv, fun j _ => .refl j w⟩

theorem step_stop (hinv : DekInv C master kek w)
    (h : w.rotating = none ∨ w.legacyLeft C master = false) : Step C master kek i w w.stop := by
  refine ⟨⟨hinv.wrapped, hinv.accounts, hinv.listed, ?_, fun _ => rfl, fun _ => rfl, ?_,
    hinv.gone⟩, ?_⟩
  · intro a ha
    exact absurd ha List.not_mem_nil
  · intro id s hs
    rcases h with hidle | hleft
    · obtain ⟨t, ht, hsealed | ⟨hlegacy, hdek⟩⟩ := hinv.secret id s hs
      · exact ⟨t, ht, .inl hsealed⟩
      · exact ⟨t, ht, .inr ⟨hlegacy, .inl (hdek.resolve_right (not_not_intro hidle))⟩⟩
    · obtain ⟨t, ht, hsealed⟩ := hinv.sealed_of_clean (hinv.clean hleft id) hs
      exact ⟨t, ht, .inl hsealed⟩
  · intro j _ halive
    exact absurd halive List.not_mem_nil

theorem step_scan (hinv : DekInv C master kek w) (hrot : w.rotating = some i)
    {ids : List SecretId} (hids : ∀ a, .credential a ∈ ids → a ∈ w.accounts) :
    Step C master kek i w (w.scan C master ids) := by
  refine ⟨⟨hinv.wrapped, hinv.accounts, hinv.listed, ?_, ?_, hinv.keyed, hinv.secret,
    hinv.gone⟩, ?_⟩
  · intro a ha
    exact hids a (List.mem_of_mem_filter ha)
  · intro hidle
    have hsome : (w.scan C master ids).rotating = some i := hrot
    rw [hidle] at hsome
    cases hsome
  · intro j hj halive
    have hother : w.rotating ≠ some j := by
      rw [hrot]
      exact fun h => hj (Option.some.inj h).symm
    exact ⟨halive, ⟨fun _ h => h, Iff.rfl, fun h => (hother h).elim, fun _ h => h,
      fun h => (hother h).elim⟩⟩

/-- A key is stored where there was none: by a request that goes on to rotate, or with no legacy
secret left. -/
theorem step_store (hinv : DekInv C master kek w) (hnone : w.encryptedDek = none) {b : β}
    (hkey : unwrapDek C kek b = some key) (hfresh : key ∉ legacyDekCandidates master)
    {answered : Bool} (hleft : answered = false → w.legacyLeft C master = false) :
    Step C master kek i w (w.storeDek i b answered) := by
  have hidle := hinv.keyed hnone
  have hpending := hinv.idle hidle
  refine ⟨⟨?_, hinv.accounts, hinv.listed, hinv.pending, fun _ => hpending, ?_, ?_, hinv.gone⟩, ?_⟩
  · intro b' hb'
    obtain rfl := Option.some.inj hb'
    exact ⟨key, hkey, hfresh⟩
  · intro h
    cases h
  · intro id s hs
    have hunsealed : ∀ t, ¬ Sealed C kek w s t := by
      rintro t ⟨key', n, hkey', _⟩
      exact (readerKey_wrapped hinv hkey').1 hnone
    cases answered with
    | true =>
      obtain ⟨t, ht, hsealed | ⟨hlegacy, _⟩⟩ := hinv.secret id s hs
      · exact (hunsealed t hsealed).elim
      · exact ⟨t, ht, .inr ⟨hlegacy, .inr (Option.some_ne_none i)⟩⟩
    | false =>
      obtain ⟨t, _, hsealed⟩ := hinv.sealed_of_clean (hinv.clean (hleft rfl) id) hs
      exact (hunsealed t hsealed).elim
  · intro j hj halive
    have hother : w.rotating ≠ some j := by
      rw [hidle]
      exact (Option.some_ne_none j).symm
    refine ⟨halive, ⟨?_, ?_, fun h => (hother h).elim, fun _ h => h, fun h => (hother h).elim⟩⟩
    · intro b' hb'
      rw [hnone] at hb'
      cases hb'
    · refine iff_of_false ?_ hother
      cases answered with
      | true => exact fun h => hj (Option.some.inj h).symm
      | false => exact (Option.some_ne_none j).symm

theorem step_rotated (hinv : DekInv C master kek w) (hrot : w.rotating = some i)
    (hclean : ∀ id, w.isLegacy C master id = false) :
    Step C master kek i w { w with rotating := none, pending := [] } := by
  refine ⟨⟨hinv.wrapped, hinv.accounts, hinv.listed, ?_, fun _ => rfl, fun _ => rfl, ?_,
    hinv.gone⟩, ?_⟩
  · intro a ha
    exact absurd ha List.not_mem_nil
  · intro id s hs
    obtain ⟨t, ht, hsealed⟩ := hinv.sealed_of_clean (hclean id) hs
    exact ⟨t, ht, .inl hsealed⟩
  · intro j hj halive
    have hother : w.rotating ≠ some j := by
      rw [hrot]
      exact fun h => hj (Option.some.inj h).symm
    exact ⟨halive, ⟨fun _ h => h, iff_of_false (Option.some_ne_none j).symm hother,
      fun h => (hother h).elim, fun _ h => h, fun h => (hother h).elim⟩⟩

theorem hasRow_of_stored (h : w.stored id = some s) : w.hasRow id = true := by
  cases id with
  | totp => rfl
  | credential a => exact Option.isSome_of_eq_some h

theorem stored_of_hasRow (h : w.hasRow id = true) : w.stored id ≠ none ∨ id = .totp := by
  cases id with
  | totp => exact .inr rfl
  | credential a => exact .inl (Option.isSome_iff_ne_none.mp h)

theorem rewrite_self (h : w.hasRow id = true) : (w.rewrite id s).stored id = some s := by
  unfold Vault.rewrite
  rw [if_pos h]
  exact Function.update_self ..

theorem rewrite_other {id' : SecretId} (h : w.hasRow id = true → id' ≠ id) :
    (w.rewrite id s).stored id' = w.stored id' := by
  unfold Vault.rewrite
  dsimp only
  split
  · rename_i hrow
    exact Function.update_of_ne (h hrow) ..
  · rfl

/-- The rotation writes the text it has read, which is the secret still. -/
theorem step_rewrite (hinv : DekInv C master kek w) (hrot : w.rotating = some i)
    (hkey : w.readerKey C kek = some key) (hholds : Holds id t w) (n : ν) :
    Step C master kek i w (w.rewrite id (.blob (C.encrypt key n t))) := by
  have hfresh := (readerKey_wrapped hinv hkey).2
  have htext : w.hasRow id = true → w.texts id = some t := by
    intro hrow
    refine hholds.resolve_right ?_
    rintro ⟨hgone, hne⟩
    rcases stored_of_hasRow hrow with hstored | htotp
    · obtain ⟨s, hs⟩ := Option.ne_none_iff_exists'.mp hstored
      obtain ⟨t', ht', _⟩ := hinv.secret id s hs
      rw [hgone] at ht'
      cases ht'
    · exact hne htotp
  refine ⟨⟨hinv.wrapped, hinv.accounts, ?_, ?_, ?_, hinv.keyed, ?_, ?_⟩, ?_⟩
  · intro a ha
    by_cases hself : w.hasRow id = true ∧ id = .credential a
    · obtain ⟨hrow, rfl⟩ := hself
      exact hinv.listed a (Option.isSome_iff_ne_none.mp hrow)
    · rw [rewrite_other fun hrow heq => hself ⟨hrow, heq.symm⟩] at ha
      exact hinv.listed a ha
  · intro a ha
    exact hinv.pending a (List.mem_of_mem_filter ha)
  · intro hidle
    have hsome : w.rotating = none := hidle
    rw [hrot] at hsome
    cases hsome
  · intro id' s hs
    by_cases hself : w.hasRow id = true ∧ id' = id
    · obtain ⟨hrow, rfl⟩ := hself
      rw [rewrite_self hrow] at hs
      obtain rfl := Option.some.inj hs
      exact ⟨t, htext hrow, .inl ⟨key, n, hkey, rfl⟩⟩
    · rw [rewrite_other fun hrow heq => hself ⟨hrow, heq⟩] at hs
      exact hinv.secret id' s hs
  · intro id' hs
    by_cases hself : w.hasRow id = true ∧ id' = id
    · obtain ⟨hrow, rfl⟩ := hself
      rw [rewrite_self hrow] at hs
      cases hs
    · rw [rewrite_other fun hrow heq => hself ⟨hrow, heq⟩] at hs
      exact hinv.gone id' hs
  · intro j hj halive
    have hother : w.rotating ≠ some j := by
      rw [hrot]
      exact fun h => hj (Option.some.inj h).symm
    refine ⟨halive, ⟨fun _ h => h, Iff.rfl, fun h => (hother h).elim, ?_,
      fun h => (hother h).elim⟩⟩
    intro id' hclean
    by_cases hself : w.hasRow id = true ∧ id' = id
    · obtain ⟨hrow, rfl⟩ := hself
      exact isLegacy_sealed hfresh (rewrite_self hrow)
    · unfold Vault.isLegacy at hclean ⊢
      rw [rewrite_other fun hrow heq => hself ⟨hrow, heq⟩]
      exact hclean

/-- A secret and its text are set together, to what opens with the readers' key. -/
theorem step_put (hinv : DekInv C master kek w) (hkey : w.readerKey C kek = some key) (n : ν)
    (hpending : id ∈ w.pending → w.texts id = some t) {accounts : List AccountId}
    (hnodup : accounts.Nodup) (hsub : w.accounts ⊆ accounts)
    (hlisted : ∀ a, id = .credential a → a ∈ accounts) :
    Step C master kek i w
      { w with
        accounts := accounts
        stored := Function.update w.stored id (some (.blob (C.encrypt key n t)))
        texts := Function.update w.texts id (some t) } := by
  have hfresh := (readerKey_wrapped hinv hkey).2
  refine ⟨⟨hinv.wrapped, hnodup, ?_, ?_, hinv.idle, hinv.keyed, ?_, ?_⟩, ?_⟩
  · intro a ha
    by_cases hself : id = .credential a
    · exact hlisted a hself
    · dsimp only at ha
      rw [Function.update_of_ne (Ne.symm hself)] at ha
      exact hsub (hinv.listed a ha)
  · intro a ha
    exact hsub (hinv.pending a ha)
  · intro id' s hs
    dsimp only at hs ⊢
    by_cases hself : id' = id
    · subst hself
      rw [Function.update_self] at hs ⊢
      exact ⟨t, rfl, .inl ⟨key, n, hkey, (Option.some.inj hs).symm⟩⟩
    · rw [Function.update_of_ne hself] at hs ⊢
      exact hinv.secret id' s hs
  · intro id' hs
    dsimp only at hs ⊢
    by_cases hself : id' = id
    · subst hself
      rw [Function.update_self] at hs
      cases hs
    · rw [Function.update_of_ne hself] at hs ⊢
      exact hinv.gone id' hs
  · intro j _ halive
    refine ⟨halive, ⟨fun _ h => h, Iff.rfl, fun _ => rfl, ?_, ?_⟩⟩
    · intro id' hclean
      by_cases hself : id' = id
      · subst hself
        exact isLegacy_sealed hfresh (Function.update_self ..)
      · unfold Vault.isLegacy at hclean ⊢
        dsimp only
        rw [Function.update_of_ne hself]
        exact hclean
    · intro _ id' hmem t' hholds
      unfold Holds at hholds ⊢
      dsimp only
      by_cases hself : id' = id
      · subst hself
        rw [Function.update_self]
        rw [hpending hmem] at hholds
        rcases hholds with hsame | ⟨hgone, _⟩
        · exact .inl hsame
        · cases hgone
      · rw [Function.update_of_ne hself]
        exact hholds

theorem step_change (hinv : DekInv C master kek w) (hkey : w.readerKey C kek = some key) (n : ν)
    (hpending : id ∈ w.pending → w.texts id = some t) :
    Step C master kek i w (w.change id t (.blob (C.encrypt key n t))) := by
  unfold Vault.change
  split
  · rename_i hrow
    refine step_put hinv hkey n hpending hinv.accounts (List.Subset.refl _) ?_
    rintro a rfl
    exact hinv.listed a (Option.isSome_iff_ne_none.mp hrow)
  · exact step_read hinv

theorem step_insert (hinv : DekInv C master kek w) (hkey : w.readerKey C kek = some key) (n : ν)
    (a : AccountId) : Step C master kek i w (w.insert a t (.blob (C.encrypt key n t))) := by
  unfold Vault.insert
  split
  · exact step_read hinv
  · rename_i hnew
    refine step_put hinv hkey n ?_ ?_ (List.subset_append_left ..) ?_
    · intro hmem
      exact (hnew (hinv.pending a hmem)).elim
    · exact List.nodup_append.mpr ⟨hinv.accounts, List.nodup_singleton a, fun b hb b' hb' heq =>
        hnew (List.mem_singleton.mp hb' ▸ heq ▸ hb)⟩
    · rintro b hb
      obtain rfl := SecretId.credential.inj hb
      exact List.mem_append_right _ (List.mem_singleton_self _)

theorem step_clear (hinv : DekInv C master kek w) (hpending : id = .totp → .totp ∉ w.pending) :
    Step C master kek i w (w.clear id) := by
  refine ⟨⟨hinv.wrapped, hinv.accounts, ?_, hinv.pending, hinv.idle, hinv.keyed, ?_, ?_⟩, ?_⟩
  · intro a ha
    by_cases hself : .credential a = id
    · exact absurd (show (w.clear id).stored (.credential a) = none by
        rw [hself]; exact Function.update_self ..) ha
    · have hsame : (w.clear id).stored (.credential a) = w.stored (.credential a) :=
        Function.update_of_ne hself ..
      rw [hsame] at ha
      exact hinv.listed a ha
  · intro id' s hs
    unfold Vault.clear at hs ⊢
    dsimp only at hs ⊢
    by_cases hself : id' = id
    · subst hself
      rw [Function.update_self] at hs
      cases hs
    · rw [Function.update_of_ne hself] at hs ⊢
      exact hinv.secret id' s hs
  · intro id' hs
    unfold Vault.clear at hs ⊢
    dsimp only at hs ⊢
    by_cases hself : id' = id
    · subst hself
      exact Function.update_self ..
    · rw [Function.update_of_ne hself] at hs ⊢
      exact hinv.gone id' hs
  · intro j _ halive
    refine ⟨halive, ⟨fun _ h => h, Iff.rfl, fun _ => rfl, ?_, ?_⟩⟩
    · intro id' hclean
      by_cases hself : id' = id
      · exact isLegacy_none (hself ▸ Function.update_self ..)
      · unfold Vault.isLegacy Vault.clear at *
        dsimp only
        rw [Function.update_of_ne hself]
        exact hclean
    · intro _ id' hmem t' hholds
      unfold Holds Vault.clear at *
      dsimp only
      by_cases hself : id' = id
      · subst hself
        rw [Function.update_self]
        refine .inr ⟨rfl, ?_⟩
        rintro rfl
        exact hpending rfl hmem
      · rw [Function.update_of_ne hself]
        exact hholds

/-! ## A whole lookup -/

/-- It holds at the end of a program, unless the process has stopped. -/
def Living {α : Type} (i : Nat) (Q : α → Vault β → Prop) (a : α) (w : Vault β) : Prop :=
  i ∈ w.alive → Q a w

section Calls

variable {α : Type} {Q : α → Vault β → Prop} {K : Vault β → Prop}

theorem safe_dead (p : DekProg ν β α) (h : i ∉ w.alive) :
    p.Safe (dekService C master kek) (dekRules C master kek) i (Living i Q) w := by
  cases p with
  | done a => exact fun halive => (h halive).elim
  | call o k =>
    intro w₁ hrely _ c w₂ r _ hexec
    have hdead : i ∉ w₁.alive := fun halive => h (hrely halive).1
    change exec C master i c o w₁ = _ at hexec
    unfold exec at hexec
    rw [if_neg hdead] at hexec
    cases hexec

theorem safe_call {o : DekCall ν β} {f : o.Answer ν β → DekProg ν β α}
    (hK : ∀ w w', Others C master i w w' → K w → K w') (hw : i ∈ w.alive → K w)
    (h : ∀ w₁ c, DekInv C master kek w₁ → K w₁ → i ∈ w₁.alive → Proceeds C master i c w₁ o →
      Step C master kek i w₁ (perform C master i c o w₁).1 ∧
        (f (perform C master i c o w₁).2).Safe (dekService C master kek) (dekRules C master kek) i
          (Living i Q) (perform C master i c o w₁).1) :
    (Prog.ask o >>= f).Safe (dekService C master kek) (dekRules C master kek) i (Living i Q) w := by
  intro w₁ hrely hinv c w₂ r hok hexec
  change exec C master i c o w₁ = _ at hexec
  have hcareful : Careful C master i c o w₁ := hok
  unfold exec at hexec
  unfold Careful at hcareful
  split at hexec
  · rename_i halive
    dsimp only at hexec
    obtain ⟨halive₀, hothers⟩ := hrely halive
    have hK₁ := hK w w₁ hothers (hw halive₀)
    cases hstops : c.stops with
    | true =>
      rw [hstops, if_pos rfl] at hcareful hexec
      obtain ⟨rfl, rfl⟩ := Prod.mk.inj (Option.some.inj hexec)
      obtain ⟨hinv', hguar⟩ := step_stop (i := i) hinv hcareful
      exact ⟨hinv', hguar, safe_dead _ List.not_mem_nil⟩
    | false =>
      rw [hstops, if_neg Bool.false_ne_true] at hcareful hexec
      obtain ⟨⟨hinv', hguar⟩, hrest⟩ := h w₁ c hinv hK₁ halive hcareful
      have hsame := Option.some.inj hexec
      rw [hsame] at hinv' hguar hrest
      exact ⟨hinv', hguar, hrest⟩
  · cases hexec

theorem safe_encryptSecret {dek text : Text} {f : Stored β → DekProg ν β α}
    (hK : ∀ w w', Others C master i w w' → K w → K w') (hw : i ∈ w.alive → K w)
    (h : ∀ w₁ n, K w₁ → (f (.blob (C.encrypt dek n text))).Safe (dekService C master kek)
      (dekRules C master kek) i (Living i Q) w₁) :
    (encryptSecret C dek text >>= f).Safe (dekService C master kek) (dekRules C master kek) i
      (Living i Q) w := by
  refine safe_call hK hw ?_
  intro w₁ c hinv hK₁ _ _
  exact ⟨step_read hinv, h w₁ c.nonce hK₁⟩

end Calls

/-- The rotation is the request's own. -/
structure Mine (C : Cipher Text ν β) (kek : Text) (i : Nat) (key : Text) (w : Vault β) : Prop where
  rotating : w.rotating = some i
  key : w.readerKey C kek = some key

/-- These rows are to be rotated, and no other account has a legacy secret. -/
structure Rotating (C : Cipher Text ν β) (master kek : Text) (i : Nat) (key : Text)
    (rest : List (AccountId × Stored β)) (w : Vault β) : Prop where
  mine : Mine C kek i key w
  distinct : (rest.map Prod.fst).Nodup
  held : ∀ a s t, (a, s) ∈ rest → legacyText C master (.credential a) s = some t →
    .credential a ∈ w.pending ∧ Holds (.credential a) t w
  covered : ∀ a, w.isLegacy C master (.credential a) = true →
    ∃ s, (a, s) ∈ rest ∧ legacyText C master (.credential a) s ≠ none

/-- No account has a legacy secret. -/
structure Swept (C : Cipher Text ν β) (master kek : Text) (i : Nat) (key : Text) (w : Vault β) :
    Prop where
  mine : Mine C kek i key w
  clean : ∀ a, w.isLegacy C master (.credential a) = false

/-- No secret is a legacy one. -/
structure Rid (C : Cipher Text ν β) (master kek : Text) (i : Nat) (key : Text) (w : Vault β) :
    Prop where
  mine : Mine C kek i key w
  clean : ∀ id, w.isLegacy C master id = false

theorem Mine.others (h : Mine C kek i key w) (hw : Others C master i w w') : Mine C kek i key w' :=
  ⟨hw.rotating.mpr h.rotating, hw.readerKey h.key⟩

theorem Swept.others (h : Swept C master kek i key w) (hw : Others C master i w w') :
    Swept C master kek i key w' :=
  ⟨h.mine.others hw, fun a => hw.clean _ (h.clean a)⟩

theorem Rid.others (h : Rid C master kek i key w) (hw : Others C master i w w') :
    Rid C master kek i key w' :=
  ⟨h.mine.others hw, fun id => hw.clean id (h.clean id)⟩

theorem Rotating.others {rest : List (AccountId × Stored β)}
    (h : Rotating C master kek i key rest w) (hw : Others C master i w w') :
    Rotating C master kek i key rest w' := by
  refine ⟨h.mine.others hw, h.distinct, ?_, ?_⟩
  · intro a s t hmem ht
    obtain ⟨hpending, hholds⟩ := h.held a s t hmem ht
    rw [hw.pending h.mine.rotating]
    exact ⟨hpending, hw.texts h.mine.rotating _ hpending t hholds⟩
  · intro a ha
    refine h.covered a (eq_true_of_ne_false fun hclean => ?_)
    rw [hw.clean _ hclean] at ha
    cases ha

theorem Rotating.skip {a : AccountId} {rest : List (AccountId × Stored β)}
    (h : Rotating C master kek i key ((a, s) :: rest) w)
    (hnone : legacyText C master (.credential a) s = none) :
    Rotating C master kek i key rest w := by
  refine ⟨h.mine, (List.nodup_cons.mp h.distinct).2, ?_, ?_⟩
  · intro b s' t hmem
    exact h.held b s' t (List.mem_cons_of_mem _ hmem)
  · intro b hb
    obtain ⟨s', hmem, hsome⟩ := h.covered b hb
    refine ⟨s', (List.mem_cons.mp hmem).resolve_left ?_, hsome⟩
    rintro hhead
    obtain ⟨rfl, rfl⟩ := Prod.mk.inj hhead
    exact hsome hnone

/-- A row is rewritten. -/
theorem Rotating.rewrite {a : AccountId} {rest : List (AccountId × Stored β)}
    (h : Rotating C master kek i key ((a, s) :: rest) w) (hinv : DekInv C master kek w) (n : ν) :
    Rotating C master kek i key rest (w.rewrite (.credential a) (.blob (C.encrypt key n t))) := by
  have hfresh := (readerKey_wrapped hinv h.mine.key).2
  obtain ⟨hnew, hdistinct⟩ := List.nodup_cons.mp h.distinct
  refine ⟨⟨h.mine.rotating, h.mine.key⟩, hdistinct, ?_, ?_⟩
  · intro b s' t' hmem ht'
    obtain ⟨hpending, hholds⟩ := h.held b s' t' (List.mem_cons_of_mem _ hmem) ht'
    refine ⟨List.mem_filter.mpr ⟨hpending, decide_eq_true ?_⟩, hholds⟩
    intro heq
    obtain rfl := SecretId.credential.inj heq
    exact hnew (List.mem_map.mpr ⟨(b, s'), hmem, rfl⟩)
  · intro b hb
    have hne : w.hasRow (.credential a) = true → SecretId.credential b ≠ .credential a := by
      intro hrow heq
      rw [heq, isLegacy_sealed hfresh (rewrite_self hrow)] at hb
      cases hb
    have hlegacy : w.isLegacy C master (.credential b) = true := by
      unfold Vault.isLegacy at hb ⊢
      rw [rewrite_other hne] at hb
      exact hb
    obtain ⟨s', hmem, hsome⟩ := h.covered b hlegacy
    refine ⟨s', (List.mem_cons.mp hmem).resolve_left ?_, hsome⟩
    intro hhead
    obtain ⟨rfl, rfl⟩ := Prod.mk.inj hhead
    have hrow : w.hasRow (.credential b) = true := by
      cases hstored : w.stored (.credential b) with
      | none =>
        rw [isLegacy_none hstored] at hlegacy
        cases hlegacy
      | some s => exact hasRow_of_stored hstored
    exact hne hrow rfl

/-- What a rotation leaves: an error only with no legacy secret left. -/
def Result (i : Nat) (key : Text) (K : Vault β → Prop) (C : Cipher Text ν β) (master kek : Text) :
    Except CryptoError Unit → Vault β → Prop
  | .ok _, w => K w
  | .error _, w => Rid C master kek i key w

theorem safe_rewrite {α : Type} {Q : α → Vault β → Prop} {K : Vault β → Prop} {n : ν}
    {f : Bool → DekProg ν β α} (hK : ∀ w w', Others C master i w w' → K w → K w')
    (hw : i ∈ w.alive → K w) (hmine : ∀ w, K w → Mine C kek i key w ∧ Holds id t w)
    (hdone : ∀ w₁, DekInv C master kek w₁ → K w₁ → (f true).Safe (dekService C master kek)
      (dekRules C master kek) i (Living i Q) (w₁.rewrite id (.blob (C.encrypt key n t))))
    (hfail : ∀ w₁, Rid C master kek i key w₁ → (f false).Safe (dekService C master kek)
      (dekRules C master kek) i (Living i Q) w₁) :
    (Prog.ask (DekCall.rewrite id (.blob (C.encrypt key n t))) >>= f).Safe (dekService C master kek)
      (dekRules C master kek) i (Living i Q) w := by
  refine safe_call hK hw ?_
  intro w₁ c hinv₁ hK₁ _ hproceeds
  obtain ⟨hmine₁, hholds₁⟩ := hmine w₁ hK₁
  have hstep := step_rewrite hinv₁ hmine₁.rotating hmine₁.key hholds₁ n
  obtain ⟨outcome, stops, k, nonce⟩ := c
  cases outcome with
  | works => exact ⟨hstep, hdone w₁ hinv₁ hK₁⟩
  | fails =>
    have hleft : w₁.legacyLeft C master = false := hproceeds.resolve_left CallOutcome.noConfusion
    exact ⟨step_read hinv₁, hfail w₁ ⟨hmine₁, hinv₁.clean hleft⟩⟩
  | lost =>
    have hleft := hproceeds.resolve_left CallOutcome.noConfusion
    exact ⟨hstep, hfail _ ⟨⟨hmine₁.rotating, hmine₁.key⟩, hstep.1.clean hleft⟩⟩

theorem rotateCredentials_safe (rest : List (AccountId × Stored β))
    (h : i ∈ w.alive → Rotating C master kek i key rest w) :
    (rotateCredentials C master key rest).Safe (dekService C master kek) (dekRules C master kek) i
      (Living i (Result i key (Swept C master kek i key) C master kek)) w := by
  induction rest generalizing w with
  | nil =>
    intro halive
    refine ⟨(h halive).mine, ?_⟩
    intro a
    refine eq_false_of_ne_true fun hlegacy => ?_
    obtain ⟨s, hmem, _⟩ := (h halive).covered a hlegacy
    cases hmem
  | cons row rest ih =>
    obtain ⟨a, s⟩ := row
    rw [rotateCredentials]
    cases hlegacy : legacyText C master (.credential a) s with
    | none => exact ih fun halive => (h halive).skip hlegacy
    | some t =>
      refine safe_encryptSecret (fun _ _ hw hk => Rotating.others hk hw) h ?_
      intro w₁ n hrot₁
      refine safe_rewrite (fun _ _ hw hk => Rotating.others hk hw) (fun _ => hrot₁) ?_ ?_ ?_
      · intro w₂ hrot₂
        exact ⟨hrot₂.mine, (hrot₂.held a s t List.mem_cons_self hlegacy).2⟩
      · intro w₂ hinv₂ hrot₂
        exact ih fun _ => hrot₂.rewrite hinv₂ n
      · intro w₂ hrid _
        exact hrid

/-- The TOTP secret has been read, and is this text. -/
structure TotpRead (C : Cipher Text ν β) (master kek : Text) (i : Nat) (key t : Text)
    (w : Vault β) : Prop where
  swept : Swept C master kek i key w
  pending : .totp ∈ w.pending
  holds : Holds .totp t w

theorem TotpRead.others (h : TotpRead C master kek i key t w) (hw : Others C master i w w') :
    TotpRead C master kek i key t w' := by
  refine ⟨h.swept.others hw, ?_, hw.texts h.swept.mine.rotating _ h.pending t h.holds⟩
  rw [hw.pending h.swept.mine.rotating]
  exact h.pending

/-- With the TOTP secret rewritten, no secret is a legacy one. -/
theorem TotpRead.rid (h : TotpRead C master kek i key t w) (hinv : DekInv C master kek w) (n : ν) :
    Rid C master kek i key (w.rewrite .totp (.blob (C.encrypt key n t))) := by
  have hfresh := (readerKey_wrapped hinv h.swept.mine.key).2
  refine ⟨⟨h.swept.mine.rotating, h.swept.mine.key⟩, ?_⟩
  intro id
  cases id with
  | totp => exact isLegacy_sealed hfresh (rewrite_self rfl)
  | credential a =>
    have hclean := h.swept.clean a
    unfold Vault.isLegacy at hclean ⊢
    rw [rewrite_other fun _ => SecretId.noConfusion]
    exact hclean

theorem Swept.rid (h : Swept C master kek i key w) (htotp : w.isLegacy C master .totp = false) :
    Rid C master kek i key w := by
  refine ⟨h.mine, ?_⟩
  intro id
  cases id with
  | totp => exact htotp
  | credential a => exact h.clean a

theorem text_of_legacy (hinv : DekInv C master kek w) (hs : w.stored id = some s)
    (ht : legacyText C master id s = some t) : w.texts id = some t := by
  obtain ⟨t', ht', ⟨key', n, hkey', rfl⟩ | ⟨hlegacy, _⟩⟩ := hinv.secret id s hs
  · rw [legacyText_sealed C master (readerKey_wrapped hinv hkey').2] at ht
    cases ht
  · rw [ht] at hlegacy
    obtain rfl := Option.some.inj hlegacy
    exact ht'

theorem perform_fetchTotp {stops : Bool} {k : Text} {n : ν} :
    perform C master i ⟨.works, stops, k, n⟩ .fetchTotp w =
      (w.scan C master [.totp], some (w.stored .totp)) := rfl

theorem perform_fetchCredentials {stops : Bool} {k : Text} {n : ν} :
    perform C master i ⟨.works, stops, k, n⟩ .fetchCredentials w =
      (w.scan C master (w.accounts.map .credential), some w.rows) := rfl

theorem perform_generateKey : perform C master i c .generateKey w = (w, c.key) := rfl

theorem perform_nonce : perform C master i c .nonce w = (w, c.nonce) := rfl

theorem rotateTotp_safe (h : i ∈ w.alive → Swept C master kek i key w) :
    (rotateLegacyTotpSecret C master key).Safe (dekService C master kek) (dekRules C master kek) i
      (Living i (Result i key (Rid C master kek i key) C master kek)) w := by
  unfold rotateLegacyTotpSecret
  refine safe_call (fun _ _ hw hk => Swept.others hk hw) h ?_
  intro w₁ c hinv₁ hswept₁ _ hproceeds
  obtain ⟨outcome, stops, k, nonce⟩ := c
  have hfail : outcome ≠ .works → Rid C master kek i key w₁ := fun hne =>
    ⟨hswept₁.mine, hinv₁.clean (hproceeds.resolve_left hne)⟩
  cases outcome with
  | fails => exact ⟨step_read hinv₁, fun _ => hfail CallOutcome.noConfusion⟩
  | lost => exact ⟨step_read hinv₁, fun _ => hfail CallOutcome.noConfusion⟩
  | works =>
    refine ⟨step_scan hinv₁ hswept₁.mine.rotating ?_, ?_⟩
    · intro a ha
      cases List.mem_singleton.mp ha
    have hscan : Swept C master kek i key (w₁.scan C master [.totp]) :=
      ⟨⟨hswept₁.mine.rotating, hswept₁.mine.key⟩, hswept₁.clean⟩
    rw [perform_fetchTotp]
    dsimp only
    cases hs : w₁.stored .totp with
    | none => exact fun _ => hscan.rid (isLegacy_none hs)
    | some s =>
      dsimp only
      cases ht : legacyText C master .totp s with
      | none =>
        refine fun _ => hscan.rid ?_
        rw [isLegacy_some (w := w₁.scan C master [.totp]) hs, ht]
        rfl
      | some t =>
        have htext := text_of_legacy hinv₁ hs ht
        have hread : TotpRead C master kek i key t (w₁.scan C master [.totp]) := by
          refine ⟨hscan, List.mem_filter.mpr ⟨List.mem_singleton_self _, ?_⟩, .inl htext⟩
          rw [isLegacy_some hs, ht]
          rfl
        refine safe_encryptSecret (fun _ _ hw hk => TotpRead.others hk hw) (fun _ => hread) ?_
        intro w₂ n hread₂
        refine safe_rewrite (fun _ _ hw hk => TotpRead.others hk hw) (fun _ => hread₂) ?_ ?_ ?_
        · intro w₃ hread₃
          exact ⟨hread₃.swept.mine, hread₃.holds⟩
        · intro w₃ hinv₃ hread₃ _
          exact hread₃.rid hinv₃ n
        · intro w₃ hrid _
          exact hrid

theorem mem_rows {a : AccountId} (hmem : (a, s) ∈ w.rows) :
    a ∈ w.accounts ∧ w.stored (.credential a) = some s := by
  obtain ⟨b, hb, hrow⟩ := List.mem_filterMap.mp hmem
  obtain ⟨s', hs', hpair⟩ := Option.map_eq_some_iff.mp hrow
  obtain ⟨rfl, rfl⟩ := Prod.mk.inj hpair
  exact ⟨hb, hs'⟩

theorem rows_nodup (h : w.accounts.Nodup) : (w.rows.map Prod.fst).Nodup := by
  unfold Vault.rows
  rw [List.map_filterMap]
  refine h.filterMap ?_
  intro a a' b hb hb'
  simp only [Option.map_map, Option.mem_def, Option.map_eq_some_iff, Function.comp] at hb hb'
  obtain ⟨_, _, rfl⟩ := hb
  obtain ⟨_, _, rfl⟩ := hb'
  rfl

/-- The rows as they are read are to be rotated. -/
theorem rotating_scan (hinv : DekInv C master kek w) (hmine : Mine C kek i key w) :
    Rotating C master kek i key w.rows (w.scan C master (w.accounts.map .credential)) := by
  refine ⟨⟨hmine.rotating, hmine.key⟩, rows_nodup hinv.accounts, ?_, ?_⟩
  · intro a s t hmem ht
    obtain ⟨ha, hs⟩ := mem_rows hmem
    have htext := text_of_legacy hinv hs ht
    refine ⟨List.mem_filter.mpr ⟨List.mem_map_of_mem ha, ?_⟩, .inl htext⟩
    rw [isLegacy_some hs, ht]
    rfl
  · intro a ha
    have hlegacy : w.isLegacy C master (.credential a) = true := ha
    cases hs : w.stored (.credential a) with
    | none =>
      rw [isLegacy_none hs] at hlegacy
      cases hlegacy
    | some s =>
      rw [isLegacy_some hs] at hlegacy
      have hlisted := hinv.listed a (by rw [hs]; exact Option.some_ne_none s)
      refine ⟨s, List.mem_filterMap.mpr ⟨a, hlisted, ?_⟩, Option.isSome_iff_ne_none.mp hlegacy⟩
      rw [hs]
      rfl

theorem rotateLegacySecrets_safe (h : i ∈ w.alive → Mine C kek i key w) :
    (rotateLegacySecrets C master key).Safe (dekService C master kek) (dekRules C master kek) i
      (Living i (Result i key (Rid C master kek i key) C master kek)) w := by
  unfold rotateLegacySecrets
  refine safe_call (fun _ _ hw hk => Mine.others hk hw) h ?_
  intro w₁ c hinv₁ hmine₁ _ hproceeds
  obtain ⟨outcome, stops, k, nonce⟩ := c
  have hfail : outcome ≠ .works → Rid C master kek i key w₁ := fun hne =>
    ⟨hmine₁, hinv₁.clean (hproceeds.resolve_left hne)⟩
  cases outcome with
  | fails => exact ⟨step_read hinv₁, fun _ => hfail CallOutcome.noConfusion⟩
  | lost => exact ⟨step_read hinv₁, fun _ => hfail CallOutcome.noConfusion⟩
  | works =>
    refine ⟨step_scan hinv₁ hmine₁.rotating ?_, ?_⟩
    · intro a ha
      obtain ⟨b, hb, heq⟩ := List.mem_map.mp ha
      exact SecretId.credential.inj heq ▸ hb
    · rw [perform_fetchCredentials]
      dsimp only
      refine Prog.safe_bind (rotateCredentials C master key w₁.rows) _ ?_
      refine (rotateCredentials_safe _ fun _ => rotating_scan hinv₁ hmine₁).weaken _ ?_
      intro result w₂ hresult
      cases result with
      | error e => exact hresult
      | ok _ => exact rotateTotp_safe hresult

/-- The key a lookup answers with is the readers'. -/
def Found (C : Cipher Text ν β) (kek : Text) : Except CryptoError Text → Vault β → Prop
  | .ok dek, w => w.readerKey C kek = some dek
  | .error _, _ => True

theorem found_unwrap {b : β} (h : w.encryptedDek = some b) : Found C kek (unwrap C kek b) w := by
  unfold unwrap
  split
  · rename_i dek hdek
    exact Option.bind_eq_some_iff.mpr ⟨b, h, hdek⟩
  · trivial

/-- A key is stored where there is none. -/
theorem perform_store {b : β} {outcome : CallOutcome} {stops : Bool} {k : Text} {n : ν}
    (h : w.encryptedDek = none) : perform C master i ⟨outcome, stops, k, n⟩ (.storeWrapped b) w =
      (if outcome.takesEffect then w.storeDek i b (decide (outcome = .works)) else w,
        if outcome = .works then some 1 else none) := by
  unfold perform
  dsimp only
  rw [h]
  cases outcome <;> rfl

theorem perform_store_again {b b' : β} {outcome : CallOutcome} {stops : Bool} {k : Text} {n : ν}
    (h : w.encryptedDek = some b') :
    perform C master i ⟨outcome, stops, k, n⟩ (.storeWrapped b) w =
      (w, if outcome = .works then some 0 else none) := by
  unfold perform
  dsimp only
  rw [h]
  cases outcome <;> rfl

/-- The key that is there already. -/
theorem safe_fetch {α : Type} {Q : α → Vault β → Prop} {f : Option (Option β) → DekProg ν β α}
    (h : ∀ w₁ r, (∀ b, r = some (some b) → w₁.encryptedDek = some b) →
      (f r).Safe (dekService C master kek) (dekRules C master kek) i (Living i Q) w₁) :
    (Prog.ask DekCall.fetchEncryptedDek >>= f).Safe (dekService C master kek)
      (dekRules C master kek) i (Living i Q) w := by
  refine safe_call (K := fun _ => True) (fun _ _ _ h => h) (fun _ => trivial) ?_
  intro w₁ c hinv₁ _ _ _
  refine ⟨step_read hinv₁, h w₁ _ ?_⟩
  intro b hb
  have hanswer : (if decide (c.outcome = .works) = true then some w₁.encryptedDek else none) =
      some (some b) := hb
  split at hanswer
  · exact Option.some.inj hanswer
  · cases hanswer

theorem rotateOnto_safe (h : i ∈ w.alive → Mine C kek i key w) :
    (rotateOnto C master key).Safe (dekService C master kek) (dekRules C master kek) i
      (Living i (Found C kek)) w := by
  unfold rotateOnto
  refine Prog.safe_bind (rotateLegacySecrets C master key) _ ?_
  refine (rotateLegacySecrets_safe h).weaken _ ?_
  intro result w₁ hresult
  have hrid : i ∈ w₁.alive → Rid C master kek i key w₁ := by
    intro halive
    cases result with
    | error e => exact hresult halive
    | ok _ => exact hresult halive
  refine safe_call (fun _ _ hw hk => Rid.others hk hw) hrid ?_
  intro w₂ c hinv₂ hrid₂ _ _
  refine ⟨step_rotated hinv₂ hrid₂.mine.rotating hrid₂.clean, ?_⟩
  cases result with
  | error e => exact fun _ => trivial
  | ok _ => exact fun _ => hrid₂.mine.key

theorem provision_safe :
    (provisionAndRotateLegacyDek C master kek).Safe (dekService C master kek)
      (dekRules C master kek) i (Living i (Found C kek)) w := by
  unfold provisionAndRotateLegacyDek
  refine safe_call (K := fun _ => True) (fun _ _ _ h => h) (fun _ => trivial) ?_
  intro w₁ c₁ hinv₁ _ _ hfresh
  refine ⟨step_read hinv₁, ?_⟩
  have hkey : c₁.key ∉ legacyDekCandidates master := hfresh
  rw [perform_generateKey]
  dsimp only
  generalize c₁.key = key at hkey
  refine safe_call (K := fun _ => True) (fun _ _ _ h => h) (fun _ => trivial) ?_
  intro w₂ c₂ hinv₂ _ _ _
  refine ⟨step_read hinv₂, ?_⟩
  rw [perform_nonce]
  dsimp only
  refine safe_call (K := fun _ => True) (fun _ _ _ h => h) (fun _ => trivial) ?_
  intro w₃ c₃ hinv₃ _ _ hproceeds
  have hunwrap : unwrapDek C kek (C.encrypt kek c₂.nonce key) = some key :=
    C.decrypt_encrypt kek c₂.nonce key
  obtain ⟨outcome, stops, k, nonce⟩ := c₃
  cases hdek : w₃.encryptedDek with
  | none =>
    rw [perform_store hdek]
    cases outcome with
    | fails => exact ⟨step_read hinv₃, fun _ => trivial⟩
    | lost =>
      have hleft := hproceeds rfl (Option.isNone_iff_eq_none.mpr hdek)
      exact ⟨step_store hinv₃ hdek hunwrap hkey fun _ => hleft, fun _ => trivial⟩
    | works =>
      refine ⟨step_store hinv₃ hdek hunwrap hkey fun h => Bool.noConfusion h, ?_⟩
      exact rotateOnto_safe fun _ => ⟨rfl, hunwrap⟩
  | some b =>
    rw [perform_store_again hdek]
    refine ⟨step_read hinv₃, ?_⟩
    cases outcome with
    | fails => exact fun _ => trivial
    | lost => exact fun _ => trivial
    | works =>
      refine safe_fetch ?_
      intro w₄ r hr
      cases r with
      | none => exact fun _ => trivial
      | some stored =>
        cases stored with
        | none => exact fun _ => trivial
        | some existing => exact fun _ => found_unwrap (hr existing rfl)

theorem getUserDek_safe : (getUserDek C master kek).Safe (dekService C master kek)
    (dekRules C master kek) i (Living i (Found C kek)) w := by
  unfold getUserDek
  refine safe_fetch ?_
  intro w₁ r hr
  cases r with
  | none => exact fun _ => trivial
  | some stored =>
    cases stored with
    | none => exact provision_safe
    | some wrapped => exact fun _ => found_unwrap (hr wrapped rfl)

theorem putSecret_safe {o : Stored β → DekCall ν β} {text : Text}
    {write : Stored β → DekProg ν β Bool} {g : ∀ s, (o s).Answer ν β → Bool}
    (hwrite : ∀ s, write s = (Prog.ask (o s) >>= fun r => pure (g s r)))
    (h : ∀ key n w₁ c, DekInv C master kek w₁ → w₁.readerKey C kek = some key →
      Proceeds C master i c w₁ (o (.blob (C.encrypt key n text))) →
      Step C master kek i w₁ (perform C master i c (o (.blob (C.encrypt key n text))) w₁).1) :
    (putSecret C master kek text write).Safe (dekService C master kek) (dekRules C master kek) i
      (Living i fun _ _ => True) w := by
  unfold putSecret
  refine Prog.safe_bind (getUserDek C master kek) _ ?_
  refine getUserDek_safe.weaken _ ?_
  intro result w₁ hfound
  cases result with
  | error e => exact fun _ => trivial
  | ok dek =>
    refine safe_encryptSecret (K := fun w => w.readerKey C kek = some dek)
      (fun _ _ hw hk => hw.readerKey hk) hfound ?_
    intro w₂ n hkey₂
    rw [hwrite]
    refine safe_call (K := fun w => w.readerKey C kek = some dek)
      (fun _ _ hw hk => hw.readerKey hk) (fun _ => hkey₂) ?_
    intro w₃ c hinv₃ hkey₃ _ hproceeds
    exact ⟨h dek n w₃ c hinv₃ hkey₃ hproceeds, fun _ => trivial⟩

theorem steps_safe (q : DekRequest) : (q.steps C master kek).Safe (dekService C master kek)
    (dekRules C master kek) i (Living i fun _ _ => True) w := by
  cases q with
  | read =>
    refine Prog.safe_bind (getUserDek C master kek) _ ?_
    refine getUserDek_safe.weaken _ ?_
    intro _ _ _ _
    trivial
  | change id text =>
    refine putSecret_safe (o := fun s => .change id text s) (g := fun _ r => r) (fun _ => rfl) ?_
    intro key n w₁ c hinv₁ hkey hproceeds
    change Step C master kek i w₁ (if c.outcome.takesEffect then _ else _)
    split
    · exact step_change hinv₁ hkey n hproceeds
    · exact step_read hinv₁
  | create account text =>
    refine putSecret_safe (o := fun s => .insert account text s) (g := fun _ r => r) (fun _ => rfl) ?_
    intro key n w₁ c hinv₁ hkey _
    change Step C master kek i w₁ (if c.outcome.takesEffect then _ else _)
    split
    · exact step_insert hinv₁ hkey n account
    · exact step_read hinv₁
  | clear id =>
    refine safe_call (K := fun _ => True) (fun _ _ _ h => h) (fun _ => trivial) ?_
    intro w₁ c hinv₁ _ _ hproceeds
    refine ⟨?_, fun _ => trivial⟩
    change Step C master kek i w₁ (if c.outcome.takesEffect then _ else _)
    split
    · exact step_clear hinv₁ hproceeds
    · exact step_read hinv₁

theorem dekRules_sound (C : Cipher Text ν β) (master kek : Text) :
    (dekRules C master kek).Sound (dekService C master kek) where
  init w h := by
    obtain ⟨hdek, hrot, hpending, _, haccounts, hlisted, htexts⟩ := h
    refine ⟨?_, haccounts, hlisted, ?_, fun _ => hpending, fun _ => hrot, ?_, ?_⟩
    · intro b hb
      rw [hdek] at hb
      cases hb
    · intro a ha
      rw [hpending] at ha
      cases ha
    · intro id s hs
      obtain ⟨htext, hgone⟩ := htexts id
      cases ht : w.texts id with
      | none =>
        rw [hgone ht] at hs
        cases hs
      | some t =>
        rw [ht, hs] at htext
        exact ⟨t, rfl, .inr ⟨htext.symm, .inl hdek⟩⟩
    · intro id hs
      rw [(htexts id).1, hs]
      rfl
  rely_refl := DekRely.refl
  rely_trans _ _ _ _ := DekRely.trans
  rely_of_guarantee _ _ _ _ hij _ hguar := hguar _ hij
  unborn_init n w h := by
    obtain ⟨_, _, _, halive, _⟩ := h
    change n ∉ w.alive
    rw [halive]
    exact List.not_mem_nil
  unborn_rely n w w' hrely h hn := h (hrely hn).1
  arrive n q w hinv _ := by
    refine ⟨⟨hinv.wrapped, hinv.accounts, hinv.listed, hinv.pending, hinv.idle, hinv.keyed,
      hinv.secret, hinv.gone⟩, ?_⟩
    intro i hi halive
    refine ⟨(List.mem_cons.mp halive).resolve_left hi, ⟨fun _ h => h, Iff.rfl, fun _ => rfl,
      fun _ h => h, fun _ _ _ _ h => h⟩⟩
  env e := nomatch e
  safe n q w _ _ := (steps_safe q).weaken _ fun _ _ _ => trivial

/-- Every secret opens to what it is, and once there is a key and no rotation under way, with
that key. -/
structure NoneStranded (C : Cipher Text ν β) (master kek : Text) (w : Vault β) : Prop where
  opens : ∀ id s, w.stored id = some s → ∃ t, w.texts id = some t ∧
    ((∃ key, w.readerKey C kek = some key ∧ s.open C key = some t) ∨
      legacyText C master id s = some t ∧ (w.encryptedDek = none ∨ w.rotating ≠ none))
  readable : w.encryptedDek ≠ none → w.rotating = none → ∃ key, w.readerKey C kek = some key ∧
    ∀ id s, w.stored id = some s → legacyText C master id s = none ∧ s.open C key = w.texts id
  kept : ∀ id, w.stored id = none → w.texts id = none

theorem DekInv.noneStranded (hinv : DekInv C master kek w) : NoneStranded C master kek w := by
  refine ⟨?_, ?_, hinv.gone⟩
  · intro id s hs
    obtain ⟨t, ht, ⟨key, n, hkey, rfl⟩ | hlegacy⟩ := hinv.secret id s hs
    · exact ⟨t, ht, .inl ⟨key, hkey, C.decrypt_encrypt key n t⟩⟩
    · exact ⟨t, ht, .inr hlegacy⟩
  · intro hdek hrot
    obtain ⟨b, hb⟩ := Option.ne_none_iff_exists'.mp hdek
    obtain ⟨key, hunwrap, hfresh⟩ := hinv.wrapped b hb
    have hkey : w.readerKey C kek = some key := Option.bind_eq_some_iff.mpr ⟨b, hb, hunwrap⟩
    refine ⟨key, hkey, ?_⟩
    intro id s hs
    obtain ⟨t, ht, ⟨key', n, hkey', rfl⟩ | ⟨_, hlegacy⟩⟩ := hinv.secret id s hs
    · obtain rfl := Option.some.inj (hkey.symm.trans hkey')
      refine ⟨legacyText_sealed C master hfresh id n t, ?_⟩
      rw [ht]
      exact C.decrypt_encrypt key n t
    · exact (hlegacy.elim hdek (not_not_intro hrot)).elim

abbrev DekPool (ν β : Type) := Pool (Vault β) (DekCall ν β) (DekCall.Answer ν β)

def serverMaster : Text := "a master key".toList

def userKek : Text := "a user's kek".toList

def mailbox : SecretId := .credential "a1".toList

def oldPassword : Text := "old".toList

def totpSecret : Text := "JBSWY3DP".toList

abbrev Clear := ClearBlob Text

def legacyVault : Vault Clear where
  encryptedDek := none
  accounts := ["a1".toList]
  stored id :=
    if id = mailbox then some (.blob ⟨padMasterKeyToDek serverMaster, oldPassword⟩)
    else if id = .totp then some (.other totpSecret)
    else none
  texts id :=
    if id = mailbox then some oldPassword
    else if id = .totp then some totpSecret
    else none
  rotating := none
  pending := []
  alive := []

def clearDek : Service (Vault Clear) (DekCall Unit Clear) (DekCall.Answer Unit Clear) DekRequest
    (DekChoice Unit) Empty :=
  dekService clearCipher serverMaster userKek

theorem legacyVault_init : clearDek.init legacyVault := by
  refine ⟨rfl, rfl, rfl, rfl, List.nodup_singleton _, ?_, ?_⟩
  · intro a ha
    by_cases hself : SecretId.credential a = mailbox
    · obtain rfl := SecretId.credential.inj hself
      exact List.mem_singleton_self _
    · have hnone : legacyVault.stored (.credential a) = none :=
        (if_neg hself).trans (if_neg SecretId.noConfusion)
      exact (ha hnone).elim
  · intro id
    by_cases hself : id = mailbox
    · subst hself
      exact ⟨by decide, by decide⟩
    · by_cases htotp : id = .totp
      · subst htotp
        exact ⟨by decide, by decide⟩
      · have hstored : legacyVault.stored id = none := (if_neg hself).trans (if_neg htotp)
        have htext : legacyVault.texts id = none := (if_neg hself).trans (if_neg htotp)
        refine ⟨?_, fun _ => hstored⟩
        rw [hstored, htext]
        rfl

abbrev DekAction := PoolAction DekRequest (DekChoice Unit) Empty

def works (n i : Nat) : List DekAction :=
  List.replicate n (.call i ⟨.works, false, "a new key".toList, ()⟩)

/-- A lookup that rotates both secrets, and a new password after it. -/
def rotated : List DekAction :=
  [.arrive .read] ++ works 11 0 ++ [.arrive (.change mailbox "new".toList)] ++ works 3 1

/-- The process stops before the first secret is rewritten, and the next one looks the key up. -/
def stopped : List DekAction :=
  [.arrive .read] ++ works 4 0 ++ [.call 0 ⟨.works, true, [], ()⟩, .arrive .read] ++ works 1 1

/-- The password changes between its read and its rewrite. -/
def overwritten : List DekAction :=
  [.arrive .read] ++ works 5 0 ++ [.arrive (.change mailbox "new".toList)] ++ works 3 1 ++ works 6 0

/-- No rotation is under way, and the readers' key opens the password as this, which is that. -/
structure Opens (w : Vault Clear) (opened : Option Text) (password : Text) : Prop where
  idle : w.rotating = none
  key : w.readerKey clearCipher userKek = some "a new key".toList
  stored : (w.stored mailbox).map (Stored.open clearCipher "a new key".toList) = some opened
  text : w.texts mailbox = some password

theorem exists_opens {l : List DekAction} {opened : Option Text} {password : Text}
    (hrun : (clearDek.run (fun _ _ _ _ => True) legacyVault l).map (fun p =>
      ((p.shared.rotating, p.shared.readerKey clearCipher userKek),
        (p.shared.stored mailbox).map (Stored.open clearCipher "a new key".toList),
          p.shared.texts mailbox)) =
      some ((none, some "a new key".toList), some opened, some password)) :
    ∃ p, clearDek.system.Reachable (fun _ _ => True) p ∧ Opens p.shared opened password := by
  obtain ⟨p, hp, hshared⟩ := Option.map_eq_some_iff.mp hrun
  obtain ⟨hkeys, hsecret⟩ := Prod.mk.inj hshared
  obtain ⟨hidle, hkey⟩ := Prod.mk.inj hkeys
  obtain ⟨hstored, htext⟩ := Prod.mk.inj hsecret
  refine ⟨p, ?_, ⟨hidle, hkey, hstored, htext⟩⟩
  exact (Service.reachable_run _ legacyVault_init hp).weaken fun _ _ _ => trivial

end Lyra.Dek
