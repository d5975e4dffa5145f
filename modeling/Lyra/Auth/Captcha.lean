import Mathlib.Data.List.AList
import Mathlib.Data.List.DropRight
import Lyra.Auth.Cipher
import Lyra.Dav.Xml
import Lyra.Lib.Fallible

/-!
# Captcha settings

`auth/captcha.rs`: the settings blob in the key-value store, the saves of the Settings page and the
configuration that login uses, with `captcha_from_env` of `config.rs` behind it.  The cipher and
`serde_json` are parameters.

* `saveSettings_cases`: what a save can do;
* `effective_of_settled`: what login uses after one;
* `staysUsable_iff`: login is protected by keys that are not blank, in every run of saves, exactly
  if no secret of the first blob is the empty text, encrypted;
* `protected_afterPuts`: so over runs of requests, with keys from the environment.
-/

namespace Lyra.Captcha

open Lyra.Lib

/-! ## Configurations -/

/-- The names that `parse_provider` returns. -/
inductive Provider
  | none
  | turnstile
  | hcaptcha
  | recaptcha
  | recaptchaV3
  deriving DecidableEq, Repr

def Provider.slug : Provider → Text
  | .none => "none".toList
  | .turnstile => "turnstile".toList
  | .hcaptcha => "hcaptcha".toList
  | .recaptcha => "recaptcha".toList
  | .recaptchaV3 => "recaptcha-v3".toList

def parseProvider (provider : Text) : Option Provider :=
  let name := (trimText provider).map Char.toLower
  if name = "none".toList then some .none
  else if name = "turnstile".toList then some .turnstile
  else if name = "hcaptcha".toList then some .hcaptcha
  else if name = "recaptcha".toList then some .recaptcha
  else if name = "recaptcha-v3".toList ∨ name = "recaptcha_v3".toList then some .recaptchaV3
  else none

inductive CaptchaConfig
  | none
  | turnstile (siteKey secret : Text)
  | hCaptcha (siteKey secret : Text)
  | recaptcha (siteKey secret : Text)
  | recaptchaV3 (siteKey secret : Text)
  deriving DecidableEq, Repr

def CaptchaConfig.providerName : CaptchaConfig → Text
  | .none => "none".toList
  | .turnstile .. => "turnstile".toList
  | .hCaptcha .. => "hcaptcha".toList
  | .recaptcha .. => "recaptcha".toList
  | .recaptchaV3 .. => "recaptcha-v3".toList

def CaptchaConfig.credentials : CaptchaConfig → Option Text × Option Text
  | .none => (Option.none, Option.none)
  | .turnstile siteKey secret | .hCaptcha siteKey secret | .recaptcha siteKey secret
  | .recaptchaV3 siteKey secret => (some siteKey, some secret)

/-- The configuration of a provider with these keys. -/
def Provider.config (p : Provider) (siteKey secret : Text) : CaptchaConfig :=
  match p with
  | .none => .none
  | .turnstile => .turnstile siteKey secret
  | .hcaptcha => .hCaptcha siteKey secret
  | .recaptcha => .recaptcha siteKey secret
  | .recaptchaV3 => .recaptchaV3 siteKey secret

inductive ConfigError
  | captchaProviderUnknown (provider : Text)
  | captchaIncomplete (provider : Text)
  | captchaMisconfigured (names : Text)
  deriving DecidableEq, Repr

/-- The value of a variable that is set and not blank, trimmed. -/
def envKey (env : List (Text × Text)) (name : Text) : Option Text :=
  ((env.lookup name).filter fun s => trimText s ≠ []).map trimText

def captchaFromEnv (env : List (Text × Text)) : Except ConfigError CaptchaConfig :=
  match ["LYRA_HCAPTCHA_".toList, "LYRA_RECAPTCHA_".toList].find? fun start =>
      env.any fun v => start.isPrefixOf v.1 && v.2 ≠ [] with
  | some start => .error (.captchaMisconfigured (start.rdropWhile (· = '_')))
  | none =>
    let provider := trimText ((env.lookup "LYRA_CAPTCHA_PROVIDER".toList).getD [])
    let name := provider.map Char.toLower
    if provider = [] ∨ name = "none".toList then .ok .none
    else
      let withKeys (config : Text → Text → CaptchaConfig) : Except ConfigError CaptchaConfig :=
        match envKey env "LYRA_CAPTCHA_SITE_KEY".toList,
            envKey env "LYRA_CAPTCHA_SECRET".toList with
        | some siteKey, some secret => .ok (config siteKey secret)
        | _, _ => .error (.captchaIncomplete provider)
      if name = "turnstile".toList then withKeys .turnstile
      else if name = "hcaptcha".toList then withKeys .hCaptcha
      else if name = "recaptcha".toList then withKeys .recaptcha
      else if name = "recaptcha-v3".toList ∨ name = "recaptcha_v3".toList then
        withKeys .recaptchaV3
      else .error (.captchaProviderUnknown provider)

/-- No key is the empty text. -/
def CaptchaConfig.KeysPresent (c : CaptchaConfig) : Prop :=
  c.credentials.1 ≠ some [] ∧ c.credentials.2 ≠ some []

/-- The configuration of the environment: none, or one provider with keys that are not empty. -/
structure EnvConfig where
  config : CaptchaConfig
  keys : config.KeysPresent

/-! ## The blob -/

variable {κ ν β τ : Type}

/-- A site key and an encrypted secret. -/
structure StoredPair (β : Type) where
  siteKey : Text := []
  secretEncrypted : Option β := none
  deriving DecidableEq, Repr

/-- `provider`, `siteKey` and `secretEncrypted` are the fields of the legacy form. -/
structure StoredSettings (β : Type) where
  active : Text := []
  providers : AList fun _ : Text => StoredPair β := ∅
  provider : Option Text := none
  siteKey : Option Text := none
  secretEncrypted : Option β := none

namespace StoredSettings

/-- What is written: the legacy fields are skipped. -/
def written (s : StoredSettings β) : StoredSettings β :=
  { active := s.active, providers := s.providers }

def foldLegacy (s : StoredSettings β) : StoredSettings β :=
  match s.provider with
  | none => s
  | some legacy =>
    let s := { s with active := if s.active = [] then legacy else s.active }
    let hasPair := (s.siteKey.any fun k => k ≠ []) || s.secretEncrypted.isSome
    if legacy ≠ "none".toList ∧ hasPair ∧ legacy ∉ s.providers then
      { s with providers := s.providers.insert legacy ⟨s.siteKey.getD [], s.secretEncrypted⟩ }
    else s

def normalize (s : StoredSettings β) : StoredSettings β :=
  let s := s.foldLegacy.written
  if s.active = [] then { s with active := "none".toList } else s

/-- The encrypted secret of a provider. -/
def held (s : StoredSettings β) (p : Text) : Option β :=
  (s.providers.lookup p).bind StoredPair.secretEncrypted

end StoredSettings

/-- The settings key with AES-256-GCM, and `serde_json` on the blob; `τ` are its texts. -/
structure SettingsLib (κ ν β τ : Type) extends Cipher κ ν β where
  key : κ
  fromStr : τ → Option (StoredSettings β)
  toText : StoredSettings β → τ
  reads : ∀ s, fromStr (toText s) = some s.written

/-- The errors, without what the libraries say in them. -/
inductive LoadError
  | kv
  | corrupt
  | crypto
  | missingSecret (provider : Text)
  | unknownProvider (provider : Text)
  deriving DecidableEq, Repr

def configFromParts (provider siteKey : Text) (secret : Option Text) :
    Except LoadError CaptchaConfig :=
  if provider = "none".toList then .ok .none
  else if provider = "turnstile".toList ∨ provider = "hcaptcha".toList ∨
      provider = "recaptcha".toList ∨ provider = "recaptcha-v3".toList then
    match secret with
    | none => .error (.missingSecret provider)
    | some secret =>
      if provider = "turnstile".toList then .ok (.turnstile siteKey secret)
      else if provider = "hcaptcha".toList then .ok (.hCaptcha siteKey secret)
      else if provider = "recaptcha".toList then .ok (.recaptcha siteKey secret)
      else .ok (.recaptchaV3 siteKey secret)
  else .error (.unknownProvider provider)

section Settings

variable (lib : SettingsLib κ ν β τ)

def decryptPair (pair : StoredPair β) : Except LoadError (Text × Option Text) :=
  match pair.secretEncrypted with
  | none => .ok (pair.siteKey, none)
  | some enc =>
    match lib.decrypt lib.key enc with
    | none => .error .crypto
    | some secret => .ok (pair.siteKey, some secret)

/-- `got` is what the store answers; it may fail. -/
def readBlob (got : Except Unit (Option τ)) : Except LoadError (Option (StoredSettings β)) :=
  match got with
  | .error _ => .error .kv
  | .ok none => .ok none
  | .ok (some json) =>
    match lib.fromStr json with
    | none => .error .corrupt
    | some stored => .ok (some stored.normalize)

/-- The configuration in a blob. -/
def storedConfig (stored : StoredSettings β) : Except LoadError CaptchaConfig :=
  if stored.active = "none".toList then .ok .none
  else
    match stored.providers.lookup stored.active with
    | none => .ok .none
    | some pair =>
      match decryptPair lib pair with
      | .error e => .error e
      | .ok (siteKey, secret) =>
        if siteKey = [] ∨ secret.isNone then .ok .none
        else configFromParts stored.active siteKey secret

def loadStored (got : Except Unit (Option τ)) : Except LoadError (Option CaptchaConfig) :=
  match readBlob lib got with
  | .error e => .error e
  | .ok none => .ok none
  | .ok (some stored) => (storedConfig lib stored).map some

/-- The environment has both keys of this provider. -/
def completeInEnv (env : CaptchaConfig) (active : Text) : Bool :=
  env.providerName = active && env.credentials.1.isSome && env.credentials.2.isSome

inductive Source
  | settings
  | env
  deriving DecidableEq, Repr

/-- `first` and `second` are the answers to the two reads of the blob. -/
def loadEffective (env : CaptchaConfig) (first second : Except Unit (Option τ)) :
    CaptchaConfig × Source :=
  match loadStored lib first with
  | .error _ => (env, .env)
  | .ok none => (env, .env)
  | .ok (some config) =>
    match config, readBlob lib second with
    | .none, .ok (some stored) =>
      if stored.active ≠ "none".toList ∧ completeInEnv env stored.active then (env, .settings)
      else (config, .settings)
    | _, _ => (config, .settings)

/-! ## Saves -/

structure PairUpdate where
  siteKey : Option Text := none
  secret : Option Text := none
  deriving DecidableEq, Repr

inductive SaveSettingsError
  | incompleteActive
  | store (e : LoadError)
  deriving DecidableEq, Repr

/-- What a call meets: whether the store answers, and the nonce of each encryption, which fails
where there is none. -/
structure Conditions (ν : Type) where
  getFails : Bool := false
  setFails : Bool := false
  nonces : Nat → Option ν

def Conditions.get (cond : Conditions ν) (kv : Option τ) : Except Unit (Option τ) :=
  if cond.getFails then .error () else .ok kv

def mergeUpdate (nonce : Option ν) (stored : StoredSettings β) (provider : Text) :
    Option PairUpdate → Except SaveSettingsError (StoredSettings β)
  | none => .ok { stored with providers := stored.providers.erase provider }
  | some update =>
    let pair := (stored.providers.lookup provider).getD {}
    let pair : StoredPair β :=
      match update.siteKey with
      | none => pair
      | some siteKey => { pair with siteKey := trimText siteKey }
    let put (pair : StoredPair β) : StoredSettings β :=
      { stored with providers := stored.providers.insert provider pair }
    match (update.secret.map trimText).filter (· ≠ []), nonce with
    | none, _ => .ok (put pair)
    | some _, none => .error (.store .crypto)
    | some secret, some n =>
      .ok (put { pair with secretEncrypted := some (lib.encrypt lib.key n secret) })

def mergeUpdates (nonces : Nat → Option ν) :
    Nat → StoredSettings β → List (Text × Option PairUpdate) →
      Except SaveSettingsError (StoredSettings β)
  | _, stored, [] => .ok stored
  | i, stored, (provider, update) :: updates => do
    let stored ← mergeUpdate lib (nonces i) stored provider update
    mergeUpdates nonces (i + 1) stored updates

def completeInSettings (stored : StoredSettings β) (active : Text) : Except LoadError Bool :=
  match stored.providers.lookup active with
  | none => .ok false
  | some pair =>
    match decryptPair lib pair with
    | .error e => .error e
    | .ok (siteKey, secret) => .ok (siteKey ≠ [] && secret.isSome)

/-- The active provider resolves to a complete pair. -/
def checkActive (env : CaptchaConfig) (stored : StoredSettings β) (active : Text) :
    Except SaveSettingsError Unit :=
  if active = "none".toList then .ok ()
  else
    match completeInSettings lib stored active with
    | .error e => .error (.store e)
    | .ok complete =>
      if complete = true ∨ completeInEnv env active = true then .ok ()
      else .error .incompleteActive

/-- The settings that a save writes. -/
def validated (env : CaptchaConfig) (cond : Conditions ν) (kv : Option τ) (active : Text)
    (updates : List (Text × Option PairUpdate)) :
    Except SaveSettingsError (StoredSettings β) := do
  let blob ← (readBlob lib (cond.get kv)).mapError .store
  let stored ← mergeUpdates lib cond.nonces 0 { blob.getD {} with active := active } updates
  checkActive lib env stored active
  return stored

/-- The answer, and what the store holds then. -/
def saveSettings (env : CaptchaConfig) (cond : Conditions ν) (kv : Option τ) (active : Text)
    (updates : List (Text × Option PairUpdate)) : Except SaveSettingsError Unit × Option τ :=
  match validated lib env cond kv active updates with
  | .error e => (.error e, kv)
  | .ok stored =>
    if cond.setFails then (.error (.store .kv), kv)
    else (.ok (), some (lib.toText stored))

/-- A call with the names that `parse_provider` returns. -/
structure SaveCall (ν : Type) where
  cond : Conditions ν
  active : Provider
  updates : List (Provider × Option PairUpdate)

/-- The body of a `PUT`, its map of providers in the order of the keys. -/
structure PutRequest where
  active : Text
  providers : List (Text × Option PairUpdate)

inductive AuthError
  | badRequest (message : String)
  | internal (message : String)
  deriving DecidableEq, Repr

def parseUpdates : List (Text × Option PairUpdate) → Option (List (Provider × Option PairUpdate))
  | [] => some []
  | (provider, update) :: updates =>
    match parseProvider provider with
    | none | some .none => none
    | some p => (parseUpdates updates).map ((p, update) :: ·)

/-- The call that a request asks for. -/
def PutRequest.call (cond : Conditions ν) (req : PutRequest) : Except AuthError (SaveCall ν) :=
  match parseProvider req.active, parseUpdates req.providers with
  | none, _ => .error (.badRequest
      "active must be none, turnstile, hcaptcha, recaptcha, or recaptcha-v3")
  | some _, none => .error (.badRequest
      "providers keys must be turnstile, hcaptcha, recaptcha, or recaptcha-v3")
  | some active, some updates => .ok ⟨cond, active, updates⟩

def SaveCall.save (env : CaptchaConfig) (c : SaveCall ν) (kv : Option τ) :
    Except SaveSettingsError Unit × Option τ :=
  saveSettings lib env c.cond kv c.active.slug (c.updates.map fun u => (u.1.slug, u.2))

/-- The handler, without the view of the settings that it answers with. -/
def putCaptchaSettings (env : CaptchaConfig) (cond : Conditions ν) (kv : Option τ)
    (req : PutRequest) : Except AuthError Unit × Option τ :=
  match req.call cond with
  | .error e => (.error e, kv)
  | .ok c =>
    match c.save lib env kv with
    | (.ok (), kv) => (.ok (), kv)
    | (.error .incompleteActive, kv) =>
      (.error (.badRequest "the active provider needs a site key and secret"), kv)
    | (.error (.store _), kv) => (.error (.internal "Failed to save captcha settings"), kv)

/-- The store, and the active provider of the last save that it accepted. -/
structure Progress (τ : Type) where
  kv : Option τ
  saved : Option Provider := none

def Progress.next (env : CaptchaConfig) (w : Progress τ) (c : SaveCall ν) : Progress τ :=
  match c.save lib env w.kv with
  | (.ok (), kv) => ⟨kv, some c.active⟩
  | (.error _, kv) => ⟨kv, w.saved⟩

def afterSaves (env : CaptchaConfig) (kv : Option τ) (calls : List (SaveCall ν)) : Progress τ :=
  calls.foldl (Progress.next lib env) { kv := kv }

/-- A request on what the store holds. -/
def Progress.put (env : CaptchaConfig) (w : Progress τ) (r : Conditions ν × PutRequest) :
    Progress τ :=
  match putCaptchaSettings lib env r.1 w.kv r.2 with
  | (.ok (), kv) => ⟨kv, parseProvider r.2.active⟩
  | (.error _, kv) => ⟨kv, w.saved⟩

def afterPuts (env : CaptchaConfig) (kv : Option τ) (requests : List (Conditions ν × PutRequest)) :
    Progress τ :=
  requests.foldl (Progress.put lib env) { kv := kv }

/-! ## What login uses -/

/-- What `load_effective` returns while the store answers. -/
def effective (env : CaptchaConfig) (kv : Option τ) : CaptchaConfig :=
  (loadEffective lib env (.ok kv) (.ok kv)).1

/-- The keys of a stored pair that has both. -/
def storedKeys (s : StoredSettings β) (p : Text) : Option (Text × Text) :=
  match s.providers.lookup p with
  | none => none
  | some pair =>
    match decryptPair lib pair with
    | .ok (siteKey, some secret) => if siteKey = [] then none else some (siteKey, secret)
    | _ => none

def pairKeys (kv : Option τ) (p : Provider) : Option (Text × Text) :=
  match readBlob lib (.ok kv) with
  | .ok (some s) => storedKeys lib s p.slug
  | _ => none

/-- Login is protected by a provider: with keys that are not empty, of the pair in the blob if it
has both and of the environment otherwise. -/
structure Protected (env : CaptchaConfig) (kv : Option τ) (p : Provider) : Prop where
  disabled : p = .none → effective lib env kv = .none
  enforced : p ≠ .none → ∃ siteKey secret, effective lib env kv = p.config siteKey secret ∧
    siteKey ≠ [] ∧ secret ≠ []
  stored : p ≠ .none → ∀ keys, pairKeys lib kv p = some keys →
    effective lib env kv = p.config keys.1 keys.2
  fallback : p ≠ .none → pairKeys lib kv p = none → effective lib env kv = env

/-- In every run of saves, login is protected by the provider of the last one that was accepted,
and one that is rejected changes neither the blob nor what login uses. -/
def StaysUsable (env : CaptchaConfig) (kv : Option τ) : Prop :=
  ∀ calls : List (SaveCall ν), ∀ kv', (afterSaves lib env kv calls).kv = kv' →
    (∀ p, (afterSaves lib env kv calls).saved = some p → Protected lib env kv' p) ∧
    ∀ (c : SaveCall ν) e kv'', c.save lib env kv' = (.error e, kv'') →
      kv'' = kv' ∧ effective lib env kv'' = effective lib env kv'

/-- The blob is absent or can be read, in either form, and its secrets can be decrypted. -/
def Decryptable (kv : Option τ) : Prop :=
  ∃ got, readBlob lib (.ok kv) = .ok got ∧
    ∀ s, got = some s → ∀ p enc, s.held p = some enc →
      ∃ secret, lib.decrypt lib.key enc = some secret

/-- The secret of a provider in the blob is the empty text. -/
def BlankSecret (kv : Option τ) (p : Text) : Prop :=
  ∃ s enc, readBlob lib (.ok kv) = .ok (some s) ∧ s.held p = some enc ∧
    lib.decrypt lib.key enc = some []

end Settings

/-! ## Names -/

theorem slug_ne_nil (p : Provider) : p.slug ≠ [] := by
  cases p <;> decide

theorem slug_eq_none {p : Provider} : p.slug = "none".toList ↔ p = .none := by
  cases p <;> decide

theorem configFromParts_slug {p : Provider} (hp : p ≠ .none) (siteKey secret : Text) :
    configFromParts p.slug siteKey (some secret) = .ok (p.config siteKey secret) := by
  cases p with
  | none => exact absurd rfl hp
  | turnstile | hcaptcha | recaptcha | recaptchaV3 => rfl

theorem config_ne_none {p : Provider} (hp : p ≠ .none) (siteKey secret : Text) :
    p.config siteKey secret ≠ .none := by
  cases p with
  | none => exact absurd rfl hp
  | turnstile | hcaptcha | recaptcha | recaptchaV3 => exact nofun

theorem config_secret {p : Provider} (hp : p ≠ .none) {siteKey secret siteKey' secret' : Text}
    (h : p.config siteKey secret = p.config siteKey' secret') : secret = secret' := by
  cases p with
  | none => exact absurd rfl hp
  | turnstile | hcaptcha | recaptcha | recaptchaV3 =>
    injection h

theorem slug_injective {p q : Provider} (h : p.slug = q.slug) : p = q := by
  cases p <;> cases q <;> first | rfl | exact absurd h (by decide)

theorem providerName_config (p : Provider) (siteKey secret : Text) :
    (p.config siteKey secret).providerName = p.slug := by
  cases p <;> rfl

theorem credentials_config {p : Provider} (hp : p ≠ .none) (siteKey secret : Text) :
    (p.config siteKey secret).credentials = (some siteKey, some secret) := by
  cases p with
  | none => exact absurd rfl hp
  | turnstile | hcaptcha | recaptcha | recaptchaV3 => rfl

theorem CaptchaConfig.eq_config (c : CaptchaConfig) :
    c = .none ∨ ∃ p siteKey secret, p ≠ Provider.none ∧ c = p.config siteKey secret := by
  cases c with
  | none => exact .inl rfl
  | turnstile siteKey secret => exact .inr ⟨.turnstile, siteKey, secret, by decide, rfl⟩
  | hCaptcha siteKey secret => exact .inr ⟨.hcaptcha, siteKey, secret, by decide, rfl⟩
  | recaptcha siteKey secret => exact .inr ⟨.recaptcha, siteKey, secret, by decide, rfl⟩
  | recaptchaV3 siteKey secret => exact .inr ⟨.recaptchaV3, siteKey, secret, by decide, rfl⟩

/-- A complete environment of this provider has keys that are not empty. -/
theorem config_of_completeInEnv (env : EnvConfig) {p : Provider} (hp : p ≠ .none)
    (h : completeInEnv env.config p.slug = true) :
    ∃ siteKey secret, env.config = p.config siteKey secret ∧ siteKey ≠ [] ∧ secret ≠ [] := by
  have hname : env.config.providerName = p.slug := by
    simp only [completeInEnv, Bool.and_eq_true, decide_eq_true_eq] at h
    exact h.1.1
  obtain hnone | ⟨q, siteKey, secret, hq, hconfig⟩ := env.config.eq_config
  · rw [hnone] at hname
    exact absurd (slug_eq_none.mp hname.symm) hp
  · rw [hconfig, providerName_config] at hname
    have hkeys := env.keys
    unfold CaptchaConfig.KeysPresent at hkeys
    rw [hconfig, credentials_config hq] at hkeys
    refine ⟨siteKey, secret, slug_injective hname ▸ hconfig, ?_, ?_⟩
    · exact fun h => hkeys.1 (congrArg some h)
    · exact fun h => hkeys.2 (congrArg some h)

theorem envKey_ne_nil {env : List (Text × Text)} {name value : Text}
    (h : envKey env name = some value) : value ≠ [] := by
  unfold envKey at h
  obtain ⟨raw, hraw, rfl⟩ := Option.map_eq_some_iff.mp h
  exact of_decide_eq_true (Option.filter_eq_some_iff.mp hraw).2

/-- What the environment gives is a configuration of the kind that `EnvConfig` holds. -/
theorem captchaFromEnv_keys {env : List (Text × Text)} {c : CaptchaConfig}
    (h : captchaFromEnv env = .ok c) : c.KeysPresent := by
  have hwith : ∀ (p : Provider) (provider : Text),
      (match envKey env "LYRA_CAPTCHA_SITE_KEY".toList,
          envKey env "LYRA_CAPTCHA_SECRET".toList with
        | some siteKey, some secret => Except.ok (p.config siteKey secret)
        | _, _ => Except.error (ConfigError.captchaIncomplete provider)) = .ok c →
      c.KeysPresent := by
    intro p provider h
    split at h
    · rename_i siteKey secret hsite hsecret
      injection h with h
      subst h
      unfold CaptchaConfig.KeysPresent
      rcases Decidable.em (p = .none) with rfl | hp
      · exact ⟨nofun, nofun⟩
      · rw [credentials_config hp]
        exact ⟨fun e => envKey_ne_nil hsite (Option.some.inj e),
          fun e => envKey_ne_nil hsecret (Option.some.inj e)⟩
    · exact nomatch h
  unfold captchaFromEnv at h
  split at h
  · exact nomatch h
  · dsimp only at h
    split at h
    · injection h with h
      subst h
      exact ⟨nofun, nofun⟩
    · split at h
      · exact hwith .turnstile _ h
      · split at h
        · exact hwith .hcaptcha _ h
        · split at h
          · exact hwith .recaptcha _ h
          · split at h
            · exact hwith .recaptchaV3 _ h
            · exact nomatch h

/-! ## Reading a saved blob -/

section Saved

variable {lib : SettingsLib κ ν β τ}

theorem readBlob_toText {s : StoredSettings β} (h : s.active ≠ []) :
    readBlob lib (.ok (some (lib.toText s))) = .ok (some s.written) := by
  have hsame : s.written.normalize = s.written := by
    unfold StoredSettings.normalize
    exact if_neg h
  simp only [readBlob, lib.reads s, hsame]

theorem completeInSettings_eq {s : StoredSettings β} {a : Text} {complete : Bool}
    (h : completeInSettings lib s a = .ok complete) :
    complete = (storedKeys lib s a).isSome := by
  unfold completeInSettings at h
  unfold storedKeys
  cases hlookup : s.providers.lookup a with
  | none =>
    rw [hlookup] at h
    injection h with h
    exact h.symm
  | some pair =>
    rw [hlookup] at h
    rcases hpair : decryptPair lib pair with e | ⟨siteKey, secret⟩
    · simp [hpair] at h
    · rcases Decidable.em (siteKey = []) with hsite | hsite <;> cases secret <;>
        simp_all

/-- The secret of a complete pair is what its encrypted text holds. -/
theorem held_of_storedKeys {s : StoredSettings β} {a siteKey secret : Text}
    (h : storedKeys lib s a = some (siteKey, secret)) :
    siteKey ≠ [] ∧ ∃ enc, s.held a = some enc ∧ lib.decrypt lib.key enc = some secret := by
  unfold storedKeys at h
  split at h
  · exact nomatch h
  · rename_i pair hpair
    split at h
    · rename_i hkeys
      unfold decryptPair at hkeys
      split at hkeys
      · exact nomatch hkeys
      · rename_i enc henc
        split at hkeys
        · exact nomatch hkeys
        · rename_i t hdecrypt
          injection hkeys with hkeys
          injection hkeys with hsite hsecret
          injection hsecret with hsecret
          subst hsite hsecret
          split at h
          · exact nomatch h
          · rename_i hne
            injection h with h
            injection h with hsite hsecret
            subst hsite hsecret
            refine ⟨hne, enc, ?_, hdecrypt⟩
            unfold StoredSettings.held
            rw [hpair]
            exact henc
    · exact nomatch h

/-- The configuration of an active provider whose pair can be decrypted. -/
theorem storedConfig_active {s : StoredSettings β} {p : Provider} {complete : Bool}
    (hactive : s.active = p.slug) (hp : p ≠ .none)
    (hcomplete : completeInSettings lib s p.slug = .ok complete) :
    storedConfig lib s = .ok (match storedKeys lib s p.slug with
      | some keys => p.config keys.1 keys.2
      | none => .none) := by
  unfold storedConfig storedKeys
  unfold completeInSettings at hcomplete
  rw [hactive, if_neg (mt slug_eq_none.mp hp)]
  cases hlookup : s.providers.lookup p.slug with
  | none => rfl
  | some pair =>
    rw [hlookup] at hcomplete
    rcases hpair : decryptPair lib pair with e | ⟨siteKey, secret⟩
    · simp [hpair] at hcomplete
    · cases secret with
      | none => simp [hpair]
      | some secret =>
        rcases Decidable.em (siteKey = []) with hsite | hsite
        · simp [hpair, hsite]
        · simp [hpair, hsite, configFromParts_slug hp]

/-- What an accepted save leaves in the store: settings in which a provider is active, with a pair
that is complete there or in the environment. -/
def Settled (lib : SettingsLib κ ν β τ) (env : CaptchaConfig) (kv : Option τ) (p : Provider) :
    Prop :=
  ∃ s, readBlob lib (.ok kv) = .ok (some s) ∧ s.active = p.slug ∧
    (p ≠ .none → ∃ complete, completeInSettings lib s p.slug = .ok complete ∧
      (complete = true ∨ completeInEnv env p.slug = true))

theorem loadStored_eq {got : Except Unit (Option τ)} {s : StoredSettings β} {c : CaptchaConfig}
    (hread : readBlob lib got = .ok (some s)) (hconfig : storedConfig lib s = .ok c) :
    loadStored lib got = .ok (some c) := by
  simp only [loadStored, hread, hconfig]
  rfl

theorem loadEffective_ne_none {env c : CaptchaConfig} {first second : Except Unit (Option τ)}
    (hstored : loadStored lib first = .ok (some c)) (hc : c ≠ .none) :
    loadEffective lib env first second = (c, .settings) := by
  unfold loadEffective
  rw [hstored]
  cases c with
  | none => exact absurd rfl hc
  | turnstile | hCaptcha | recaptcha | recaptchaV3 => rfl

theorem effective_disabled {env : CaptchaConfig} {kv : Option τ}
    (h : Settled lib env kv .none) : effective lib env kv = .none := by
  obtain ⟨s, hread, hactive, -⟩ := h
  have hactive : s.active = "none".toList := hactive
  have hconfig : storedConfig lib s = .ok .none := if_pos hactive
  unfold effective loadEffective
  rw [loadStored_eq hread hconfig, hread]
  simp [hactive]

/-- After a save, login uses the pair in the blob if it is complete there, and the environment
otherwise. -/
theorem effective_of_settled {env : CaptchaConfig} {kv : Option τ} {p : Provider}
    (h : Settled lib env kv p) (hp : p ≠ .none) :
    (∃ keys, pairKeys lib kv p = some keys ∧ effective lib env kv = p.config keys.1 keys.2) ∨
    pairKeys lib kv p = none ∧ effective lib env kv = env ∧
      completeInEnv env p.slug = true := by
  obtain ⟨s, hread, hactive, hcomplete⟩ := h
  obtain ⟨complete, hcomplete, hor⟩ := hcomplete hp
  have hconfig := storedConfig_active hactive hp hcomplete
  have hkeys : pairKeys lib kv p = storedKeys lib s p.slug := by
    unfold pairKeys
    rw [hread]
  cases hstored : storedKeys lib s p.slug with
  | some keys =>
    rw [hstored] at hconfig
    have hload := loadStored_eq hread hconfig
    refine .inl ⟨keys, hkeys.trans hstored, ?_⟩
    unfold effective
    rw [loadEffective_ne_none hload (config_ne_none hp keys.1 keys.2)]
  | none =>
    rw [hstored] at hconfig
    have hload := loadStored_eq hread hconfig
    have henv : completeInEnv env p.slug = true := by
      refine hor.resolve_left fun h => ?_
      rw [completeInSettings_eq hcomplete, hstored] at h
      exact nomatch h
    have hname : s.active ≠ "none".toList := hactive ▸ mt slug_eq_none.mp hp
    have hfills : s.active ≠ "none".toList ∧ completeInEnv env s.active = true :=
      ⟨hname, hactive ▸ henv⟩
    refine .inr ⟨hkeys.trans hstored, ?_, henv⟩
    unfold effective loadEffective
    rw [hload, hread]
    simp only [if_pos hfills]

/-! ## What a save changes -/

/-- Every encrypted secret of the settings meets a condition. -/
def SecretsMeet (Q : Text → β → Prop) (s : StoredSettings β) : Prop :=
  ∀ p enc, s.held p = some enc → Q p enc

theorem held_erase {s : StoredSettings β} {name p : Text} {enc : β}
    (h : ({ s with providers := s.providers.erase name } : StoredSettings β).held p = some enc) :
    s.held p = some enc := by
  unfold StoredSettings.held at h ⊢
  rcases Decidable.em (p = name) with rfl | hne
  · rw [AList.lookup_erase] at h
    exact nomatch h
  · rwa [AList.lookup_erase_ne hne] at h

theorem held_insert {s : StoredSettings β} {name p : Text} {pair : StoredPair β} {enc : β}
    (h : ({ s with providers := s.providers.insert name pair } : StoredSettings β).held p =
      some enc) :
    p = name ∧ pair.secretEncrypted = some enc ∨ s.held p = some enc := by
  unfold StoredSettings.held at h ⊢
  rcases Decidable.em (p = name) with rfl | hne
  · rw [AList.lookup_insert] at h
    exact .inl ⟨rfl, h⟩
  · rw [AList.lookup_insert_ne hne] at h
    exact .inr h

theorem held_getD {s : StoredSettings β} {name : Text} {enc : β}
    (h : ((s.providers.lookup name).getD {}).secretEncrypted = some enc) :
    s.held name = some enc := by
  unfold StoredSettings.held
  cases hlookup : s.providers.lookup name with
  | none =>
    rw [hlookup] at h
    exact nomatch h
  | some pair =>
    rw [hlookup] at h
    exact h

theorem mergeUpdate_written {nonce : Option ν} {s t : StoredSettings β} {name : Text}
    {update : Option PairUpdate} (hs : s.written = s)
    (h : mergeUpdate lib nonce s name update = .ok t) : t.written = t ∧ t.active = s.active := by
  have hput : ∀ providers, ({ s with providers := providers } : StoredSettings β).written =
      { s with providers := providers } := by
    intro providers
    exact congrArg (fun s' => ({ s' with providers := providers } : StoredSettings β)) hs
  cases update with
  | none =>
    injection h with h
    subst h
    exact ⟨hput _, rfl⟩
  | some update =>
    unfold mergeUpdate at h
    dsimp only at h
    split at h
    · injection h with h
      subst h
      exact ⟨hput _, rfl⟩
    · exact nomatch h
    · injection h with h
      subst h
      exact ⟨hput _, rfl⟩

/-- A secret that an update leaves was there, or it is the encryption of a text that is not
empty. -/
theorem mergeUpdate_secrets {Q : Text → β → Prop} {nonce : Option ν} {s t : StoredSettings β}
    {name : Text} {update : Option PairUpdate}
    (hfresh : ∀ p n secret, secret ≠ [] → Q p (lib.encrypt lib.key n secret))
    (hs : SecretsMeet Q s) (h : mergeUpdate lib nonce s name update = .ok t) :
    SecretsMeet Q t := by
  intro p enc henc
  cases update with
  | none =>
    injection h with h
    subst h
    exact hs p enc (held_erase henc)
  | some update =>
    unfold mergeUpdate at h
    dsimp only at h
    split at h
    · injection h with h
      subst h
      rcases held_insert henc with ⟨rfl, hpair⟩ | hheld
      · refine hs p enc (held_getD ?_)
        cases hsite : update.siteKey <;> rwa [hsite] at hpair
      · exact hs p enc hheld
    · exact nomatch h
    · rename_i secret n hsecret
      have hne : secret ≠ [] := of_decide_eq_true (Option.filter_eq_some_iff.mp hsecret).2
      injection h with h
      subst h
      rcases held_insert henc with ⟨rfl, hpair⟩ | hheld
      · injection hpair with hpair
        subst hpair
        exact hfresh p n secret hne
      · exact hs p enc hheld

theorem mergeUpdates_written {nonces : Nat → Option ν} {i : Nat} {s t : StoredSettings β}
    {updates : List (Text × Option PairUpdate)} (hs : s.written = s)
    (h : mergeUpdates lib nonces i s updates = .ok t) : t.written = t ∧ t.active = s.active := by
  induction updates generalizing i s with
  | nil =>
    injection h with h
    subst h
    exact ⟨hs, rfl⟩
  | cons u updates ih =>
    unfold mergeUpdates at h
    cases hone : mergeUpdate lib (nonces i) s u.1 u.2 with
    | error e =>
      rw [hone] at h
      exact nomatch h
    | ok s' =>
      rw [hone] at h
      obtain ⟨hwritten, hactive⟩ := mergeUpdate_written hs hone
      obtain ⟨ht, hsame⟩ := ih hwritten h
      exact ⟨ht, hsame.trans hactive⟩

theorem mergeUpdates_secrets {Q : Text → β → Prop} {nonces : Nat → Option ν} {i : Nat}
    {s t : StoredSettings β} {updates : List (Text × Option PairUpdate)}
    (hfresh : ∀ p n secret, secret ≠ [] → Q p (lib.encrypt lib.key n secret))
    (hs : SecretsMeet Q s) (h : mergeUpdates lib nonces i s updates = .ok t) :
    SecretsMeet Q t := by
  induction updates generalizing i s with
  | nil =>
    injection h with h
    subst h
    exact hs
  | cons u updates ih =>
    unfold mergeUpdates at h
    cases hone : mergeUpdate lib (nonces i) s u.1 u.2 with
    | error e =>
      rw [hone] at h
      exact nomatch h
    | ok s' =>
      rw [hone] at h
      exact ih (mergeUpdate_secrets hfresh hs hone) h

theorem normalize_written (s : StoredSettings β) : s.normalize.written = s.normalize := by
  unfold StoredSettings.normalize
  dsimp only
  split <;> rfl

theorem readBlob_written {got : Except Unit (Option τ)} {s : StoredSettings β}
    (h : readBlob lib got = .ok (some s)) : s.written = s := by
  unfold readBlob at h
  split at h
  · exact nomatch h
  · exact nomatch h
  · split at h
    · exact nomatch h
    · rename_i stored _
      injection h with h
      injection h with h
      exact h ▸ normalize_written stored

theorem checkActive_eq_ok {env : CaptchaConfig} {s : StoredSettings β} {p : Provider}
    (h : checkActive lib env s p.slug = .ok ()) (hp : p ≠ .none) :
    ∃ complete, completeInSettings lib s p.slug = .ok complete ∧
      (complete = true ∨ completeInEnv env p.slug = true) := by
  unfold checkActive at h
  rw [if_neg (mt slug_eq_none.mp hp)] at h
  cases hcomplete : completeInSettings lib s p.slug with
  | error e =>
    rw [hcomplete] at h
    exact nomatch h
  | ok complete =>
    simp only [hcomplete] at h
    split at h
    · rename_i hor
      exact ⟨complete, rfl, hor⟩
    · exact nomatch h

theorem readBlob_get {cond : Conditions ν} {kv : Option τ} {blob : Option (StoredSettings β)}
    (h : readBlob lib (cond.get kv) = .ok blob) : readBlob lib (.ok kv) = .ok blob := by
  unfold Conditions.get at h
  split at h
  · exact nomatch h
  · exact h

/-- What a save does: it is rejected and changes nothing, or it writes the settings of the blob
with its updates merged into them, in which its active provider is complete. -/
theorem saveSettings_cases (lib : SettingsLib κ ν β τ) (env : CaptchaConfig) (cond : Conditions ν)
    (kv : Option τ)
    (active : Provider) (updates : List (Text × Option PairUpdate)) :
    (∃ e, saveSettings lib env cond kv active.slug updates = (.error e, kv)) ∨
    ∃ blob s, readBlob lib (.ok kv) = .ok blob ∧
      mergeUpdates lib cond.nonces 0 { blob.getD {} with active := active.slug } updates = .ok s ∧
      (active ≠ .none → ∃ complete, completeInSettings lib s active.slug = .ok complete ∧
        (complete = true ∨ completeInEnv env active.slug = true)) ∧
      saveSettings lib env cond kv active.slug updates = (.ok (), some (lib.toText s)) := by
  unfold saveSettings
  cases hvalid : validated lib env cond kv active.slug updates with
  | error e => exact .inl ⟨e, rfl⟩
  | ok s =>
    cases hset : cond.setFails with
    | true => exact .inl ⟨.store .kv, rfl⟩
    | false =>
      obtain ⟨blob, hread, hvalid⟩ := bind_eq_ok.mp hvalid
      obtain ⟨t, hmerge, hvalid⟩ := bind_eq_ok.mp hvalid
      obtain ⟨⟨⟩, hcheck, hsame⟩ := bind_eq_ok.mp hvalid
      injection hsame with hsame
      subst hsame
      have hread : readBlob lib (cond.get kv) = .ok blob := by
        cases hgot : readBlob lib (cond.get kv) with
        | error e =>
          rw [hgot] at hread
          exact nomatch hread
        | ok got =>
          rw [hgot] at hread
          injection hread with hread
          rw [hread]
      exact .inr ⟨blob, t, readBlob_get hread, hmerge, checkActive_eq_ok hcheck, rfl⟩

/-! ## Runs -/

/-- What holds after every run of saves: a blank secret was there in the first blob, and the
provider of the last accepted save is settled. -/
structure RunInv (lib : SettingsLib κ ν β τ) (env : CaptchaConfig) (kv : Option τ)
    (w : Progress τ) : Prop where
  secrets : ∀ p, BlankSecret lib w.kv p → BlankSecret lib kv p
  settled : ∀ p, w.saved = some p → Settled lib env w.kv p

/-- The step of a run. -/
theorem RunInv.next {env : CaptchaConfig} {kv : Option τ} {w : Progress τ} (c : SaveCall ν)
    (h : RunInv lib env kv w) : RunInv lib env kv (w.next lib env c) := by
  unfold Progress.next SaveCall.save
  rcases saveSettings_cases lib env c.cond w.kv c.active
    (c.updates.map fun u => (u.1.slug, u.2)) with
    ⟨e, hrejected⟩ | ⟨blob, s, hread, hmerge, hcomplete, haccepted⟩
  · rw [hrejected]
    exact ⟨h.secrets, h.settled⟩
  · rw [haccepted]
    have hstart : ({ blob.getD {} with active := c.active.slug } : StoredSettings β).written =
        { blob.getD {} with active := c.active.slug } := by
      cases blob with
      | none => rfl
      | some b => exact congrArg (fun s' => ({ s' with active := c.active.slug } :
          StoredSettings β)) (readBlob_written hread)
    obtain ⟨hwritten, hactive⟩ := mergeUpdates_written hstart hmerge
    have hne : s.active ≠ [] := hactive ▸ slug_ne_nil c.active
    have hsaved : readBlob lib (.ok (some (lib.toText s))) = .ok (some s) := by
      rw [readBlob_toText hne, hwritten]
    constructor
    · rintro p ⟨t, enc, ht, henc, hblank⟩
      -- a secret that decrypts to nothing was not encrypted by this save
      have hmeet : SecretsMeet
          (fun p enc => lib.decrypt lib.key enc = some [] → BlankSecret lib kv p) s := by
        refine mergeUpdates_secrets ?_ ?_ hmerge
        · intro p n secret hsecret hdecrypt
          rw [lib.decrypt_encrypt] at hdecrypt
          exact absurd (Option.some.inj hdecrypt) hsecret
        · intro p enc henc hdecrypt
          cases blob with
          | none => exact nomatch henc
          | some b => exact h.secrets p ⟨b, enc, hread, henc, hdecrypt⟩
      rw [hsaved] at ht
      injection ht with ht
      injection ht with ht
      subst ht
      exact hmeet p enc henc hblank
    · intro p hp
      injection hp with hp
      subst hp
      exact ⟨s, hsaved, hactive, hcomplete⟩

theorem runInv_afterSaves (lib : SettingsLib κ ν β τ) (env : CaptchaConfig) (kv : Option τ)
    (calls : List (SaveCall ν)) :
    RunInv lib env kv (afterSaves lib env kv calls) := by
  have hrun : ∀ w, RunInv lib env kv w →
      RunInv lib env kv (calls.foldl (Progress.next lib env) w) := by
    induction calls with
    | nil => exact fun w h => h
    | cons c calls ih => exact fun w h => ih _ (h.next c)
  exact hrun _ ⟨fun p h => h, nofun⟩

/-- A blob without blank secrets protects login by its settled provider. -/
theorem protected_of_settled {env : EnvConfig} {kv : Option τ} {p : Provider}
    (h : Settled lib env.config kv p)
    (hblank : p ≠ .none → ¬BlankSecret lib kv p.slug) : Protected lib env.config kv p := by
  refine ⟨?_, ?_, ?_, ?_⟩
  · rintro rfl
    exact effective_disabled h
  · intro hp
    rcases effective_of_settled h hp with ⟨⟨siteKey, secret⟩, hkeys, heff⟩ | ⟨hkeys, heff, henv⟩
    · unfold pairKeys at hkeys
      split at hkeys
      · rename_i s hread
        obtain ⟨hsite, enc, henc, hdecrypt⟩ := held_of_storedKeys hkeys
        refine ⟨siteKey, secret, heff, hsite, ?_⟩
        rintro rfl
        exact hblank hp ⟨s, enc, hread, henc, hdecrypt⟩
      · exact nomatch hkeys
    · obtain ⟨siteKey, secret, hconfig, hne⟩ := config_of_completeInEnv env hp henv
      exact ⟨siteKey, secret, heff.trans hconfig, hne⟩
  · intro hp keys hkeys
    rcases effective_of_settled h hp with ⟨keys', hkeys', heff⟩ | ⟨hnone, -⟩
    · rw [hkeys] at hkeys'
      injection hkeys' with hkeys'
      exact hkeys' ▸ heff
    · rw [hkeys] at hnone
      exact nomatch hnone
  · intro hp hnone
    rcases effective_of_settled h hp with ⟨keys, hkeys, -⟩ | ⟨-, heff, -⟩
    · rw [hnone] at hkeys
      exact nomatch hkeys
    · exact heff

/-- A save that is rejected changes nothing. -/
theorem save_rejected {env : CaptchaConfig} {kv kv' : Option τ} {c : SaveCall ν}
    {e : SaveSettingsError} (h : c.save lib env kv = (.error e, kv')) : kv' = kv := by
  unfold SaveCall.save at h
  rcases saveSettings_cases lib env c.cond kv c.active
    (c.updates.map fun u => (u.1.slug, u.2)) with ⟨e', hrejected⟩ | ⟨-, s, -, -, -, haccepted⟩
  · rw [hrejected] at h
    exact (congrArg Prod.snd h).symm
  · rw [haccepted] at h
    exact nomatch congrArg Prod.fst h

theorem call_active {cond : Conditions ν} {req : PutRequest} {c : SaveCall ν}
    (h : req.call cond = .ok c) : parseProvider req.active = some c.active := by
  unfold PutRequest.call at h
  split at h <;> cases h
  assumption

/-- A request does what the call that it asks for does, or nothing. -/
theorem put_cases (lib : SettingsLib κ ν β τ) (env : CaptchaConfig) (w : Progress τ)
    (r : Conditions ν × PutRequest) :
    w.put lib env r = w ∨ ∃ c, w.put lib env r = w.next lib env c := by
  unfold Progress.put putCaptchaSettings
  cases hcall : r.2.call r.1 with
  | error e => exact .inl rfl
  | ok c =>
    refine .inr ⟨c, ?_⟩
    unfold Progress.next
    dsimp only
    rcases c.save lib env w.kv with ⟨e | ⟨⟨⟩⟩, kv⟩
    · cases e <;> rfl
    · exact congrArg (Progress.mk kv) (call_active hcall)

/-- The call that makes a pair with a blank secret active. -/
def activate (p : Provider) : SaveCall ν :=
  { cond := { nonces := fun _ => none }
    active := p
    updates := [(p, some { siteKey := some "key".toList })] }

theorem activate_accepted (env : CaptchaConfig) {kv : Option τ} {p : Provider}
    (hp : p ≠ .none) (hblank : BlankSecret lib kv p.slug) :
    ∃ kv', (activate p).save lib env kv = (.ok (), kv') ∧
      pairKeys lib kv' p = some ("key".toList, []) := by
  obtain ⟨s, enc, hread, henc, hdecrypt⟩ := hblank
  obtain ⟨pair, hpair, hsecret⟩ := Option.bind_eq_some_iff.mp henc
  let t : StoredSettings β :=
    { s with
      active := p.slug
      providers := s.providers.insert p.slug { pair with siteKey := "key".toList } }
  have htrim : trimText "key".toList = "key".toList := by decide
  have hmerge : mergeUpdates lib (fun _ => none) 0 { s with active := p.slug }
      [(p.slug, some { siteKey := some "key".toList })] = .ok t := by
    simp only [mergeUpdates, mergeUpdate, hpair, Option.getD_some, htrim]
    rfl
  have hkeys : decryptPair lib { pair with siteKey := "key".toList } =
      .ok ("key".toList, some []) := by
    simp only [decryptPair, hsecret, hdecrypt]
  have hlookup : t.providers.lookup p.slug = some { pair with siteKey := "key".toList } :=
    AList.lookup_insert _
  have hcheck : checkActive lib env t p.slug = .ok () := by
    have hcomplete : completeInSettings lib t p.slug = .ok true := by
      simp only [completeInSettings, hlookup, hkeys]
      rfl
    simp only [checkActive, if_neg (mt slug_eq_none.mp hp), hcomplete, true_or, if_true]
  have hvalid : validated lib env { nonces := fun _ => none } kv p.slug
      [(p.slug, some { siteKey := some "key".toList })] = .ok t := by
    refine bind_eq_ok.mpr ⟨some s, ?_, bind_eq_ok.mpr ⟨t, hmerge, bind_eq_ok.mpr ⟨(), hcheck, rfl⟩⟩⟩
    have hgot : readBlob lib (Conditions.get ({ nonces := fun _ => none } : Conditions ν) kv) =
        .ok (some s) := hread
    rw [hgot]
    rfl
  have hwritten : t.written = t :=
    congrArg (fun s' : StoredSettings β =>
      ({ s' with active := t.active, providers := t.providers } : StoredSettings β))
      (readBlob_written hread)
  refine ⟨some (lib.toText t), ?_, ?_⟩
  · have hcall : saveSettings lib env { nonces := fun _ => none } kv p.slug
        [(p.slug, some { siteKey := some "key".toList })] = (.ok (), some (lib.toText t)) := by
      unfold saveSettings
      rw [hvalid]
      rfl
    exact hcall
  · have hsaved : readBlob lib (.ok (some (lib.toText t))) = .ok (some t) := by
      rw [readBlob_toText (slug_ne_nil p), hwritten]
    simp only [pairKeys, hsaved, storedKeys, hlookup, hkeys]
    decide

/-- A blank secret in the first blob can come to protect login. -/
theorem not_staysUsable_of_blank {env : CaptchaConfig} {kv : Option τ} {p : Provider}
    (hp : p ≠ .none) (hblank : BlankSecret lib kv p.slug) : ¬StaysUsable lib env kv := by
  intro h
  obtain ⟨kv', hsave, hkeys⟩ := activate_accepted env hp hblank
  have hafter : afterSaves lib env kv [activate p] = ⟨kv', some p⟩ := by
    simp only [afterSaves, List.foldl, Progress.next, hsave]
    rfl
  obtain ⟨hprotected, -⟩ := h [activate p] kv' (congrArg Progress.kv hafter)
  have hlogin := hprotected p (congrArg Progress.saved hafter)
  obtain ⟨siteKey, secret, heff, -, hsecret⟩ := hlogin.enforced hp
  exact hsecret (config_secret hp (heff.symm.trans (hlogin.stored hp _ hkeys)))

end Saved

/-- Login stays protected by keys that are not empty in every run of saves exactly if no secret in
the first blob is the empty text, encrypted. -/
theorem staysUsable_iff (lib : SettingsLib κ ν β τ) (env : EnvConfig) (kv : Option τ) :
    StaysUsable lib env.config kv ↔ ∀ p : Provider, p ≠ .none → ¬BlankSecret lib kv p.slug := by
  constructor
  · intro h p hp hblank
    exact not_staysUsable_of_blank hp hblank h
  · rintro hblank calls kv' rfl
    have hinv := runInv_afterSaves lib env.config kv calls
    constructor
    · intro p hp
      refine protected_of_settled (hinv.settled p hp) ?_
      intro hne
      exact mt (hinv.secrets p.slug) (hblank p hne)
    · intro c e kv'' hrejected
      have hsame := save_rejected hrejected
      exact ⟨hsame, by rw [hsame]⟩

/-- With keys from the environment and no blob at first, login is protected by the provider of the
last request that was accepted. -/
theorem protected_afterPuts (lib : SettingsLib κ ν β τ) {vars : List (Text × Text)}
    {env : CaptchaConfig} (henv : captchaFromEnv vars = .ok env)
    (requests : List (Conditions ν × PutRequest)) {p : Provider}
    (hp : (afterPuts lib env none requests).saved = some p) :
    Protected lib env (afterPuts lib env none requests).kv p := by
  have hrun : ∀ w, RunInv lib env none w →
      RunInv lib env none (requests.foldl (Progress.put lib env) w) := by
    clear hp
    induction requests with
    | nil => exact fun w h => h
    | cons r requests ih =>
      intro w h
      refine ih _ ?_
      rcases put_cases lib env w r with hsame | ⟨c, hnext⟩
      · rwa [hsame]
      · rw [hnext]
        exact h.next c
  have hinv := hrun { kv := none } ⟨fun _ h => h, fun _ h => by cases h⟩
  have hsettled : Settled lib (EnvConfig.mk env (captchaFromEnv_keys henv)).config _ p :=
    hinv.settled p hp
  refine protected_of_settled hsettled ?_
  intro _ hblank
  obtain ⟨s, -, hread, -⟩ := hinv.secrets _ hblank
  cases hread

/-- The libraries in the clear. -/
def clearLib : SettingsLib Unit Unit (ClearBlob Unit) (StoredSettings (ClearBlob Unit)) where
  toCipher := clearCipher
  key := ()
  fromStr s := some s
  toText s := s.written
  reads _ := rfl

theorem protected_afterPuts_turnstile :
    let config := CaptchaConfig.turnstile "k".toList "s".toList
    let requests : List (Conditions Unit × PutRequest) :=
      [({ nonces := fun _ => none }, ⟨"turnstile".toList, []⟩)]
    Protected clearLib config (afterPuts clearLib config none requests).kv .turnstile := by
  have henv : captchaFromEnv [("LYRA_CAPTCHA_PROVIDER".toList, "turnstile".toList),
      ("LYRA_CAPTCHA_SITE_KEY".toList, "k".toList), ("LYRA_CAPTCHA_SECRET".toList, "s".toList)] =
      .ok (.turnstile "k".toList "s".toList) := by decide +kernel
  exact protected_afterPuts clearLib henv _ (by decide +kernel)

/-- A blob whose pair for hCaptcha has the empty text as its secret. -/
def blankBlob : StoredSettings (ClearBlob Unit) where
  active := "none".toList
  providers := (∅ : AList _).insert Provider.hcaptcha.slug
    ⟨"key".toList, some ⟨(), []⟩⟩

/-- Saved as the active pair, a blank secret can be decrypted and is all that login has. -/
theorem not_staysUsable_blank :
    Decryptable clearLib (some blankBlob) ∧
      ¬StaysUsable clearLib CaptchaConfig.none (some blankBlob) := by
  have hread : readBlob clearLib (.ok (some blankBlob)) = .ok (some blankBlob) := rfl
  constructor
  · exact ⟨some blankBlob, hread, fun s _ p enc _ => ⟨enc.text, rfl⟩⟩
  · have hblank : BlankSecret clearLib (some blankBlob) Provider.hcaptcha.slug :=
      ⟨blankBlob, ⟨(), []⟩, hread, by decide, by decide⟩
    exact not_staysUsable_of_blank (by decide) hblank

end Lyra.Captcha
