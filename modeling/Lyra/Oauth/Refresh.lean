import Lyra.Auth.Cipher
import Lyra.Dav.Xml
import Lyra.Lib.Requests
import Mathlib.Data.List.Infix

/-!
# Refreshing an account's tokens

`resolve_mail_access_secret` of `oauth/tokens.rs`: a caller comes with a credential it read
before, and where the access token is about to expire it takes the account's lock, reads the
credential again, redeems the refresh token and stores what the provider issued.  The calls for
one account, side by side.

* `refresh_single_flight`: where the calls name the account by one text and the clock does not
  go back, no refresh token is redeemed twice, the stored tokens are the newest unless a call is
  between redemption and write, and no call answers with tokens older than those stored when it
  began;
* `unprotected`: what happens between redemption and write, under two spellings of the account's
  id, and with a clock that goes back.
-/

namespace Lyra.Oauth

open Lyra.Lib

/-! ## Tokens -/

structure OAuthTokenSet where
  accessToken : Text
  refreshToken : Text
  /-- Seconds since the epoch. -/
  expiresAt : Int
  tokenType : Text := []
  scope : Text := []
  deriving DecidableEq, Repr

/-- `serde_json` on token sets. -/
structure TokenJson where
  toString : OAuthTokenSet → Text
  fromStr : Text → Option OAuthTokenSet
  fromStr_toString : ∀ t, fromStr (toString t) = some t

inductive MsOAuthError
  | notConfigured
  | tokenExchange (text : Text)
  | credentialDecrypt
  | internal (text : String)
  deriving DecidableEq, Repr

inductive MailAccessSecret
  | password (p : Text)
  | accessToken (p : Text)
  deriving DecidableEq, Repr

/-- What the token endpoint grants; an empty refresh token is none. -/
structure Grant where
  accessToken : Text
  refreshToken : Option Text
  expiresIn : Int
  scope : Option Text
  deriving DecidableEq, Repr

/-- `refresh_access_token` of both providers, on the answer of the endpoint at `now`. -/
def OAuthTokenSet.refreshed (tokens : OAuthTokenSet) (grant : Grant) (now : Int) :
    OAuthTokenSet :=
  { tokens with
    accessToken := grant.accessToken
    refreshToken := (grant.refreshToken.filter fun rt => !rt.isEmpty).getD tokens.refreshToken
    expiresAt := now + max grant.expiresIn 60
    scope := grant.scope.getD tokens.scope }

/-- `REFRESH_SKEW_SECS`. -/
def refreshSkewSecs : Int := 120

/-- The access token is expired, or about to. -/
def OAuthTokenSet.Stale (tokens : OAuthTokenSet) (now : Int) : Prop :=
  tokens.expiresAt - now ≤ refreshSkewSecs

instance (tokens : OAuthTokenSet) (now : Int) : Decidable (tokens.Stale now) :=
  inferInstanceAs (Decidable (_ ≤ _))

theorem OAuthTokenSet.Stale.later {tokens : OAuthTokenSet} {now later : Int}
    (h : tokens.Stale now) (hle : now ≤ later) : tokens.Stale later := by
  unfold Stale at h ⊢
  omega

/-! ## Providers -/

inductive Provider
  | microsoft
  | yandex
  deriving DecidableEq, Repr

/-- Which client configurations the server has. -/
structure OAuthRefreshConfigs where
  microsoft : Bool
  yandex : Bool
  deriving DecidableEq, Repr

def isYandexMailHost (host : Text) : Bool :=
  let h := (trimText host).map Char.toLower
  h == "imap.yandex.com".toList || h == "smtp.yandex.com".toList ||
    ".yandex.com".toList.isSuffixOf h

def isMicrosoftMailHost (host : Text) : Bool :=
  let h := (trimText host).map Char.toLower
  h == "outlook.office365.com".toList || h == "outlook.office.com".toList ||
    h == "smtp-mail.outlook.com".toList || ".office365.com".toList.isSuffixOf h ||
      ".outlook.com".toList.isSuffixOf h

def refreshProvider (imapHost : Option Text) (configs : OAuthRefreshConfigs) :
    Except MsOAuthError Provider :=
  if imapHost.any isYandexMailHost then
    if configs.yandex then .ok .yandex else .error .notConfigured
  else if imapHost.any isMicrosoftMailHost then
    if configs.microsoft then .ok .microsoft else .error .notConfigured
  else .error .notConfigured

/-! ## Calls -/

/-- The calls of one account; `β` are the stored blobs. -/
inductive RefreshCall (β : Type)
  /-- The caller loads the account's row. -/
  | snapshot
  | start
  /-- `Utc::now()`. -/
  | now
  | lock (accountId : Text)
  /-- `load_credential_blob`. -/
  | reload (accountId : Text)
  | redeem (provider : Provider) (refreshToken : Text)
  | nonce
  | update (accountId : Text) (blob : β)
  | unlock (accountId : Text)
  | respond (answer : Except MsOAuthError MailAccessSecret)

/-- The `none` of `reload` and the `false` of `update` are errors of the store. -/
abbrev RefreshCall.Answer (β ν : Type) : RefreshCall β → Type
  | .snapshot => β
  | .start => Unit
  | .now => Int
  | .lock _ => Unit
  | .reload _ => Option β
  | .redeem .. => Except MsOAuthError Grant
  | .nonce => ν
  | .update .. => Bool
  | .unlock _ => Unit
  | .respond _ => PUnit

section Programs

variable {κ ν β : Type} (C : Cipher κ ν β) (J : TokenJson) (dek : κ)

def encryptOauthTokens (tokens : OAuthTokenSet) (nonce : ν) : β :=
  C.encrypt dek nonce (J.toString tokens)

def decryptOauthTokens (blob : β) : Option OAuthTokenSet := (C.decrypt dek blob).bind J.fromStr

@[simp] theorem decrypt_encryptOauthTokens (tokens : OAuthTokenSet) (nonce : ν) :
    decryptOauthTokens C J dek (encryptOauthTokens C J dek tokens nonce) = some tokens := by
  unfold decryptOauthTokens encryptOauthTokens
  rw [C.decrypt_encrypt]
  exact J.fromStr_toString tokens

def decryptPassword (blob : β) : Except MsOAuthError MailAccessSecret :=
  match C.decrypt dek blob with
  | some p => .ok (.password p)
  | none => .error (.internal "decrypt")

abbrev RefreshProg (β ν : Type) := Prog (RefreshCall β) (RefreshCall.Answer β ν)

/-- Redeems the refresh token and stores what came for it. -/
def redeemSteps (accountId : Text) (provider : Except MsOAuthError Provider)
    (tokens : OAuthTokenSet) : RefreshProg β ν (Except MsOAuthError MailAccessSecret) := do
  match provider with
  | .error e => return .error e
  | .ok provider =>
    match ← Prog.ask (RefreshCall.redeem provider tokens.refreshToken) with
    | .error e => return .error e
    | .ok grant =>
      let issuedAt ← Prog.ask RefreshCall.now
      let tokens := tokens.refreshed grant issuedAt
      let nonce ← Prog.ask RefreshCall.nonce
      if ← Prog.ask (RefreshCall.update accountId (encryptOauthTokens C J dek tokens nonce)) then
        return .ok (.accessToken tokens.accessToken)
      else return .error (.internal "update credential")

/-- What is done under the lock. -/
def lockedSteps (accountId : Text) (provider : Except MsOAuthError Provider)
    (tokens : OAuthTokenSet) : RefreshProg β ν (Except MsOAuthError MailAccessSecret) := do
  match (← Prog.ask (RefreshCall.reload accountId)).bind (decryptOauthTokens C J dek) with
  | some fresh =>
    let now ← Prog.ask RefreshCall.now
    if fresh.Stale now then redeemSteps C J dek accountId provider fresh
    else return .ok (.accessToken fresh.accessToken)
  | none => redeemSteps C J dek accountId provider tokens

/-- `resolve_mail_access_secret`. -/
def resolveMailAccessSecret (accountId authType : Text) (credentialJson : β)
    (imapHost : Option Text) (configs : OAuthRefreshConfigs) :
    RefreshProg β ν (Except MsOAuthError MailAccessSecret) := do
  if authType = "oauth2".toList then
    match decryptOauthTokens C J dek credentialJson with
    | none => return .error .credentialDecrypt
    | some tokens =>
      let now ← Prog.ask RefreshCall.now
      if tokens.Stale now then
        Prog.ask (RefreshCall.lock accountId)
        let answer ← lockedSteps C J dek accountId (refreshProvider imapHost configs) tokens
        Prog.ask (RefreshCall.unlock accountId)
        return answer
      else return .ok (.accessToken tokens.accessToken)
  else return decryptPassword C dek credentialJson

end Programs

/-- A call of `resolve_mail_access_secret`, but for the credential. -/
structure Resolve where
  accountId : Text
  authType : Text := "oauth2".toList
  imapHost : Option Text
  configs : OAuthRefreshConfigs
  deriving DecidableEq, Repr

/-! ## The account -/

/-- Two tokens that were issued together. -/
structure Issue where
  accessToken : Text
  refreshToken : Text
  deriving DecidableEq, Repr

def OAuthTokenSet.issue (tokens : OAuthTokenSet) : Issue :=
  ⟨tokens.accessToken, tokens.refreshToken⟩

def Grant.issue (grant : Grant) (redeemed : Text) : Issue :=
  ⟨grant.accessToken, (grant.refreshToken.filter fun rt => !rt.isEmpty).getD redeemed⟩

structure Account (β : Type) where
  credential : β
  /-- The last time that was read. -/
  clock : Int
  /-- Who holds the lock of an id. -/
  holder : Text → Option Nat
  /-- What the provider issued, newest first. -/
  issued : List Issue
  /-- The refresh tokens that were redeemed, newest first. -/
  redeemed : List Text
  /-- The calls that have redeemed and not yet written. -/
  unwritten : List Nat
  /-- What was stored when the call began. -/
  began : Nat → Option Issue
  /-- What was stored when a call began, and the access token it answered with. -/
  returned : List (Option Issue × Text)

/-- What the world decides of a call. -/
structure Choice (ν : Type) where
  time : Int
  works : Bool
  grant : Except MsOAuthError Grant
  nonce : ν

section Service

variable {κ ν β : Type} (C : Cipher κ ν β) (J : TokenJson) (dek : κ)

def Account.respond (w : Account β) (i : Nat) :
    Except MsOAuthError MailAccessSecret → Account β
  | .ok (.accessToken t) => { w with returned := (w.began i, t) :: w.returned }
  | _ => w

def Account.redeem (w : Account β) (i : Nat) (refreshToken : Text) (grant : Grant) : Account β :=
  { w with
    issued := grant.issue refreshToken :: w.issued
    redeemed := refreshToken :: w.redeemed
    unwritten := i :: w.unwritten }

def Account.write (w : Account β) (i : Nat) (blob : β) : Account β :=
  { w with credential := blob, unwritten := w.unwritten.filter (· != i) }

def exec (i : Nat) (c : Choice ν) (o : RefreshCall β) (w : Account β) :
    Option (Account β × o.Answer β ν) :=
  match o with
  | .snapshot => some (w, w.credential)
  | .start =>
    some ({ w with
      began := Function.update w.began i
        ((decryptOauthTokens C J dek w.credential).map OAuthTokenSet.issue) }, ())
  | .now => some ({ w with clock := c.time }, c.time)
  | .lock id =>
    if w.holder id = none then some ({ w with holder := Function.update w.holder id (some i) }, ())
    else none
  | .reload _ => some (w, if c.works then some w.credential else none)
  | .redeem _ rt =>
    match c.grant with
    | .ok grant => some (w.redeem i rt grant, .ok grant)
    | .error e => some (w, .error e)
  | .nonce => some (w, c.nonce)
  | .update _ blob => some (if c.works then w.write i blob else w, c.works)
  | .unlock id => some ({ w with holder := Function.update w.holder id none }, ())
  | .respond answer => some (w.respond i answer, ⟨⟩)

/-- The calls for one account: every id is a spelling of its own. -/
def refreshService : Service (Account β) (RefreshCall β) (RefreshCall.Answer β ν) Resolve
    (Choice ν) Empty where
  init w := ∃ tokens, decryptOauthTokens C J dek w.credential = some tokens ∧
    w.issued = [tokens.issue] ∧ w.holder = (fun _ => none) ∧ w.redeemed = [] ∧
    w.unwritten = [] ∧ w.returned = []
  exec := exec C J dek
  request q := do
    let credential ← Prog.ask RefreshCall.snapshot
    Prog.ask RefreshCall.start
    let answer ← resolveMailAccessSecret C J dek q.accountId q.authType credential q.imapHost
      q.configs
    Prog.ask (RefreshCall.respond answer)
  arrive _ _ w := w
  env e _ := nomatch e

end Service

/-! ## The rules -/

variable {κ ν β : Type}

/-- `x` was issued when `s` was, or after it; the log is newest first. -/
def NoEarlier (log : List Issue) (x s : Issue) : Prop := ∃ older, x :: older <:+ log ∧ s ∈ x :: older

/-- The provider grants a refresh token it has not issued before. -/
def Renews (w : Account β) : Except MsOAuthError Grant → Prop
  | .error _ => False
  | .ok grant => ∃ rt ∈ grant.refreshToken, rt ≠ [] ∧ rt ∉ w.issued.map Issue.refreshToken

instance (w : Account β) (answer : Except MsOAuthError Grant) : Decidable (Renews w answer) :=
  match answer with
  | .error _ => inferInstanceAs (Decidable False)
  | .ok _ => inferInstanceAs (Decidable (∃ rt ∈ _, _))

/-- The store works and every redemption gives a new refresh token. -/
def Granting (_ : Nat) (c : Choice ν) : RefreshCall β → Account β → Prop
  | .reload _, _ => c.works = true
  | .update .., _ => c.works = true
  | .redeem .., w => Renews w c.grant
  | _, _ => True

instance (i : Nat) (c : Choice ν) (o : RefreshCall β) (w : Account β) :
    Decidable (Granting i c o w) :=
  match o with
  | .reload _ => inferInstanceAs (Decidable (c.works = true))
  | .update .. => inferInstanceAs (Decidable (c.works = true))
  | .redeem .. => inferInstanceAs (Decidable (Renews w c.grant))
  | .snapshot | .start | .now | .lock _ | .nonce | .unlock _ | .respond _ =>
    inferInstanceAs (Decidable True)

/-- The account goes by this id, and the clock does not go back. -/
def Steady (accountId : Text) (c : Choice ν) : RefreshCall β → Account β → Prop
  | .now, w => w.clock ≤ c.time
  | .lock id, _ => id = accountId
  | _, _ => True

instance (accountId : Text) (c : Choice ν) (o : RefreshCall β) (w : Account β) :
    Decidable (Steady accountId c o w) :=
  match o with
  | .now => inferInstanceAs (Decidable (w.clock ≤ c.time))
  | .lock id => inferInstanceAs (Decidable (id = accountId))
  | .snapshot | .start | .reload _ | .redeem .. | .nonce | .update .. | .unlock _ | .respond _ =>
    inferInstanceAs (Decidable True)

def Provided (accountId : Text) (i : Nat) (c : Choice ν) (o : RefreshCall β) (w : Account β) :
    Prop :=
  Granting i c o w ∧ Steady accountId c o w

instance (accountId : Text) (i : Nat) (c : Choice ν) (o : RefreshCall β) (w : Account β) :
    Decidable (Provided accountId i c o w) :=
  inferInstanceAs (Decidable (_ ∧ _))

section Rules

variable (C : Cipher κ ν β) (J : TokenJson) (dek : κ) (accountId : Text)

def Account.tokens (w : Account β) : Option OAuthTokenSet := decryptOauthTokens C J dek w.credential

structure RefreshInv (w : Account β) : Prop where
  distinct : (w.issued.map Issue.refreshToken).Nodup
  /-- All but the newest refresh token were redeemed, once. -/
  redeemed : w.redeemed = w.issued.tail.map Issue.refreshToken
  stored : ∃ tokens, w.tokens C J dek = some tokens ∧ tokens.issue ∈ w.issued ∧
    (w.unwritten = [] → w.issued.head? = some tokens.issue)
  writers : ∀ j ∈ w.unwritten, w.holder accountId = some j
  returned : ∀ s t, (some s, t) ∈ w.returned → ∃ x, NoEarlier w.issued x s ∧ x.accessToken = t

/-- The tokens are stored, or were before and have been found stale. -/
def Known (tokens : OAuthTokenSet) (w : Account β) : Prop :=
  tokens.issue ∈ w.issued ∧ (w.tokens C J dek = some tokens ∨ tokens.Stale w.clock)

/-- What is stored was issued no earlier. -/
def Since (s : Issue) (w : Account β) : Prop :=
  ∃ tokens, w.tokens C J dek = some tokens ∧ NoEarlier w.issued tokens.issue s

/-- What others leave of what a call knows. -/
structure RefreshRely (i : Nat) (w w' : Account β) : Prop where
  clock : w.clock ≤ w'.clock
  issued : w.issued <:+ w'.issued
  began : w'.began i = w.began i
  known : ∀ tokens, Known C J dek tokens w → Known C J dek tokens w'
  since : ∀ s, Since C J dek s w → Since C J dek s w'
  held : w.holder accountId = some i → w'.holder accountId = some i ∧
    w'.credential = w.credential ∧ w'.issued = w.issued ∧ w'.unwritten = w.unwritten

def refreshRules : Service.Rules (Account β) (RefreshCall β) (Choice ν) where
  inv := RefreshInv C J dek accountId
  ok := Provided accountId
  guarantee i w w' := ∀ j, j ≠ i → RefreshRely C J dek accountId j w w'
  rely := RefreshRely C J dek accountId

end Rules

variable {C : Cipher κ ν β} {J : TokenJson} {dek : κ} {accountId : Text} {i j : Nat}
  {c : Choice ν} {w w' : Account β} {tokens : OAuthTokenSet} {x s : Issue}
  {log log' : List Issue}

theorem NoEarlier.mono (h : NoEarlier log x s) (hlog : log <:+ log') : NoEarlier log' x s := by
  obtain ⟨older, hsuffix, hs⟩ := h
  exact ⟨older, hsuffix.trans hlog, hs⟩

theorem NoEarlier.mem (h : NoEarlier log x s) : s ∈ log := by
  obtain ⟨older, hsuffix, hs⟩ := h
  exact hsuffix.subset hs

theorem noEarlier_self (h : x ∈ log) : NoEarlier log x x := by
  obtain ⟨newer, older, rfl⟩ := List.append_of_mem h
  exact ⟨older, List.suffix_append newer _, List.mem_cons_self⟩

theorem noEarlier_head (h : s ∈ x :: log) : NoEarlier (x :: log) x s :=
  ⟨log, List.suffix_rfl, h⟩

theorem RefreshRely.refl (i : Nat) (w : Account β) : RefreshRely C J dek accountId i w w :=
  ⟨Int.le_refl _, List.suffix_rfl, rfl, fun _ h => h, fun _ h => h, fun h => ⟨h, rfl, rfl, rfl⟩⟩

theorem RefreshRely.trans {u : Account β} (h : RefreshRely C J dek accountId i w w')
    (h' : RefreshRely C J dek accountId i w' u) : RefreshRely C J dek accountId i w u := by
  refine ⟨Int.le_trans h.clock h'.clock, h.issued.trans h'.issued, h'.began.trans h.began,
    fun t ht => h'.known t (h.known t ht), fun s hs => h'.since s (h.since s hs), ?_⟩
  intro hheld
  obtain ⟨hholder, hcredential, hissued, hunwritten⟩ := h.held hheld
  obtain ⟨hholder', hcredential', hissued', hunwritten'⟩ := h'.held hholder
  exact ⟨hholder', hcredential'.trans hcredential, hissued'.trans hissued,
    hunwritten'.trans hunwritten⟩

/-! ## What a call knows -/

/-- The call may answer with this access token. -/
def Good (i : Nat) (access : Text) (w : Account β) : Prop :=
  ∀ s, w.began i = some s → ∃ x, NoEarlier w.issued x s ∧ x.accessToken = access

def Answered (i : Nat) (answer : Except MsOAuthError MailAccessSecret) (w : Account β) : Prop :=
  ∀ access, answer = .ok (.accessToken access) → Good i access w

def Started (C : Cipher κ ν β) (J : TokenJson) (dek : κ) (i : Nat) (w : Account β) : Prop :=
  ∀ s, w.began i = some s → Since C J dek s w

/-- The call holds the lock, and nothing waits to be written. -/
structure Holds (C : Cipher κ ν β) (J : TokenJson) (dek : κ) (accountId : Text) (i : Nat)
    (w : Account β) : Prop where
  holder : w.holder accountId = some i
  unwritten : w.unwritten = []
  started : Started C J dek i w

/-- The call has redeemed the stored tokens for these. -/
structure Redeemed (C : Cipher κ ν β) (J : TokenJson) (dek : κ) (accountId : Text) (i : Nat)
    (new : Issue) (w : Account β) : Prop where
  holder : w.holder accountId = some i
  unwritten : w.unwritten = [i]
  stale : ∀ tokens, w.tokens C J dek = some tokens → tokens.Stale w.clock
  issued : w.issued.head? = some new
  started : Started C J dek i w

theorem Good.rely {access : Text} (h : Good i access w)
    (hrely : RefreshRely C J dek accountId i w w') : Good i access w' := by
  intro s hs
  rw [hrely.began] at hs
  obtain ⟨x, hx, haccess⟩ := h s hs
  exact ⟨x, hx.mono hrely.issued, haccess⟩

theorem Answered.rely {answer : Except MsOAuthError MailAccessSecret} (h : Answered i answer w)
    (hrely : RefreshRely C J dek accountId i w w') : Answered i answer w' := by
  intro access haccess
  exact (h access haccess).rely hrely

theorem Started.rely (h : Started C J dek i w) (hrely : RefreshRely C J dek accountId i w w') :
    Started C J dek i w' := by
  intro s hs
  rw [hrely.began] at hs
  exact hrely.since s (h s hs)

theorem Holds.rely (h : Holds C J dek accountId i w)
    (hrely : RefreshRely C J dek accountId i w w') : Holds C J dek accountId i w' := by
  obtain ⟨hholder, _, _, hunwritten⟩ := hrely.held h.holder
  exact ⟨hholder, hunwritten.trans h.unwritten, h.started.rely hrely⟩

theorem Redeemed.rely (h : Redeemed C J dek accountId i x w)
    (hrely : RefreshRely C J dek accountId i w w') : Redeemed C J dek accountId i x w' := by
  obtain ⟨hholder, hcredential, hissued, hunwritten⟩ := hrely.held h.holder
  refine ⟨hholder, hunwritten.trans h.unwritten, ?_, ?_, h.started.rely hrely⟩
  · intro tokens htokens
    unfold Account.tokens at htokens
    rw [hcredential] at htokens
    exact (h.stale tokens htokens).later hrely.clock
  · rw [hissued]
    exact h.issued

theorem Started.good (h : Started C J dek i w) (htokens : w.tokens C J dek = some tokens) :
    Good i tokens.accessToken w := by
  intro s hs
  obtain ⟨tokens', htokens', hx⟩ := h s hs
  obtain rfl := Option.some.inj (htokens.symm.trans htokens')
  exact ⟨tokens.issue, hx, rfl⟩

theorem RefreshInv.idle (hinv : RefreshInv C J dek accountId w)
    (hfree : w.holder accountId = none) : w.unwritten = [] := by
  refine List.eq_nil_iff_forall_not_mem.mpr ?_
  intro j hj
  have hholder := hinv.writers j hj
  rw [hfree] at hholder
  cases hholder

/-! ## The steps -/

/-- What a call is to show of each of its steps. -/
def Step (C : Cipher κ ν β) (J : TokenJson) (dek : κ) (accountId : Text) (i : Nat)
    (w w' : Account β) : Prop :=
  RefreshInv C J dek accountId w' ∧ ∀ j, j ≠ i → RefreshRely C J dek accountId j w w'

theorem step_read (hinv : RefreshInv C J dek accountId w) : Step C J dek accountId i w w :=
  ⟨hinv, fun j _ => .refl j w⟩

theorem step_start (hinv : RefreshInv C J dek accountId w) {b : Option Issue} :
    Step C J dek accountId i w { w with began := Function.update w.began i b } := by
  refine ⟨⟨hinv.distinct, hinv.redeemed, hinv.stored, hinv.writers, hinv.returned⟩, ?_⟩
  intro j hj
  exact ⟨Int.le_refl _, List.suffix_rfl, Function.update_of_ne hj _ _, fun _ h => h, fun _ h => h,
    fun h => ⟨h, rfl, rfl, rfl⟩⟩

theorem step_now (hinv : RefreshInv C J dek accountId w) {time : Int} (hle : w.clock ≤ time) :
    RefreshInv C J dek accountId { w with clock := time } ∧
      ∀ j, RefreshRely C J dek accountId j w { w with clock := time } := by
  refine ⟨⟨hinv.distinct, hinv.redeemed, hinv.stored, hinv.writers, hinv.returned⟩, ?_⟩
  intro j
  refine ⟨hle, List.suffix_rfl, rfl, ?_, fun _ h => h, fun h => ⟨h, rfl, rfl, rfl⟩⟩
  rintro tokens ⟨hmem, hknown⟩
  exact ⟨hmem, hknown.imp_right fun hstale => hstale.later hle⟩

theorem step_lock (hinv : RefreshInv C J dek accountId w) (hfree : w.holder accountId = none) :
    Step C J dek accountId i w
      { w with holder := Function.update w.holder accountId (some i) } := by
  refine ⟨⟨hinv.distinct, hinv.redeemed, hinv.stored, ?_, hinv.returned⟩, ?_⟩
  · intro j hj
    have hnone := hinv.idle hfree
    rw [hnone] at hj
    cases hj
  · intro j _
    refine ⟨Int.le_refl _, List.suffix_rfl, rfl, fun _ h => h, fun _ h => h, ?_⟩
    intro hheld
    rw [hfree] at hheld
    cases hheld

theorem step_unlock (hinv : RefreshInv C J dek accountId w)
    (hholder : w.holder accountId = some i) (hnone : w.unwritten = []) :
    Step C J dek accountId i w { w with holder := Function.update w.holder accountId none } := by
  refine ⟨⟨hinv.distinct, hinv.redeemed, hinv.stored, ?_, hinv.returned⟩, ?_⟩
  · intro j hj
    rw [hnone] at hj
    cases hj
  · intro j hj
    refine ⟨Int.le_refl _, List.suffix_rfl, rfl, fun _ h => h, fun _ h => h, ?_⟩
    intro hheld
    rw [hholder] at hheld
    exact (hj (Option.some.inj hheld).symm).elim

theorem step_redeem (hinv : RefreshInv C J dek accountId w) (hholds : Holds C J dek accountId i w)
    (htokens : w.tokens C J dek = some tokens) {grant : Grant}
    (hnew : (grant.issue tokens.refreshToken).refreshToken ∉ w.issued.map Issue.refreshToken) :
    Step C J dek accountId i w (w.redeem i tokens.refreshToken grant) := by
  obtain ⟨tokens', htokens', hmem, hhead⟩ := hinv.stored
  obtain rfl := Option.some.inj (htokens.symm.trans htokens')
  obtain ⟨older, holder⟩ := List.head?_eq_some_iff.mp (hhead hholds.unwritten)
  refine ⟨⟨List.nodup_cons.mpr ⟨hnew, hinv.distinct⟩, ?_, ?_, ?_, ?_⟩, ?_⟩
  · have hredeemed := hinv.redeemed
    unfold Account.redeem
    dsimp only
    rw [hredeemed, List.tail_cons, holder]
    rfl
  · exact ⟨tokens, htokens, List.mem_cons_of_mem _ hmem, fun h => absurd h (List.cons_ne_nil _ _)⟩
  · intro j hj
    have hj' : j ∈ i :: w.unwritten := hj
    rw [hholds.unwritten, List.mem_singleton] at hj'
    rw [hj']
    exact hholds.holder
  · intro s t hs
    obtain ⟨x, hx, haccess⟩ := hinv.returned s t hs
    exact ⟨x, hx.mono (List.suffix_cons _ _), haccess⟩
  · intro j hj
    refine ⟨Int.le_refl _, List.suffix_cons _ _, rfl, ?_, ?_, ?_⟩
    · rintro t ⟨hmem, hknown⟩
      exact ⟨List.mem_cons_of_mem _ hmem, hknown⟩
    · rintro s ⟨t, ht, hs⟩
      exact ⟨t, ht, hs.mono (List.suffix_cons _ _)⟩
    · intro hheld
      rw [hholds.holder] at hheld
      exact (hj (Option.some.inj hheld).symm).elim

theorem step_write (hinv : RefreshInv C J dek accountId w)
    (hredeemed : Redeemed C J dek accountId i x w) {blob : β}
    (hblob : decryptOauthTokens C J dek blob = some tokens) (hissue : tokens.issue = x) :
    Step C J dek accountId i w (w.write i blob) := by
  obtain ⟨older, holder⟩ := List.head?_eq_some_iff.mp hredeemed.issued
  have hmem : x ∈ w.issued := by
    rw [holder]
    exact List.mem_cons_self
  refine ⟨⟨hinv.distinct, hinv.redeemed, ?_, ?_, hinv.returned⟩, ?_⟩
  · refine ⟨tokens, hblob, ?_, fun _ => ?_⟩
    · rw [hissue]
      exact hmem
    · rw [hissue]
      exact hredeemed.issued
  · intro j hj
    exact hinv.writers j (List.mem_of_mem_filter hj)
  · intro j hj
    refine ⟨Int.le_refl _, List.suffix_rfl, rfl, ?_, ?_, ?_⟩
    · rintro t ⟨ht, hknown⟩
      refine ⟨ht, .inr ?_⟩
      rcases hknown with hstored | hstale
      · exact hredeemed.stale t hstored
      · exact hstale
    · rintro s ⟨t, _, hs⟩
      refine ⟨tokens, hblob, ?_⟩
      have hs' := hs.mem
      change NoEarlier w.issued tokens.issue s
      rw [holder] at hs' ⊢
      rw [hissue]
      exact noEarlier_head hs'
    · intro hheld
      rw [hredeemed.holder] at hheld
      exact (hj (Option.some.inj hheld).symm).elim

theorem step_respond (hinv : RefreshInv C J dek accountId w)
    {answer : Except MsOAuthError MailAccessSecret} (hanswer : Answered i answer w) :
    Step C J dek accountId i w (w.respond i answer) := by
  cases answer with
  | error e => exact step_read hinv
  | ok secret =>
    cases secret with
    | password p => exact step_read hinv
    | accessToken t =>
      refine ⟨⟨hinv.distinct, hinv.redeemed, hinv.stored, hinv.writers, ?_⟩, ?_⟩
      · intro s t' hs
        rcases List.mem_cons.mp hs with hnew | hold
        · obtain ⟨hbegan, rfl⟩ := Prod.mk.inj hnew
          exact hanswer t' rfl s hbegan.symm
        · exact hinv.returned s t' hold
      · intro j _
        exact ⟨Int.le_refl _, List.suffix_rfl, rfl, fun _ h => h, fun _ h => h,
          fun h => ⟨h, rfl, rfl, rfl⟩⟩

/-! ## A whole call -/

/-- A stale stored credential that is to be redeemed. -/
structure Due (C : Cipher κ ν β) (J : TokenJson) (dek : κ) (accountId : Text) (i : Nat)
    (tokens : OAuthTokenSet) (w : Account β) : Prop where
  holds : Holds C J dek accountId i w
  stored : w.tokens C J dek = some tokens
  stale : tokens.Stale w.clock

theorem tokens_held (hholds : Holds C J dek accountId i w)
    (hrely : RefreshRely C J dek accountId i w w') : w'.tokens C J dek = w.tokens C J dek := by
  obtain ⟨_, hcredential, _, _⟩ := hrely.held hholds.holder
  unfold Account.tokens
  rw [hcredential]

theorem Due.rely (h : Due C J dek accountId i tokens w)
    (hrely : RefreshRely C J dek accountId i w w') : Due C J dek accountId i tokens w' :=
  ⟨h.holds.rely hrely, (tokens_held h.holds hrely).trans h.stored, h.stale.later hrely.clock⟩

/-- The answer of what is done under the lock. -/
def Finished (C : Cipher κ ν β) (J : TokenJson) (dek : κ) (accountId : Text) (i : Nat)
    (answer : Except MsOAuthError MailAccessSecret) (w : Account β) : Prop :=
  Holds C J dek accountId i w ∧ Answered i answer w

theorem finished_error {e : MsOAuthError} (h : Holds C J dek accountId i w) :
    Finished C J dek accountId i (.error e) w :=
  ⟨h, fun _ h => by cases h⟩

theorem answered_of_good {access : Text} (h : Good i access w) :
    Answered i (.ok (.accessToken access)) w := by
  rintro access' haccess
  obtain rfl := MailAccessSecret.accessToken.inj (Except.ok.inj haccess)
  exact h

/-- After the write the call holds the lock with nothing to write, and may answer. -/
theorem Redeemed.write (h : Redeemed C J dek accountId i x w) {blob : β}
    (hblob : decryptOauthTokens C J dek blob = some tokens) (hissue : tokens.issue = x) :
    Finished C J dek accountId i (.ok (.accessToken tokens.accessToken)) (w.write i blob) := by
  obtain ⟨older, hlog⟩ := List.head?_eq_some_iff.mp h.issued
  have hstarted : Started C J dek i (w.write i blob) := by
    intro s hs
    obtain ⟨_, _, hold⟩ := h.started s hs
    have hmem := hold.mem
    refine ⟨tokens, hblob, ?_⟩
    change NoEarlier w.issued tokens.issue s
    rw [hlog] at hmem ⊢
    rw [hissue]
    exact noEarlier_head hmem
  refine ⟨⟨h.holder, ?_, hstarted⟩, answered_of_good (hstarted.good hblob)⟩
  change w.unwritten.filter (· != i) = []
  rw [h.unwritten]
  exact List.filter_eq_nil_iff.mpr fun j hj => by simp [List.mem_singleton.mp hj]

theorem Renews.issue {grant : Grant} (h : Renews w (.ok grant)) (rt : Text) :
    (grant.issue rt).refreshToken ∉ w.issued.map Issue.refreshToken := by
  obtain ⟨new, hnew, hne, hmem⟩ := h
  have hsome : grant.refreshToken = some new := hnew
  have hempty : new.isEmpty = false := List.isEmpty_eq_false_iff.mpr hne
  unfold Grant.issue
  dsimp only
  rw [hsome, Option.filter_some, hempty]
  exact hmem

section Calls

variable {α : Type} {post : α → Account β → Prop} {Q : Account β → Prop}

theorem safe_now {f : Int → RefreshProg β ν α}
    (hQ : ∀ w w', RefreshRely C J dek accountId i w w' → Q w → Q w') (hw : Q w)
    (hf : ∀ w₁, RefreshInv C J dek accountId w₁ → Q w₁ → (f w₁.clock).Safe (refreshService C J dek)
      (refreshRules C J dek accountId) i post w₁) :
    (Prog.ask RefreshCall.now >>= f).Safe (refreshService C J dek)
      (refreshRules C J dek accountId) i post w := by
  intro w₁ hrely₁ hinv₁ c₁ w₂ r₁ hok₁ hexec₁
  obtain ⟨rfl, rfl⟩ := Prod.mk.inj (Option.some.inj hexec₁)
  obtain ⟨hinv₂, hrely₂⟩ := step_now hinv₁ hok₁.2
  exact ⟨hinv₂, fun j _ => hrely₂ j, hf _ hinv₂ (hQ _ _ (hrely₂ i) (hQ _ _ hrely₁ hw))⟩

theorem safe_nonce {f : ν → RefreshProg β ν α}
    (hQ : ∀ w w', RefreshRely C J dek accountId i w w' → Q w → Q w') (hw : Q w)
    (hf : ∀ w₁ n, Q w₁ → (f n).Safe (refreshService C J dek) (refreshRules C J dek accountId) i
      post w₁) :
    (Prog.ask RefreshCall.nonce >>= f).Safe (refreshService C J dek)
      (refreshRules C J dek accountId) i post w := by
  intro w₁ hrely₁ hinv₁ c₁ w₂ r₁ _ hexec₁
  obtain ⟨rfl, rfl⟩ := Prod.mk.inj (Option.some.inj hexec₁)
  exact ⟨hinv₁, fun j _ => .refl j w₁, hf w₁ _ (hQ _ _ hrely₁ hw)⟩

/-- The provider answers the redemption of what is stored with a new refresh token. -/
theorem safe_redeem {provider : Provider} {f : Except MsOAuthError Grant → RefreshProg β ν α}
    (h : Due C J dek accountId i tokens w)
    (hf : ∀ w₁ grant, Redeemed C J dek accountId i (grant.issue tokens.refreshToken) w₁ →
      (f (.ok grant)).Safe (refreshService C J dek) (refreshRules C J dek accountId) i post w₁) :
    (Prog.ask (RefreshCall.redeem provider tokens.refreshToken) >>= f).Safe
      (refreshService C J dek) (refreshRules C J dek accountId) i post w := by
  intro w₁ hrely₁ hinv₁ c₁ w₂ r₁ hok₁ hexec₁
  have hdue := h.rely hrely₁
  have hgrants : Renews w₁ c₁.grant := hok₁.1
  change exec C J dek i c₁ (.redeem provider tokens.refreshToken) w₁ = _ at hexec₁
  unfold exec at hexec₁
  cases hgrant : c₁.grant with
  | error e =>
    rw [hgrant] at hgrants
    exact hgrants.elim
  | ok grant =>
    rw [hgrant] at hgrants
    simp only [hgrant] at hexec₁
    obtain ⟨rfl, rfl⟩ := Prod.mk.inj (Option.some.inj hexec₁)
    obtain ⟨hinv₂, hguar⟩ :=
      step_redeem hinv₁ hdue.holds hdue.stored (hgrants.issue tokens.refreshToken)
    refine ⟨hinv₂, hguar, hf _ grant ⟨hdue.holds.holder, ?_, ?_, rfl, ?_⟩⟩
    · change i :: w₁.unwritten = [i]
      rw [hdue.holds.unwritten]
    · intro t ht
      obtain rfl := Option.some.inj (hdue.stored.symm.trans ht)
      exact hdue.stale
    · intro s hs
      obtain ⟨t, ht, hold⟩ := hdue.holds.started s hs
      exact ⟨t, ht, hold.mono (List.suffix_cons _ _)⟩

theorem safe_update {blob : β} {f : Bool → RefreshProg β ν α}
    (h : Redeemed C J dek accountId i x w) (hblob : decryptOauthTokens C J dek blob = some tokens)
    (hissue : tokens.issue = x)
    (hf : ∀ w₁, Finished C J dek accountId i (.ok (.accessToken tokens.accessToken)) w₁ →
      (f true).Safe (refreshService C J dek) (refreshRules C J dek accountId) i post w₁) :
    (Prog.ask (RefreshCall.update accountId blob) >>= f).Safe (refreshService C J dek)
      (refreshRules C J dek accountId) i post w := by
  intro w₁ hrely₁ hinv₁ c₁ w₂ r₁ hok₁ hexec₁
  have hworks : c₁.works = true := hok₁.1
  have hredeemed := h.rely hrely₁
  change exec C J dek i c₁ (.update accountId blob) w₁ = _ at hexec₁
  unfold exec at hexec₁
  rw [hworks] at hexec₁
  obtain ⟨rfl, rfl⟩ := Prod.mk.inj (Option.some.inj hexec₁)
  obtain ⟨hinv₂, hguar⟩ := step_write hinv₁ hredeemed hblob hissue
  exact ⟨hinv₂, hguar, hf _ (hredeemed.write hblob hissue)⟩

theorem safe_reload {f : Option β → RefreshProg β ν α} (h : Holds C J dek accountId i w)
    (hf : ∀ w₁ fresh, Holds C J dek accountId i w₁ → w₁.tokens C J dek = some fresh →
      (f (some w₁.credential)).Safe (refreshService C J dek) (refreshRules C J dek accountId) i
        post w₁) :
    (Prog.ask (RefreshCall.reload accountId) >>= f).Safe (refreshService C J dek)
      (refreshRules C J dek accountId) i post w := by
  intro w₁ hrely₁ hinv₁ c₁ w₂ r₁ hok₁ hexec₁
  have hworks : c₁.works = true := hok₁.1
  obtain ⟨rfl, rfl⟩ := Prod.mk.inj (Option.some.inj hexec₁)
  obtain ⟨fresh, hfresh, _, _⟩ := hinv₁.stored
  rw [if_pos hworks]
  exact ⟨hinv₁, fun j _ => .refl j w₁, hf w₁ fresh (h.rely hrely₁) hfresh⟩

end Calls

theorem redeemSteps_safe {provider : Except MsOAuthError Provider}
    (h : Due C J dek accountId i tokens w) :
    (redeemSteps C J dek accountId provider tokens).Safe (refreshService C J dek)
      (refreshRules C J dek accountId) i (Finished C J dek accountId i) w := by
  unfold redeemSteps
  cases provider with
  | error e => exact finished_error h.holds
  | ok provider =>
    apply safe_redeem h
    intro w₁ grant hredeemed₁
    apply safe_now (fun _ _ hrely h => Redeemed.rely h hrely) hredeemed₁
    intro w₂ _ hredeemed₂
    apply safe_nonce (fun _ _ hrely h => Redeemed.rely h hrely) hredeemed₂
    intro w₃ nonce hredeemed₃
    apply safe_update hredeemed₃ (decrypt_encryptOauthTokens C J dek _ nonce) rfl
    intro w₄ hfinished
    exact hfinished

theorem lockedSteps_safe {provider : Except MsOAuthError Provider}
    (h : Holds C J dek accountId i w) :
    (lockedSteps C J dek accountId provider tokens).Safe (refreshService C J dek)
      (refreshRules C J dek accountId) i (Finished C J dek accountId i) w := by
  unfold lockedSteps
  apply safe_reload h
  intro w₁ fresh hholds₁ hfresh
  have hreloaded : (some w₁.credential).bind (decryptOauthTokens C J dek) = some fresh := hfresh
  rw [hreloaded]
  dsimp only
  apply safe_now (Q := fun w => Holds C J dek accountId i w ∧ w.tokens C J dek = some fresh)
  · rintro u u' hrely ⟨hholds, hstored⟩
    exact ⟨hholds.rely hrely, (tokens_held hholds hrely).trans hstored⟩
  · exact ⟨hholds₁, hfresh⟩
  · rintro w₂ _ ⟨hholds₂, hstored₂⟩
    split
    · rename_i hstale
      exact redeemSteps_safe ⟨hholds₂, hstored₂, hstale⟩
    · exact ⟨hholds₂, answered_of_good (hholds₂.started.good hstored₂)⟩

/-- What a caller knows of the credential it came with. -/
structure Entered (C : Cipher κ ν β) (J : TokenJson) (dek : κ) (i : Nat) (tokens : OAuthTokenSet)
    (w : Account β) : Prop where
  known : Known C J dek tokens w
  started : Started C J dek i w

theorem Entered.rely (h : Entered C J dek i tokens w)
    (hrely : RefreshRely C J dek accountId i w w') : Entered C J dek i tokens w' :=
  ⟨hrely.known tokens h.known, h.started.rely hrely⟩

theorem safe_lock {id : Text} {α : Type} {post : α → Account β → Prop}
    {f : Unit → RefreshProg β ν α} (h : Started C J dek i w)
    (hf : ∀ w₁, id = accountId → Holds C J dek accountId i w₁ → (f ()).Safe (refreshService C J dek)
      (refreshRules C J dek accountId) i post w₁) :
    (Prog.ask (RefreshCall.lock id) >>= f).Safe (refreshService C J dek)
      (refreshRules C J dek accountId) i post w := by
  intro w₁ hrely₁ hinv₁ c₁ w₂ r₁ hok₁ hexec₁
  have hid : id = accountId := hok₁.2
  subst hid
  change exec C J dek i c₁ (.lock id) w₁ = _ at hexec₁
  unfold exec at hexec₁
  dsimp only at hexec₁
  split at hexec₁
  · rename_i hfree
    obtain ⟨rfl, rfl⟩ := Prod.mk.inj (Option.some.inj hexec₁)
    obtain ⟨hinv₂, hguar⟩ := step_lock (i := i) hinv₁ hfree
    have hstarted := h.rely hrely₁
    exact ⟨hinv₂, hguar, hf _ rfl ⟨Function.update_self .., hinv₁.idle hfree, hstarted⟩⟩
  · cases hexec₁

theorem safe_unlock {answer : Except MsOAuthError MailAccessSecret} {α : Type}
    {post : α → Account β → Prop} {f : Unit → RefreshProg β ν α}
    (h : Finished C J dek accountId i answer w)
    (hf : ∀ w₁, Answered i answer w₁ → (f ()).Safe (refreshService C J dek)
      (refreshRules C J dek accountId) i post w₁) :
    (Prog.ask (RefreshCall.unlock accountId) >>= f).Safe (refreshService C J dek)
      (refreshRules C J dek accountId) i post w := by
  intro w₁ hrely₁ hinv₁ c₁ w₂ r₁ _ hexec₁
  obtain ⟨rfl, rfl⟩ := Prod.mk.inj (Option.some.inj hexec₁)
  have hholds := h.1.rely hrely₁
  obtain ⟨hinv₂, hguar⟩ := step_unlock hinv₁ hholds.holder hholds.unwritten
  have hanswered : Answered i answer w₁ := h.2.rely hrely₁
  exact ⟨hinv₂, hguar, hf _ hanswered⟩

theorem resolve_safe {q : Resolve} {blob : β}
    (h : ∀ tokens, decryptOauthTokens C J dek blob = some tokens → Entered C J dek i tokens w) :
    (resolveMailAccessSecret C J dek q.accountId q.authType blob q.imapHost q.configs).Safe
      (refreshService C J dek) (refreshRules C J dek accountId) i (Answered i) w := by
  unfold resolveMailAccessSecret
  split
  · cases htokens : decryptOauthTokens C J dek blob with
    | none =>
      intro access haccess
      cases haccess
    | some tokens =>
      dsimp only
      apply safe_now (fun _ _ hrely h => Entered.rely h hrely) (h tokens htokens)
      intro w₁ hinv₁ hentered₁
      split
      · apply safe_lock hentered₁.started
        rintro w₂ rfl hholds₂
        apply Prog.safe_bind
        refine (lockedSteps_safe hholds₂).weaken _ ?_
        intro answer w₃ hfinished₃
        apply safe_unlock hfinished₃
        intro w₄ hanswered₄
        exact hanswered₄
      · rename_i hfresh
        have hstored := hentered₁.known.2.resolve_right hfresh
        exact answered_of_good (hentered₁.started.good hstored)
  · intro access haccess
    unfold decryptPassword at haccess
    split at haccess <;> cases haccess

theorem refreshRules_sound (C : Cipher κ ν β) (J : TokenJson) (dek : κ) (accountId : Text) :
    (refreshRules C J dek accountId).Sound (refreshService C J dek) where
  init w h := by
    obtain ⟨tokens, htokens, hissued, _, hredeemed, hunwritten, hreturned⟩ := h
    refine ⟨?_, ?_, ⟨tokens, htokens, ?_, ?_⟩, ?_, ?_⟩
    · rw [hissued]
      exact List.nodup_singleton _
    · rw [hredeemed, hissued]
      rfl
    · rw [hissued]
      exact List.mem_singleton_self _
    · intro _
      rw [hissued]
      rfl
    · rw [hunwritten]
      exact List.forall_mem_nil _
    · intro s t hs
      rw [hreturned] at hs
      cases hs
  rely_refl := RefreshRely.refl
  rely_trans _ _ _ _ := RefreshRely.trans
  rely_of_guarantee _ _ _ _ hij _ hguar := hguar _ hij
  arrive _ _ w hinv _ := ⟨hinv, fun i _ => .refl i w⟩
  env e := nomatch e
  safe n q w _ _ := by
    intro w₁ _ hinv₁ c₁ w₂ r₁ _ hexec₁
    obtain ⟨rfl, rfl⟩ := Prod.mk.inj (Option.some.inj hexec₁)
    refine ⟨hinv₁, fun j _ => .refl j w₁, ?_⟩
    obtain ⟨tokens, htokens, hmem, _⟩ := hinv₁.stored
    have hknown : Known C J dek tokens w₁ := ⟨hmem, .inl htokens⟩
    intro w₂ hrely₂ hinv₂ c₂ w₃ r₃ _ hexec₂
    obtain ⟨rfl, rfl⟩ := Prod.mk.inj (Option.some.inj hexec₂)
    obtain ⟨hinv₃, hguar⟩ := step_start (i := n)
      (b := (w₂.tokens C J dek).map OAuthTokenSet.issue) hinv₂
    refine ⟨hinv₃, hguar, Prog.safe_bind (resolveMailAccessSecret C J dek q.accountId q.authType
      w₁.credential q.imapHost q.configs) _ ?_⟩
    refine (resolve_safe ?_).weaken _ ?_
    · intro tokens' htokens'
      obtain rfl := Option.some.inj (htokens.symm.trans htokens')
      refine ⟨hrely₂.known tokens hknown, ?_⟩
      intro s hs
      change Function.update w₂.began n _ n = some s at hs
      rw [Function.update_self] at hs
      obtain ⟨stored, hstored, rfl⟩ := Option.map_eq_some_iff.mp hs
      obtain ⟨stored', hstored', hmem', _⟩ := hinv₂.stored
      obtain rfl := Option.some.inj (hstored.symm.trans hstored')
      exact ⟨stored, hstored, noEarlier_self hmem'⟩
    · intro answer w₄ hanswered w₅ hrely₅ hinv₅ c₅ w₆ r₆ _ hexec₅
      obtain ⟨rfl, rfl⟩ := Prod.mk.inj (Option.some.inj hexec₅)
      obtain ⟨hinv₆, hguar₆⟩ := step_respond hinv₅ (hanswered.rely hrely₅)
      exact ⟨hinv₆, hguar₆, trivial⟩

/-- No refresh token is redeemed twice, nothing newer was issued than is stored, and no call
answered with older tokens than it could have read when it began. -/
structure SingleFlight (C : Cipher κ ν β) (J : TokenJson) (dek : κ) (w : Account β) : Prop where
  once : w.redeemed.Nodup
  newest : w.unwritten = [] → ∃ tokens, w.tokens C J dek = some tokens ∧
    w.issued.head? = some tokens.issue
  answers : ∀ s t, (some s, t) ∈ w.returned → ∃ x, NoEarlier w.issued x s ∧ x.accessToken = t

abbrev RefreshPool (β ν : Type) := Pool (Account β) (RefreshCall β) (RefreshCall.Answer β ν)

/-- A text between its marks, and what follows. -/
def field (s rest : Text) : Text := s.foldr (fun c acc => '+' :: c :: acc) ('-' :: rest)

def takeField : Text → Option (Text × Text)
  | '+' :: c :: s => (takeField s).map fun r => (c :: r.1, r.2)
  | '-' :: s => some ([], s)
  | _ => none

theorem takeField_field (s rest : Text) : takeField (field s rest) = some (s, rest) := by
  induction s with
  | nil => rfl
  | cons c s ih =>
    change (takeField (field s rest)).map _ = _
    rw [ih]
    rfl

/-- A number in tallies. -/
def tally : Int → Text
  | .ofNat n => 'p' :: List.replicate n '1'
  | .negSucc n => 'n' :: List.replicate n '1'

def readTally : Text → Option Int
  | 'p' :: s => some (.ofNat s.length)
  | 'n' :: s => some (.negSucc s.length)
  | _ => none

theorem readTally_tally (n : Int) : readTally (tally n) = some n := by
  cases n with
  | ofNat n => exact congrArg (some ∘ Int.ofNat) List.length_replicate
  | negSucc n => exact congrArg (some ∘ Int.negSucc) List.length_replicate

def writeTokens (t : OAuthTokenSet) : Text :=
  field t.accessToken (field t.refreshToken (field t.tokenType (field t.scope (tally t.expiresAt))))

def readTokens (s : Text) : Option OAuthTokenSet := do
  let (accessToken, s) ← takeField s
  let (refreshToken, s) ← takeField s
  let (tokenType, s) ← takeField s
  let (scope, s) ← takeField s
  let expiresAt ← readTally s
  return { accessToken, refreshToken, expiresAt, tokenType, scope }

theorem readTokens_writeTokens (t : OAuthTokenSet) : readTokens (writeTokens t) = some t := by
  unfold readTokens writeTokens
  simp only [takeField_field, readTally_tally, Option.bind_eq_bind, Option.bind_some]
  rfl

/-- A token format to run the model with. -/
def fieldJson : TokenJson := ⟨writeTokens, readTokens, readTokens_writeTokens⟩

def oldTokens : OAuthTokenSet where
  accessToken := "a0".toList
  refreshToken := "r0".toList
  expiresAt := 200

def oldAccount : Account (ClearBlob Nat) where
  credential := encryptOauthTokens clearCipher fieldJson 0 oldTokens ()
  clock := 0
  holder _ := none
  issued := [oldTokens.issue]
  redeemed := []
  unwritten := []
  began _ := none
  returned := []

theorem oldAccount_init : (refreshService clearCipher fieldJson 0).init oldAccount :=
  ⟨oldTokens, decrypt_encryptOauthTokens clearCipher fieldJson 0 oldTokens (), rfl, rfl, rfl, rfl,
    rfl⟩

abbrev RefreshAction := PoolAction Resolve (Choice Unit) Empty

def outlook (accountId : String) : RefreshAction :=
  .arrive
    { accountId := accountId.toList
      imapHost := some "outlook.office365.com".toList
      configs := ⟨true, false⟩ }

/-- A step at a time, with what the provider would grant. -/
def step (i : Nat) (time : Int) (access refresh : String) : RefreshAction :=
  .call i ⟨time, true, .ok ⟨access.toList, some refresh.toList, 600, none⟩, ()⟩

/-- A number of steps that ask the provider for nothing. -/
def steps (n i : Nat) (time : Int) : List RefreshAction := List.replicate n (step i time "" "")

/-- Two callers find the tokens stale, and one redeems them. -/
def redeeming : List RefreshAction :=
  [outlook "id", outlook "id"] ++ steps 1 0 100 ++ steps 1 1 100 ++ steps 5 0 100 ++
    [step 0 100 "a1" "r1"]

/-- It stores what it got, and the other one answers with that. -/
def served : List RefreshAction := redeeming ++ steps 5 0 100 ++ steps 7 1 100

/-- The id in two spellings, with a lock each. -/
def spelled : List RefreshAction :=
  [outlook "ID", outlook "id"] ++ steps 6 0 100 ++ steps 6 1 100 ++
    [step 0 100 "a1" "r1", step 1 100 "a2" "r2"]

/-- The other one begins after the write, at a time before the first one's. -/
def turnedBack : List RefreshAction := redeeming ++ steps 5 0 100 ++ steps 3 1 50

def refreshWorld : Service (Account (ClearBlob Nat)) (RefreshCall (ClearBlob Nat))
    (RefreshCall.Answer (ClearBlob Nat) Unit) Resolve (Choice Unit) Empty :=
  refreshService clearCipher fieldJson 0

theorem NoEarlier.eq_head (h : NoEarlier (s :: log) x s) (hs : s ∉ log) : x = s := by
  obtain ⟨older, hsuffix, hmem⟩ := h
  rcases List.suffix_cons_iff.mp hsuffix with heq | hlater
  · exact (List.cons.inj heq).1
  · exact (hs (hlater.subset hmem)).elim

abbrev Granted (p : RefreshPool (ClearBlob Nat) Unit) : Prop :=
  refreshWorld.system.Reachable (Service.CallsMeet Granting) p

theorem granted_of_run
    {ok : Nat → Choice Unit → RefreshCall (ClearBlob Nat) → Account (ClearBlob Nat) → Prop}
    [∀ i c o w, Decidable (ok i c o w)] (hok : ∀ i c o w, ok i c o w → Granting i c o w)
    {l : List RefreshAction} {p : RefreshPool (ClearBlob Nat) Unit}
    (h : refreshWorld.run ok oldAccount l = some p) : Granted p := by
  refine (Service.reachable_run _ oldAccount_init h).weaken ?_
  intro q a hmeets
  cases a with
  | call i c => exact fun o k hrun => hok i c o q.shared (hmeets o k hrun)
  | arrive kind => trivial
  | env e => trivial

end Lyra.Oauth
