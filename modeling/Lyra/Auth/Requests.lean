import Lyra.Auth.World

/-!
# The login requests

`auth_login`, `totp_verify`, `auth_logout`, `change_password` of `auth/handlers.rs`, the
session extractor, and what they call in `auth/session.rs`, call by call.
-/

namespace Lyra.Auth

open Lyra.Lib

abbrev AuthProg := Prog AuthCall AuthCall.Answer

abbrev call (o : AuthCall) : AuthProg o.Answer := Prog.ask o

def reply (r : Reply) : AuthProg PUnit := call (.reply r)

/-! ## Counters -/

/-- `ensure_not_rate_limited`: the answer to give, if there is one. -/
def ensureNotRateLimited (key : AuthKey) : AuthProg (Option Reply) := do
  match ← call (.kvGet key) with
  | none => return some .internal
  | some v => return if limited v then some .tooManyRequests else none

/-- `note_failed_attempt`, and the answer that follows it. -/
def noteFailedAttempt (key : AuthKey) (r : Reply) : AuthProg Reply := do
  if ← call (.kvIncr key rateLimitWindowSecs) then return r else return .internal

/-- `clear_failed_attempts`. -/
def clearFailedAttempts (key : AuthKey) : AuthProg PUnit := do
  let _ ← call (.kvDel key)

/-! ## Sessions -/

/-- `create_session`. -/
def createSession (userId : Text) : AuthProg (Option Text) := do
  match ← call (.fetchSessEpoch userId) with
  | none => return none
  | some epoch =>
    let token ← call .generateToken
    if ← call (.kvSet (.sess epoch token) (.user userId) sessionTtlSecs) then
      if ← call (.kvSet (.tok token) (.user userId) sessionTtlSecs) then
        if ← call (.kvSet (.refresh token) (.user userId) (sessionTtlSecs / 2)) then
          return some token
        else return none
      else return none
    else return none

/-- `create_pending_session`. -/
def createPendingSession (userId : Text) : AuthProg (Option Text) := do
  let token ← call .generateToken
  if ← call (.kvSet (.pending token) (.user userId) pendingTtlSecs) then return some token
  else return none

def AuthValue.userId : AuthValue → Option Text
  | .user userId => some userId
  | _ => none

/-- `get_session`. -/
def getSession (token : Text) : AuthProg (Option Text) := do
  match ((← call (.kvGet (.tok token))).getD none).bind AuthValue.userId with
  | none => return none
  | some userId =>
    match ← call (.fetchSessEpoch userId) with
    | none => return none
    | some epoch =>
      match ((← call (.kvGet (.sess epoch token))).getD none).bind AuthValue.userId with
      | none => return none
      | some stored =>
        if stored ≠ userId then return none
        else
          let marker ← call (.kvGet (.refresh token))
          if (marker.getD none).isSome then return some userId
          else
            let _ ← call (.kvSet (.tok token) (.user userId) sessionTtlSecs)
            let _ ← call (.kvSet (.sess epoch token) (.user userId) sessionTtlSecs)
            let _ ← call (.kvSet (.refresh token) (.user userId) (sessionTtlSecs / 2))
            return some userId

/-- The session extractor. -/
def extractSession (token : Text) : AuthProg (Option Text) := do
  match ← getSession token with
  | none => return none
  | some userId =>
    let _ ← call (.grant token)
    return some userId

/-- `get_pending_session`. -/
def getPendingSession (token : Text) : AuthProg (Option Text) := do
  return ((← call (.kvGet (.pending token))).getD none).bind AuthValue.userId

/-- `promote_pending_session`: an error, no such token, or a session. -/
def promotePendingSession (pendingToken : Text) : AuthProg (Option (Option Text)) := do
  match ← getPendingSession pendingToken with
  | none => return some none
  | some userId =>
    if ← call (.kvDel (.pending pendingToken)) then
      match ← createSession userId with
      | none => return none
      | some token => return some (some token)
    else return none

/-- `remove_session`. -/
def removeSession (token : Text) : AuthProg PUnit := do
  match ((← call (.kvGet (.tok token))).getD none).bind AuthValue.userId with
  | none => pure ()
  | some userId =>
    match ← call (.fetchSessEpoch userId) with
    | none => pure ()
    | some epoch =>
      let _ ← call (.kvDel (.sess epoch token))
  let _ ← call (.kvDel (.tok token))
  let _ ← call (.kvDel (.refresh token))

/-- `invalidate_user_sessions`. -/
def invalidateUserSessions (userId : Text) : AuthProg Bool := do
  match ← call (.fetchSessEpoch userId) with
  | none => return false
  | some oldEpoch =>
    if ← call .bumpSessEpoch then call (.kvDelPrefix oldEpoch) else return false

/-! ## Handlers -/

/-- `auth_login`. -/
def authLogin (username password : Text) : AuthProg PUnit := do
  match ← ensureNotRateLimited (.loginLimit username) with
  | some r => reply r
  | none =>
    if ← call .captcha then
      match ← call (.findByUsername username) with
      | none => reply .internal
      | some none => reply (← noteFailedAttempt (.loginLimit username) .unauthorized)
      | some (some user) =>
        match user.passwordHash with
        | none => reply .internal
        | some hash =>
          match ← call (.verifyPassword password hash) with
          | none => reply .internal
          | some false => reply (← noteFailedAttempt (.loginLimit username) .unauthorized)
          | some true =>
            clearFailedAttempts (.loginLimit username)
            if user.totpEnabled then
              match ← createPendingSession user.id with
              | none => reply .internal
              | some token => reply (.pending token)
            else
              match ← createSession user.id with
              | none => reply .internal
              | some token => reply (.session token)
    else reply .badRequest

/-- `verify_totp_code`: the answer to give, if there is one. -/
def verifyTotpCode (userId : Text) (user : User) (code : Text) : AuthProg (Option Reply) := do
  match user.totpSecret with
  | none => return some .internal
  | some secret =>
    match ← call (.matchStep secret code) with
    | none => return some .internal
    | some none => return some (← noteFailedAttempt (.totpLimit userId) .unauthorized)
    | some (some step) =>
      -- a read that fails counts as no timestep
      let last := ((← call (.kvGet (.totpStep userId))).getD none).bind fun v =>
        match v with
        | .step n => some n
        | _ => none
      if last.any fun s => decide (step ≤ s) then
        return some (← noteFailedAttempt (.totpLimit userId) .unauthorized)
      else
        if ← call (.kvSet (.totpStep userId) (.step step) totpLastStepTtlSecs) then
          clearFailedAttempts (.totpLimit userId)
          return none
        else return some .internal

/-- `totp_verify`. -/
def totpVerify (pendingToken code : Text) : AuthProg PUnit := do
  match ← getPendingSession pendingToken with
  | none => reply .unauthorized
  | some userId =>
    match ← ensureNotRateLimited (.totpLimit userId) with
    | some r => reply r
    | none =>
      match ← call (.findById userId) with
      | none => reply .internal
      | some none => reply .internal
      | some (some user) =>
        match ← verifyTotpCode userId user code with
        | some r => reply r
        | none =>
          match ← promotePendingSession pendingToken with
          | none => reply .internal
          | some none => reply .unauthorized
          | some (some token) =>
            let _ ← call (.grant pendingToken)
            reply (.session token)

/-- `auth_logout`. -/
def authLogout (token : Text) : AuthProg PUnit := do
  removeSession token
  reply .noContent

variable (ops : AuthOps)

/-- `change_password`. -/
def changePassword (token current new : Text) : AuthProg PUnit := do
  match ← extractSession token with
  | none => reply .unauthorized
  | some userId =>
    match ← ensureNotRateLimited (.pwdLimit userId) with
    | some r => reply r
    | none =>
      match ← call (.findById userId) with
      | none => reply .internal
      | some none => reply .internal
      | some (some user) =>
        match user.passwordHash with
        | none => reply .internal
        | some hash =>
          match ← call (.verifyPassword current hash) with
          | none => reply .internal
          | some false => reply (← noteFailedAttempt (.pwdLimit userId) .unauthorized)
          | some true =>
            clearFailedAttempts (.pwdLimit userId)
            if ops.validPassword new then
              match ← call (.hashPassword new) with
              | none => reply .internal
              | some newHash =>
                if ← call (.updatePassword newHash) then
                  if ← invalidateUserSessions userId then
                    clearFailedAttempts (.loginLimit user.username)
                    reply .noContent
                  else reply .internal
                else reply .internal
            else reply .badRequest

/-- A request that the session extractor lets through. -/
def authenticated (token : Text) : AuthProg PUnit := do
  match ← extractSession token with
  | none => reply .unauthorized
  | some _ => reply .noContent

def requestProg : AuthRequest → AuthProg PUnit
  | .login username password => authLogin username password
  | .totpVerify pendingToken code => totpVerify pendingToken code
  | .authenticated token => authenticated token
  | .logout token => authLogout token
  | .changePassword token current new => changePassword ops token current new

/-- Requests arrive, call, and time passes. -/
def authService : Service AuthWorld AuthCall AuthCall.Answer AuthRequest Choice Nat where
  init := AuthWorld.Fresh
  exec i c o w := exec ops i c w o
  request := requestProg ops
  arrive := arrive
  env := tick

/-! ## The calls that programs make -/

def AuthKey.ofSessions : AuthKey → Bool
  | .sess .. | .tok _ | .refresh _ | .pending _ => true
  | _ => false

/-- The calls of `auth/session.rs` on sessions and pending tokens. -/
def AuthCall.ofSessions : AuthCall → Bool
  | .kvGet k | .kvSet k _ _ | .kvDel k => k.ofSessions
  | .kvDelPrefix _ | .fetchSessEpoch _ | .bumpSessEpoch | .generateToken | .grant _ => true
  | _ => false

section Calls

variable {P : AuthCall → Prop} {key : AuthKey}

theorem calls_reply {r : Reply} (h : P (.reply r)) : (reply r).Calls P := Prog.calls_ask h

theorem calls_ensureNotRateLimited (h : P (.kvGet key)) : (ensureNotRateLimited key).Calls P := by
  apply Prog.calls_bind (Prog.calls_ask h)
  intro v
  cases v with
  | none => trivial
  | some _ => trivial

theorem calls_noteFailedAttempt {r : Reply} (h : P (.kvIncr key rateLimitWindowSecs)) :
    (noteFailedAttempt key r).Calls P := by
  apply Prog.calls_bind (Prog.calls_ask h)
  intro worked
  cases worked with
  | true => trivial
  | false => trivial

theorem calls_clearFailedAttempts (h : P (.kvDel key)) : (clearFailedAttempts key).Calls P :=
  Prog.calls_bind (Prog.calls_ask h) fun _ => trivial

theorem calls_verifyTotpCode {userId : Text} {user : User} {code : Text}
    (hmatch : ∀ secret, P (.matchStep secret code))
    (hincr : P (.kvIncr (.totpLimit userId) rateLimitWindowSecs))
    (hget : P (.kvGet (.totpStep userId)))
    (hset : ∀ step, P (.kvSet (.totpStep userId) (.step step) totpLastStepTtlSecs))
    (hclear : P (.kvDel (.totpLimit userId))) : (verifyTotpCode userId user code).Calls P := by
  have hrefuse : (do return some (← noteFailedAttempt (.totpLimit userId) .unauthorized) :
      AuthProg (Option Reply)).Calls P :=
    Prog.calls_bind (calls_noteFailedAttempt hincr) fun _ => trivial
  unfold verifyTotpCode
  cases user.totpSecret with
  | none => trivial
  | some secret =>
    apply Prog.calls_bind (Prog.calls_ask (hmatch secret))
    intro found
    cases found with
    | none => trivial
    | some found =>
      cases found with
      | none => exact hrefuse
      | some step =>
        apply Prog.calls_bind (Prog.calls_ask hget)
        intro last
        dsimp only
        split
        · exact hrefuse
        · apply Prog.calls_bind (Prog.calls_ask (hset step))
          intro worked
          cases worked with
          | false => trivial
          | true => exact Prog.calls_bind (calls_clearFailedAttempts hclear) fun _ => trivial

variable (hsessions : ∀ o, AuthCall.ofSessions o = true → P o)
include hsessions

theorem calls_createSession (userId : Text) : (createSession userId).Calls P := by
  have hset : ∀ k v ttl, k.ofSessions = true → (call (.kvSet k v ttl)).Calls P :=
    fun k v ttl hk => Prog.calls_ask (hsessions _ hk)
  unfold createSession
  apply Prog.calls_bind (Prog.calls_ask (hsessions _ rfl))
  intro epoch
  cases epoch with
  | none => trivial
  | some epoch =>
    apply Prog.calls_bind (Prog.calls_ask (hsessions _ rfl))
    intro token
    apply Prog.calls_bind (hset _ _ _ rfl)
    intro stored
    cases stored with
    | false => trivial
    | true =>
      apply Prog.calls_bind (hset _ _ _ rfl)
      intro stored
      cases stored with
      | false => trivial
      | true =>
        apply Prog.calls_bind (hset _ _ _ rfl)
        intro stored
        cases stored with
        | false => trivial
        | true => trivial

theorem calls_createPendingSession (userId : Text) : (createPendingSession userId).Calls P := by
  apply Prog.calls_bind (Prog.calls_ask (hsessions _ rfl))
  intro token
  apply Prog.calls_bind (Prog.calls_ask (hsessions _ rfl))
  intro stored
  cases stored with
  | false => trivial
  | true => trivial

theorem calls_getPendingSession (token : Text) : (getPendingSession token).Calls P :=
  Prog.calls_bind (Prog.calls_ask (hsessions _ rfl)) fun _ => trivial

theorem calls_extractSession (token : Text) : (extractSession token).Calls P := by
  have hask : ∀ o, o.ofSessions = true → (call o).Calls P :=
    fun o ho => Prog.calls_ask (hsessions o ho)
  unfold extractSession getSession
  apply Prog.calls_bind
  · apply Prog.calls_bind (hask _ rfl)
    intro found
    split
    · trivial
    apply Prog.calls_bind (hask _ rfl)
    intro epoch
    cases epoch with
    | none => trivial
    | some epoch =>
      apply Prog.calls_bind (hask _ rfl)
      intro stored
      split
      · trivial
      split
      · trivial
      apply Prog.calls_bind (hask _ rfl)
      intro marker
      split
      · trivial
      · apply Prog.calls_bind (hask _ rfl)
        intro _
        apply Prog.calls_bind (hask _ rfl)
        intro _
        exact Prog.calls_bind (hask _ rfl) fun _ => trivial
  · intro found
    cases found with
    | none => trivial
    | some _ => exact Prog.calls_bind (hask _ rfl) fun _ => trivial

theorem calls_promotePendingSession (pendingToken : Text) :
    (promotePendingSession pendingToken).Calls P := by
  unfold promotePendingSession
  apply Prog.calls_bind (calls_getPendingSession hsessions pendingToken)
  intro found
  cases found with
  | none => trivial
  | some userId =>
    apply Prog.calls_bind (Prog.calls_ask (hsessions _ rfl))
    intro deleted
    cases deleted with
    | false => trivial
    | true =>
      apply Prog.calls_bind (calls_createSession hsessions userId)
      intro session
      cases session with
      | none => trivial
      | some _ => trivial

theorem calls_removeSession (token : Text) : (removeSession token).Calls P := by
  have hdel : ∀ k, k.ofSessions = true → (call (.kvDel k)).Calls P :=
    fun k hk => Prog.calls_ask (hsessions _ hk)
  have hlast : (do
      let _ ← call (.kvDel (.tok token))
      let _ ← call (.kvDel (.refresh token)) : AuthProg PUnit).Calls P :=
    Prog.calls_bind (hdel _ rfl) fun _ => Prog.calls_bind (hdel _ rfl) fun _ => trivial
  unfold removeSession
  apply Prog.calls_bind (Prog.calls_ask (hsessions _ rfl))
  intro found
  split
  · exact hlast
  · apply Prog.calls_bind (Prog.calls_ask (hsessions _ rfl))
    intro epoch
    cases epoch with
    | none => exact hlast
    | some epoch => exact Prog.calls_bind (hdel _ rfl) fun _ => hlast

theorem calls_invalidateUserSessions (userId : Text) : (invalidateUserSessions userId).Calls P := by
  apply Prog.calls_bind (Prog.calls_ask (hsessions _ rfl))
  intro epoch
  cases epoch with
  | none => trivial
  | some epoch =>
    apply Prog.calls_bind (Prog.calls_ask (hsessions _ rfl))
    intro bumped
    cases bumped with
    | false => trivial
    | true => exact Prog.calls_ask (hsessions _ rfl)

/-! ## The calls of the handlers -/

variable (hreply : ∀ r, P (.reply r))
include hreply

theorem calls_authenticated (token : Text) : (authenticated token).Calls P := by
  apply Prog.calls_bind (calls_extractSession hsessions token)
  intro found
  cases found with
  | none => exact calls_reply (hreply _)
  | some _ => exact calls_reply (hreply _)

theorem calls_authLogout (token : Text) : (authLogout token).Calls P :=
  Prog.calls_bind (calls_removeSession hsessions token) fun _ => calls_reply (hreply _)

theorem calls_authLogin {username : Text} (hget : P (.kvGet (.loginLimit username)))
    (hcaptcha : P .captcha) (hfind : P (.findByUsername username))
    (hincr : P (.kvIncr (.loginLimit username) rateLimitWindowSecs))
    (hverify : ∀ password hash, P (.verifyPassword password hash))
    (hclear : P (.kvDel (.loginLimit username))) (password : Text) :
    (authLogin username password).Calls P := by
  have hanswer : ∀ r, (reply r).Calls P := fun r => calls_reply (hreply r)
  have hrefuse : (do reply (← noteFailedAttempt (.loginLimit username) .unauthorized)).Calls P :=
    Prog.calls_bind (calls_noteFailedAttempt hincr) fun _ => hanswer _
  unfold authLogin
  apply Prog.calls_bind (calls_ensureNotRateLimited hget)
  intro refused
  cases refused with
  | some r => exact hanswer r
  | none =>
    apply Prog.calls_bind (Prog.calls_ask hcaptcha)
    intro passed
    cases passed with
    | false => exact hanswer _
    | true =>
      apply Prog.calls_bind (Prog.calls_ask hfind)
      intro found
      cases found with
      | none => exact hanswer _
      | some found =>
        cases found with
        | none => exact hrefuse
        | some user =>
          dsimp only
          cases user.passwordHash with
          | none => exact hanswer _
          | some hash =>
            apply Prog.calls_bind (Prog.calls_ask (hverify password hash))
            intro valid
            cases valid with
            | none => exact hanswer _
            | some valid =>
              cases valid with
              | false => exact hrefuse
              | true =>
                apply Prog.calls_bind (calls_clearFailedAttempts hclear)
                intro _
                split
                · apply Prog.calls_bind (calls_createPendingSession hsessions user.id)
                  intro token
                  cases token with
                  | none => exact hanswer _
                  | some token => exact hanswer _
                · apply Prog.calls_bind (calls_createSession hsessions user.id)
                  intro token
                  cases token with
                  | none => exact hanswer _
                  | some token => exact hanswer _

theorem calls_totpVerify {pendingToken code : Text} (hget : ∀ u, P (.kvGet (.totpLimit u)))
    (hfind : ∀ u, P (.findById u))
    (hverify : ∀ userId user, (verifyTotpCode userId user code).Calls P) :
    (totpVerify pendingToken code).Calls P := by
  have hanswer : ∀ r, (reply r).Calls P := fun r => calls_reply (hreply r)
  unfold totpVerify
  apply Prog.calls_bind (calls_getPendingSession hsessions pendingToken)
  intro found
  cases found with
  | none => exact hanswer _
  | some userId =>
    apply Prog.calls_bind (calls_ensureNotRateLimited (hget userId))
    intro refused
    cases refused with
    | some r => exact hanswer r
    | none =>
      apply Prog.calls_bind (Prog.calls_ask (hfind userId))
      intro found
      cases found with
      | none => exact hanswer _
      | some found =>
        cases found with
        | none => exact hanswer _
        | some user =>
          apply Prog.calls_bind (hverify userId user)
          intro refused
          cases refused with
          | some r => exact hanswer r
          | none =>
            apply Prog.calls_bind (calls_promotePendingSession hsessions pendingToken)
            intro promoted
            cases promoted with
            | none => exact hanswer _
            | some session =>
              cases session with
              | none => exact hanswer _
              | some token =>
                exact Prog.calls_bind (Prog.calls_ask (hsessions _ rfl)) fun _ => hanswer _

theorem calls_changePassword {token current new : Text} (hget : ∀ u, P (.kvGet (.pwdLimit u)))
    (hfind : ∀ u, P (.findById u))
    (hverify : ∀ password hash, P (.verifyPassword password hash))
    (hincr : ∀ u, P (.kvIncr (.pwdLimit u) rateLimitWindowSecs))
    (hclear : ∀ u, P (.kvDel (.pwdLimit u))) (hclearLogin : ∀ u, P (.kvDel (.loginLimit u)))
    (hhash : P (.hashPassword new)) (hupdate : ∀ hash, P (.updatePassword hash)) :
    (changePassword ops token current new).Calls P := by
  have hanswer : ∀ r, (reply r).Calls P := fun r => calls_reply (hreply r)
  unfold changePassword
  apply Prog.calls_bind (calls_extractSession hsessions token)
  intro found
  cases found with
  | none => exact hanswer _
  | some userId =>
    apply Prog.calls_bind (calls_ensureNotRateLimited (hget userId))
    intro refused
    cases refused with
    | some r => exact hanswer r
    | none =>
      apply Prog.calls_bind (Prog.calls_ask (hfind userId))
      intro found
      cases found with
      | none => exact hanswer _
      | some found =>
        cases found with
        | none => exact hanswer _
        | some user =>
          dsimp only
          cases user.passwordHash with
          | none => exact hanswer _
          | some hash =>
            apply Prog.calls_bind (Prog.calls_ask (hverify current hash))
            intro valid
            cases valid with
            | none => exact hanswer _
            | some valid =>
              cases valid with
              | false =>
                exact Prog.calls_bind (calls_noteFailedAttempt (hincr userId)) fun _ => hanswer _
              | true =>
                apply Prog.calls_bind (calls_clearFailedAttempts (hclear userId))
                intro _
                split
                · apply Prog.calls_bind (Prog.calls_ask hhash)
                  intro newHash
                  cases newHash with
                  | none => exact hanswer _
                  | some newHash =>
                    apply Prog.calls_bind (Prog.calls_ask (hupdate newHash))
                    intro updated
                    cases updated with
                    | false => exact hanswer _
                    | true =>
                      apply Prog.calls_bind (calls_invalidateUserSessions hsessions userId)
                      intro invalidated
                      cases invalidated with
                      | false => exact hanswer _
                      | true =>
                        exact Prog.calls_bind
                          (calls_clearFailedAttempts (hclearLogin user.username)) fun _ => hanswer _
                · exact hanswer _

end Calls

theorem ensureNotRateLimited_ends (key : AuthKey) :
    (ensureNotRateLimited key).Ends fun r => r ≠ some .noContent := by
  apply Prog.ends_bind
  intro v
  cases v with
  | none => rintro ⟨⟩
  | some v =>
    dsimp only
    split
    · rintro ⟨⟩
    · rintro ⟨⟩

theorem noteFailedAttempt_ends (key : AuthKey) {r : Reply} (hr : r ≠ .noContent) :
    (noteFailedAttempt key r).Ends fun r => r ≠ .noContent := by
  apply Prog.ends_bind
  intro worked
  cases worked with
  | true => exact hr
  | false => rintro ⟨⟩

/-! ## Runs on concrete requests -/

/-- Passwords in the clear, and timesteps as codes. -/
def plainOps : AuthOps where
  verify password hash := password == hash
  generate _ step := decimal step
  validPassword password := !password.isEmpty

def bob (totpEnabled : Bool) : User where
  id := "1".toList
  username := "bob".toList
  passwordHash := some "pw".toList
  totpEnabled := totpEnabled
  totpSecret := some "key".toList
  sessEpoch := 0

abbrev AuthAction := PoolAction AuthRequest Choice Nat

/-- Some calls of a request, one after the other. -/
def calls (i n : Nat) (text : Text) : List AuthAction :=
  List.replicate n (.call i { text := text })

/-- A request, and its calls with no other's in between. -/
def alone (i : Nat) (r : AuthRequest) (n : Nat) (text : Text) : List AuthAction :=
  .arrive r :: calls i n text

end Lyra.Auth
