import Lyra.Store.Codec
import Lyra.Store.Kv
import Lyra.Lib.Requests
import Mathlib.Data.Finset.Card

/-!
# What the login requests share

The key-value store with the sessions, pending tokens and counters of `auth/session.rs`, and
the user's row.  Every read or write of them is one call; a call may fail, with or without
having had its effect.  Version 1 has a single user.

Beside the state stands what the claims speak about: which password a token comes from, which
timesteps were stored, how many wrong passwords were verified.
-/

namespace Lyra.Auth

open Lyra.Lib

/-! ## The store -/

/-- The keys, stored as `sess:epoch:token`, `tok:token`, `sess-refresh:token`,
`pending:token`, `rl:login:username`, `rl:totp:user`, `rl:pwd:user`, `totp_last_step:user`. -/
inductive AuthKey
  | sess (epoch : Nat) (token : Text)
  | tok (token : Text)
  | refresh (token : Text)
  | pending (token : Text)
  | loginLimit (username : Text)
  | totpLimit (userId : Text)
  | pwdLimit (userId : Text)
  | totpStep (userId : Text)
  deriving DecidableEq, Repr

/-- Whether a key begins with `sess:epoch:`. -/
def AuthKey.inEpoch (epoch : Nat) : AuthKey → Bool
  | .sess e _ => e == epoch
  | _ => false

inductive AuthValue
  | user (userId : Text)
  | count (n : Int)
  | step (n : Nat)
  deriving DecidableEq, Repr

abbrev AuthKv := Kv AuthKey AuthValue

def AuthValue.number : AuthValue → Option Int
  | .count n => some n
  | _ => none

def sessionTtlSecs : Nat := 30 * 24 * 60 * 60
def pendingTtlSecs : Nat := 5 * 60
def rateLimitMaxAttempts : Int := 5
def rateLimitWindowSecs : Nat := 15 * 60
def totpLastStepTtlSecs : Nat := 120

/-! ## The user -/

/-- A row of `lyra_user`. -/
structure User where
  id : Text
  username : Text
  passwordHash : Option Text
  totpEnabled : Bool
  totpSecret : Option Text
  sessEpoch : Nat
  deriving DecidableEq, Repr

/-- Argon2 and the one-time codes. -/
structure AuthOps where
  verify : Text → Text → Bool
  /-- The code of a secret at a timestep. -/
  generate : Text → Nat → Text
  /-- `validate_password`. -/
  validPassword : Text → Bool

/-- `matched_totp_step`: the first timestep of the window whose code it is. -/
def AuthOps.matchedTotpStep (ops : AuthOps) (secret : Text) (now : Nat) (code : Text) : Option Nat :=
  let current := now / 30
  (List.range' (current - 1) (current + 2 - (current - 1))).find? fun s =>
    ops.generate secret s == code

/-! ## Requests -/

inductive AuthRequest
  | login (username password : Text)
  | totpVerify (pendingToken code : Text)
  /-- Any request behind the session extractor. -/
  | authenticated (token : Text)
  | logout (token : Text)
  | changePassword (token current new : Text)
  deriving DecidableEq, Repr

inductive Reply
  | tooManyRequests
  | internal
  | unauthorized
  | badRequest
  | pending (token : Text)
  | session (token : Text)
  | noContent
  deriving DecidableEq, Repr

inductive AuthCall
  | kvGet (k : AuthKey)
  | kvSet (k : AuthKey) (value : AuthValue) (ttl : Nat)
  | kvDel (k : AuthKey)
  | kvDelPrefix (epoch : Nat)
  | kvIncr (k : AuthKey) (ttl : Nat)
  | captcha
  | findByUsername (username : Text)
  | findById (userId : Text)
  | verifyPassword (password hash : Text)
  | hashPassword (password : Text)
  /-- The secret is decrypted and the code matched. -/
  | matchStep (secret code : Text)
  | updatePassword (hash : Text)
  | fetchSessEpoch (userId : Text)
  | bumpSessEpoch
  | generateToken
  /-- The session or pending token is accepted. -/
  | grant (token : Text)
  | reply (r : Reply)
  deriving DecidableEq, Repr

/-- What a call answers; `none` or `false` is an error. -/
abbrev AuthCall.Answer : AuthCall → Type
  | .kvGet _ => Option (Option AuthValue)
  | .findByUsername _ | .findById _ => Option (Option User)
  | .verifyPassword .. => Option Bool
  | .hashPassword _ => Option Text
  | .matchStep .. => Option (Option Nat)
  | .fetchSessEpoch _ => Option Nat
  | .generateToken => Text
  | .grant _ | .reply _ => PUnit
  | .kvSet .. | .kvDel _ | .kvDelPrefix _ | .kvIncr .. | .captcha | .updatePassword _
  | .bumpSessEpoch => Bool

/-- What the world decides of a call: the outcome, and a random text. -/
structure Choice where
  outcome : CallOutcome := .works
  text : Text := []
  deriving DecidableEq, Repr

/-- What the requests share. -/
structure AuthState where
  now : Nat
  kv : AuthKv
  user : User
  /-- Every token generated so far. -/
  issued : List Text

namespace AuthState

variable (s : AuthState)

def loginKey : AuthKey := .loginLimit s.user.username

def stepKey : AuthKey := .totpStep s.user.id

end AuthState

/-- The attempts that a counter shows. -/
def attempts (v : Option AuthValue) : Int := (v.bind AuthValue.number).getD 0

def limited (v : Option AuthValue) : Bool := decide (rateLimitMaxAttempts ≤ attempts v)

section Perform

variable (ops : AuthOps) (c : Choice) (s : AuthState)

def store (kv : AuthKv) : AuthState := if c.outcome.takesEffect then { s with kv := kv } else s

def find (matched : Bool) : Option (Option User) :=
  if c.outcome = .works then some (if matched then some s.user else none) else none

/-- A call: what it does and what it answers. -/
def perform : (o : AuthCall) → Option (AuthState × o.Answer)
  | .kvGet k => some (s, if c.outcome = .works then some (s.kv.get s.now k) else none)
  | .kvSet k value ttl =>
    some (store c s (s.kv.set s.now k value (some ttl)), decide (c.outcome = .works))
  | .kvDel k => some (store c s (s.kv.del k), decide (c.outcome = .works))
  | .kvDelPrefix epoch =>
    some (store c s (s.kv.delPrefix (AuthKey.inEpoch epoch)), decide (c.outcome = .works))
  | .kvIncr k ttl =>
    match s.kv.incr AuthValue.number .count s.now k (some ttl) with
    | none => some (s, false)
    | some kv => some (store c s kv, decide (c.outcome = .works))
  | .captcha => some (s, decide (c.outcome = .works))
  | .findByUsername username => some (s, find c s (username == s.user.username))
  | .findById userId => some (s, find c s (userId == s.user.id))
  | .verifyPassword password hash =>
    some (s, if c.outcome = .works then some (ops.verify password hash) else none)
  | .hashPassword _ => some (s, if c.outcome = .works then some c.text else none)
  | .matchStep secret code =>
    some (s, if c.outcome = .works then some (ops.matchedTotpStep secret s.now code) else none)
  | .updatePassword hash =>
    some (if c.outcome.takesEffect then { s with user := { s.user with passwordHash := some hash } }
      else s, decide (c.outcome = .works))
  | .fetchSessEpoch userId =>
    some (s, if c.outcome = .works ∧ userId = s.user.id then some s.user.sessEpoch else none)
  | .bumpSessEpoch =>
    some (if c.outcome.takesEffect then
        { s with user := { s.user with sessEpoch := s.user.sessEpoch + 1 } }
      else s, decide (c.outcome = .works))
  | .generateToken =>
    -- a token is never generated twice
    if c.text ∈ s.issued then none else some ({ s with issued := c.text :: s.issued }, c.text)
  | .grant _ => some (s, ⟨⟩)
  | .reply _ => some (s, ⟨⟩)

end Perform

/-! ## What is watched -/

/-- The timesteps that were stored and accepted. -/
structure GuardWatch where
  /-- With the time, the latest first. -/
  stored : List (Nat × Nat)
  accepted : List Nat
  /-- When the request matched its code. -/
  matchedAt : Nat → Nat
  /-- How many timesteps were stored when the request read the guard. -/
  seen : Nat → Option Nat

/-- The wrong passwords. -/
structure LoginWatch where
  /-- Those verified since the counter was last cleared or expired. -/
  wrong : Nat
  /-- The logins that passed the counter and have not verified their password. -/
  checked : Finset Nat
  /-- The logins that verified a wrong password and have not counted it. -/
  failed : Finset Nat

/-- Which password a token comes from.  A version of the password is the number of updates
before it. -/
structure TokenWatch where
  version : Nat
  /-- The versions below this one were replaced by changes that returned success. -/
  revoked : Nat
  /-- The version whose password was verified for a token. -/
  origin : Text → Nat
  /-- The first version that may have sessions in an epoch. -/
  floor : Nat → Nat
  /-- The tokens that were accepted, with `since` of the request. -/
  admitted : List (Nat × Text)
  /-- Requests from this number on have not arrived. -/
  arrived : Nat
  request : Nat → Option AuthRequest
  /-- `revoked`, when the request arrived. -/
  since : Nat → Nat
  /-- The version that the request has written. -/
  changed : Nat → Nat
  /-- The version whose password the request has verified, or will. -/
  holding : Nat → Option Nat
  /-- The request has fetched the epoch for its session. -/
  bound : Nat → Bool

structure AuthWorld where
  state : AuthState
  guard : GuardWatch
  login : LoginWatch
  tokens : TokenWatch

section Watch

variable (ops : AuthOps) (i : Nat) (c : Choice) (s : AuthState)

def noteGuard (g : GuardWatch) : AuthCall → GuardWatch
  | .kvGet k =>
    if c.outcome = .works ∧ k = s.stepKey then
      { g with seen := Function.update g.seen i (some g.stored.length) }
    else g
  | .kvSet k (.step n) _ =>
    if c.outcome.takesEffect ∧ k = s.stepKey then
      { g with
        stored := (n, s.now) :: g.stored
        accepted := if c.outcome = .works then n :: g.accepted else g.accepted }
    else g
  | .matchStep .. => { g with matchedAt := Function.update g.matchedAt i s.now }
  | _ => g

def noteLogin (l : LoginWatch) : AuthCall → LoginWatch
  | .kvGet k =>
    if c.outcome = .works ∧ k = s.loginKey ∧ limited (s.kv.get s.now k) = false then
      { l with checked := insert i l.checked }
    else l
  | .verifyPassword password hash =>
    if c.outcome = .works ∧ i ∈ l.checked then
      if ops.verify password hash then { l with checked := l.checked.erase i }
      else
        { wrong := l.wrong + 1
          checked := l.checked.erase i
          failed := insert i l.failed }
    else l
  | .kvIncr k _ =>
    if c.outcome.takesEffect ∧ k = s.loginKey then { l with failed := l.failed.erase i } else l
  | .kvDel k => if c.outcome.takesEffect ∧ k = s.loginKey then { l with wrong := 0 } else l
  | .reply _ => { l with checked := l.checked.erase i }
  | _ => l

/-- Whether a request is a login with the user's name and password. -/
def AuthRequest.verifies (user : User) : AuthRequest → Bool
  | .login username password =>
    username == user.username && user.passwordHash.any fun hash => ops.verify password hash
  | _ => false

def AuthRequest.changes : AuthRequest → Bool
  | .changePassword .. => true
  | _ => false

def noteTokens (t : TokenWatch) : AuthCall → TokenWatch
  | .findByUsername _ =>
    if c.outcome = .works ∧ (t.request i).any (AuthRequest.verifies ops s.user) then
      { t with holding := Function.update t.holding i (some t.version) }
    else t
  | .kvGet (.pending token) =>
    if c.outcome = .works ∧ (s.kv.get s.now (.pending token)).isSome ∧ (t.request i).isSome then
      { t with holding := Function.update t.holding i (some (t.origin token)) }
    else t
  | .fetchSessEpoch _ =>
    if c.outcome = .works then { t with bound := Function.update t.bound i true } else t
  | .generateToken =>
    { t with origin := Function.update t.origin c.text ((t.holding i).getD t.version) }
  | .updatePassword _ =>
    if c.outcome.takesEffect then
      { t with
        version := t.version + 1
        changed := Function.update t.changed i (t.version + 1) }
    else t
  | .bumpSessEpoch =>
    if c.outcome.takesEffect then
      { t with
        floor := Function.update t.floor (s.user.sessEpoch + 1)
          (max (t.floor s.user.sessEpoch) (t.changed i)) }
    else t
  | .grant token => { t with admitted := (t.since i, token) :: t.admitted }
  | .reply r =>
    { t with
      holding := Function.update t.holding i none
      revoked :=
        if r = .noContent ∧ (t.request i).any AuthRequest.changes then
          max t.revoked (t.changed i)
        else t.revoked }
  | _ => t

/-- A call of request `i`. -/
def exec (w : AuthWorld) (o : AuthCall) : Option (AuthWorld × o.Answer) :=
  (perform ops c w.state o).map fun p =>
    ({ state := p.1
       guard := noteGuard i c w.state w.guard o
       login := noteLogin ops i c w.state w.login o
       tokens := noteTokens ops i c w.state w.tokens o }, p.2)

end Watch

/-- A request arrives. -/
def arrive (i : Nat) (r : AuthRequest) (w : AuthWorld) : AuthWorld :=
  { w with
    guard := { w.guard with seen := Function.update w.guard.seen i none }
    tokens := { w.tokens with
      arrived := max w.tokens.arrived (i + 1)
      request := Function.update w.tokens.request i (some r)
      since := Function.update w.tokens.since i w.tokens.revoked
      changed := Function.update w.tokens.changed i 0
      holding := Function.update w.tokens.holding i none
      bound := Function.update w.tokens.bound i false } }

/-- Time passes; wrong passwords are counted anew when the counter expires. -/
def tick (seconds : Nat) (w : AuthWorld) : AuthWorld :=
  let later := w.state.now + seconds
  { w with
    state := { w.state with now := later }
    login :=
      if (w.state.kv.live w.state.now w.state.loginKey).isSome &&
          (w.state.kv.live later w.state.loginKey).isNone then
        { w.login with wrong := 0 }
      else w.login }

/-- Nothing has happened yet. -/
structure AuthWorld.Fresh (w : AuthWorld) : Prop where
  kv : ∀ k, w.state.kv k = none
  issued : w.state.issued = []
  stored : w.guard.stored = []
  accepted : w.guard.accepted = []
  matchedAt : ∀ i, w.guard.matchedAt i = 0
  wrong : w.login.wrong = 0
  checked : w.login.checked = ∅
  failed : w.login.failed = ∅
  revoked : w.tokens.revoked = 0
  floor : ∀ e, w.tokens.floor e = 0
  admitted : w.tokens.admitted = []
  changed : ∀ i, w.tokens.changed i = 0
  since : ∀ i, w.tokens.since i = 0
  request : ∀ i, w.tokens.request i = none
  holding : ∀ i, w.tokens.holding i = none

/-- A world in which nothing has happened. -/
def freshWorld (user : User) (now : Nat) : AuthWorld where
  state := ⟨now, fun _ => none, user, []⟩
  guard := ⟨[], [], fun _ => 0, fun _ => none⟩
  login := ⟨0, ∅, ∅⟩
  tokens :=
    { version := 0, revoked := 0, origin := fun _ => 0, floor := fun _ => 0, admitted := []
      arrived := 0, request := fun _ => none, since := fun _ => 0, changed := fun _ => 0
      holding := fun _ => none, bound := fun _ => false }

theorem freshWorld_fresh (user : User) (now : Nat) : (freshWorld user now).Fresh :=
  ⟨fun _ => rfl, rfl, rfl, rfl, fun _ => rfl, rfl, rfl, rfl, rfl, fun _ => rfl, rfl,
    fun _ => rfl, fun _ => rfl, fun _ => rfl, fun _ => rfl⟩

/-! ## What a call leaves alone -/

/-- Whether a call may write a key. -/
def AuthCall.writes (k : AuthKey) : AuthCall → Bool
  | .kvSet j _ _ | .kvDel j | .kvIncr j _ => j == k
  | .kvDelPrefix epoch => AuthKey.inEpoch epoch k
  | _ => false

section Frame

variable {ops : AuthOps} {c : Choice} {s s' : AuthState} {o : AuthCall} {r : o.Answer}

theorem store_of_effect (h : c.outcome.takesEffect = true) (kv : AuthKv) :
    store c s kv = { s with kv := kv } := if_pos h

theorem store_of_failure (h : c.outcome.takesEffect = false) (kv : AuthKv) : store c s kv = s :=
  if_neg (Bool.eq_false_iff.mp h)

theorem store_cases (kv : AuthKv) : store c s kv = s ∨ store c s kv = { s with kv := kv } := by
  unfold store
  split
  · exact .inr rfl
  · exact .inl rfl

/-- A call either writes the store only, or leaves it. -/
theorem perform_cases (h : perform ops c s o = some (s', r)) :
    s' = s ∨ (∃ kv, s' = { s with kv := kv } ∧ ∀ k, o.writes k = false → kv k = s.kv k) ∨
    (∃ hash, o = .updatePassword hash ∧
      s' = { s with user := { s.user with passwordHash := some hash } }) ∨
    (o = .bumpSessEpoch ∧ s' = { s with user := { s.user with sessEpoch := s.user.sessEpoch + 1 } }) ∨
    (o = .generateToken ∧ c.text ∉ s.issued ∧ s' = { s with issued := c.text :: s.issued }) := by
  have hstore : ∀ kv : AuthKv, (∀ k, o.writes k = false → kv k = s.kv k) →
      s' = store c s kv → s' = s ∨
        ∃ kv, s' = { s with kv := kv } ∧ ∀ k, o.writes k = false → kv k = s.kv k := by
    rintro kv hkv rfl
    rcases store_cases (c := c) kv with he | he
    · exact .inl he
    · exact .inr ⟨kv, he, hkv⟩
  have hne : ∀ j k : AuthKey, (j == k) = false → k ≠ j :=
    fun j k hjk he => by rw [he, beq_self_eq_true] at hjk; cases hjk
  cases o with
  | kvSet j value ttl =>
    obtain ⟨hs, _⟩ := Prod.mk.inj (Option.some.inj h)
    exact (hstore _ (fun k hk => Kv.set_other (hne j k hk)) hs.symm).imp_right .inl
  | kvDel j =>
    obtain ⟨hs, _⟩ := Prod.mk.inj (Option.some.inj h)
    exact (hstore _ (fun k hk => Kv.del_other (hne j k hk)) hs.symm).imp_right .inl
  | kvDelPrefix epoch =>
    obtain ⟨hs, _⟩ := Prod.mk.inj (Option.some.inj h)
    refine (hstore _ (fun k hk => if_neg ?_) hs.symm).imp_right .inl
    rw [show AuthKey.inEpoch epoch k = false from hk]
    exact Bool.false_ne_true
  | kvIncr j ttl =>
    rw [perform] at h
    split at h
    · exact .inl (Prod.mk.inj (Option.some.inj h)).1.symm
    · rename_i kv hincr
      obtain ⟨hs, _⟩ := Prod.mk.inj (Option.some.inj h)
      exact (hstore kv (fun k hk => Kv.incr_other hincr (hne j k hk)) hs.symm).imp_right .inl
  | updatePassword hash =>
    obtain ⟨hs, _⟩ := Prod.mk.inj (Option.some.inj h)
    split at hs
    · exact .inr (.inr (.inl ⟨hash, rfl, hs.symm⟩))
    · exact .inl hs.symm
  | bumpSessEpoch =>
    obtain ⟨hs, _⟩ := Prod.mk.inj (Option.some.inj h)
    split at hs
    · exact .inr (.inr (.inr (.inl ⟨rfl, hs.symm⟩)))
    · exact .inl hs.symm
  | generateToken =>
    rw [perform] at h
    split at h
    · cases h
    · rename_i hfresh
      exact .inr (.inr (.inr (.inr ⟨rfl, hfresh, (Prod.mk.inj (Option.some.inj h)).1.symm⟩)))
  | _ => exact .inl (Prod.mk.inj (Option.some.inj h)).1.symm

theorem perform_fixed (h : perform ops c s o = some (s', r)) :
    s'.now = s.now ∧ s'.user.id = s.user.id ∧ s'.user.username = s.user.username := by
  rcases perform_cases h with rfl | ⟨kv, rfl, _⟩ | ⟨hash, _, rfl⟩ | ⟨_, rfl⟩ | ⟨_, _, rfl⟩
  · exact ⟨rfl, rfl, rfl⟩
  · exact ⟨rfl, rfl, rfl⟩
  · exact ⟨rfl, rfl, rfl⟩
  · exact ⟨rfl, rfl, rfl⟩
  · exact ⟨rfl, rfl, rfl⟩

theorem perform_kv (h : perform ops c s o = some (s', r)) {k : AuthKey} (hk : o.writes k = false) :
    s'.kv k = s.kv k := by
  rcases perform_cases h with rfl | ⟨kv, rfl, hkv⟩ | ⟨hash, _, rfl⟩ | ⟨_, rfl⟩ | ⟨_, _, rfl⟩
  · rfl
  · exact hkv k hk
  · rfl
  · rfl
  · rfl

theorem exec_eq_some {i : Nat} {w w' : AuthWorld} : exec ops i c w o = some (w', r) ↔
    ∃ s', perform ops c w.state o = some (s', r) ∧
      w' = { state := s'
             guard := noteGuard i c w.state w.guard o
             login := noteLogin ops i c w.state w.login o
             tokens := noteTokens ops i c w.state w.tokens o } := by
  unfold exec
  constructor
  · intro h
    obtain ⟨⟨s', r'⟩, hp, heq⟩ := Option.map_eq_some_iff.mp h
    obtain ⟨rfl, rfl⟩ := Prod.mk.inj heq
    exact ⟨s', hp, rfl⟩
  · rintro ⟨s', hp, rfl⟩
    rw [hp]
    rfl

end Frame

end Lyra.Auth
