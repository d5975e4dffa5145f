import Lyra.Auth.Tokens

/-!
# What a password change revokes

* `change_revokes`: where no request and no pending token still holds an older password when the
  epoch is bumped, a request that arrives after a successful change admits no token of an older
  password;
* `change_leaves_pending`: a pending token that outlives the change.
-/

namespace Lyra.Auth

open Lyra.Lib

variable {ops : AuthOps} {i : Nat} {c : Choice} {w w' : AuthWorld}

/-! ## Programs -/

section Programs

variable {α β : Type} {post : β → AuthWorld → Prop}

theorem tokenFree_bind {p : AuthProg α} (hp : p.Calls fun o => tokenFree o = true)
    {f : α → AuthProg β} (hf : ∀ a t, TokenRely i w t → TokenSafe ops i post (f a) t) :
    TokenSafe ops i post (p >>= f) w :=
  (hp.mono fun _ h => quiet_of_tokenFree h).safe_bind (fun _ _ _ => TokenRely.trans)
    (TokenRely.refl i) hf

theorem tokenFree_bind_ends {P : α → Prop} {p : AuthProg α}
    (hp : p.Calls fun o => tokenFree o = true) (hends : p.Ends P) {f : α → AuthProg β}
    (hf : ∀ a t, P a → TokenRely i w t → TokenSafe ops i post (f a) t) :
    TokenSafe ops i post (p >>= f) w := by
  have hsafe := (hp.mono fun _ h => quiet_of_tokenFree h).safe (V := authService ops)
    (fun _ _ _ => TokenRely.trans) (TokenRely.refl i w)
  exact Prog.safe_bind p f ((hsafe.ends p hends).weaken p fun a t h => hf a t h.2 h.1)

theorem reply_safe {a : Reply} (hdone : a = .noContent →
    (w.tokens.request i).any AuthRequest.changes = true → w.tokens.changed i ≤ w.floor) :
    TokenSafe ops i (fun _ _ => True) (reply a) w := by
  intro w₁ hrely hinv c w₂ r _ hexec
  have hdone₁ : a = .noContent → (w₁.tokens.request i).any AuthRequest.changes = true →
      w₁.tokens.changed i ≤ w₁.floor := by
    intro ha hchange
    rw [hrely.request] at hchange
    exact hrely.changed.le.trans ((hdone ha hchange).trans hrely.floor)
  obtain ⟨hinv', hguar⟩ := reply_spec hinv hdone₁ hexec
  exact ⟨hinv', hguar, trivial⟩

theorem reply_failure {a : Reply} (ha : a ≠ .noContent) :
    TokenSafe ops i (fun _ _ => True) (reply a) w :=
  reply_safe fun h => absurd h ha

/-- The token may be accepted by a request that arrived before now. -/
def MayAdmit (i : Nat) (t : Text) (w : AuthWorld) : Prop :=
  w.tokens.since i ≤ w.tokens.origin t ∧ t ∈ w.state.issued

theorem MayAdmit.rely {t : Text} (h : MayAdmit i t w) (hrely : TokenRely i w w') :
    MayAdmit i t w' := by
  obtain ⟨hissued, horigin⟩ := hrely.issued t h.2
  exact ⟨hrely.since.le.trans (h.1.trans horigin.ge), hissued⟩

theorem admit_bind {t : Text} (ht : MayAdmit i t w) {f : PUnit → AuthProg β}
    (hf : ∀ w', TokenRely i w w' → TokenSafe ops i post (f ⟨⟩) w') :
    TokenSafe ops i post (call (.grant t) >>= f) w := by
  intro w₁ hrely hinv c w₂ r _ hexec
  obtain ⟨hsince, hissued⟩ := ht.rely hrely
  obtain ⟨hinv', hown⟩ := admit_spec hinv hsince hissued hexec
  exact ⟨hinv', fun j _ => hown j, hf w₂ (hrely.trans (hown i))⟩

theorem renew_bind {e : Nat} {t : Text} (hknown : SessionKnown e t w) {v : AuthValue} {ttl : Nat}
    {f : Bool → AuthProg β}
    (hf : ∀ b w', TokenRely i w w' → TokenSafe ops i post (f b) w') :
    TokenSafe ops i post (call (.kvSet (.sess e t) v ttl) >>= f) w := by
  intro w₁ hrely hinv c w₂ r _ hexec
  obtain ⟨hinv', hown⟩ := setSess_quiet hinv (hknown.rely hrely) hexec
  exact ⟨hinv', fun j _ => hown j, hf r w₂ (hrely.trans (hown i))⟩

theorem getSession_safe (token : Text) :
    TokenSafe ops i (fun r w => r.isSome → MayAdmit i token w) (getSession token) w := by
  have hfail : ∀ w, TokenSafe ops i (fun (r : Option Text) w => r.isSome → MayAdmit i token w)
      (pure none) w := fun _ h => nomatch h
  unfold getSession
  apply tokenFree_bind (Prog.calls_ask rfl)
  intro found w₁ _
  split
  · exact hfail _
  rename_i userId _
  intro w₂ _ hinv₂ c₂ w₃ r₃ _ hexec₃
  obtain ⟨hinv₃, hguar₃, hstate, ⟨b, htokens⟩, hepoch⟩ := fetchSessEpoch_spec hinv₂ hexec₃
  refine ⟨hinv₃, hguar₃, ?_⟩
  cases r₃ with
  | none => exact hfail _
  | some e =>
    obtain rfl := hepoch e rfl
    intro w₄ hrely₄ hinv₄ c₄ w₅ r₅ _ hexec₅
    obtain ⟨hinv₅, hown₅, hknown⟩ := getSess_spec hinv₄ hexec₅
    refine ⟨hinv₅, fun j _ => hown₅ j, ?_⟩
    dsimp only [Prog.bind]
    split
    · exact hfail _
    rename_i stored hstored
    have hread : ∃ v, r₅ = some (some v) := by
      cases r₅ with
      | none => cases hstored
      | some v =>
        cases v with
        | none => cases hstored
        | some v => exact ⟨v, rfl⟩
    obtain ⟨v, hv⟩ := hread
    have hsess : SessionKnown w₂.epoch token w₅ := hknown v hv
    have hmay : MayAdmit i token w₅ := by
      refine ⟨?_, hsess.issued⟩
      have hrely : TokenRely i w₃ w₅ := hrely₄.trans (hown₅ i)
      have hfloor : w₃.tokens.floor w₂.epoch = w₂.floor := by rw [htokens]; rfl
      have hle : w₂.epoch ≤ w₃.epoch := by
        unfold AuthWorld.epoch
        rw [hstate]
      calc w₅.tokens.since i
          = w₂.tokens.since i := by rw [hrely.since, htokens]
        _ ≤ w₂.tokens.revoked := hinv₂.since i
        _ ≤ w₂.floor := hinv₂.revoked
        _ = w₅.tokens.floor w₂.epoch := by rw [hrely.floorAt _ hle, hfloor]
        _ ≤ w₅.tokens.origin token := hsess.floor
    split
    · exact hfail _
    · apply tokenFree_bind (Prog.calls_ask rfl)
      intro marker w₆ hrely₆
      split
      · exact fun _ => hmay.rely hrely₆
      · apply tokenFree_bind (Prog.calls_ask rfl)
        intro _ w₇ hrely₇
        apply renew_bind (hsess.rely (hrely₆.trans hrely₇))
        intro _ w₈ hrely₈
        apply tokenFree_bind (Prog.calls_ask rfl)
        intro _ w₉ hrely₉
        exact fun _ => hmay.rely (((hrely₆.trans hrely₇).trans hrely₈).trans hrely₉)

theorem extractSession_safe (token : Text) :
    TokenSafe ops i (fun _ _ => True) (extractSession token) w := by
  unfold extractSession
  apply Prog.safe_bind
  refine (getSession_safe token).weaken _ ?_
  intro found w₁ hmay
  cases found with
  | none => trivial
  | some userId => exact admit_bind (hmay rfl) fun _ _ => trivial

/-- The request has verified a password, or will, and has not fetched its epoch. -/
def Holds (i v : Nat) (w : AuthWorld) : Prop :=
  w.tokens.holding i = some v ∧ w.tokens.bound i = false

theorem Holds.rely {v : Nat} (h : Holds i v w) (hrely : TokenRely i w w') : Holds i v w' :=
  ⟨hrely.holding.trans h.1, hrely.bound.trans h.2⟩

theorem Holds.floor {v : Nat} (h : Holds i v w) (hinv : TokenInv w) : w.floor ≤ v := by
  rcases hinv.holders i v h.1 with hbound | hfloor
  · rw [h.2] at hbound
    cases hbound
  · exact hfloor

theorem createSession_safe {v : Nat} (hholds : Holds i v w) (userId : Text) :
    TokenSafe ops i (fun _ _ => True) (createSession userId) w := by
  unfold createSession
  intro w₁ hrely₁ hinv₁ c₁ w₂ r₁ _ hexec₁
  have hholds₁ := hholds.rely hrely₁
  obtain ⟨hinv₂, hguar₁, hstate, ⟨b, htokens⟩, hepoch⟩ := fetchSessEpoch_spec hinv₁ hexec₁
  refine ⟨hinv₂, hguar₁, ?_⟩
  cases r₁ with
  | none => trivial
  | some e =>
    obtain rfl := hepoch e rfl
    intro w₃ hrely₃ hinv₃ c₃ w₄ t _ hexec₃
    obtain ⟨hinv₄, hown₃, hissued, horigin⟩ := generateToken_spec hinv₃ hexec₃
    refine ⟨hinv₄, fun j _ => hown₃ j, ?_⟩
    have hrely : TokenRely i w₂ w₄ := hrely₃.trans (hown₃ i)
    have hle : w₁.epoch ≤ w₂.epoch := by
      unfold AuthWorld.epoch
      rw [hstate]
    have hholding : w₃.tokens.holding i = some v := by
      rw [hrely₃.holding, htokens]
      exact hholds₁.1
    have hknown : SessionKnown w₁.epoch t w₄ := by
      refine ⟨hle.trans hrely.epoch, ?_, hissued⟩
      calc w₄.tokens.floor w₁.epoch
          = w₁.floor := by rw [hrely.floorAt _ hle, htokens]; rfl
        _ ≤ v := hholds₁.floor hinv₁
        _ = w₄.tokens.origin t := by rw [horigin, hholding, Option.getD_some]
    apply renew_bind hknown
    intro stored w₅ _
    cases stored with
    | false => trivial
    | true =>
      apply tokenFree_bind (Prog.calls_ask rfl)
      intro stored w₆ _
      cases stored with
      | false => trivial
      | true =>
        apply tokenFree_bind (Prog.calls_ask rfl)
        intro stored w₇ _
        cases stored with
        | false => trivial
        | true => trivial

theorem createPendingSession_safe {v : Nat} (hholds : Holds i v w) (userId : Text) :
    TokenSafe ops i (fun _ _ => True) (createPendingSession userId) w := by
  unfold createPendingSession
  intro w₁ hrely₁ hinv₁ c₁ w₂ t _ hexec₁
  have hholds₁ := hholds.rely hrely₁
  obtain ⟨hinv₂, hown₁, hissued, horigin⟩ := generateToken_spec hinv₁ hexec₁
  refine ⟨hinv₂, fun j _ => hown₁ j, ?_⟩
  intro w₃ hrely₃ hinv₃ c₃ w₄ r₃ _ hexec₃
  obtain ⟨hissued₃, horigin₃⟩ := hrely₃.issued t hissued
  have hfloor : w₃.floor ≤ w₃.tokens.origin t := by
    rw [horigin₃, horigin, hholds₁.1, Option.getD_some]
    exact ((hholds₁.rely (hown₁ i)).rely hrely₃).floor hinv₃
  obtain ⟨hinv₄, hown₃⟩ := setPending_quiet hinv₃ hfloor hissued₃ hexec₃
  refine ⟨hinv₄, fun j _ => hown₃ j, ?_⟩
  cases r₃ with
  | false => trivial
  | true => trivial

/-- A pending token that is found may be accepted, and its password is held from here on. -/
theorem getPendingSession_safe (hreq : w.tokens.request i ≠ none)
    (hbound : w.tokens.bound i = false) (token : Text) :
    TokenSafe ops i
      (fun r w' => w'.tokens.request i ≠ none ∧ w'.tokens.bound i = false ∧
        (r.isSome → MayAdmit i token w' ∧ ∃ v, Holds i v w'))
      (getPendingSession token) w := by
  unfold getPendingSession
  intro w₁ hrely₁ hinv₁ c₁ w₂ r₁ _ hexec₁
  have hreq₁ : w₁.tokens.request i ≠ none := hrely₁.request ▸ hreq
  obtain ⟨hinv₂, hguar₁, hstate, ⟨h, htokens⟩, hfound⟩ := getPending_spec hinv₁ hreq₁ hexec₁
  have hbound₂ : w₂.tokens.bound i = false := by
    rw [htokens]
    exact hrely₁.bound.trans hbound
  refine ⟨hinv₂, hguar₁, ?_, hbound₂, ?_⟩
  · rw [htokens]
    exact hreq₁
  · intro hsome
    obtain ⟨v, hv⟩ : ∃ v, r₁ = some (some v) := by
      cases r₁ with
      | none => cases hsome
      | some v =>
        cases v with
        | none => cases hsome
        | some v => exact ⟨v, rfl⟩
    obtain ⟨hfloor, hissued, hholding⟩ := hfound v hv
    refine ⟨⟨?_, ?_⟩, _, hholding, hbound₂⟩
    · rw [htokens]
      exact ((hinv₁.since i).trans hinv₁.revoked).trans hfloor
    · rw [hstate]
      exact hissued

theorem promotePendingSession_safe (hreq : w.tokens.request i ≠ none)
    (hbound : w.tokens.bound i = false) (token : Text) :
    TokenSafe ops i (fun _ _ => True) (promotePendingSession token) w := by
  unfold promotePendingSession
  apply Prog.safe_bind
  refine (getPendingSession_safe hreq hbound token).weaken _ ?_
  rintro found w₁ ⟨_, _, hfound⟩
  cases found with
  | none => trivial
  | some userId =>
    obtain ⟨_, v, hholds⟩ := hfound rfl
    apply tokenFree_bind (Prog.calls_ask rfl)
    intro deleted w₂ hrely₂
    cases deleted with
    | false => trivial
    | true =>
      apply Prog.safe_bind
      refine (createSession_safe (hholds.rely hrely₂) userId).weaken _ ?_
      intro session w₃ _
      cases session with
      | none => trivial
      | some token => trivial

theorem invalidateUserSessions_safe (userId : Text) :
    TokenSafe ops i (fun r w => r = true → w.tokens.changed i ≤ w.floor)
      (invalidateUserSessions userId) w := by
  unfold invalidateUserSessions
  intro w₁ _ hinv₁ c₁ w₂ r₁ _ hexec₁
  obtain ⟨hinv₂, hguar₁, _⟩ := fetchSessEpoch_spec hinv₁ hexec₁
  refine ⟨hinv₂, hguar₁, ?_⟩
  cases r₁ with
  | none => exact fun h => nomatch h
  | some oldEpoch =>
    intro w₃ _ hinv₃ c₃ w₄ r₃ hok₃ hexec₃
    obtain ⟨hinv₄, hguar₃, hbumped⟩ := bumpSessEpoch_spec hinv₃ hok₃ hexec₃
    refine ⟨hinv₄, hguar₃, ?_⟩
    cases r₃ with
    | false => exact fun h => nomatch h
    | true =>
      have hquiet : (call (.kvDelPrefix oldEpoch)).Calls
          (tokenRules.Quiet (authService ops) i) := Prog.calls_ask (quiet_of_tokenFree rfl)
      refine (hquiet.safe (fun _ _ _ => TokenRely.trans) (TokenRely.refl i w₄)).weaken _ ?_
      intro _ w₅ hrely₅ _
      exact hrely₅.changed.le.trans ((hbumped rfl).trans hrely₅.floor)

/-! ## Handlers -/

/-- The request that is running. -/
def Serves (i : Nat) (a : AuthRequest) (w : AuthWorld) : Prop := w.tokens.request i = some a

theorem Serves.rely {a : AuthRequest} (h : Serves i a w) (hrely : TokenRely i w w') :
    Serves i a w' := hrely.request.trans h

theorem noteTokens_request (o : AuthCall) (s : AuthState) (t : TokenWatch) :
    (noteTokens ops i c s t o).request = t.request := by
  unfold noteTokens
  split <;> first | rfl | (split <;> rfl)

theorem noteTokens_since (o : AuthCall) (s : AuthState) (t : TokenWatch) :
    (noteTokens ops i c s t o).since = t.since := by
  unfold noteTokens
  split <;> first | rfl | (split <;> rfl)

theorem noteTokens_origin {o : AuthCall} (ho : o ≠ .generateToken) (s : AuthState)
    (t : TokenWatch) : (noteTokens ops i c s t o).origin = t.origin := by
  unfold noteTokens
  split <;> first | rfl | (split <;> rfl) | exact absurd rfl ho

/-- Where a token comes from never changes. -/
theorem perform_origin {o : AuthCall} {s s' : AuthState} {r : o.Answer}
    (hp : perform ops c s o = some (s', r)) (i : Nat) {k : TokenWatch} {t : Text}
    (ht : t ∈ s.issued) :
    (noteTokens ops i c s k o).origin t = k.origin t ∧ t ∈ s'.issued := by
  by_cases ho : o = .generateToken
  · subst ho
    rw [perform] at hp
    split at hp
    · cases hp
    · rename_i hfresh
      obtain ⟨rfl, _⟩ := Prod.mk.inj (Option.some.inj hp)
      refine ⟨Function.update_of_ne ?_ .., List.mem_cons_of_mem _ ht⟩
      rintro rfl
      exact hfresh ht
  · refine ⟨congrFun (noteTokens_origin ho s k) t, ?_⟩
    rcases perform_cases hp with rfl | ⟨kv, rfl, _⟩ | ⟨hash, rfl, rfl⟩ | ⟨rfl, rfl⟩ | ⟨rfl, _⟩
    · exact ht
    · exact ht
    · exact ht
    · exact ht
    · exact absurd rfl ho

theorem serves_safe {a : AuthRequest} {p : AuthProg α} {post : α → AuthWorld → Prop}
    (hp : TokenSafe ops i post p w) (hserves : Serves i a w) :
    TokenSafe ops i (fun r w' => post r w' ∧ Serves i a w') p w := by
  refine Prog.Safe.frame (Q := Serves i a) (fun _ _ hrely h => h.rely hrely) ?_ p hp hserves
  intro c o s t r hexec h
  obtain ⟨s', _, rfl⟩ := exec_eq_some.mp hexec
  exact (congrFun (noteTokens_request o _ _) i).trans h

/-- A token that may be accepted stays so while the request runs. -/
theorem mayAdmit_safe {t : Text} {p : AuthProg α} {post : α → AuthWorld → Prop}
    (hp : TokenSafe ops i post p w) (hmay : MayAdmit i t w) :
    TokenSafe ops i (fun r w' => post r w' ∧ MayAdmit i t w') p w := by
  refine Prog.Safe.frame (Q := MayAdmit i t) (fun _ _ hrely h => h.rely hrely) ?_ p hp hmay
  intro c o w w' r hexec ⟨hsince, hissued⟩
  obtain ⟨s', hperform, rfl⟩ := exec_eq_some.mp hexec
  obtain ⟨horigin, hissued'⟩ := perform_origin hperform i hissued
  exact ⟨((congrFun (noteTokens_since o _ _) i).le.trans hsince).trans horigin.ge, hissued'⟩

theorem reply_unchanging {a : AuthRequest} (hserves : Serves i a w)
    (ha : AuthRequest.changes a = false) (r : Reply) :
    TokenSafe ops i (fun _ _ => True) (reply r) w := by
  refine reply_safe fun _ hchanges => ?_
  rw [hserves, Option.any_some, ha] at hchanges
  cases hchanges

theorem verifyPassword_spec (hinv : TokenInv w) {password hash : Text} {r : Option Bool}
    (hexec : exec ops i c w (.verifyPassword password hash) = some (w', r)) :
    TokenInv w' ∧ (∀ j, TokenRely j w w') ∧ (r = some true → ops.verify password hash = true) := by
  obtain ⟨hinv', hguar, hown⟩ := quiet_of_tokenFree (i := i)
    (o := .verifyPassword password hash) rfl c w w' r hinv trivial hexec
  refine ⟨hinv', fun j => ?_, ?_⟩
  · by_cases hj : j = i
    · exact hj ▸ hown
    · exact hguar j hj
  · obtain ⟨s', hp, _⟩ := exec_eq_some.mp hexec
    obtain ⟨_, rfl⟩ := Prod.mk.inj (Option.some.inj hp)
    intro hr
    split at hr
    · exact Option.some.inj hr
    · cases hr

theorem authLogin_safe {username password : Text} (hserves : Serves i (.login username password) w)
    (hbound : w.tokens.bound i = false) :
    TokenSafe ops i (fun _ _ => True) (authLogin username password) w := by
  have hrefuse : ∀ w, TokenSafe ops i (fun _ _ => True)
      (do reply (← noteFailedAttempt (.loginLimit username) .unauthorized)) w := by
    intro w
    apply tokenFree_bind_ends (calls_noteFailedAttempt rfl)
      (noteFailedAttempt_ends _ (by rintro ⟨⟩))
    intro r w₁ hr _
    exact reply_failure hr
  have hreply : ∀ {r : Reply}, r ≠ .noContent → ∀ w,
      TokenSafe ops i (fun _ _ => True) (reply r) w := fun h _ => reply_failure h
  unfold authLogin
  apply tokenFree_bind (calls_ensureNotRateLimited rfl)
  intro refused w₁ hrely₁
  cases refused with
  | some r => exact reply_unchanging (hserves.rely hrely₁) rfl r
  | none =>
    apply tokenFree_bind (Prog.calls_ask rfl)
    intro passed w₂ hrely₂
    cases passed with
    | false => exact hreply (by rintro ⟨⟩) _
    | true =>
      intro w₃ hrely₃ hinv₃ c₃ w₄ r₃ _ hexec₃
      have hrely := (hrely₁.trans hrely₂).trans hrely₃
      obtain ⟨hinv₄, hguar₃, _, ⟨h, htokens⟩, hverifies⟩ :=
        findByUsername_spec hinv₃ (hserves.rely hrely) hexec₃
      have hbound₄ : w₄.tokens.bound i = false := by
        rw [htokens]
        exact hrely.bound.trans hbound
      refine ⟨hinv₄, hguar₃, ?_⟩
      cases r₃ with
      | none => exact hreply (by rintro ⟨⟩) _
      | some found =>
        cases found with
        | none => exact hrefuse _
        | some user =>
          dsimp only [Prog.bind]
          cases hhash : user.passwordHash with
          | none => exact hreply (by rintro ⟨⟩) _
          | some hash =>
            intro w₅ hrely₅ hinv₅ c₅ w₆ r₅ _ hexec₅
            obtain ⟨hinv₆, hown₅, hverified⟩ := verifyPassword_spec hinv₅ hexec₅
            refine ⟨hinv₆, fun j _ => hown₅ j, ?_⟩
            cases r₅ with
            | none => exact hreply (by rintro ⟨⟩) _
            | some valid =>
              cases valid with
              | false => exact hrefuse _
              | true =>
                obtain ⟨v, hholding⟩ := hverifies user rfl hash hhash (hverified rfl)
                have hholds : Holds i v w₆ :=
                  (Holds.rely ⟨hholding, hbound₄⟩ hrely₅).rely (hown₅ i)
                apply tokenFree_bind (calls_clearFailedAttempts rfl)
                intro _ w₇ hrely₇
                split
                · apply Prog.safe_bind
                  refine (createPendingSession_safe (hholds.rely hrely₇) user.id).weaken _ ?_
                  intro token w₈ _
                  cases token with
                  | none => exact hreply (by rintro ⟨⟩) _
                  | some token => exact hreply (by rintro ⟨⟩) _
                · apply Prog.safe_bind
                  refine (createSession_safe (hholds.rely hrely₇) user.id).weaken _ ?_
                  intro token w₈ _
                  cases token with
                  | none => exact hreply (by rintro ⟨⟩) _
                  | some token => exact hreply (by rintro ⟨⟩) _

theorem totpVerify_revocable {pendingToken code : Text}
    (hserves : Serves i (.totpVerify pendingToken code) w) (hbound : w.tokens.bound i = false) :
    TokenSafe ops i (fun _ _ => True) (totpVerify pendingToken code) w := by
  have hreply : ∀ {w}, Serves i (.totpVerify pendingToken code) w → ∀ r,
      TokenSafe ops i (fun _ _ => True) (reply r) w := fun h => reply_unchanging h rfl
  have hreq : w.tokens.request i ≠ none := by
    rw [show w.tokens.request i = _ from hserves]
    rintro ⟨⟩
  unfold totpVerify
  apply Prog.safe_bind
  refine (serves_safe (getPendingSession_safe hreq hbound pendingToken) hserves).weaken _ ?_
  rintro found w₁ ⟨⟨hreq₁, hbound₁, hfound⟩, hserves₁⟩
  cases found with
  | none => exact hreply hserves₁ _
  | some userId =>
    obtain ⟨hmay, _⟩ := hfound rfl
    apply tokenFree_bind (calls_ensureNotRateLimited rfl)
    intro refused w₂ hrely₂
    have hserves₂ := hserves₁.rely hrely₂
    cases refused with
    | some r => exact hreply hserves₂ r
    | none =>
      apply tokenFree_bind (Prog.calls_ask rfl)
      intro user w₃ hrely₃
      have hserves₃ := hserves₂.rely hrely₃
      cases user with
      | none => exact hreply hserves₃ _
      | some user =>
        cases user with
        | none => exact hreply hserves₃ _
        | some user =>
          have hcalls : (verifyTotpCode userId user code).Calls fun o => tokenFree o = true :=
            calls_verifyTotpCode (fun _ => rfl) rfl rfl (fun _ => rfl) rfl
          apply tokenFree_bind hcalls
          intro refused w₄ hrely₄
          have hrely := (hrely₂.trans hrely₃).trans hrely₄
          have hserves₄ := hserves₁.rely hrely
          cases refused with
          | some r => exact hreply hserves₄ r
          | none =>
            apply Prog.safe_bind
            have hreq₄ : w₄.tokens.request i ≠ none := hrely.request ▸ hreq₁
            have hpromote : TokenSafe ops i (fun _ _ => True)
                (promotePendingSession pendingToken) w₄ :=
              promotePendingSession_safe hreq₄ (hrely.bound.trans hbound₁) pendingToken
            refine (serves_safe (mayAdmit_safe hpromote (hmay.rely hrely)) hserves₄).weaken _ ?_
            rintro promoted w₅ ⟨⟨_, hmay₅⟩, hserves₅⟩
            cases promoted with
            | none => exact hreply hserves₅ _
            | some session =>
              cases session with
              | none => exact hreply hserves₅ _
              | some token =>
                apply admit_bind hmay₅
                intro w₆ hrely₆
                exact hreply (hserves₅.rely hrely₆) _

theorem authenticated_safe {token : Text} (hserves : Serves i (.authenticated token) w) :
    TokenSafe ops i (fun _ _ => True) (authenticated token) w := by
  unfold authenticated
  apply Prog.safe_bind
  refine (serves_safe (extractSession_safe token) hserves).weaken _ ?_
  rintro found w₁ ⟨_, hserves₁⟩
  cases found with
  | none => exact reply_unchanging hserves₁ rfl _
  | some _ => exact reply_unchanging hserves₁ rfl _

/-- A call after which the request still serves the same. -/
abbrev ServesKept (ops : AuthOps) (i : Nat) (a : AuthRequest) (o : AuthCall) : Prop :=
  tokenRules.Keeps (authService ops) i (Serves i a) o

theorem fetchSessEpoch_serves {a : AuthRequest} (userId : Text) :
    ServesKept ops i a (.fetchSessEpoch userId) := by
  intro c w w' r hinv _ hserves hexec
  obtain ⟨hinv', hguar, _, ⟨b, htokens⟩, _⟩ := fetchSessEpoch_spec hinv hexec
  refine ⟨hinv', hguar, ?_⟩
  unfold Serves
  rw [htokens]
  exact hserves

theorem serves_of_tokenFree {a : AuthRequest} {o : AuthCall} (h : tokenFree o = true) :
    ServesKept ops i a o := by
  intro c w w' r hinv hok hserves hexec
  obtain ⟨hinv', hguar, hown⟩ := quiet_of_tokenFree h c w w' r hinv hok hexec
  exact ⟨hinv', hguar, hserves.rely hown⟩

theorem removeSession_serves {a : AuthRequest} (token : Text) :
    (removeSession token).Calls (ServesKept ops i a) := by
  have hdel : ∀ k, (call (.kvDel k)).Calls (ServesKept ops i a) :=
    fun k => Prog.calls_ask (serves_of_tokenFree rfl)
  have hlast : (do
      let _ ← call (.kvDel (.tok token))
      let _ ← call (.kvDel (.refresh token)) : AuthProg PUnit).Calls (ServesKept ops i a) :=
    Prog.calls_bind (hdel _) fun _ => Prog.calls_bind (hdel _) fun _ => trivial
  unfold removeSession
  apply Prog.calls_bind (Prog.calls_ask (serves_of_tokenFree rfl))
  intro found
  split
  · exact hlast
  · apply Prog.calls_bind (Prog.calls_ask (fetchSessEpoch_serves _))
    intro epoch
    cases epoch with
    | none => exact hlast
    | some epoch => exact Prog.calls_bind (hdel _) fun _ => hlast

theorem authLogout_safe {token : Text} (hserves : Serves i (.logout token) w) :
    TokenSafe ops i (fun _ _ => True) (authLogout token) w := by
  unfold authLogout
  apply Prog.safe_bind
  refine ((removeSession_serves token).keeps (fun _ _ hrely h => h.rely hrely) hserves).weaken _ ?_
  intro _ w₁ hserves₁
  exact reply_unchanging hserves₁ rfl _

theorem changePassword_safe (token current new : Text) :
    TokenSafe ops i (fun _ _ => True) (changePassword ops token current new) w := by
  have hreply : ∀ {r : Reply}, r ≠ .noContent → ∀ w,
      TokenSafe ops i (fun _ _ => True) (reply r) w := fun h _ => reply_failure h
  unfold changePassword
  apply Prog.safe_bind
  refine (extractSession_safe token).weaken _ ?_
  intro found w₁ _
  cases found with
  | none => exact hreply (by rintro ⟨⟩) _
  | some userId =>
    apply tokenFree_bind_ends (calls_ensureNotRateLimited rfl) (ensureNotRateLimited_ends _)
    intro refused w₂ hrefused _
    cases refused with
    | some r => exact hreply (fun hr => hrefused (congrArg some hr)) _
    | none =>
      apply tokenFree_bind (Prog.calls_ask rfl)
      intro found w₃ _
      cases found with
      | none => exact hreply (by rintro ⟨⟩) _
      | some found =>
        cases found with
        | none => exact hreply (by rintro ⟨⟩) _
        | some user =>
          dsimp only
          cases user.passwordHash with
          | none => exact hreply (by rintro ⟨⟩) _
          | some hash =>
            apply tokenFree_bind (Prog.calls_ask rfl)
            intro valid w₄ _
            cases valid with
            | none => exact hreply (by rintro ⟨⟩) _
            | some valid =>
              cases valid with
              | false =>
                apply tokenFree_bind_ends (calls_noteFailedAttempt rfl)
                  (noteFailedAttempt_ends _ (by rintro ⟨⟩))
                intro r w₅ hr _
                exact hreply hr _
              | true =>
                apply tokenFree_bind (calls_clearFailedAttempts rfl)
                intro _ w₅ _
                split
                · apply tokenFree_bind (Prog.calls_ask rfl)
                  intro newHash w₆ _
                  cases newHash with
                  | none => exact hreply (by rintro ⟨⟩) _
                  | some newHash =>
                    intro w₇ _ hinv₇ c₇ w₈ r₇ _ hexec₇
                    obtain ⟨hinv₈, hguar₇⟩ := updatePassword_spec hinv₇ hexec₇
                    refine ⟨hinv₈, hguar₇, ?_⟩
                    cases r₇ with
                    | false => exact hreply (by rintro ⟨⟩) _
                    | true =>
                      refine Prog.safe_bind (invalidateUserSessions userId) _ ?_
                      refine (invalidateUserSessions_safe userId).weaken _ ?_
                      intro invalidated w₉ hdone
                      cases invalidated with
                      | false => exact hreply (by rintro ⟨⟩) _
                      | true =>
                        apply tokenFree_bind (calls_clearFailedAttempts rfl)
                        intro _ w₁₀ hrely₁₀
                        refine reply_safe fun _ _ => ?_
                        exact hrely₁₀.changed.le.trans ((hdone rfl).trans hrely₁₀.floor)
                · exact hreply (by rintro ⟨⟩) _

end Programs

theorem tokenRules_sound (ops : AuthOps) : tokenRules.Sound (authService ops) where
  init w hw :=
    { sessions := by
        intro e t entry he
        rw [hw.kv] at he
        cases he
      pendings := by
        intro t entry he
        obtain ⟨he, _⟩ := Kv.live_eq_some.mp he
        rw [hw.kv] at he
        cases he
      holders := by
        intro j v hv
        rw [hw.holding j] at hv
        cases hv
      floor := (hw.floor _).le.trans (Nat.zero_le _)
      changed := fun j => (hw.changed j).le.trans (Nat.zero_le _)
      revoked := hw.revoked.le.trans (Nat.zero_le _)
      since := fun j => (hw.since j).le.trans (Nat.zero_le _)
      admitted := by
        intro p hp
        rw [hw.admitted] at hp
        cases hp
      arrived := fun j _ => ⟨hw.request j, hw.holding j⟩ }
  rely_refl := TokenRely.refl
  rely_trans _ _ _ _ := TokenRely.trans
  rely_of_guarantee i j _ _ hij _ hguar := hguar i hij
  arrive n kind w hw _ := by
    refine ⟨{ hw with holders := ?_, changed := ?_, since := ?_, arrived := ?_ }, ?_⟩
    · intro j v hv
      by_cases hj : j = n
      · rw [hj] at hv
        cases (Function.update_self (f := w.tokens.holding) ..).symm.trans hv
      · refine (hw.holders j v ((Function.update_of_ne hj ..).symm.trans hv)).imp_left ?_
        exact (Function.update_of_ne hj ..).trans
    · intro j
      by_cases hj : j = n
      · rw [hj]
        exact (Function.update_self (f := w.tokens.changed) ..).le.trans (Nat.zero_le _)
      · exact (Function.update_of_ne hj ..).le.trans (hw.changed j)
    · intro j
      by_cases hj : j = n
      · rw [hj]
        exact (Function.update_self (f := w.tokens.since) ..).le
      · exact (Function.update_of_ne hj ..).le.trans (hw.since j)
    · intro j hj
      have hne : j ≠ n := (Nat.lt_of_succ_le ((le_max_right _ _).trans hj)).ne'
      obtain ⟨hrequest, hholding⟩ := hw.arrived j ((le_max_left _ _).trans hj)
      exact ⟨(Function.update_of_ne hne ..).trans hrequest,
        (Function.update_of_ne hne ..).trans hholding⟩
    · intro j hj
      exact { TokenRely.refl j w with
        request := Function.update_of_ne hj ..
        since := Function.update_of_ne hj ..
        changed := Function.update_of_ne hj ..
        holding := Function.update_of_ne hj ..
        bound := Function.update_of_ne hj .. }
  env seconds w hw :=
    ⟨hw.keep (Nat.le_add_right _ _) rfl rfl rfl fun k entry _ he => he,
      fun j => .of_same rfl rfl rfl⟩
  safe n kind w _ _ := by
    have hserves : Serves n kind (arrive n kind w) := Function.update_self ..
    have hbound : (arrive n kind w).tokens.bound n = false := Function.update_self ..
    cases kind with
    | login username password => exact authLogin_safe hserves hbound
    | totpVerify pendingToken code => exact totpVerify_revocable hserves hbound
    | authenticated token => exact authenticated_safe hserves
    | logout token => exact authLogout_safe hserves
    | changePassword token current new => exact changePassword_safe token current new

/-- In a run in which no password is pending when an epoch is bumped, every token that a request
admits comes from a password that no change had replaced with success when the request arrived. -/
theorem change_revokes (ops : AuthOps) {p : Pool AuthWorld AuthCall AuthCall.Answer}
    (hp : (authService ops).system.Reachable (Service.CallsMeet NothingPending) p) :
    ∀ a ∈ p.shared.tokens.admitted, a.1 ≤ p.shared.tokens.origin a.2 := by
  intro a ha
  exact (((tokenRules_sound ops).invariant hp).admitted a ha).1

/-- A password change between two logins. -/
def changeAlone : List AuthAction :=
  alone 0 (.login "bob".toList "pw".toList) 11 "a".toList ++
  alone 1 (.changePassword "a".toList "pw".toList "new".toList) 16 "new".toList ++
  alone 2 (.authenticated "a".toList) 3 [] ++
  alone 3 (.login "bob".toList "new".toList) 11 "b".toList ++
  alone 4 (.authenticated "b".toList) 6 []

theorem changeAlone_revokes : ∃ p,
    (authService plainOps).run NothingPending (freshWorld (bob false) 3000) changeAlone = some p ∧
      p.shared.tokens.admitted = [(1, "b".toList), (0, "a".toList)] ∧
      ∀ a ∈ p.shared.tokens.admitted, a.1 ≤ p.shared.tokens.origin a.2 := by
  have hadmitted : ((authService plainOps).run NothingPending (freshWorld (bob false) 3000)
      changeAlone).map (fun p => p.shared.tokens.admitted) =
        some [(1, "b".toList), (0, "a".toList)] := by decide +kernel
  obtain ⟨p, hp, hadmitted⟩ := Option.map_eq_some_iff.mp hadmitted
  exact ⟨p, hp, hadmitted,
    change_revokes plainOps (Service.reachable_run _ (freshWorld_fresh (bob false) 3000) hp)⟩

/-- A login leaves a pending token; the code follows after the change. -/
def changeAcross : List AuthAction :=
  alone 0 (.login "bob".toList "pw".toList) 8 "a".toList ++
  alone 1 (.totpVerify "a".toList "100".toList) 16 "b".toList ++
  alone 2 (.login "bob".toList "pw".toList) 8 "p".toList ++
  alone 3 (.changePassword "b".toList "pw".toList "new".toList) 16 "new".toList ++
  alone 4 (.totpVerify "p".toList "101".toList) 16 "s".toList ++
  alone 5 (.authenticated "s".toList) 6 []

/-- After a successful change the pending token of the old password is accepted, and so is the
session it gives. -/
theorem change_leaves_pending : ∃ p,
    (authService plainOps).system.Reachable (Service.CallsMeet fun _ _ _ _ => True) p ∧
      (1, "p".toList) ∈ p.shared.tokens.admitted ∧ p.shared.tokens.origin "p".toList = 0 ∧
      (1, "s".toList) ∈ p.shared.tokens.admitted ∧ p.shared.tokens.origin "s".toList = 0 ∧
      ¬ ∀ a ∈ p.shared.tokens.admitted, a.1 ≤ p.shared.tokens.origin a.2 := by
  have hadmitted : ((authService plainOps).run (fun _ _ _ _ => True) (freshWorld (bob true) 3000)
      changeAcross).map (fun p => (p.shared.tokens.admitted,
        p.shared.tokens.origin "p".toList, p.shared.tokens.origin "s".toList)) =
      some ([(1, "s".toList), (1, "p".toList), (0, "b".toList), (0, "a".toList)], 0, 0) := by
    decide +kernel
  obtain ⟨p, hp, hread⟩ := Option.map_eq_some_iff.mp hadmitted
  obtain ⟨hadmitted, horigin⟩ := Prod.mk.inj hread
  obtain ⟨hpending, hsession⟩ := Prod.mk.inj horigin
  have hadmits : (1, "p".toList) ∈ p.shared.tokens.admitted ∧
      (1, "s".toList) ∈ p.shared.tokens.admitted := by
    rw [hadmitted]
    decide
  refine ⟨p, Service.reachable_run _ (freshWorld_fresh (bob true) 3000) hp, hadmits.1, hpending,
    hadmits.2, hsession, ?_⟩
  intro hrevoked
  have hle := hrevoked _ hadmits.1
  rw [hpending] at hle
  cases hle

end Lyra.Auth
