import Lyra.Auth.Requests
import Mathlib.Order.Nat

/-!
# One-time codes

The guard against a code that is used again is a read of the last accepted timestep, a
comparison and a write, three calls of a request.

* `totp_once`: where no timestep is stored between the read and the write, the read works and
  comes soon after the match, timesteps are accepted in increasing order;
* `totp_twice`: two requests with the same code.
-/

namespace Lyra.Auth

open Lyra.Lib

variable {ops : AuthOps} {i : Nat} {c : Choice} {w w' : AuthWorld}

/-! ## The rules -/

/-- The guard is read without an error, within a timestep of the match, and no timestep is
stored between the read and the write. -/
def GuardUndisturbed (i : Nat) (c : Choice) (o : AuthCall) (w : AuthWorld) : Prop :=
  match o with
  | .kvGet k =>
    k = w.state.stepKey → c.outcome = .works ∧ w.state.now ≤ w.guard.matchedAt i + 30
  | .kvSet k _ _ => k = w.state.stepKey → w.guard.seen i = some w.guard.stored.length
  | _ => True

instance (i : Nat) (c : Choice) (o : AuthCall) (w : AuthWorld) :
    Decidable (GuardUndisturbed i c o w) :=
  match o with
  | .kvGet k => inferInstanceAs (Decidable (k = w.state.stepKey →
      c.outcome = .works ∧ w.state.now ≤ w.guard.matchedAt i + 30))
  | .kvSet k _ _ => inferInstanceAs (Decidable (k = w.state.stepKey →
      w.guard.seen i = some w.guard.stored.length))
  | .kvDel _ | .kvDelPrefix _ | .kvIncr .. | .captcha | .findByUsername _ | .findById _
  | .verifyPassword .. | .hashPassword _ | .matchStep .. | .updatePassword _ | .fetchSessEpoch _
  | .bumpSessEpoch | .generateToken | .grant _ | .reply _ => inferInstanceAs (Decidable True)

/-- The stored timesteps increase, and the last one is remembered until its codes are out of
the window. -/
structure GuardInv (w : AuthWorld) : Prop where
  order : (w.guard.stored.map Prod.fst).Pairwise (· > ·)
  accepted : w.guard.accepted.Sublist (w.guard.stored.map Prod.fst)
  last : ∀ step time rest, w.guard.stored = (step, time) :: rest →
    time ≤ w.state.now ∧ step ≤ time / 30 + 1 ∧
      w.state.kv w.state.stepKey = some ⟨.step step, some (time + totpLastStepTtlSecs)⟩
  empty : w.guard.stored = [] → w.state.kv w.state.stepKey = none
  matched : ∀ j, w.guard.matchedAt j ≤ w.state.now

/-- What others leave of what a request knows about the guard. -/
structure GuardRely (i : Nat) (w w' : AuthWorld) : Prop where
  now : w.state.now ≤ w'.state.now
  userId : w'.state.user.id = w.state.user.id
  stored : w.guard.stored <:+ w'.guard.stored
  seen : w'.guard.seen i = w.guard.seen i
  matchedAt : w'.guard.matchedAt i = w.guard.matchedAt i

def guardRules : Service.Rules AuthWorld AuthCall Choice where
  inv := GuardInv
  ok := GuardUndisturbed
  guarantee i w w' := ∀ j, j ≠ i → GuardRely j w w'
  rely := GuardRely

theorem GuardRely.refl (i : Nat) (w : AuthWorld) : GuardRely i w w :=
  ⟨le_refl _, rfl, List.suffix_rfl, rfl, rfl⟩

theorem GuardRely.trans {u : AuthWorld} (h : GuardRely i w w') (h' : GuardRely i w' u) :
    GuardRely i w u :=
  ⟨h.now.trans h'.now, h'.userId.trans h.userId, h.stored.trans h'.stored, h'.seen.trans h.seen,
    h'.matchedAt.trans h.matchedAt⟩

/-! ## Calls that do not concern the guard -/

/-- The call neither matches a code nor touches the last timestep. -/
def guardFree : AuthCall → Bool
  | .kvGet (.totpStep _) | .kvSet (.totpStep _) _ _ | .kvDel (.totpStep _)
  | .kvIncr (.totpStep _) _ | .matchStep .. => false
  | _ => true

theorem noteGuard_free {o : AuthCall} {s : AuthState} {g : GuardWatch} (h : guardFree o = true) :
    noteGuard i c s g o = g := by
  cases o with
  | kvGet k =>
    refine if_neg ?_
    rintro ⟨_, rfl⟩
    cases h
  | kvSet k value ttl =>
    cases value with
    | step n =>
      refine if_neg ?_
      rintro ⟨_, rfl⟩
      cases h
    | _ => rfl
  | matchStep => cases h
  | _ => rfl

theorem writes_stepKey {o : AuthCall} {s : AuthState} (h : guardFree o = true) :
    o.writes s.stepKey = false := by
  cases o with
  | kvSet k _ _ | kvDel k | kvIncr k _ => cases k with
    | totpStep u => cases h
    | _ => rfl
  | _ => rfl

theorem GuardInv.keep (h : GuardInv w) (hnow : w.state.now ≤ w'.state.now)
    (hid : w'.state.user.id = w.state.user.id) (hguard : w'.guard = w.guard)
    (hkv : w'.state.kv w.state.stepKey = w.state.kv w.state.stepKey) : GuardInv w' := by
  have hkey : w'.state.stepKey = w.state.stepKey := congrArg AuthKey.totpStep hid
  refine ⟨?_, ?_, ?_, ?_, ?_⟩
  · rw [hguard]
    exact h.order
  · rw [hguard]
    exact h.accepted
  · intro step time rest hst
    rw [hguard] at hst
    obtain ⟨htime, hstep, hentry⟩ := h.last step time rest hst
    rw [hkey, hkv]
    exact ⟨htime.trans hnow, hstep, hentry⟩
  · intro hst
    rw [hguard] at hst
    rw [hkey, hkv]
    exact h.empty hst
  · intro j
    rw [hguard]
    exact (h.matched j).trans hnow

theorem quiet_of_guardFree {o : AuthCall} (h : guardFree o = true) :
    guardRules.Quiet (authService ops) i o := by
  intro c w w' r hinv _ hexec
  obtain ⟨s', hp, rfl⟩ := exec_eq_some.mp hexec
  obtain ⟨hnow, hid, _⟩ := perform_fixed hp
  have hkv := perform_kv hp (writes_stepKey (s := w.state) h)
  have hguard : noteGuard i c w.state w.guard o = w.guard := noteGuard_free h
  have hrely : ∀ j, GuardRely j w
      { state := s'
        guard := noteGuard i c w.state w.guard o
        login := noteLogin ops i c w.state w.login o
        tokens := noteTokens ops i c w.state w.tokens o } := by
    intro j
    refine ⟨hnow.ge, hid, ?_, ?_, ?_⟩
    · rw [hguard]
    · rw [hguard]
    · rw [hguard]
  exact ⟨hinv.keep hnow.ge hid hguard hkv, fun j _ => hrely j, hrely i⟩

/-! ## Programs -/

/-- A program that leaves the guard alone. -/
def GuardFree {α : Type} (p : AuthProg α) : Prop := p.Calls fun o => guardFree o = true

theorem guardFree_bind {α β : Type} {p : AuthProg α} {f : α → AuthProg β} (hp : GuardFree p)
    (hf : ∀ a, GuardFree (f a)) : GuardFree (p >>= f) := Prog.calls_bind hp hf

theorem guardFree_call {o : AuthCall} (h : guardFree o = true) : GuardFree (call o) :=
  Prog.calls_ask h

theorem guardFree_of_ofSessions {o : AuthCall} (h : o.ofSessions = true) : guardFree o = true := by
  cases o with
  | kvGet k | kvSet k _ _ | kvDel k =>
    cases k with
    | totpStep userId => cases h
    | _ => rfl
  | kvIncr | matchStep => cases h
  | _ => rfl

theorem guardFree_authLogin (username password : Text) : GuardFree (authLogin username password) :=
  calls_authLogin (fun _ => guardFree_of_ofSessions) (fun _ => rfl) rfl rfl rfl rfl
    (fun _ _ => rfl) rfl password

theorem guardFree_authLogout (token : Text) : GuardFree (authLogout token) :=
  calls_authLogout (fun _ => guardFree_of_ofSessions) (fun _ => rfl) token

theorem guardFree_authenticated (token : Text) : GuardFree (authenticated token) :=
  calls_authenticated (fun _ => guardFree_of_ofSessions) (fun _ => rfl) token

theorem guardFree_changePassword (token current new : Text) :
    GuardFree (changePassword ops token current new) :=
  calls_changePassword ops (fun _ => guardFree_of_ofSessions) (fun _ => rfl) (fun _ => rfl)
    (fun _ => rfl) (fun _ _ => rfl) (fun _ => rfl) (fun _ => rfl) (fun _ => rfl) rfl fun _ => rfl

theorem guardFree_promotePendingSession (pendingToken : Text) :
    GuardFree (promotePendingSession pendingToken) :=
  calls_promotePendingSession (fun _ => guardFree_of_ofSessions) pendingToken

theorem GuardFree.safe {α : Type} {p : AuthProg α} (hp : GuardFree p) (w : AuthWorld) :
    p.Safe (authService ops) guardRules i (fun _ t => GuardRely i w t) w :=
  (hp.mono fun _ h => quiet_of_guardFree h).safe (fun _ _ _ => GuardRely.trans) (GuardRely.refl i w)

/-- After a program that leaves the guard alone. -/
theorem GuardFree.safe_bind {α β : Type} {p : AuthProg α} (hp : GuardFree p)
    {f : α → AuthProg β} {post : β → AuthWorld → Prop}
    (hf : ∀ a t, GuardRely i w t → (f a).Safe (authService ops) guardRules i post t) :
    (p >>= f).Safe (authService ops) guardRules i post w :=
  Prog.safe_bind p f ((hp.safe w).weaken p hf)

/-! ## The guard -/

theorem matchedTotpStep_window {secret code : Text} {now step : Nat}
    (h : ops.matchedTotpStep secret now code = some step) :
    now / 30 - 1 ≤ step ∧ step ≤ now / 30 + 1 := by
  have hmem := List.mem_of_find?_eq_some h
  rw [List.mem_range'_1] at hmem
  omega

/-- Unless a timestep was stored since the request read the guard, its own is above the last. -/
def SawBelow (i step : Nat) (w : AuthWorld) : Prop :=
  ∃ n, w.guard.seen i = some n ∧ n ≤ w.guard.stored.length ∧
    (w.guard.stored.length = n → ∀ p ∈ w.guard.stored.head?, p.1 < step)

theorem SawBelow.rely {step : Nat} (h : SawBelow i step w) (hrely : GuardRely i w w') :
    SawBelow i step w' := by
  obtain ⟨n, hseen, hn, hbelow⟩ := h
  have hlength := hrely.stored.length_le
  refine ⟨n, hrely.seen.trans hseen, hn.trans hlength, ?_⟩
  intro hsame
  have hold : w.guard.stored.length = n := Nat.le_antisymm (hlength.trans hsame.le) hn
  rw [← hrely.stored.eq_of_length (hold.trans hsame.symm)]
  exact hbelow hold

/-- What a request reads of the guard tells what is stored. -/
theorem GuardInv.sawBelow (h : GuardInv w) {step : Nat}
    (hsoon : w.state.now ≤ w.guard.matchedAt i + 30)
    (hwindow : w.guard.matchedAt i / 30 - 1 ≤ step)
    (hread : ∀ last, w.state.kv.get w.state.now w.state.stepKey = some (.step last) → last < step)
    (hseen : w'.guard.seen i = some w.guard.stored.length) (hstored : w'.guard.stored = w.guard.stored) :
    SawBelow i step w' := by
  refine ⟨_, hseen, (congrArg List.length hstored).ge, ?_⟩
  intro _ p hp
  rw [hstored] at hp
  obtain ⟨last, time⟩ := p
  obtain ⟨rest, hst⟩ : ∃ rest, w.guard.stored = (last, time) :: rest := by
    cases hlist : w.guard.stored with
    | nil =>
      rw [hlist] at hp
      cases hp
    | cons q rest =>
      rw [hlist] at hp
      obtain rfl : q = (last, time) := Option.some.inj hp
      exact ⟨rest, rfl⟩
  obtain ⟨htime, hlast, hentry⟩ := h.last last time rest hst
  by_cases hlive : w.state.now < time + totpLastStepTtlSecs
  · apply hread
    refine Kv.get_eq_some.mpr ⟨_, hentry, ?_, rfl⟩
    exact decide_eq_false (not_le.mpr hlive)
  · -- the entry has expired, so its timestep has left the window
    unfold totpLastStepTtlSecs at hlive
    omega

theorem matchStep_spec (h : GuardInv w) {secret code : Text} {r : Option (Option Nat)}
    (hexec : exec ops i c w (.matchStep secret code) = some (w', r)) :
    GuardInv w' ∧ (∀ j, j ≠ i → GuardRely j w w') ∧ w'.state = w.state ∧
      w'.guard.matchedAt i = w.state.now ∧
      ∀ step, r = some (some step) →
        w.state.now / 30 - 1 ≤ step ∧ step ≤ w.state.now / 30 + 1 := by
  obtain ⟨s', hp, rfl⟩ := exec_eq_some.mp hexec
  obtain ⟨rfl, rfl⟩ := Prod.mk.inj (Option.some.inj hp)
  refine ⟨⟨h.order, h.accepted, h.last, h.empty, ?_⟩, ?_, rfl, Function.update_self .., ?_⟩
  · intro j
    by_cases hj : j = i
    · rw [hj]
      exact (Function.update_self (f := w.guard.matchedAt) ..).le
    · exact (Function.update_of_ne hj ..).le.trans (h.matched j)
  · intro j hj
    exact ⟨le_refl _, rfl, List.suffix_rfl, rfl, Function.update_of_ne hj ..⟩
  · intro step hstep
    split at hstep
    · exact matchedTotpStep_window (Option.some.inj hstep)
    · cases hstep

theorem readGuard_spec (h : GuardInv w) {r : Option (Option AuthValue)} (hworks : c.outcome = .works)
    (hexec : exec ops i c w (.kvGet w.state.stepKey) = some (w', r)) :
    GuardInv w' ∧ (∀ j, j ≠ i → GuardRely j w w') ∧ w'.state = w.state ∧
      r = some (w.state.kv.get w.state.now w.state.stepKey) ∧
      w'.guard.seen i = some w.guard.stored.length ∧ w'.guard.stored = w.guard.stored ∧
      w'.guard.matchedAt = w.guard.matchedAt := by
  obtain ⟨s', hp, rfl⟩ := exec_eq_some.mp hexec
  obtain ⟨rfl, rfl⟩ := Prod.mk.inj (Option.some.inj hp)
  have hguard : noteGuard i c w.state w.guard (.kvGet w.state.stepKey) =
      { w.guard with seen := Function.update w.guard.seen i (some w.guard.stored.length) } :=
    if_pos ⟨hworks, rfl⟩
  refine ⟨?_, ?_, rfl, if_pos hworks, ?_, ?_, ?_⟩
  · refine ⟨?_, ?_, ?_, ?_, ?_⟩
    · rw [hguard]
      exact h.order
    · rw [hguard]
      exact h.accepted
    · rw [hguard]
      exact h.last
    · rw [hguard]
      exact h.empty
    · rw [hguard]
      exact h.matched
  · intro j hj
    refine ⟨le_refl _, rfl, ?_, ?_, ?_⟩
    · rw [hguard]
    · rw [hguard]
      exact Function.update_of_ne hj ..
    · rw [hguard]
  · rw [hguard]
    exact Function.update_self ..
  · rw [hguard]
  · rw [hguard]

theorem storeStep_spec (h : GuardInv w) {step : Nat} {r : Bool} (hbelow : SawBelow i step w)
    (hwindow : step ≤ w.state.now / 30 + 1) (hseen : w.guard.seen i = some w.guard.stored.length)
    (hexec : exec ops i c w (.kvSet w.state.stepKey (.step step) totpLastStepTtlSecs) =
      some (w', r)) :
    GuardInv w' ∧ ∀ j, GuardRely j w w' := by
  obtain ⟨s', hp, rfl⟩ := exec_eq_some.mp hexec
  obtain ⟨rfl, rfl⟩ := Prod.mk.inj (Option.some.inj hp)
  cases heff : c.outcome.takesEffect with
  | true =>
    have hguard : noteGuard i c w.state w.guard
          (.kvSet w.state.stepKey (.step step) totpLastStepTtlSecs) =
        { w.guard with
          stored := (step, w.state.now) :: w.guard.stored
          accepted := if c.outcome = .works then step :: w.guard.accepted else w.guard.accepted } :=
      if_pos ⟨heff, rfl⟩
    rw [hguard, store_of_effect heff]
    refine ⟨⟨?_, ?_, ?_, ?_, h.matched⟩, ?_⟩
    · refine List.pairwise_cons.mpr ⟨?_, h.order⟩
      obtain ⟨n, hn, _, hlast⟩ := hbelow
      have hsame : w.guard.stored.length = n := Option.some.inj (hseen.symm.trans hn)
      intro s hs
      -- all stored timesteps are at most the last one
      cases hlist : w.guard.stored with
      | nil =>
        rw [hlist] at hs
        cases hs
      | cons p rest =>
        have hp : p.1 < step := hlast hsame p (by rw [hlist]; rfl)
        have horder := h.order
        rw [hlist] at hs horder
        rcases List.mem_cons.mp hs with rfl | hs
        · exact hp
        · exact ((List.pairwise_cons.mp horder).1 s hs).trans hp
    · dsimp only
      split
      · exact h.accepted.cons_cons _
      · exact h.accepted.cons _
    · intro s time rest hst
      obtain ⟨hpair, _⟩ := List.cons.inj hst
      obtain ⟨rfl, rfl⟩ := Prod.mk.inj hpair
      exact ⟨le_refl _, hwindow, Kv.set_same⟩
    · intro hst
      cases hst
    · intro j
      exact ⟨le_refl _, rfl, List.suffix_cons _ _, rfl, rfl⟩
  | false =>
    have hguard : noteGuard i c w.state w.guard
          (.kvSet w.state.stepKey (.step step) totpLastStepTtlSecs) = w.guard := by
      refine if_neg ?_
      rw [heff]
      exact fun hboth => nomatch hboth.1
    rw [hguard, store_of_failure heff]
    exact ⟨h.keep (le_refl _) rfl rfl rfl, fun j => .refl j w⟩

theorem refuse_safe (userId : Text) :
    (do return some (← noteFailedAttempt (.totpLimit userId) .unauthorized) :
      AuthProg (Option Reply)).Safe (authService ops) guardRules i (fun _ _ => True) w := by
  have hfree : GuardFree (noteFailedAttempt (.totpLimit userId) .unauthorized) := by
    unfold noteFailedAttempt
    apply guardFree_bind (guardFree_call rfl)
    intro worked
    split
    · trivial
    · trivial
  exact hfree.safe_bind fun _ _ _ => trivial

theorem verifyTotpCode_safe (userId : Text) (user : User) (code : Text)
    (hid : userId = w.state.user.id) :
    (verifyTotpCode userId user code).Safe (authService ops) guardRules i (fun _ _ => True) w := by
  unfold verifyTotpCode
  cases user.totpSecret with
  | none => trivial
  | some secret =>
    intro w₁ hrely₁ hinv₁ c₁ w₂ r₁ _ hexec₁
    obtain ⟨hinv₂, hguar₁, hstate, hmatched, hwindow⟩ := matchStep_spec hinv₁ hexec₁
    refine ⟨hinv₂, hguar₁, ?_⟩
    cases r₁ with
    | none => trivial
    | some found =>
      cases found with
      | none => exact refuse_safe userId
      | some step =>
        obtain ⟨hlow, hhigh⟩ := hwindow step rfl
        intro w₃ hrely₃ hinv₃ c₃ w₄ r₃ hok₃ hexec₃
        have hid₃ : AuthKey.totpStep userId = w₃.state.stepKey := by
          rw [AuthState.stepKey, hrely₃.userId, hstate, hrely₁.userId, hid]
        rw [hid₃] at hexec₃
        obtain ⟨hworks, hsoon⟩ := hok₃ hid₃
        obtain ⟨hinv₄, hguar₃, hstate₄, rfl, hseen, hstored, hmatched₄⟩ :=
          readGuard_spec hinv₃ hworks hexec₃
        refine ⟨hinv₄, hguar₃, ?_⟩
        have hat : w₃.guard.matchedAt i = w₁.state.now := hrely₃.matchedAt.trans hmatched
        dsimp only [Prog.bind]
        split
        · exact refuse_safe userId
        · rename_i hnew
          have hbelow : SawBelow i step w₄ := by
            apply hinv₃.sawBelow hsoon _ _ hseen hstored
            · rw [hat]
              exact hlow
            · intro last hlast
              rw [Option.getD_some, hlast] at hnew
              exact not_le.mp fun hle => hnew (decide_eq_true hle)
          intro w₅ hrely₅ hinv₅ c₅ w₆ r₅ hok₅ hexec₅
          have hid₅ : AuthKey.totpStep userId = w₅.state.stepKey := by
            rw [hid₃, AuthState.stepKey, AuthState.stepKey, hrely₅.userId, hstate₄]
          rw [hid₅] at hexec₅
          have hwindow₅ : step ≤ w₅.state.now / 30 + 1 := by
            have hnow₁ := hrely₃.now
            have hnow₂ := hrely₅.now
            rw [hstate] at hnow₁
            rw [hstate₄] at hnow₂
            have hnow : w₁.state.now / 30 ≤ w₅.state.now / 30 :=
              Nat.div_le_div_right (hnow₁.trans hnow₂)
            omega
          obtain ⟨hinv₆, hguar₅⟩ :=
            storeStep_spec hinv₅ (hbelow.rely hrely₅) hwindow₅ (hok₅ hid₅) hexec₅
          refine ⟨hinv₆, fun j _ => hguar₅ j, ?_⟩
          dsimp only [Prog.bind]
          split
          · exact (guardFree_call (o := .kvDel (.totpLimit userId)) rfl).safe_bind
              fun _ _ _ => trivial
          · trivial

theorem totpVerify_safe (pendingToken code : Text) :
    (totpVerify pendingToken code).Safe (authService ops) guardRules i (fun _ _ => True) w := by
  have hreply : ∀ r t, (reply r).Safe (authService ops) guardRules i (fun _ _ => True) t :=
    fun r t => ((guardFree_call (o := .reply r) rfl).safe t).weaken _ fun _ _ _ => trivial
  unfold totpVerify
  have hpending : GuardFree (getPendingSession pendingToken) :=
    guardFree_bind (guardFree_call rfl) fun _ => trivial
  apply hpending.safe_bind
  intro found w₁ _
  cases found with
  | none => exact hreply _ _
  | some userId =>
    have hlimit : GuardFree (ensureNotRateLimited (.totpLimit userId)) := by
      apply guardFree_bind (guardFree_call rfl)
      intro v
      cases v with
      | none => trivial
      | some _ => trivial
    apply hlimit.safe_bind
    intro refused w₂ _
    cases refused with
    | some r => exact hreply _ _
    | none =>
      intro w₃ _ hinv₃ c₃ w₄ r₃ hok₃ hexec₃
      obtain ⟨hinv₄, hguar₃, _⟩ := quiet_of_guardFree rfl c₃ w₃ w₄ r₃ hinv₃ hok₃ hexec₃
      refine ⟨hinv₄, hguar₃, ?_⟩
      have hexec : exec ops i c₃ w₃ (.findById userId) = some (w₄, r₃) := hexec₃
      obtain ⟨s', hp, rfl⟩ := exec_eq_some.mp hexec
      obtain ⟨rfl, hfind⟩ := Prod.mk.inj (Option.some.inj hp)
      cases r₃ with
      | none => exact hreply _ _
      | some user =>
        cases user with
        | none => exact hreply _ _
        | some user =>
          have hid : userId = w₃.state.user.id := by
            unfold find at hfind
            split at hfind
            · by_contra hne
              rw [beq_eq_false_iff_ne.mpr hne] at hfind
              cases hfind
            · cases hfind
          refine Prog.safe_bind (verifyTotpCode userId user code) _ ?_
          refine (verifyTotpCode_safe userId user code hid).weaken _ ?_
          intro refused w₅ _
          cases refused with
          | some r => exact hreply _ _
          | none =>
            apply (guardFree_promotePendingSession pendingToken).safe_bind
            intro promoted w₆ _
            cases promoted with
            | none => exact hreply _ _
            | some session =>
              cases session with
              | none => exact hreply _ _
              | some token =>
                exact (guardFree_call (o := .grant pendingToken) rfl).safe_bind
                  fun _ t _ => hreply _ t

theorem guardRules_sound (ops : AuthOps) : guardRules.Sound (authService ops) where
  init w hw :=
    { order := by
        rw [hw.stored]
        exact List.Pairwise.nil
      accepted := by
        rw [hw.stored, hw.accepted]
        exact List.Sublist.slnil
      last := by
        intro step time rest hst
        rw [hw.stored] at hst
        cases hst
      empty := fun _ => hw.kv _
      matched := fun j => (hw.matchedAt j).le.trans (Nat.zero_le _) }
  rely_refl := GuardRely.refl
  rely_trans _ _ _ _ := GuardRely.trans
  rely_of_guarantee i j _ _ hij _ hguar := hguar i hij
  arrive n kind w hw _ := by
    refine ⟨⟨hw.order, hw.accepted, hw.last, hw.empty, hw.matched⟩, ?_⟩
    intro j hj
    exact ⟨le_refl _, rfl, List.suffix_rfl, Function.update_of_ne hj .., rfl⟩
  env seconds w hw := by
    have hnow : w.state.now ≤ (tick seconds w).state.now := Nat.le_add_right _ _
    exact ⟨hw.keep hnow rfl rfl rfl, fun j => ⟨hnow, rfl, List.suffix_rfl, rfl, rfl⟩⟩
  safe n kind w _ _ := by
    cases kind with
    | login username password =>
      exact ((guardFree_authLogin username password).safe _).weaken _ fun _ _ _ => trivial
    | totpVerify pendingToken code => exact totpVerify_safe pendingToken code
    | authenticated token =>
      exact ((guardFree_authenticated token).safe _).weaken _ fun _ _ _ => trivial
    | logout token => exact ((guardFree_authLogout token).safe _).weaken _ fun _ _ _ => trivial
    | changePassword token current new =>
      exact ((guardFree_changePassword token current new).safe _).weaken _ fun _ _ _ => trivial

/-- In a run whose guards are undisturbed, every accepted timestep is above all that were
accepted before it. -/
theorem totp_once (ops : AuthOps) {p : Pool AuthWorld AuthCall AuthCall.Answer}
    (hp : (authService ops).system.Reachable (Service.CallsMeet GuardUndisturbed) p) :
    p.shared.guard.accepted.Pairwise (· > ·) := by
  have hinv := (guardRules_sound ops).invariant hp
  exact hinv.order.sublist hinv.accepted

/-- Two pending tokens and two codes, one after the other. -/
def twoCodes : List AuthAction :=
  alone 0 (.login "bob".toList "pw".toList) 8 "a".toList ++
  alone 1 (.login "bob".toList "pw".toList) 8 "b".toList ++
  alone 2 (.totpVerify "a".toList "100".toList) 6 [] ++
  alone 3 (.totpVerify "b".toList "101".toList) 6 []

theorem twoCodes_once : ∃ p,
    (authService plainOps).run GuardUndisturbed (freshWorld (bob true) 3000) twoCodes = some p ∧
      p.shared.guard.accepted = [101, 100] ∧ p.shared.guard.accepted.Pairwise (· > ·) := by
  have haccepted : ((authService plainOps).run GuardUndisturbed (freshWorld (bob true) 3000)
      twoCodes).map (fun p => p.shared.guard.accepted) = some [101, 100] := by decide +kernel
  obtain ⟨p, hp, haccepted⟩ := Option.map_eq_some_iff.mp haccepted
  exact ⟨p, hp, haccepted,
    totp_once plainOps (Service.reachable_run _ (freshWorld_fresh (bob true) 3000) hp)⟩

/-- Two requests read the guard before either stores its timestep. -/
def oneCode : List AuthAction :=
  alone 0 (.login "bob".toList "pw".toList) 8 "a".toList ++
  alone 1 (.login "bob".toList "pw".toList) 8 "b".toList ++
  alone 2 (.totpVerify "a".toList "100".toList) 5 [] ++
  alone 3 (.totpVerify "b".toList "100".toList) 5 [] ++
  calls 2 1 [] ++ calls 3 1 []

/-- A code is accepted twice. -/
theorem totp_twice : ∃ p,
    (authService plainOps).system.Reachable (Service.CallsMeet fun _ _ _ _ => True) p ∧
      p.shared.guard.accepted = [100, 100] ∧ ¬ p.shared.guard.accepted.Pairwise (· > ·) := by
  have haccepted : ((authService plainOps).run (fun _ _ _ _ => True) (freshWorld (bob true) 3000)
      oneCode).map (fun p => p.shared.guard.accepted) = some [100, 100] := by decide +kernel
  obtain ⟨p, hp, haccepted⟩ := Option.map_eq_some_iff.mp haccepted
  refine ⟨p, Service.reachable_run _ (freshWorld_fresh (bob true) 3000) hp, haccepted, ?_⟩
  rw [haccepted]
  decide

end Lyra.Auth
