import Lyra.Auth.Requests
import Mathlib.Order.Nat
import Mathlib.Data.Finset.Card

/-!
# The limit on wrong passwords

A login reads the counter of its username, verifies the password, and counts a wrong one: three
calls, with other logins in between.

* `wrong_limited`: where a login passes the counter only if the logins under way leave it room,
  and increments take effect, at most five wrong passwords are verified in a window; increments
  keep the expiry in every run;
* `six_wrong`: six logins that pass the counter before any of them counts.
-/

namespace Lyra.Auth

open Lyra.Lib

variable {ops : AuthOps} {i : Nat} {c : Choice} {w w' : AuthWorld}

/-! ## The rules -/

/-- What the login counter shows. -/
def AuthWorld.count (w : AuthWorld) : Int :=
  attempts (w.state.kv.get w.state.now w.state.loginKey)

/-- A login that passes the counter would still pass if every login under way had counted, and
an increment takes effect. -/
def RoomLeft (_ : Nat) (c : Choice) (o : AuthCall) (w : AuthWorld) : Prop :=
  match o with
  | .kvGet k =>
    c.outcome = .works ∧ k = w.state.loginKey ∧ limited (w.state.kv.get w.state.now k) = false →
      w.count + w.login.checked.card + w.login.failed.card < rateLimitMaxAttempts
  | .kvIncr k _ => k = w.state.loginKey → c.outcome.takesEffect = true
  | _ => True

instance (i : Nat) (c : Choice) (o : AuthCall) (w : AuthWorld) : Decidable (RoomLeft i c o w) :=
  match o with
  | .kvGet k => inferInstanceAs (Decidable (c.outcome = .works ∧ k = w.state.loginKey ∧
      limited (w.state.kv.get w.state.now k) = false →
        w.count + w.login.checked.card + w.login.failed.card < rateLimitMaxAttempts))
  | .kvIncr k _ => inferInstanceAs (Decidable (k = w.state.loginKey →
      c.outcome.takesEffect = true))
  | .kvSet .. | .kvDel _ | .kvDelPrefix _ | .captcha | .findByUsername _ | .findById _
  | .verifyPassword .. | .hashPassword _ | .matchStep .. | .updatePassword _ | .fetchSessEpoch _
  | .bumpSessEpoch | .generateToken | .grant _ | .reply _ => inferInstanceAs (Decidable True)

/-- The counter, with the logins under way, stays within the limit, and with those that have not
counted it covers the wrong passwords. -/
structure LoginInv (w : AuthWorld) : Prop where
  counter : ∀ e, w.state.kv w.state.loginKey = some e → ∃ n : Int, e.value = .count n ∧ 0 ≤ n
  room : w.count + w.login.checked.card + w.login.failed.card ≤ rateLimitMaxAttempts
  wrong : (w.login.wrong : Int) ≤ w.count + w.login.failed.card
  apart : ∀ j ∈ w.login.checked, j ∉ w.login.failed

/-- What others leave of a login under way. -/
structure LoginRely (i : Nat) (w w' : AuthWorld) : Prop where
  username : w'.state.user.username = w.state.user.username
  checked : i ∈ w'.login.checked ↔ i ∈ w.login.checked
  failed : i ∈ w'.login.failed ↔ i ∈ w.login.failed

/-- The request is no login under way. -/
structure Idle (i : Nat) (w : AuthWorld) : Prop where
  checked : i ∉ w.login.checked
  failed : i ∉ w.login.failed

def loginRules : Service.Rules AuthWorld AuthCall Choice where
  inv := LoginInv
  ok := RoomLeft
  guarantee i w w' := ∀ j, j ≠ i → LoginRely j w w'
  rely := LoginRely
  unborn := Idle

theorem LoginRely.refl (i : Nat) (w : AuthWorld) : LoginRely i w w := ⟨rfl, Iff.rfl, Iff.rfl⟩

theorem LoginRely.trans {u : AuthWorld} (h : LoginRely i w w') (h' : LoginRely i w' u) :
    LoginRely i w u :=
  ⟨h'.username.trans h.username, h'.checked.trans h.checked, h'.failed.trans h.failed⟩

theorem Idle.rely (h : Idle i w) (hrely : LoginRely i w w') : Idle i w' :=
  ⟨fun hi => h.checked (hrely.checked.mp hi), fun hi => h.failed (hrely.failed.mp hi)⟩

abbrev LoginSafe {α : Type} (ops : AuthOps) (i : Nat) (post : α → AuthWorld → Prop)
    (p : AuthProg α) (w : AuthWorld) : Prop :=
  p.Safe (authService ops) loginRules i post w

/-! ## The counter -/

theorem count_of_live {e : KvEntry AuthValue} {n : Int}
    (he : w.state.kv.live w.state.now w.state.loginKey = some e) (hn : e.value = .count n) :
    w.count = n := by
  unfold AuthWorld.count Kv.get attempts
  rw [he, Option.map_some, hn]
  rfl

theorem count_of_dead (he : w.state.kv.live w.state.now w.state.loginKey = none) :
    w.count = 0 := by
  unfold AuthWorld.count Kv.get attempts
  rw [he]
  rfl

theorem LoginInv.count_nonneg (h : LoginInv w) : 0 ≤ w.count := by
  cases he : w.state.kv.live w.state.now w.state.loginKey with
  | none => exact (count_of_dead he).ge
  | some e =>
    obtain ⟨n, hn, hpos⟩ := h.counter e (Kv.live_eq_some.mp he).1
    exact hpos.trans (count_of_live he hn).ge

theorem count_congr (hname : w'.state.user.username = w.state.user.username)
    (hnow : w'.state.now = w.state.now)
    (hkv : w'.state.kv w.state.loginKey = w.state.kv w.state.loginKey) : w'.count = w.count := by
  unfold AuthWorld.count Kv.get
  rw [show w'.state.loginKey = w.state.loginKey from congrArg AuthKey.loginLimit hname, hnow,
    Kv.live_congr hkv]

/-- A step that leaves the counter, and after which no more logins have passed it. -/
theorem LoginInv.keepCount (h : LoginInv w)
    (hkv : w'.state.kv w'.state.loginKey = w.state.kv w.state.loginKey)
    (hcount : w'.count = w.count) (hwrong : w'.login.wrong = w.login.wrong)
    (hchecked : w'.login.checked ⊆ w.login.checked) (hfailed : w'.login.failed = w.login.failed) :
    LoginInv w' := by
  have hcard : (w'.login.checked.card : Int) ≤ w.login.checked.card :=
    Int.ofNat_le.mpr (Finset.card_le_card hchecked)
  refine ⟨?_, ?_, ?_, ?_⟩
  · rw [hkv]
    exact h.counter
  · have hroom := h.room
    rw [hcount, hfailed]
    omega
  · rw [hwrong, hcount, hfailed]
    exact h.wrong
  · intro j hj
    rw [hfailed]
    exact h.apart j (hchecked hj)

theorem LoginInv.keep (h : LoginInv w) (hname : w'.state.user.username = w.state.user.username)
    (hnow : w'.state.now = w.state.now)
    (hkv : w'.state.kv w.state.loginKey = w.state.kv w.state.loginKey)
    (hwrong : w'.login.wrong = w.login.wrong) (hchecked : w'.login.checked ⊆ w.login.checked)
    (hfailed : w'.login.failed = w.login.failed) : LoginInv w' := by
  have hkey : w'.state.loginKey = w.state.loginKey := congrArg AuthKey.loginLimit hname
  exact h.keepCount (by rw [hkey, hkv]) (count_congr hname hnow hkv) hwrong hchecked hfailed

theorem LoginInv.reset (h : LoginInv w)
    (hcounter : ∀ e, w'.state.kv w'.state.loginKey = some e →
      w.state.kv w.state.loginKey = some e)
    (hcount : w'.count = 0) (hwrong : w'.login.wrong = 0)
    (hchecked : w'.login.checked = w.login.checked) (hfailed : w'.login.failed = w.login.failed) :
    LoginInv w' := by
  have hroom := h.room
  have hpos := h.count_nonneg
  refine ⟨fun e he => h.counter e (hcounter e he), ?_, ?_, ?_⟩
  · rw [hcount, hchecked, hfailed]
    omega
  · rw [hcount, hwrong]
    omega
  · rw [hchecked, hfailed]
    exact h.apart

/-! ## Calls of requests that are no login under way -/

def AuthKey.ofLogin : AuthKey → Bool
  | .loginLimit _ => true
  | _ => false

/-- The call does not concern the counter, nor a login under way. -/
def loginFree : AuthCall → Bool
  | .kvGet k | .kvSet k _ _ | .kvIncr k _ | .kvDel k => !k.ofLogin
  | .verifyPassword .. | .reply _ => false
  | _ => true

theorem ne_loginKey {k : AuthKey} {s : AuthState} (h : (!k.ofLogin) = true) : k ≠ s.loginKey := by
  rintro rfl
  cases h

theorem noteLogin_free {o : AuthCall} {s : AuthState} {l : LoginWatch}
    (h : loginFree o = true) : noteLogin ops i c s l o = l := by
  cases o with
  | kvGet k => exact if_neg fun hk => ne_loginKey h hk.2.1
  | kvIncr k _ | kvDel k => exact if_neg fun hk => ne_loginKey h hk.2
  | verifyPassword | reply => cases h
  | _ => rfl

theorem writes_loginKey {o : AuthCall} {s : AuthState} (h : loginFree o = true) :
    o.writes s.loginKey = false := by
  cases o with
  | kvSet k _ _ | kvIncr k _ | kvDel k =>
    exact beq_eq_false_iff_ne.mpr (ne_loginKey h)
  | _ => rfl

theorem exec_untouched (hinv : LoginInv w) {o : AuthCall} {r : o.Answer}
    (hlogin : noteLogin ops i c w.state w.login o = w.login)
    (hwrites : o.writes w.state.loginKey = false) (hexec : exec ops i c w o = some (w', r)) :
    LoginInv w' ∧ ∀ j, LoginRely j w w' := by
  obtain ⟨s', hp, rfl⟩ := exec_eq_some.mp hexec
  obtain ⟨hnow, _, hname⟩ := perform_fixed hp
  rw [hlogin]
  exact ⟨hinv.keep hname hnow (perform_kv hp hwrites) rfl (Finset.Subset.refl _) rfl,
    fun j => ⟨hname, Iff.rfl, Iff.rfl⟩⟩

theorem quiet_of_loginFree {o : AuthCall} (h : loginFree o = true) :
    loginRules.Quiet (authService ops) i o := by
  intro c w w' r hinv _ hexec
  obtain ⟨hinv', hown⟩ := exec_untouched hinv (noteLogin_free h) (writes_loginKey h) hexec
  exact ⟨hinv', fun j _ => hown j, hown i⟩

theorem mem_erase_of_ne {j : Nat} {s : Finset Nat} (hj : j ≠ i) : j ∈ s.erase i ↔ j ∈ s :=
  ⟨Finset.mem_of_mem_erase, Finset.mem_erase_of_ne_of_mem hj⟩

theorem mem_insert_of_ne {j : Nat} {s : Finset Nat} (hj : j ≠ i) : j ∈ insert i s ↔ j ∈ s :=
  ⟨fun h => Finset.mem_of_mem_insert_of_ne h hj, Finset.mem_insert_of_mem⟩

theorem reply_idle (hinv : LoginInv w) (hfailed : i ∉ w.login.failed) {a : Reply} {r : PUnit}
    (hexec : exec ops i c w (.reply a) = some (w', r)) :
    LoginInv w' ∧ (∀ j, j ≠ i → LoginRely j w w') ∧ Idle i w' := by
  obtain ⟨s', hp, rfl⟩ := exec_eq_some.mp hexec
  obtain ⟨rfl, _⟩ := Prod.mk.inj (Option.some.inj hp)
  refine ⟨hinv.keep rfl rfl rfl rfl (Finset.erase_subset _ _) rfl, ?_,
    ⟨Finset.notMem_erase _ _, hfailed⟩⟩
  intro j hj
  exact ⟨rfl, mem_erase_of_ne hj, Iff.rfl⟩

/-- A login under way ends without having verified a wrong password. -/
theorem verifyPassword_idle (hinv : LoginInv w) (hidle : i ∉ w.login.checked)
    {password hash : Text} {r : Option Bool}
    (hexec : exec ops i c w (.verifyPassword password hash) = some (w', r)) :
    LoginInv w' ∧ ∀ j, LoginRely j w w' := by
  obtain ⟨s', hp, rfl⟩ := exec_eq_some.mp hexec
  obtain ⟨rfl, _⟩ := Prod.mk.inj (Option.some.inj hp)
  have hlogin : noteLogin ops i c w.state w.login (.verifyPassword password hash) = w.login :=
    if_neg fun h => hidle h.2
  rw [hlogin]
  exact ⟨⟨hinv.counter, hinv.room, hinv.wrong, hinv.apart⟩, fun j => ⟨rfl, Iff.rfl, Iff.rfl⟩⟩

theorem clear_spec (hinv : LoginInv w) {username : Text} {r : Bool}
    (hexec : exec ops i c w (.kvDel (.loginLimit username)) = some (w', r)) :
    LoginInv w' ∧ ∀ j, LoginRely j w w' := by
  obtain ⟨s', hp, rfl⟩ := exec_eq_some.mp hexec
  obtain ⟨rfl, _⟩ := Prod.mk.inj (Option.some.inj hp)
  by_cases hclear : c.outcome.takesEffect ∧ AuthKey.loginLimit username = w.state.loginKey
  · obtain ⟨heff, hkey⟩ := hclear
    have hlogin : noteLogin ops i c w.state w.login (.kvDel (.loginLimit username)) =
        { w.login with wrong := 0 } := if_pos ⟨heff, hkey⟩
    have hnone : w.state.kv.del (.loginLimit username) w.state.loginKey = none := by
      rw [hkey]
      exact Kv.del_same
    rw [hlogin, store_of_effect heff]
    have hdead : (w.state.kv.del (.loginLimit username)).live w.state.now w.state.loginKey =
        none := by
      unfold Kv.live
      rw [hnone]
      rfl
    refine ⟨hinv.reset ?_ (count_of_dead hdead) rfl rfl rfl, fun j => ⟨rfl, Iff.rfl, Iff.rfl⟩⟩
    intro e he
    cases hnone.symm.trans he
  · have hlogin : noteLogin ops i c w.state w.login (.kvDel (.loginLimit username)) = w.login :=
      if_neg hclear
    rw [hlogin]
    refine ⟨hinv.keep ?_ ?_ ?_ rfl (Finset.Subset.refl _) rfl, fun j => ⟨?_, Iff.rfl, Iff.rfl⟩⟩
    · exact (perform_fixed hp).2.2
    · exact (perform_fixed hp).1
    · cases heff : c.outcome.takesEffect with
      | false => rw [store_of_failure heff]
      | true =>
        rw [store_of_effect heff]
        exact Kv.del_other fun hk => hclear ⟨heff, hk.symm⟩
    · exact (perform_fixed hp).2.2

/-! ## The calls of a login -/

theorem check_spec (hinv : LoginInv w) (hok : RoomLeft i c (.kvGet w.state.loginKey) w)
    (hidle : Idle i w) {r : Option (Option AuthValue)}
    (hexec : exec ops i c w (.kvGet w.state.loginKey) = some (w', r)) :
    LoginInv w' ∧ (∀ j, j ≠ i → LoginRely j w w') ∧ w'.state = w.state ∧ i ∉ w'.login.failed ∧
      ∀ v, r = some v → limited v = false → i ∈ w'.login.checked := by
  obtain ⟨s', hp, rfl⟩ := exec_eq_some.mp hexec
  obtain ⟨rfl, rfl⟩ := Prod.mk.inj (Option.some.inj hp)
  by_cases hpass : c.outcome = .works ∧ w.state.loginKey = w.state.loginKey ∧
      limited (w.state.kv.get w.state.now w.state.loginKey) = false
  · have hlogin : noteLogin ops i c w.state w.login (.kvGet w.state.loginKey) =
        { w.login with checked := insert i w.login.checked } := if_pos hpass
    rw [hlogin]
    have hroom : w.count + w.login.checked.card + w.login.failed.card < rateLimitMaxAttempts :=
      hok hpass
    have hcard := Finset.card_insert_of_notMem hidle.checked
    refine ⟨⟨hinv.counter, ?_, hinv.wrong, ?_⟩, ?_, rfl, hidle.failed,
      fun _ _ _ => Finset.mem_insert_self _ _⟩
    · have hsame : w.count + ((insert i w.login.checked).card : Int) + w.login.failed.card ≤
          rateLimitMaxAttempts := by
        rw [hcard]
        omega
      exact hsame
    · intro j hj
      rcases Finset.mem_insert.mp hj with rfl | hj
      · exact hidle.failed
      · exact hinv.apart j hj
    · intro j hj
      exact ⟨rfl, mem_insert_of_ne hj, Iff.rfl⟩
  · have hlogin : noteLogin ops i c w.state w.login (.kvGet w.state.loginKey) = w.login :=
      if_neg hpass
    rw [hlogin]
    refine ⟨⟨hinv.counter, hinv.room, hinv.wrong, hinv.apart⟩, fun j _ => ⟨rfl, Iff.rfl, Iff.rfl⟩,
      rfl, hidle.failed, ?_⟩
    intro v hv hunlimited
    split at hv
    · rename_i hworks
      rw [← Option.some.inj hv] at hunlimited
      exact absurd ⟨hworks, rfl, hunlimited⟩ hpass
    · cases hv

theorem verifyPassword_checked (hinv : LoginInv w) (hchecked : i ∈ w.login.checked)
    {password hash : Text} {r : Option Bool}
    (hexec : exec ops i c w (.verifyPassword password hash) = some (w', r)) :
    LoginInv w' ∧ (∀ j, j ≠ i → LoginRely j w w') ∧ (r ≠ some false → i ∉ w'.login.failed) ∧
      (r = some true → i ∉ w'.login.checked) ∧
      (r = some false → i ∈ w'.login.failed ∧ i ∉ w'.login.checked) := by
  obtain ⟨s', hp, rfl⟩ := exec_eq_some.mp hexec
  obtain ⟨rfl, rfl⟩ := Prod.mk.inj (Option.some.inj hp)
  have hfailed := hinv.apart i hchecked
  by_cases hworks : c.outcome = .works
  · rw [if_pos hworks]
    cases hverify : ops.verify password hash with
    | true =>
      have hlogin : noteLogin ops i c w.state w.login (.verifyPassword password hash) =
          { w.login with checked := w.login.checked.erase i } := by
        rw [noteLogin, if_pos ⟨hworks, hchecked⟩, if_pos hverify]
      rw [hlogin]
      refine ⟨hinv.keep rfl rfl rfl rfl (Finset.erase_subset _ _) rfl, ?_, fun _ => hfailed,
        fun _ => Finset.notMem_erase _ _, by rintro ⟨⟩⟩
      intro j hj
      exact ⟨rfl, mem_erase_of_ne hj, Iff.rfl⟩
    | false =>
      have hlogin : noteLogin ops i c w.state w.login (.verifyPassword password hash) =
          { wrong := w.login.wrong + 1
            checked := w.login.checked.erase i
            failed := insert i w.login.failed } := by
        rw [noteLogin, if_pos ⟨hworks, hchecked⟩, hverify]
        rfl
      rw [hlogin]
      have hroom := hinv.room
      have hwrong := hinv.wrong
      have herase := Finset.card_erase_add_one hchecked
      have hinsert := Finset.card_insert_of_notMem hfailed
      refine ⟨⟨hinv.counter, ?_, ?_, ?_⟩, ?_, fun h => absurd rfl h, by rintro ⟨⟩,
        fun _ => ⟨Finset.mem_insert_self _ _, Finset.notMem_erase _ _⟩⟩
      · show w.count + ((w.login.checked.erase i).card : Int) +
          ((insert i w.login.failed).card : Int) ≤ _
        omega
      · show ((w.login.wrong + 1 : Nat) : Int) ≤ w.count + ((insert i w.login.failed).card : Int)
        omega
      · intro j hj hfail
        obtain ⟨hne, hj⟩ := Finset.mem_erase.mp hj
        exact hinv.apart j hj ((mem_insert_of_ne hne).mp hfail)
      · intro j hj
        exact ⟨rfl, mem_erase_of_ne hj, mem_insert_of_ne hj⟩
  · have hlogin : noteLogin ops i c w.state w.login (.verifyPassword password hash) = w.login :=
      if_neg fun h => hworks h.1
    rw [hlogin, if_neg hworks]
    exact ⟨⟨hinv.counter, hinv.room, hinv.wrong, hinv.apart⟩, fun j _ => ⟨rfl, Iff.rfl, Iff.rfl⟩,
      fun _ => hfailed, by rintro ⟨⟩, by rintro ⟨⟩⟩

/-- An increment that takes effect adds one to what the counter shows. -/
theorem incr_count (hinv : LoginInv w) {kv : AuthKv}
    (hincr : w.state.kv.incr AuthValue.number .count w.state.now w.state.loginKey
      (some rateLimitWindowSecs) = some kv) :
    ∃ e, kv w.state.loginKey = some e ∧ e.expired w.state.now = false ∧
      e.value = .count (w.count + 1) := by
  cases hlive : w.state.kv.live w.state.now w.state.loginKey with
  | none =>
    rw [Kv.incr_dead hlive] at hincr
    obtain rfl := Option.some.inj hincr
    refine ⟨_, Function.update_self .., ?_, ?_⟩
    · exact decide_eq_false (Nat.not_le.mpr (Nat.lt_add_of_pos_right (by decide)))
    · rw [count_of_dead hlive]
      rfl
  | some e =>
    obtain ⟨hentry, hexpired⟩ := Kv.live_eq_some.mp hlive
    obtain ⟨n, hn, hpos⟩ := hinv.counter e hentry
    have hcount := count_of_live hlive hn
    have hnumber : e.value.number = some n := by rw [hn]; rfl
    rw [Kv.incr_live hlive hnumber] at hincr
    obtain rfl := Option.some.inj hincr
    refine ⟨_, Function.update_self .., hexpired, ?_⟩
    have hroom := hinv.room
    have hsmall : min (n + 1) Kv.i64Max = w.count + 1 := by
      rw [hcount] at hroom ⊢
      unfold Kv.i64Max
      unfold rateLimitMaxAttempts at hroom
      omega
    rw [hsmall]

theorem incr_spec (hinv : LoginInv w)
    (hok : RoomLeft i c (.kvIncr w.state.loginKey rateLimitWindowSecs) w)
    (hfailed : i ∈ w.login.failed) (hchecked : i ∉ w.login.checked) {r : Bool}
    (hexec : exec ops i c w (.kvIncr w.state.loginKey rateLimitWindowSecs) = some (w', r)) :
    LoginInv w' ∧ (∀ j, j ≠ i → LoginRely j w w') ∧ Idle i w' := by
  obtain ⟨s', hp, rfl⟩ := exec_eq_some.mp hexec
  have heff : c.outcome.takesEffect = true := hok rfl
  have hlogin : noteLogin ops i c w.state w.login
      (.kvIncr w.state.loginKey rateLimitWindowSecs) =
        { w.login with failed := w.login.failed.erase i } := if_pos ⟨heff, rfl⟩
  rw [perform] at hp
  split at hp
  · rename_i hnone
    cases hlive : w.state.kv.live w.state.now w.state.loginKey with
    | none =>
      rw [Kv.incr_dead hlive] at hnone
      cases hnone
    | some e =>
      obtain ⟨n, hn, _⟩ := hinv.counter e (Kv.live_eq_some.mp hlive).1
      have hnumber : e.value.number = some n := by rw [hn]; rfl
      rw [Kv.incr_live hlive hnumber] at hnone
      cases hnone
  · rename_i kv hincr
    obtain ⟨rfl, _⟩ := Prod.mk.inj (Option.some.inj hp)
    obtain ⟨e, he, hexpired, hvalue⟩ := incr_count hinv hincr
    rw [hlogin, store_of_effect heff]
    have hpos := hinv.count_nonneg
    have hroom := hinv.room
    have hwrong := hinv.wrong
    have herase := Finset.card_erase_add_one hfailed
    have hcount : AuthWorld.count
        { w with
          state := { w.state with kv := kv }
          login := { w.login with failed := w.login.failed.erase i } } = w.count + 1 :=
      count_of_live (Kv.live_eq_some.mpr ⟨he, hexpired⟩) hvalue
    refine ⟨⟨?_, ?_, ?_, ?_⟩, ?_, hchecked, Finset.notMem_erase _ _⟩
    · intro e' he'
      obtain rfl := Option.some.inj (he.symm.trans he')
      exact ⟨_, hvalue, by omega⟩
    · refine (congrArg (fun n : Int => n + (w.login.checked.card : Int) +
        ((w.login.failed.erase i).card : Int)) hcount).le.trans ?_
      omega
    · refine le_trans ?_ (congrArg (fun n : Int => n +
        ((w.login.failed.erase i).card : Int)) hcount).ge
      dsimp only
      omega
    · intro j hj hfail
      exact hinv.apart j hj (Finset.mem_of_mem_erase hfail)
    · intro j hj
      exact ⟨rfl, Iff.rfl, mem_erase_of_ne hj⟩

/-! ## Requests that are no login under way -/

/-- A call after which the request is still no login under way. -/
abbrev IdleKept (ops : AuthOps) (i : Nat) (o : AuthCall) : Prop :=
  loginRules.Keeps (authService ops) i (Idle i) o

theorem idle_of_loginFree {o : AuthCall} (h : loginFree o = true) : IdleKept ops i o := by
  intro c w w' r hinv hok hidle hexec
  obtain ⟨hinv', hguar, hown⟩ := quiet_of_loginFree h c w w' r hinv hok hexec
  exact ⟨hinv', hguar, hidle.rely hown⟩

theorem idle_verifyPassword (password hash : Text) :
    IdleKept ops i (.verifyPassword password hash) := by
  intro c w w' r hinv _ hidle hexec
  obtain ⟨hinv', hown⟩ := verifyPassword_idle hinv hidle.checked hexec
  exact ⟨hinv', fun j _ => hown j, hidle.rely (hown i)⟩

theorem idle_reply (a : Reply) : IdleKept ops i (.reply a) :=
  fun _ _ _ _ hinv _ hidle hexec => reply_idle hinv hidle.failed hexec

theorem idle_clear (username : Text) : IdleKept ops i (.kvDel (.loginLimit username)) := by
  intro c w w' r hinv _ hidle hexec
  obtain ⟨hinv', hown⟩ := clear_spec hinv hexec
  exact ⟨hinv', fun j _ => hown j, hidle.rely (hown i)⟩

theorem loginFree_of_ofSessions {o : AuthCall} (h : o.ofSessions = true) : loginFree o = true := by
  cases o with
  | kvGet k | kvSet k _ _ | kvDel k =>
    cases k with
    | loginLimit username => cases h
    | _ => rfl
  | kvIncr | verifyPassword | reply => cases h
  | _ => rfl

theorem idle_sessions (o : AuthCall) (h : o.ofSessions = true) : IdleKept ops i o :=
  idle_of_loginFree (loginFree_of_ofSessions h)

theorem idle_safe {α : Type} {p : AuthProg α} (hp : p.Calls (IdleKept ops i)) (hidle : Idle i w) :
    LoginSafe ops i (fun _ _ => True) p w :=
  (hp.keeps (fun _ _ hrely h => h.rely hrely) hidle).weaken p fun _ _ _ => trivial

/-! ## Logins -/

theorem loginFree_bind {α : Type} {post : α → AuthWorld → Prop} {o : AuthCall}
    (h : loginFree o = true) {f : o.Answer → AuthProg α}
    (hf : ∀ r t, LoginRely i w t → LoginSafe ops i post (f r) t) :
    LoginSafe ops i post (call o >>= f) w :=
  (Prog.calls_ask (quiet_of_loginFree h)).safe_bind (fun _ _ _ => LoginRely.trans)
    (LoginRely.refl i) hf

theorem answer_safe (hfailed : i ∉ w.login.failed) (a : Reply) :
    LoginSafe ops i (fun _ _ => True) (reply a) w := by
  intro w₁ hrely hinv c w₂ r _ hexec
  obtain ⟨hinv', hguar, _⟩ :=
    reply_idle hinv (fun hi => hfailed (hrely.failed.mp hi)) hexec
  exact ⟨hinv', hguar, trivial⟩

/-- The request is no login under way, and its name is not the user's. -/
def OtherName (i : Nat) (username : Text) (w : AuthWorld) : Prop :=
  Idle i w ∧ username ≠ w.state.user.username

theorem otherLogin_safe {username : Text} (hother : username ≠ w.state.user.username)
    (hidle : Idle i w) (password : Text) :
    LoginSafe ops i (fun _ _ => True) (authLogin username password) w := by
  have hkept : ∀ o, IdleKept ops i o →
      loginRules.Keeps (authService ops) i (OtherName i username) o := by
    intro o ho c w w' r hinv hok hQ hexec
    obtain ⟨hinv', hguar, hidle'⟩ := ho c w w' r hinv hok hQ.1 hexec
    obtain ⟨s', hp, rfl⟩ := exec_eq_some.mp hexec
    refine ⟨hinv', hguar, hidle', ?_⟩
    rw [(perform_fixed hp).2.2]
    exact hQ.2
  have huntouched : ∀ o, (∀ c w, OtherName i username w →
        noteLogin ops i c w.state w.login o = w.login) →
      (∀ w, OtherName i username w → o.writes w.state.loginKey = false) →
      loginRules.Keeps (authService ops) i (OtherName i username) o := by
    intro o hnote hwrites c w w' r hinv _ hQ hexec
    obtain ⟨hinv', hown⟩ := exec_untouched hinv (hnote c w hQ) (hwrites w hQ) hexec
    obtain ⟨hidle, hname⟩ := hQ
    exact ⟨hinv', fun j _ => hown j, hidle.rely (hown i), (hown i).username ▸ hname⟩
  have hne : ∀ w, OtherName i username w → AuthKey.loginLimit username ≠ w.state.loginKey :=
    fun w hQ hkey => hQ.2 (AuthKey.loginLimit.inj hkey)
  have hcalls : (authLogin username password).Calls
      (loginRules.Keeps (authService ops) i (OtherName i username)) := by
    refine calls_authLogin (fun o ho => hkept o (idle_sessions o ho))
      (fun r => hkept _ (idle_reply r)) ?_ (hkept _ (idle_of_loginFree rfl))
      (hkept _ (idle_of_loginFree rfl)) ?_ (fun p h => hkept _ (idle_verifyPassword p h))
      (hkept _ (idle_clear username)) password
    · exact huntouched _ (fun c w hQ => if_neg fun h => hne w hQ h.2.1) fun _ _ => rfl
    · exact huntouched _ (fun c w hQ => if_neg fun h => hne w hQ h.2)
        fun w hQ => beq_eq_false_iff_ne.mpr (hne w hQ)
  refine (hcalls.keeps ?_ ⟨hidle, hother⟩).weaken _ fun _ _ _ => trivial
  intro s t hrely hQ
  exact ⟨hQ.1.rely hrely, hrely.username ▸ hQ.2⟩

theorem ensureNotRateLimited_safe {username : Text} (hname : w.state.user.username = username)
    (hidle : Idle i w) :
    LoginSafe ops i
      (fun r w' => w'.state.user.username = username ∧ i ∉ w'.login.failed ∧
        (r = none → i ∈ w'.login.checked))
      (ensureNotRateLimited (.loginLimit username)) w := by
  unfold ensureNotRateLimited
  intro w₁ hrely hinv c w₂ r hok hexec
  have hname₁ : w₁.state.user.username = username := hrely.username.trans hname
  have hkey : AuthKey.loginLimit username = w₁.state.loginKey := by rw [AuthState.loginKey, hname₁]
  rw [hkey] at hok hexec
  obtain ⟨hinv', hguar, hstate, hfailed, hchecked⟩ :=
    check_spec hinv hok (hidle.rely hrely) hexec
  refine ⟨hinv', hguar, ?_⟩
  rw [← hstate] at hname₁
  cases r with
  | none => exact ⟨hname₁, hfailed, by rintro ⟨⟩⟩
  | some v =>
    dsimp only [Prog.pure_eq]
    refine ⟨hname₁, hfailed, fun hr => hchecked v rfl ?_⟩
    split at hr
    · cases hr
    · rename_i hunlimited
      exact Bool.not_eq_true _ ▸ hunlimited

theorem noteFailedAttempt_safe {username : Text} (hname : w.state.user.username = username)
    (hfailed : i ∈ w.login.failed) (hchecked : i ∉ w.login.checked) (a : Reply) :
    LoginSafe ops i (fun _ w' => Idle i w') (noteFailedAttempt (.loginLimit username) a) w := by
  unfold noteFailedAttempt
  intro w₁ hrely hinv c w₂ r hok hexec
  have hkey : AuthKey.loginLimit username = w₁.state.loginKey := by
    rw [AuthState.loginKey, hrely.username, hname]
  rw [hkey] at hok hexec
  obtain ⟨hinv', hguar, hidle⟩ := incr_spec hinv hok (hrely.failed.mpr hfailed)
    (fun hi => hchecked (hrely.checked.mp hi)) hexec
  refine ⟨hinv', hguar, ?_⟩
  cases r with
  | true => exact hidle
  | false => exact hidle

theorem ownLogin_safe {username : Text} (hname : w.state.user.username = username)
    (hidle : Idle i w) (password : Text) :
    LoginSafe ops i (fun _ _ => True) (authLogin username password) w := by
  unfold authLogin
  apply Prog.safe_bind
  refine (ensureNotRateLimited_safe hname hidle).weaken _ ?_
  rintro refused w₁ ⟨hname₁, hfailed₁, hchecked₁⟩
  cases refused with
  | some r => exact answer_safe hfailed₁ r
  | none =>
    apply loginFree_bind rfl
    intro passed w₂ hrely₂
    have hfailed₂ : i ∉ w₂.login.failed := fun hi => hfailed₁ (hrely₂.failed.mp hi)
    cases passed with
    | false => exact answer_safe hfailed₂ _
    | true =>
      intro w₃ hrely₃ hinv₃ c₃ w₄ r₃ hok₃ hexec₃
      obtain ⟨hinv₄, hguar₃, hown₃⟩ := quiet_of_loginFree rfl c₃ w₃ w₄ r₃ hinv₃ hok₃ hexec₃
      refine ⟨hinv₄, hguar₃, ?_⟩
      have hrely := (hrely₂.trans hrely₃).trans hown₃
      have hfailed₄ : i ∉ w₄.login.failed := fun hi => hfailed₁ (hrely.failed.mp hi)
      have hexec : exec ops i c₃ w₃ (.findByUsername username) = some (w₄, r₃) := hexec₃
      have hfound : r₃ ≠ some none := by
        obtain ⟨s', hp, _⟩ := exec_eq_some.mp hexec
        obtain ⟨_, rfl⟩ := Prod.mk.inj (Option.some.inj hp)
        rw [(hrely₂.trans hrely₃).username, hname₁, beq_self_eq_true, find, if_pos rfl]
        split
        · rintro ⟨⟩
        · rintro ⟨⟩
      cases r₃ with
      | none => exact answer_safe hfailed₄ _
      | some found =>
        cases found with
        | none => exact absurd rfl hfound
        | some user =>
          dsimp only [Prog.bind]
          cases user.passwordHash with
          | none => exact answer_safe hfailed₄ _
          | some hash =>
            intro w₅ hrely₅ hinv₅ c₅ w₆ r₅ _ hexec₅
            have hchecked₅ : i ∈ w₅.login.checked :=
              (hrely.trans hrely₅).checked.mpr (hchecked₁ rfl)
            obtain ⟨hinv₆, hguar₅, hfailed₆, hright, hwrong⟩ :=
              verifyPassword_checked hinv₅ hchecked₅ hexec₅
            refine ⟨hinv₆, hguar₅, ?_⟩
            cases r₅ with
            | none => exact answer_safe (hfailed₆ (by rintro ⟨⟩)) _
            | some valid =>
              cases valid with
              | false =>
                obtain ⟨hcounting, hverified⟩ := hwrong rfl
                have hname₆ : w₆.state.user.username = username := by
                  obtain ⟨s', hp, rfl⟩ := exec_eq_some.mp
                    (show exec ops i c₅ w₅ (.verifyPassword password hash) = _ from hexec₅)
                  rw [(perform_fixed hp).2.2, (hrely.trans hrely₅).username, hname₁]
                refine Prog.safe_bind (noteFailedAttempt (.loginLimit username) .unauthorized) _ ?_
                refine (noteFailedAttempt_safe hname₆ hcounting hverified .unauthorized).weaken _ ?_
                intro a w₇ hidle₇
                exact answer_safe hidle₇.failed a
              | true =>
                have hidle₆ : Idle i w₆ := ⟨hright rfl, hfailed₆ (by rintro ⟨⟩)⟩
                refine idle_safe ?_ hidle₆
                apply Prog.calls_bind (calls_clearFailedAttempts (idle_clear username))
                intro _
                split
                · apply Prog.calls_bind (calls_createPendingSession idle_sessions user.id)
                  intro token
                  cases token with
                  | none => exact calls_reply (idle_reply _)
                  | some token => exact calls_reply (idle_reply _)
                · apply Prog.calls_bind (calls_createSession idle_sessions user.id)
                  intro token
                  cases token with
                  | none => exact calls_reply (idle_reply _)
                  | some token => exact calls_reply (idle_reply _)

/-! ## Runs -/

theorem tick_login (seconds : Nat) (w : AuthWorld) : (tick seconds w).login =
    if (w.state.kv.live w.state.now w.state.loginKey).isSome &&
        (w.state.kv.live (w.state.now + seconds) w.state.loginKey).isNone then
      { w.login with wrong := 0 }
    else w.login := rfl

theorem tick_inv (hinv : LoginInv w) (seconds : Nat) : LoginInv (tick seconds w) := by
  have hnow : w.state.now ≤ w.state.now + seconds := Nat.le_add_right _ _
  cases hlater : w.state.kv.live (w.state.now + seconds) w.state.loginKey with
  | none =>
    have hcount : (tick seconds w).count = 0 := count_of_dead hlater
    cases hlive : w.state.kv.live w.state.now w.state.loginKey with
    | none =>
      have hlogin : (tick seconds w).login = w.login := by
        rw [tick_login, hlive]
        rfl
      refine hinv.keepCount rfl (hcount.trans (count_of_dead hlive).symm) ?_ ?_ ?_
      · rw [hlogin]
      · rw [hlogin]
      · rw [hlogin]
    | some e =>
      have hlogin : (tick seconds w).login = { w.login with wrong := 0 } := by
        rw [tick_login, hlive, hlater]
        rfl
      refine hinv.reset (fun e he => he) hcount ?_ ?_ ?_
      · rw [hlogin]
      · rw [hlogin]
      · rw [hlogin]
  | some e =>
    obtain ⟨hentry, hexpired⟩ := Kv.live_eq_some.mp hlater
    have hlogin : (tick seconds w).login = w.login := by
      rw [tick_login, hlater]
      exact if_neg (by rw [Option.isNone_some, Bool.and_false]; exact Bool.false_ne_true)
    have hlive : w.state.kv.live w.state.now w.state.loginKey = some e := by
      refine Kv.live_eq_some.mpr ⟨hentry, ?_⟩
      cases hbefore : e.expired w.state.now with
      | false => rfl
      | true =>
        rw [KvEntry.expired_mono hnow hbefore] at hexpired
        cases hexpired
    have hcount : (tick seconds w).count = w.count := by
      obtain ⟨n, hn, _⟩ := hinv.counter e hentry
      exact (count_of_live hlater hn).trans (count_of_live hlive hn).symm
    refine hinv.keepCount rfl hcount ?_ ?_ ?_
    · rw [hlogin]
    · rw [hlogin]
    · rw [hlogin]

theorem loginRules_sound (ops : AuthOps) : loginRules.Sound (authService ops) where
  init w hw := by
    have hnone : w.state.kv w.state.loginKey = none := hw.kv _
    have hcount : w.count = 0 := by
      apply count_of_dead
      unfold Kv.live
      rw [hnone]
      rfl
    refine ⟨?_, ?_, ?_, ?_⟩
    · intro e he
      rw [hnone] at he
      cases he
    · rw [hcount, hw.checked, hw.failed]
      decide
    · rw [hcount, hw.wrong, hw.failed]
      decide
    · rw [hw.checked]
      intro j hj
      cases hj
  rely_refl := LoginRely.refl
  rely_trans _ _ _ _ := LoginRely.trans
  rely_of_guarantee i j _ _ hij _ hguar := hguar i hij
  unborn_init n w hw := by
    refine ⟨?_, ?_⟩
    · rw [hw.checked]
      exact Finset.notMem_empty n
    · rw [hw.failed]
      exact Finset.notMem_empty n
  unborn_rely _ _ _ hrely h := h.rely hrely
  arrive n kind w hw _ :=
    ⟨⟨hw.counter, hw.room, hw.wrong, hw.apart⟩, fun j _ => ⟨rfl, Iff.rfl, Iff.rfl⟩⟩
  env seconds w hw := by
    refine ⟨tick_inv hw seconds, fun j => ⟨rfl, ?_, ?_⟩⟩
    · show j ∈ (tick seconds w).login.checked ↔ _
      rw [tick_login]
      split <;> rfl
    · show j ∈ (tick seconds w).login.failed ↔ _
      rw [tick_login]
      split <;> rfl
  safe n kind w _ hborn := by
    have hidle : Idle n (arrive n kind w) := ⟨hborn.checked, hborn.failed⟩
    have hfree : ∀ {o}, loginFree o = true → IdleKept ops n o := idle_of_loginFree
    cases kind with
    | login username password =>
      by_cases hname : username = w.state.user.username
      · exact ownLogin_safe (w := arrive n _ w) hname.symm hidle password
      · exact otherLogin_safe (w := arrive n _ w) hname hidle password
    | totpVerify pendingToken code =>
      exact idle_safe (calls_totpVerify idle_sessions idle_reply (fun _ => hfree rfl)
        (fun _ => hfree rfl) fun _ _ => calls_verifyTotpCode (fun _ => hfree rfl) (hfree rfl)
          (hfree rfl) (fun _ => hfree rfl) (hfree rfl)) hidle
    | authenticated token => exact idle_safe (calls_authenticated idle_sessions idle_reply token) hidle
    | logout token => exact idle_safe (calls_authLogout idle_sessions idle_reply token) hidle
    | changePassword token current new =>
      exact idle_safe (calls_changePassword ops idle_sessions idle_reply (fun _ => hfree rfl)
        (fun _ => hfree rfl) idle_verifyPassword (fun _ => hfree rfl) (fun _ => hfree rfl)
          idle_clear (hfree rfl) fun _ => hfree rfl) hidle

/-! ## The window -/

/-- The counter at a key stays, is cleared, or has the expiry of its window; a counter that had
none gets a new window. -/
def KeepsWindow (k : AuthKey) (s t : AuthState) : Prop :=
  t.kv k = s.kv k ∨ t.kv k = none ∨ ∃ e, t.kv k = some e ∧
    e.expiresAt = match s.kv.live s.now k with
      | some before => before.expiresAt
      | none => some (s.now + rateLimitWindowSecs)

/-- A counter of logins is only incremented, with the window, or deleted. -/
def counts : AuthCall → Bool
  | .kvSet k _ _ => !k.ofLogin
  | .kvIncr k ttl => !k.ofLogin || ttl == rateLimitWindowSecs
  | _ => true

theorem counts_of_ofSessions {o : AuthCall} (h : o.ofSessions = true) : counts o = true := by
  cases o with
  | kvSet k _ _ =>
    cases k with
    | loginLimit username => cases h
    | _ => rfl
  | kvIncr => cases h
  | _ => rfl

theorem counts_requestProg (a : AuthRequest) :
    (requestProg ops a).Calls fun o => counts o = true := by
  have hsessions : ∀ o, o.ofSessions = true → counts o = true := fun _ => counts_of_ofSessions
  cases a with
  | login username password =>
    exact calls_authLogin hsessions (fun _ => rfl) rfl rfl rfl rfl (fun _ _ => rfl) rfl password
  | totpVerify pendingToken code =>
    exact calls_totpVerify hsessions (fun _ => rfl) (fun _ => rfl) (fun _ => rfl) fun _ _ =>
      calls_verifyTotpCode (fun _ => rfl) rfl rfl (fun _ => rfl) rfl
  | authenticated token => exact calls_authenticated hsessions (fun _ => rfl) token
  | logout token => exact calls_authLogout hsessions (fun _ => rfl) token
  | changePassword token current new =>
    exact calls_changePassword ops hsessions (fun _ => rfl) (fun _ => rfl) (fun _ => rfl)
      (fun _ _ => rfl) (fun _ => rfl) (fun _ => rfl) (fun _ => rfl) rfl fun _ => rfl

theorem perform_window {o : AuthCall} (ho : counts o = true) {s s' : AuthState} {r : o.Answer}
    (hp : perform ops c s o = some (s', r)) (username : Text) :
    KeepsWindow (.loginLimit username) s s' := by
  cases hw : o.writes (.loginLimit username) with
  | false => exact .inl (perform_kv hp hw)
  | true =>
    cases o with
    | kvSet k _ _ =>
      obtain rfl : k = .loginLimit username := eq_of_beq hw
      cases ho
    | kvDel k =>
      obtain rfl : k = .loginLimit username := eq_of_beq hw
      obtain ⟨rfl, _⟩ := Prod.mk.inj (Option.some.inj hp)
      rcases store_cases (c := c) (s.kv.del (.loginLimit username)) with hs | hs
      · rw [hs]
        exact .inl rfl
      · rw [hs]
        exact .inr (.inl Kv.del_same)
    | kvIncr k ttl =>
      obtain rfl : k = .loginLimit username := eq_of_beq hw
      obtain rfl : ttl = rateLimitWindowSecs := eq_of_beq ho
      rw [perform] at hp
      split at hp
      · obtain ⟨rfl, _⟩ := Prod.mk.inj (Option.some.inj hp)
        exact .inl rfl
      · rename_i kv hincr
        obtain ⟨rfl, _⟩ := Prod.mk.inj (Option.some.inj hp)
        rcases store_cases (c := c) kv with hs | hs
        · rw [hs]
          exact .inl rfl
        · rw [hs]
          obtain ⟨e, he, hexpiry⟩ := Kv.incr_expiry hincr
          refine .inr (.inr ⟨e, he, ?_⟩)
          cases hlive : s.kv.live s.now (.loginLimit username) with
          | none =>
            rw [hlive] at hexpiry
            exact hexpiry
          | some before =>
            rw [hlive] at hexpiry
            exact hexpiry
    | _ => cases hw

theorem step_window {p q : Pool AuthWorld AuthCall AuthCall.Answer} {a : AuthAction}
    (hp : (authService ops).system.Reachable (fun _ _ => True) p)
    (hst : (authService ops).system.step p a q) (username : Text) :
    KeepsWindow (.loginLimit username) p.shared.state q.shared.state := by
  cases a with
  | arrive kind =>
    obtain rfl := Option.some.inj hst
    exact .inl rfl
  | env seconds =>
    obtain rfl := Option.some.inj hst
    exact .inl rfl
  | call i c =>
    have hnext : (authService ops).next p (.call i c) = some q := hst
    rw [Service.next] at hnext
    split at hnext
    · rename_i o k hrun
      obtain ⟨⟨w, r⟩, hexec, rfl⟩ := Option.map_eq_some_iff.mp hnext
      have hcounts := (Service.running_calls counts_requestProg hp i _ hrun).1
      obtain ⟨s', hperform, rfl⟩ :=
        exec_eq_some.mp (show exec ops i c p.shared o = some (w, r) from hexec)
      exact perform_window hcounts hperform username
    · cases hnext

/-- In a run whose logins leave each other room, at most five wrong passwords are verified in a
window; in every run, each step keeps the window. -/
theorem wrong_limited (ops : AuthOps) :
    (∀ p, (authService ops).system.Reachable (Service.CallsMeet RoomLeft) p →
      (p.shared.login.wrong : Int) ≤ rateLimitMaxAttempts) ∧
    ∀ p a q username, (authService ops).system.Reachable (fun _ _ => True) p →
      (authService ops).system.step p a q →
        KeepsWindow (.loginLimit username) p.shared.state q.shared.state := by
  refine ⟨?_, fun p a q username hp hst => step_window hp hst username⟩
  intro p hp
  have hinv : LoginInv p.shared := (loginRules_sound ops).invariant hp
  have hroom := hinv.room
  have hwrong := hinv.wrong
  omega

/-- Wrong passwords one after the other; the sixth login is refused. -/
def wrongInTurn : List AuthAction :=
  ((List.range 5).flatMap fun i => alone i (.login "bob".toList "no".toList) 6 []) ++
    alone 5 (.login "bob".toList "no".toList) 2 []

theorem wrongInTurn_limited : ∃ p,
    (authService plainOps).run RoomLeft (freshWorld (bob false) 3000) wrongInTurn = some p ∧
      p.shared.login.wrong = 5 ∧ (p.shared.login.wrong : Int) ≤ rateLimitMaxAttempts ∧
      KeepsWindow (.loginLimit "bob".toList) p.shared.state (tick 60 p.shared).state := by
  have hwrong : ((authService plainOps).run RoomLeft (freshWorld (bob false) 3000)
      wrongInTurn).map (fun p => p.shared.login.wrong) = some 5 := by decide +kernel
  obtain ⟨p, hp, hwrong⟩ := Option.map_eq_some_iff.mp hwrong
  have hreach := Service.reachable_run _ (freshWorld_fresh (bob false) 3000) hp
  obtain ⟨hlimited, hwindow⟩ := wrong_limited plainOps
  have hstep := hwindow p (.env 60) { p with shared := tick 60 p.shared } "bob".toList
    (hreach.weaken fun _ _ _ => trivial) rfl
  exact ⟨p, hp, hwrong, hlimited p hreach, hstep⟩

/-- Six logins pass the counter, then all of them verify. -/
def sixAtOnce : List AuthAction :=
  ((List.range 6).flatMap fun i => alone i (.login "bob".toList "no".toList) 3 []) ++
    (List.range 6).flatMap fun i => calls i 3 []

/-- Six wrong passwords are verified in one window. -/
theorem six_wrong : ∃ p,
    (authService plainOps).system.Reachable (Service.CallsMeet fun _ _ _ _ => True) p ∧
      ¬ (p.shared.login.wrong : Int) ≤ rateLimitMaxAttempts := by
  have hwrong : ((authService plainOps).run (fun _ _ _ _ => True) (freshWorld (bob false) 3000)
      sixAtOnce).map (fun p => p.shared.login.wrong) = some 6 := by decide +kernel
  obtain ⟨p, hp, hwrong⟩ := Option.map_eq_some_iff.mp hwrong
  refine ⟨p, Service.reachable_run _ (freshWorld_fresh (bob false) 3000) hp, ?_⟩
  rw [hwrong]
  decide

end Lyra.Auth
