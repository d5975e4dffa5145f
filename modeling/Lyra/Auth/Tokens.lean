import Lyra.Auth.Requests
import Mathlib.Order.Nat

/-!
# What tokens are worth

A session is stored under the epoch of the user's row, and a password change bumps the epoch.
A pending token has no epoch, and a login fetches the epoch long after it read the password.

`TokenInv` bounds the password that a token comes from below; here stands what each call keeps
of it.
-/

namespace Lyra.Auth

open Lyra.Lib

variable {ops : AuthOps} {i : Nat} {c : Choice} {w w' : AuthWorld}

/-! ## The rules -/

def AuthWorld.epoch (w : AuthWorld) : Nat := w.state.user.sessEpoch

/-- The first version that may have sessions now. -/
def AuthWorld.floor (w : AuthWorld) : Nat := w.tokens.floor w.epoch

/-- When the epoch is bumped for a new password, no request has verified an older one and not yet
fetched its epoch, and no pending token of an older one is live. -/
def NothingPending (i : Nat) (_ : Choice) (o : AuthCall) (w : AuthWorld) : Prop :=
  match o with
  | .bumpSessEpoch =>
    (∀ j < w.tokens.arrived, ∀ v ∈ w.tokens.holding j,
      w.tokens.bound j = true ∨ w.tokens.changed i ≤ v) ∧
    ∀ t ∈ w.state.issued, (w.state.kv.get w.state.now (.pending t)).isSome →
      w.tokens.changed i ≤ w.tokens.origin t
  | _ => True

instance (i : Nat) (c : Choice) (o : AuthCall) (w : AuthWorld) :
    Decidable (NothingPending i c o w) :=
  match o with
  | .bumpSessEpoch => inferInstanceAs (Decidable ((∀ j < w.tokens.arrived,
      ∀ v ∈ w.tokens.holding j, w.tokens.bound j = true ∨ w.tokens.changed i ≤ v) ∧
      ∀ t ∈ w.state.issued, (w.state.kv.get w.state.now (.pending t)).isSome →
        w.tokens.changed i ≤ w.tokens.origin t))
  | .kvGet _ | .kvSet .. | .kvDel _ | .kvDelPrefix _ | .kvIncr .. | .captcha | .findByUsername _
  | .findById _ | .verifyPassword .. | .hashPassword _ | .matchStep .. | .updatePassword _
  | .fetchSessEpoch _ | .generateToken | .grant _ | .reply _ => inferInstanceAs (Decidable True)

/-- Sessions, pending tokens and requests that can still make some are not below the floor. -/
structure TokenInv (w : AuthWorld) : Prop where
  sessions : ∀ e t entry, w.state.kv (.sess e t) = some entry →
    e ≤ w.epoch ∧ w.tokens.floor e ≤ w.tokens.origin t ∧ t ∈ w.state.issued
  pendings : ∀ t entry, w.state.kv.live w.state.now (.pending t) = some entry →
    w.floor ≤ w.tokens.origin t ∧ t ∈ w.state.issued
  holders : ∀ j, ∀ v ∈ w.tokens.holding j, w.tokens.bound j = true ∨ w.floor ≤ v
  floor : w.floor ≤ w.tokens.version
  changed : ∀ j, w.tokens.changed j ≤ w.tokens.version
  revoked : w.tokens.revoked ≤ w.floor
  since : ∀ j, w.tokens.since j ≤ w.tokens.revoked
  admitted : ∀ p ∈ w.tokens.admitted, p.1 ≤ w.tokens.origin p.2 ∧ p.2 ∈ w.state.issued
  arrived : ∀ j, w.tokens.arrived ≤ j → w.tokens.request j = none ∧ w.tokens.holding j = none

/-- What others leave of what a request knows about tokens. -/
structure TokenRely (i : Nat) (w w' : AuthWorld) : Prop where
  epoch : w.epoch ≤ w'.epoch
  floorAt : ∀ e ≤ w.epoch, w'.tokens.floor e = w.tokens.floor e
  floor : w.floor ≤ w'.floor
  issued : ∀ t ∈ w.state.issued,
    t ∈ w'.state.issued ∧ w'.tokens.origin t = w.tokens.origin t
  request : w'.tokens.request i = w.tokens.request i
  since : w'.tokens.since i = w.tokens.since i
  changed : w'.tokens.changed i = w.tokens.changed i
  holding : w'.tokens.holding i = w.tokens.holding i
  bound : w'.tokens.bound i = w.tokens.bound i

def tokenRules : Service.Rules AuthWorld AuthCall Choice where
  inv := TokenInv
  ok := NothingPending
  guarantee i w w' := ∀ j, j ≠ i → TokenRely j w w'
  rely := TokenRely

theorem TokenRely.refl (i : Nat) (w : AuthWorld) : TokenRely i w w :=
  ⟨le_refl _, fun _ _ => rfl, le_refl _, fun _ ht => ⟨ht, rfl⟩, rfl, rfl, rfl, rfl, rfl⟩

theorem TokenRely.trans {u : AuthWorld} (h : TokenRely i w w') (h' : TokenRely i w' u) :
    TokenRely i w u where
  epoch := h.epoch.trans h'.epoch
  floorAt e he := (h'.floorAt e (he.trans h.epoch)).trans (h.floorAt e he)
  floor := h.floor.trans h'.floor
  issued t ht := by
    obtain ⟨ht', horigin⟩ := h.issued t ht
    obtain ⟨hu, horigin'⟩ := h'.issued t ht'
    exact ⟨hu, horigin'.trans horigin⟩
  request := h'.request.trans h.request
  since := h'.since.trans h.since
  changed := h'.changed.trans h.changed
  holding := h'.holding.trans h.holding
  bound := h'.bound.trans h.bound

/-- A safe program of a request. -/
abbrev TokenSafe {α : Type} (ops : AuthOps) (i : Nat) (post : α → AuthWorld → Prop)
    (p : AuthProg α) (w : AuthWorld) : Prop :=
  p.Safe (authService ops) tokenRules i post w

/-! ## Calls that do not concern tokens -/

/-- Keys that tokens are accepted by. -/
def AuthKey.ofToken : AuthKey → Bool
  | .sess .. | .pending _ => true
  | _ => false

/-- The call makes no token, reads no pending one, and leaves the password and the epoch. -/
def tokenFree : AuthCall → Bool
  | .kvGet (.pending _) | .findByUsername _ | .updatePassword _ | .fetchSessEpoch _
  | .bumpSessEpoch | .generateToken | .grant _ | .reply _ => false
  | .kvSet k _ _ | .kvIncr k _ => !k.ofToken
  | _ => true

theorem noteTokens_free {o : AuthCall} {s : AuthState} {t : TokenWatch}
    (h : tokenFree o = true) : noteTokens ops i c s t o = t := by
  cases o with
  | kvGet k =>
    cases k with
    | pending token => cases h
    | _ => rfl
  | findByUsername | updatePassword | fetchSessEpoch | bumpSessEpoch | generateToken | grant
  | reply => cases h
  | _ => rfl

/-- Such a call adds no session and no pending token. -/
theorem perform_ofToken {o : AuthCall} {s s' : AuthState} {r : o.Answer}
    (h : tokenFree o = true) (hp : perform ops c s o = some (s', r)) {k : AuthKey}
    (hk : k.ofToken = true) {entry : KvEntry AuthValue} (he : s'.kv k = some entry) :
    s.kv k = some entry := by
  cases hw : o.writes k with
  | false => rwa [perform_kv hp hw] at he
  | true =>
    cases o with
    | kvSet j _ _ | kvIncr j _ =>
      obtain rfl : j = k := eq_of_beq hw
      rw [tokenFree, hk] at h
      cases h
    | kvDel j =>
      obtain ⟨rfl, _⟩ := Prod.mk.inj (Option.some.inj hp)
      rcases store_cases (c := c) (s.kv.del j) with hs | hs
      · rwa [hs] at he
      · rw [hs] at he
        exact (Kv.del_eq_some he).2
    | kvDelPrefix epoch =>
      obtain ⟨rfl, _⟩ := Prod.mk.inj (Option.some.inj hp)
      rcases store_cases (c := c) (s.kv.delPrefix (AuthKey.inEpoch epoch)) with hs | hs
      · rwa [hs] at he
      · rw [hs] at he
        exact (Kv.delPrefix_eq_some he).2
    | _ => cases hw

theorem perform_tokenFree {o : AuthCall} {s s' : AuthState} {r : o.Answer}
    (h : tokenFree o = true) (hp : perform ops c s o = some (s', r)) :
    s'.user.sessEpoch = s.user.sessEpoch ∧ s'.issued = s.issued := by
  rcases perform_cases hp with rfl | ⟨kv, rfl, _⟩ | ⟨hash, rfl, rfl⟩ | ⟨rfl, rfl⟩ | ⟨rfl, _, rfl⟩
  · exact ⟨rfl, rfl⟩
  · exact ⟨rfl, rfl⟩
  · cases h
  · cases h
  · cases h

/-- A step that leaves the watch, the epoch and the issued tokens and adds no token. -/
theorem TokenInv.keep (h : TokenInv w) (hnow : w.state.now ≤ w'.state.now)
    (hepoch : w'.epoch = w.epoch) (hissued : w'.state.issued = w.state.issued)
    (htokens : w'.tokens = w.tokens)
    (hkv : ∀ k entry, AuthKey.ofToken k = true → w'.state.kv k = some entry →
      w.state.kv k = some entry) : TokenInv w' := by
  have hfloor : w'.floor = w.floor := by
    unfold AuthWorld.floor
    rw [hepoch, htokens]
  refine ⟨?_, ?_, ?_, ?_, ?_, ?_, ?_, ?_, ?_⟩
  · intro e t entry he
    rw [hepoch, htokens, hissued]
    exact h.sessions e t entry (hkv _ entry rfl he)
  · intro t entry he
    obtain ⟨hentry, hlive⟩ := Kv.live_eq_some.mp he
    rw [hfloor, htokens, hissued]
    refine h.pendings t entry (Kv.live_eq_some.mpr ⟨hkv _ entry rfl hentry, ?_⟩)
    cases hexpired : entry.expired w.state.now with
    | false => rfl
    | true =>
      rw [KvEntry.expired_mono hnow hexpired] at hlive
      cases hlive
  · rw [hfloor, htokens]
    exact h.holders
  · rw [hfloor, htokens]
    exact h.floor
  · rw [htokens]
    exact h.changed
  · rw [hfloor, htokens]
    exact h.revoked
  · rw [htokens]
    exact h.since
  · rw [htokens, hissued]
    exact h.admitted
  · rw [htokens]
    exact h.arrived

theorem TokenRely.of_same (hepoch : w'.epoch = w.epoch)
    (hissued : w'.state.issued = w.state.issued) (htokens : w'.tokens = w.tokens) :
    TokenRely i w w' := by
  refine ⟨hepoch.ge, ?_, ?_, ?_, ?_, ?_, ?_, ?_, ?_⟩
  · intro e _
    rw [htokens]
  · unfold AuthWorld.floor
    rw [hepoch, htokens]
  · intro t ht
    rw [htokens, hissued]
    exact ⟨ht, rfl⟩
  · rw [htokens]
  · rw [htokens]
  · rw [htokens]
  · rw [htokens]
  · rw [htokens]

theorem quiet_of_tokenFree {o : AuthCall} (h : tokenFree o = true) :
    tokenRules.Quiet (authService ops) i o := by
  intro c w w' r hinv _ hexec
  obtain ⟨s', hp, rfl⟩ := exec_eq_some.mp hexec
  obtain ⟨hepoch, hissued⟩ := perform_tokenFree h hp
  have htokens : noteTokens ops i c w.state w.tokens o = w.tokens := noteTokens_free h
  exact ⟨hinv.keep (perform_fixed hp).1.ge hepoch hissued htokens
      fun k entry hk he => perform_ofToken h hp hk he,
    fun j _ => .of_same hepoch hissued htokens, .of_same hepoch hissued htokens⟩

/-! ## Calls that do -/

/-- A session of a token that is not below the floor of its epoch. -/
structure SessionKnown (e : Nat) (t : Text) (w : AuthWorld) : Prop where
  epoch : e ≤ w.epoch
  floor : w.tokens.floor e ≤ w.tokens.origin t
  issued : t ∈ w.state.issued

theorem SessionKnown.rely {e : Nat} {t : Text} (h : SessionKnown e t w)
    (hrely : TokenRely i w w') : SessionKnown e t w' := by
  obtain ⟨hissued, horigin⟩ := hrely.issued t h.issued
  refine ⟨h.epoch.trans hrely.epoch, ?_, hissued⟩
  rw [hrely.floorAt e h.epoch, horigin]
  exact h.floor

theorem setSess_quiet (hinv : TokenInv w) {e : Nat} {t : Text} (hknown : SessionKnown e t w)
    {v : AuthValue} {ttl : Nat} {r : Bool}
    (hexec : exec ops i c w (.kvSet (.sess e t) v ttl) = some (w', r)) :
    TokenInv w' ∧ ∀ j, TokenRely j w w' := by
  obtain ⟨s', hp, rfl⟩ := exec_eq_some.mp hexec
  obtain ⟨rfl, _⟩ := Prod.mk.inj (Option.some.inj hp)
  rcases store_cases (c := c) (s := w.state)
    (w.state.kv.set w.state.now (.sess e t) v (some ttl)) with hs | hs
  · rw [hs]
    exact ⟨hinv.keep (le_refl _) rfl rfl rfl fun k entry _ he => he,
      fun j => .of_same rfl rfl rfl⟩
  · rw [hs]
    refine ⟨{ hinv with sessions := ?_, pendings := ?_ }, fun j => .of_same rfl rfl rfl⟩
    · intro e' t' entry he
      by_cases hk : (AuthKey.sess e' t') = .sess e t
      · obtain ⟨rfl, rfl⟩ := AuthKey.sess.inj hk
        exact ⟨hknown.epoch, hknown.floor, hknown.issued⟩
      · dsimp only at he
        rw [Kv.set_other hk] at he
        exact hinv.sessions e' t' entry he
    · intro t' entry he
      have hother : w.state.kv.set w.state.now (.sess e t) v (some ttl) (.pending t') =
          w.state.kv (.pending t') := Kv.set_other (by rintro ⟨⟩)
      refine hinv.pendings t' entry ?_
      rw [← he]
      exact (Kv.live_congr hother).symm

theorem setPending_quiet (hinv : TokenInv w) {t : Text} (hfloor : w.floor ≤ w.tokens.origin t)
    (hissued : t ∈ w.state.issued) {v : AuthValue} {ttl : Nat} {r : Bool}
    (hexec : exec ops i c w (.kvSet (.pending t) v ttl) = some (w', r)) :
    TokenInv w' ∧ ∀ j, TokenRely j w w' := by
  obtain ⟨s', hp, rfl⟩ := exec_eq_some.mp hexec
  obtain ⟨rfl, _⟩ := Prod.mk.inj (Option.some.inj hp)
  rcases store_cases (c := c) (s := w.state)
    (w.state.kv.set w.state.now (.pending t) v (some ttl)) with hs | hs
  · rw [hs]
    exact ⟨hinv.keep (le_refl _) rfl rfl rfl fun k entry _ he => he,
      fun j => .of_same rfl rfl rfl⟩
  · rw [hs]
    refine ⟨{ hinv with sessions := ?_, pendings := ?_ }, fun j => .of_same rfl rfl rfl⟩
    · intro e' t' entry he
      have hother : w.state.kv.set w.state.now (.pending t) v (some ttl) (.sess e' t') =
          w.state.kv (.sess e' t') := Kv.set_other (by rintro ⟨⟩)
      exact hinv.sessions e' t' entry (hother.symm.trans he)
    · intro t' entry he
      by_cases hk : (AuthKey.pending t') = .pending t
      · obtain rfl := AuthKey.pending.inj hk
        exact ⟨hfloor, hissued⟩
      · have hother : w.state.kv.set w.state.now (.pending t) v (some ttl) (.pending t') =
            w.state.kv (.pending t') := Kv.set_other hk
        refine hinv.pendings t' entry ?_
        rw [← he]
        exact (Kv.live_congr hother).symm

theorem fetchSessEpoch_spec (hinv : TokenInv w) {userId : Text} {r : Option Nat}
    (hexec : exec ops i c w (.fetchSessEpoch userId) = some (w', r)) :
    TokenInv w' ∧ (∀ j, j ≠ i → TokenRely j w w') ∧ w'.state = w.state ∧
      (∃ b, w'.tokens = { w.tokens with bound := b }) ∧ ∀ e, r = some e → e = w.epoch := by
  obtain ⟨s', hp, rfl⟩ := exec_eq_some.mp hexec
  obtain ⟨rfl, rfl⟩ := Prod.mk.inj (Option.some.inj hp)
  have hepoch : ∀ e, (if c.outcome = .works ∧ userId = w.state.user.id then
      some w.state.user.sessEpoch else none) = some e → e = w.epoch := by
    intro e he
    split at he
    · exact (Option.some.inj he).symm
    · cases he
  by_cases hworks : c.outcome = .works
  · have htokens : noteTokens ops i c w.state w.tokens (.fetchSessEpoch userId) =
        { w.tokens with bound := Function.update w.tokens.bound i true } := if_pos hworks
    rw [htokens]
    refine ⟨{ hinv with holders := ?_ }, ?_, rfl, ⟨_, rfl⟩, hepoch⟩
    · intro j v hv
      by_cases hj : j = i
      · rw [hj]
        exact .inl (Function.update_self ..)
      · refine (hinv.holders j v hv).imp_left fun hb => ?_
        rwa [← Function.update_of_ne hj true w.tokens.bound] at hb
    · intro j hj
      exact { TokenRely.refl j w with bound := Function.update_of_ne hj .. }
  · have htokens : noteTokens ops i c w.state w.tokens (.fetchSessEpoch userId) = w.tokens :=
      if_neg hworks
    rw [htokens]
    exact ⟨hinv.keep (le_refl _) rfl rfl rfl fun k entry _ he => he,
      fun j _ => .of_same rfl rfl rfl, rfl, ⟨_, rfl⟩, hepoch⟩

theorem generateToken_spec (hinv : TokenInv w) {t : Text}
    (hexec : exec ops i c w .generateToken = some (w', t)) :
    TokenInv w' ∧ (∀ j, TokenRely j w w') ∧ t ∈ w'.state.issued ∧
      w'.tokens.origin t = (w.tokens.holding i).getD w.tokens.version := by
  obtain ⟨s', hp, rfl⟩ := exec_eq_some.mp hexec
  rw [perform] at hp
  split at hp
  · cases hp
  rename_i hfresh
  obtain ⟨rfl, rfl⟩ := Prod.mk.inj (Option.some.inj hp)
  have horigin : ∀ t ∈ w.state.issued, Function.update w.tokens.origin c.text
      ((w.tokens.holding i).getD w.tokens.version) t = w.tokens.origin t := by
    intro t ht
    refine Function.update_of_ne ?_ ..
    rintro rfl
    exact hfresh ht
  refine ⟨{ hinv with sessions := ?_, pendings := ?_, admitted := ?_ }, ?_,
    List.mem_cons_self, Function.update_self ..⟩
  · intro e t entry he
    obtain ⟨hle, hfloor, hissued⟩ := hinv.sessions e t entry he
    exact ⟨hle, hfloor.trans (horigin t hissued).ge, List.mem_cons_of_mem _ hissued⟩
  · intro t entry he
    obtain ⟨hfloor, hissued⟩ := hinv.pendings t entry he
    exact ⟨hfloor.trans (horigin t hissued).ge, List.mem_cons_of_mem _ hissued⟩
  · intro p hp
    obtain ⟨hle, hissued⟩ := hinv.admitted p hp
    exact ⟨hle.trans (horigin p.2 hissued).ge, List.mem_cons_of_mem _ hissued⟩
  · intro j
    exact { TokenRely.refl j w with
      issued := fun t ht => ⟨List.mem_cons_of_mem _ ht, horigin t ht⟩ }

theorem update_eq_some {f : Nat → Option Nat} {j v : Nat} {a : Option Nat}
    (h : Function.update f i a j = some v) : a = some v ∨ f j = some v := by
  by_cases hj : j = i
  · rw [hj, Function.update_self] at h
    exact .inl h
  · rw [Function.update_of_ne hj] at h
    exact .inr h

theorem getPending_spec (hinv : TokenInv w) (hreq : w.tokens.request i ≠ none) {t : Text}
    {r : Option (Option AuthValue)}
    (hexec : exec ops i c w (.kvGet (.pending t)) = some (w', r)) :
    TokenInv w' ∧ (∀ j, j ≠ i → TokenRely j w w') ∧ w'.state = w.state ∧
      (∃ h, w'.tokens = { w.tokens with holding := h }) ∧
      ∀ v, r = some (some v) → w.floor ≤ w.tokens.origin t ∧ t ∈ w.state.issued ∧
        w'.tokens.holding i = some (w.tokens.origin t) := by
  obtain ⟨s', hp, rfl⟩ := exec_eq_some.mp hexec
  obtain ⟨rfl, rfl⟩ := Prod.mk.inj (Option.some.inj hp)
  have hpending : (w.state.kv.get w.state.now (.pending t)).isSome →
      w.floor ≤ w.tokens.origin t ∧ t ∈ w.state.issued := by
    intro hsome
    obtain ⟨v, hv⟩ := Option.isSome_iff_exists.mp hsome
    obtain ⟨entry, hentry, _⟩ := Option.map_eq_some_iff.mp hv
    exact hinv.pendings t entry hentry
  by_cases hread : c.outcome = .works ∧ (w.state.kv.get w.state.now (.pending t)).isSome ∧
      (w.tokens.request i).isSome
  · have htokens : noteTokens ops i c w.state w.tokens (.kvGet (.pending t)) =
        { w.tokens with
          holding := Function.update w.tokens.holding i (some (w.tokens.origin t)) } :=
      if_pos hread
    rw [htokens]
    obtain ⟨hfloor, hissued⟩ := hpending hread.2.1
    refine ⟨{ hinv with holders := ?_, arrived := ?_ }, ?_, rfl, ⟨_, rfl⟩,
      fun v _ => ⟨hfloor, hissued, Function.update_self ..⟩⟩
    · intro j v hv
      rcases update_eq_some hv with horigin | hold
      · obtain rfl := Option.some.inj horigin
        exact .inr hfloor
      · exact hinv.holders j v hold
    · intro j hj
      obtain ⟨hnone, hholding⟩ := hinv.arrived j hj
      refine ⟨hnone, (Function.update_of_ne ?_ ..).trans hholding⟩
      rintro rfl
      exact hreq hnone
    · intro j hj
      exact { TokenRely.refl j w with holding := Function.update_of_ne hj .. }
  · have htokens : noteTokens ops i c w.state w.tokens (.kvGet (.pending t)) = w.tokens :=
      if_neg hread
    rw [htokens]
    refine ⟨hinv.keep (le_refl _) rfl rfl rfl fun k entry _ he => he,
      fun j _ => .of_same rfl rfl rfl, rfl, ⟨_, rfl⟩, ?_⟩
    intro v hv
    split at hv
    · rename_i hworks
      refine absurd ⟨hworks, ?_, Option.ne_none_iff_isSome.mp hreq⟩ hread
      rw [Option.some.inj hv]
      rfl
    · cases hv

/-- A login that verifies the password holds its version from here on. -/
theorem findByUsername_spec (hinv : TokenInv w) {username password : Text}
    (hreq : w.tokens.request i = some (.login username password)) {r : Option (Option User)}
    (hexec : exec ops i c w (.findByUsername username) = some (w', r)) :
    TokenInv w' ∧ (∀ j, j ≠ i → TokenRely j w w') ∧ w'.state = w.state ∧
      (∃ h, w'.tokens = { w.tokens with holding := h }) ∧
      ∀ user, r = some (some user) → ∀ hash ∈ user.passwordHash,
        ops.verify password hash = true → ∃ v, w'.tokens.holding i = some v := by
  obtain ⟨s', hp, rfl⟩ := exec_eq_some.mp hexec
  obtain ⟨rfl, rfl⟩ := Prod.mk.inj (Option.some.inj hp)
  by_cases hverifies : c.outcome = .works ∧
      (w.tokens.request i).any (AuthRequest.verifies ops w.state.user) = true
  · have htokens : noteTokens ops i c w.state w.tokens (.findByUsername username) =
        { w.tokens with
          holding := Function.update w.tokens.holding i (some w.tokens.version) } :=
      if_pos hverifies
    rw [htokens]
    refine ⟨{ hinv with holders := ?_, arrived := ?_ }, ?_, rfl, ⟨_, rfl⟩,
      fun _ _ _ _ _ => ⟨_, Function.update_self ..⟩⟩
    · intro j v hv
      rcases update_eq_some hv with hversion | hold
      · obtain rfl := Option.some.inj hversion
        exact .inr hinv.floor
      · exact hinv.holders j v hold
    · intro j hj
      obtain ⟨hnone, hholding⟩ := hinv.arrived j hj
      refine ⟨hnone, (Function.update_of_ne ?_ ..).trans hholding⟩
      rintro rfl
      rw [hnone] at hreq
      cases hreq
    · intro j hj
      exact { TokenRely.refl j w with holding := Function.update_of_ne hj .. }
  · have htokens : noteTokens ops i c w.state w.tokens (.findByUsername username) = w.tokens :=
      if_neg hverifies
    rw [htokens]
    refine ⟨hinv.keep (le_refl _) rfl rfl rfl fun k entry _ he => he,
      fun j _ => .of_same rfl rfl rfl, rfl, ⟨_, rfl⟩, ?_⟩
    intro user huser hash hhash hverify
    unfold find at huser
    split at huser
    · rename_i hworks
      split at huser
      · rename_i hname
        obtain rfl := Option.some.inj (Option.some.inj huser)
        refine absurd ⟨hworks, ?_⟩ hverifies
        rw [hreq, Option.any_some, AuthRequest.verifies, hname, Option.mem_def.mp hhash,
          Option.any_some, hverify]
        rfl
      · cases huser
    · cases huser

theorem updatePassword_spec (hinv : TokenInv w) {hash : Text} {r : Bool}
    (hexec : exec ops i c w (.updatePassword hash) = some (w', r)) :
    TokenInv w' ∧ ∀ j, j ≠ i → TokenRely j w w' := by
  obtain ⟨s', hp, rfl⟩ := exec_eq_some.mp hexec
  obtain ⟨rfl, rfl⟩ := Prod.mk.inj (Option.some.inj hp)
  cases heff : c.outcome.takesEffect with
  | true =>
    have htokens : noteTokens ops i c w.state w.tokens (.updatePassword hash) =
        { w.tokens with
          version := w.tokens.version + 1
          changed := Function.update w.tokens.changed i (w.tokens.version + 1) } := if_pos heff
    rw [htokens]
    refine ⟨{ hinv with floor := Nat.le_succ_of_le hinv.floor, changed := ?_ }, ?_⟩
    · intro j
      by_cases hj : j = i
      · rw [hj]
        exact (Function.update_self (f := w.tokens.changed) ..).le
      · exact (Function.update_of_ne hj ..).le.trans (Nat.le_succ_of_le (hinv.changed j))
    · intro j hj
      exact { TokenRely.refl j w with changed := Function.update_of_ne hj .. }
  | false =>
    have htokens : noteTokens ops i c w.state w.tokens (.updatePassword hash) = w.tokens :=
      if_neg (Bool.eq_false_iff.mp heff)
    rw [htokens]
    exact ⟨hinv.keep (le_refl _) rfl rfl rfl fun k entry _ he => he,
      fun j _ => .of_same rfl rfl rfl⟩

theorem bumpSessEpoch_spec (hinv : TokenInv w) (hok : NothingPending i c .bumpSessEpoch w)
    {r : Bool} (hexec : exec ops i c w .bumpSessEpoch = some (w', r)) :
    TokenInv w' ∧ (∀ j, j ≠ i → TokenRely j w w') ∧
      (r = true → w'.tokens.changed i ≤ w'.floor) := by
  obtain ⟨s', hp, rfl⟩ := exec_eq_some.mp hexec
  obtain ⟨rfl, rfl⟩ := Prod.mk.inj (Option.some.inj hp)
  obtain ⟨hholders, hpendings⟩ := hok
  cases heff : c.outcome.takesEffect with
  | true =>
    have htokens : noteTokens ops i c w.state w.tokens .bumpSessEpoch =
        { w.tokens with
          floor := Function.update w.tokens.floor (w.state.user.sessEpoch + 1)
            (max (w.tokens.floor w.state.user.sessEpoch) (w.tokens.changed i)) } := if_pos heff
    rw [htokens, if_pos rfl]
    have hold : ∀ e ≤ w.epoch, Function.update w.tokens.floor (w.state.user.sessEpoch + 1)
        (max (w.tokens.floor w.state.user.sessEpoch) (w.tokens.changed i)) e =
          w.tokens.floor e := by
      intro e he
      exact Function.update_of_ne (Nat.ne_of_lt (Nat.lt_succ_of_le he)) ..
    have hnew : Function.update w.tokens.floor (w.state.user.sessEpoch + 1)
        (max (w.tokens.floor w.state.user.sessEpoch) (w.tokens.changed i))
          (w.state.user.sessEpoch + 1) = max w.floor (w.tokens.changed i) :=
      Function.update_self ..
    refine ⟨{ hinv with sessions := ?_, pendings := ?_, holders := ?_, floor := ?_,
                        revoked := ?_ }, ?_, ?_⟩
    · intro e t entry he
      obtain ⟨hle, hfloor, hissued⟩ := hinv.sessions e t entry he
      exact ⟨Nat.le_succ_of_le hle, (hold e hle).le.trans hfloor, hissued⟩
    · intro t entry he
      obtain ⟨hfloor, hissued⟩ := hinv.pendings t entry he
      refine ⟨hnew.le.trans (max_le hfloor (hpendings t hissued ?_)), hissued⟩
      unfold Kv.get
      rw [show w.state.kv.live w.state.now (.pending t) = some entry from he]
      rfl
    · intro j v hv
      have hj : j < w.tokens.arrived := by
        apply Nat.lt_of_not_le
        intro hle
        have hv' : w.tokens.holding j = some v := hv
        rw [(hinv.arrived j hle).2] at hv'
        cases hv'
      rcases hinv.holders j v hv with hbound | hfloor
      · exact .inl hbound
      · exact (hholders j hj v hv).imp_right fun hle => hnew.le.trans (max_le hfloor hle)
    · exact hnew.le.trans (max_le hinv.floor (hinv.changed i))
    · exact hinv.revoked.trans ((le_max_left _ _).trans hnew.ge)
    · intro j _
      exact { TokenRely.refl j w with
        epoch := Nat.le_succ _
        floorAt := hold
        floor := (le_max_left _ _).trans hnew.ge }
    · intro _
      exact (le_max_right _ _).trans hnew.ge
  | false =>
    have htokens : noteTokens ops i c w.state w.tokens .bumpSessEpoch = w.tokens :=
      if_neg (Bool.eq_false_iff.mp heff)
    rw [htokens, if_neg Bool.false_ne_true]
    refine ⟨hinv.keep (le_refl _) rfl rfl rfl fun k entry _ he => he,
      fun j _ => .of_same rfl rfl rfl, ?_⟩
    intro hworks
    rw [of_decide_eq_true hworks] at heff
    cases heff

theorem reply_spec (hinv : TokenInv w) {a : Reply}
    (hdone : a = .noContent → (w.tokens.request i).any AuthRequest.changes = true →
      w.tokens.changed i ≤ w.floor) {r : PUnit}
    (hexec : exec ops i c w (.reply a) = some (w', r)) :
    TokenInv w' ∧ ∀ j, j ≠ i → TokenRely j w w' := by
  obtain ⟨s', hp, rfl⟩ := exec_eq_some.mp hexec
  obtain ⟨rfl, _⟩ := Prod.mk.inj (Option.some.inj hp)
  refine ⟨{ hinv with holders := ?_, revoked := ?_, since := ?_, arrived := ?_ }, ?_⟩
  · intro j v hv
    rcases update_eq_some hv with hnone | hold
    · cases hnone
    · exact hinv.holders j v hold
  · dsimp only [noteTokens]
    split
    · rename_i hchange
      exact max_le hinv.revoked (hdone hchange.1 hchange.2)
    · exact hinv.revoked
  · intro j
    dsimp only [noteTokens]
    split
    · exact (hinv.since j).trans (le_max_left _ _)
    · exact hinv.since j
  · intro j hj
    obtain ⟨hnone, hholding⟩ := hinv.arrived j hj
    refine ⟨hnone, ?_⟩
    by_cases hi : j = i
    · rw [hi]
      exact Function.update_self ..
    · exact (Function.update_of_ne hi ..).trans hholding
  · intro j hj
    exact { TokenRely.refl j w with holding := Function.update_of_ne hj .. }

theorem admit_spec (hinv : TokenInv w) {t : Text} (hsince : w.tokens.since i ≤ w.tokens.origin t)
    (hissued : t ∈ w.state.issued) {r : PUnit}
    (hexec : exec ops i c w (.grant t) = some (w', r)) :
    TokenInv w' ∧ ∀ j, TokenRely j w w' := by
  obtain ⟨s', hp, rfl⟩ := exec_eq_some.mp hexec
  obtain ⟨rfl, _⟩ := Prod.mk.inj (Option.some.inj hp)
  refine ⟨{ hinv with admitted := ?_ }, fun j => { TokenRely.refl j w with }⟩
  intro p hp
  rcases List.mem_cons.mp hp with rfl | hp
  · exact ⟨hsince, hissued⟩
  · exact hinv.admitted p hp

theorem getSess_spec (hinv : TokenInv w) {e : Nat} {t : Text} {r : Option (Option AuthValue)}
    (hexec : exec ops i c w (.kvGet (.sess e t)) = some (w', r)) :
    TokenInv w' ∧ (∀ j, TokenRely j w w') ∧ ∀ v, r = some (some v) → SessionKnown e t w' := by
  obtain ⟨s', hp, rfl⟩ := exec_eq_some.mp hexec
  obtain ⟨rfl, rfl⟩ := Prod.mk.inj (Option.some.inj hp)
  refine ⟨hinv.keep (le_refl _) rfl rfl rfl fun k entry _ he => he,
    fun j => .of_same rfl rfl rfl, ?_⟩
  intro v hv
  split at hv
  · obtain ⟨entry, hentry, _⟩ := Kv.get_eq_some.mp (Option.some.inj hv)
    obtain ⟨hle, hfloor, hissued⟩ := hinv.sessions e t entry hentry
    exact ⟨hle, hfloor, hissued⟩
  · cases hv

end Lyra.Auth
