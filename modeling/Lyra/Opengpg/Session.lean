import Lyra.Store.Schema
import Mathlib.Data.List.AList

/-!
# The unlock ring

`opengpg/session.rs`: passphrases kept in memory, for each session and key.  A read forgets what
is no longer alive in the whole session, and counts as a use of the entry it answers with.  Times
are nanoseconds of a clock that does not go back.

* `cell`: what a history leaves of one entry;
* `get_iff`: `get` answers with what the history of the entry says, and `unlocked_ids` lists
  where it answers.
-/

namespace Lyra.Opengpg

open Lyra.Lib

/-! ## The ring -/

inductive CacheMode
  | once
  | timed
  | session
  deriving DecidableEq, Repr

def maxTtlMinutes : Nat := 120

/-- A second. -/
def second : Nat := 1000000000

/-- Ten minutes. -/
def idleTimeout : Nat := 10 * 60 * second

structure CachedUnlock where
  passphrase : Text
  mode : CacheMode
  /-- Only for `timed`. -/
  expiresAt : Option Nat
  lastUsed : Nat
  deriving DecidableEq, Repr

def entryAlive (e : CachedUnlock) (now : Nat) : Bool :=
  if now - e.lastUsed > idleTimeout then false
  else
    match e.expiresAt with
    | some exp => decide (now < exp)
    | none => true

abbrev SessionRing := AList fun _ : Text => CachedUnlock

abbrev UnlockRing := AList fun _ : Text => SessionRing

def SessionRing.retain (keep : CachedUnlock → Bool) (ring : SessionRing) : SessionRing :=
  ⟨ring.entries.filter fun e => keep e.2, List.NodupKeys.sublist List.filter_sublist ring.nodupKeys⟩

/-- How long a `timed` entry lives. -/
def lifetime (ttlMinutes : Nat) : Nat := max 1 (min ttlMinutes maxTtlMinutes) * 60 * second

/-- The entry of a `put`. -/
def CachedUnlock.new (now : Nat) (passphrase : Text) (mode : CacheMode) (ttlMinutes : Nat) :
    CachedUnlock where
  passphrase := passphrase
  mode := mode
  expiresAt := match mode with
    | .timed => some (now + lifetime ttlMinutes)
    | .session | .once => none
  lastUsed := now

def CachedUnlock.touch (now : Nat) (e : CachedUnlock) : CachedUnlock := { e with lastUsed := now }

namespace UnlockRing

def put (r : UnlockRing) (now : Nat) (session key : Text) (passphrase : Text) (mode : CacheMode)
    (ttlMinutes : Nat) : UnlockRing :=
  if mode = .once then r
  else
    let ring := (r.lookup session).getD ∅
    r.insert session (ring.insert key (.new now passphrase mode ttlMinutes))

def get (r : UnlockRing) (now : Nat) (session key : Text) : Option Text × UnlockRing :=
  match r.lookup session with
  | none => (none, r)
  | some ring =>
    let ring := ring.retain (entryAlive · now)
    match ring.lookup key with
    | none => (none, r.insert session ring)
    | some e => (some e.passphrase, r.insert session (ring.insert key (e.touch now)))

def isUnlocked (r : UnlockRing) (now : Nat) (session key : Text) : Bool × UnlockRing :=
  let (found, r) := r.get now session key
  (found.isSome, r)

def lock (r : UnlockRing) (session : Text) : Option Text → UnlockRing
  | some key =>
    match r.lookup session with
    | some ring =>
      let ring := ring.erase key
      if ring.keys.isEmpty then r.erase session else r.insert session ring
    | none => r
  | none => r.erase session

def unlockedIds (r : UnlockRing) (now : Nat) (session : Text) : List Text × UnlockRing :=
  match r.lookup session with
  | none => ([], r)
  | some ring =>
    let ring := ring.retain (entryAlive · now)
    (ring.keys, r.insert session ring)

end UnlockRing

/-! ## Histories -/

inductive Op
  | put (session key passphrase : Text) (mode : CacheMode) (ttlMinutes : Nat)
  | get (session key : Text)
  | isUnlocked (session key : Text)
  | lock (session : Text) (key : Option Text)
  | unlockedIds (session : Text)
  deriving DecidableEq, Repr

def UnlockRing.step (r : UnlockRing) (now : Nat) : Op → UnlockRing
  | .put session key passphrase mode ttlMinutes => r.put now session key passphrase mode ttlMinutes
  | .get session key => (r.get now session key).2
  | .isUnlocked session key => (r.isUnlocked now session key).2
  | .lock session key => r.lock session key
  | .unlockedIds session => (r.unlockedIds now session).2

/-- Calls with their times, newest first. -/
abbrev History := List (Nat × Op)

/-- The ring after these calls. -/
def ring : History → UnlockRing
  | [] => ∅
  | (now, op) :: h => (ring h).step now op

/-- The times do not go back, and have come to `now`. -/
def History.Until (h : History) (now : Nat) : Prop :=
  (now :: h.map Prod.fst).Pairwise (· ≥ ·)

instance (h : History) (now : Nat) : Decidable (h.Until now) :=
  inferInstanceAs (Decidable ((now :: h.map Prod.fst).Pairwise (· ≥ ·)))

section Entry

variable (session key : Text)

def Op.puts : Op → Bool
  | .put s k _ mode _ => s == session && k == key && mode != .once
  | _ => false

def Op.uses : Op → Bool
  | .get s k | .isUnlocked s k => s == session && k == key
  | _ => false

def Op.locks : Op → Bool
  | .lock s (some k) => s == session && k == key
  | .lock s none => s == session
  | _ => false

/-- The times of the uses, newest first. -/
def History.uses (h : History) : List Nat := (h.filter fun x => x.2.uses session key).map Prod.fst

/-- What the history leaves of the entry, where nothing else is looked at. -/
def cell : History → Option CachedUnlock
  | [] => none
  | (now, op) :: h =>
    match op with
    | .put _ _ passphrase mode ttlMinutes =>
      if op.puts session key then some (.new now passphrase mode ttlMinutes) else cell h
    | .get .. | .isUnlocked .. =>
      if op.uses session key then ((cell h).filter (entryAlive · now)).map (.touch now) else cell h
    | .lock .. => if op.locks session key then none else cell h
    | .unlockedIds _ => cell h

/-- The passphrase was put and is available at a time: the last `put` of the entry stored it, no
lock came after, a `timed` one has not expired, and no two uses in a row are too far apart. -/
def Available (h : History) (passphrase : Text) (now : Nat) : Prop :=
  ∃ later t mode ttlMinutes earlier,
    h = later ++ (t, .put session key passphrase mode ttlMinutes) :: earlier ∧ mode ≠ .once ∧
    (∀ x ∈ later, x.2.puts session key = false ∧ x.2.locks session key = false) ∧
    (mode = .timed → now < t + lifetime ttlMinutes) ∧
    (now :: (History.uses session key later ++ [t])).IsChain fun b a => b - a ≤ idleTimeout

end Entry

/-! ## Entries that are alive -/

variable {now later : Nat} {e : CachedUnlock} {session key session' key' : Text}

theorem entryAlive_iff : entryAlive e now = true ↔
    now - e.lastUsed ≤ idleTimeout ∧ ∀ exp ∈ e.expiresAt, now < exp := by
  unfold entryAlive
  split
  · rename_i hidle
    exact iff_of_false Bool.false_ne_true fun h => Nat.not_lt_of_ge h.1 hidle
  · rename_i hidle
    rw [and_iff_right (Nat.le_of_not_gt hidle)]
    cases e.expiresAt with
    | none => exact iff_of_true rfl fun exp hexp => nomatch hexp
    | some exp =>
      rw [decide_eq_true_iff]
      refine ⟨?_, fun h => h exp rfl⟩
      intro h exp' hexp
      rw [← Option.some.inj hexp]
      exact h

/-- What is alive later is alive now. -/
theorem entryAlive_mono (h : now ≤ later) (halive : entryAlive e later = true) :
    entryAlive e now = true := by
  obtain ⟨hidle, hexp⟩ := entryAlive_iff.mp halive
  refine entryAlive_iff.mpr ⟨Nat.le_trans (Nat.sub_le_sub_right h e.lastUsed) hidle, ?_⟩
  intro exp he
  exact Nat.lt_of_le_of_lt h (hexp exp he)

/-- What is forgotten now would not be found later. -/
theorem filter_alive (h : now ≤ later) (o : Option CachedUnlock) :
    (o.filter (entryAlive · now)).filter (entryAlive · later) = o.filter (entryAlive · later) := by
  rw [Option.filter_filter]
  refine congrArg (Option.filter · o) (funext fun e => ?_)
  exact Bool.and_eq_right_iff_imp.mpr (entryAlive_mono h)

theorem SessionRing.lookup_retain (keep : CachedUnlock → Bool) (ring : SessionRing) (key : Text) :
    (ring.retain keep).lookup key = (ring.lookup key).filter keep := by
  apply Option.ext
  intro e
  rw [Option.filter_eq_some_iff]
  refine AList.mem_lookup_iff.trans ?_
  refine (List.mem_filter).trans ?_
  exact and_congr_left fun _ => AList.mem_lookup_iff.symm

/-! ## What a call does to an entry -/

namespace UnlockRing

variable {r : UnlockRing}

/-- The entry, alive or not. -/
def held (r : UnlockRing) (session key : Text) : Option CachedUnlock :=
  (r.lookup session).bind fun ring => ring.lookup key

theorem held_insert (r : UnlockRing) (session' : Text) (ring : SessionRing) (session key : Text) :
    held (r.insert session' ring) session key =
      if session = session' then ring.lookup key else r.held session key := by
  unfold held
  split
  · rename_i hsame
    rw [hsame, AList.lookup_insert]
    rfl
  · rename_i hne
    rw [AList.lookup_insert_ne hne]

theorem held_of_lookup {ring : SessionRing} (h : r.lookup session = some ring) (key : Text) :
    r.held session key = ring.lookup key := by
  unfold held
  rw [h]
  rfl

theorem held_erase (r : UnlockRing) (session' session key : Text) :
    held (r.erase session') session key =
      if session = session' then none else r.held session key := by
  unfold held
  split
  · rename_i hsame
    rw [hsame, AList.lookup_erase]
    rfl
  · rename_i hne
    rw [AList.lookup_erase_ne hne]

theorem held_put (r : UnlockRing) (now : Nat) (s k passphrase : Text) (mode : CacheMode)
    (ttl : Nat) (session key : Text) :
    held (r.put now s k passphrase mode ttl) session key =
      if session = s ∧ key = k ∧ mode ≠ .once then some (.new now passphrase mode ttl)
      else r.held session key := by
  unfold put
  split
  · rename_i honce
    rw [if_neg fun h => h.2.2 honce]
  · rename_i hmode
    rw [held_insert]
    split
    · rename_i hs
      subst hs
      by_cases hk : key = k
      · subst hk
        rw [if_pos ⟨rfl, rfl, hmode⟩, AList.lookup_insert]
      · rw [if_neg fun h => hk h.2.1, AList.lookup_insert_ne hk]
        unfold held
        cases r.lookup session with
        | none => rfl
        | some ring => rfl
    · rename_i hs
      rw [if_neg fun h => hs h.1]

theorem held_retain {ring : SessionRing} (h : r.lookup session' = some ring) (now : Nat)
    (session key : Text) :
    held (r.insert session' (ring.retain (entryAlive · now))) session key =
      if session = session' then (r.held session key).filter (entryAlive · now)
      else r.held session key := by
  rw [held_insert]
  split
  · rename_i hs
    subst hs
    rw [SessionRing.lookup_retain, held_of_lookup h]
  · rfl

theorem held_get (r : UnlockRing) (now : Nat) (s k session key : Text) :
    held (r.get now s k).2 session key =
      if session = s then
        if key = k then ((r.held session key).filter (entryAlive · now)).map (.touch now)
        else (r.held session key).filter (entryAlive · now)
      else r.held session key := by
  unfold get
  cases hring : r.lookup s with
  | none =>
    dsimp only
    split
    · rename_i hs
      have hnone : r.held session key = none := by
        unfold held
        rw [hs, hring]
        rfl
      rw [hnone]
      split
      · rfl
      · rfl
    · rfl
  | some ring =>
    dsimp only
    have hlookup := ring.lookup_retain (entryAlive · now) k
    have hheld := held_of_lookup hring k
    rw [← hheld] at hlookup
    cases hk : (ring.retain (entryAlive · now)).lookup k with
    | none =>
      dsimp only
      rw [held_retain hring]
      split
      · rename_i hs
        subst hs
        split
        · rename_i hsame
          subst hsame
          rw [← hlookup, hk]
          rfl
        · rfl
      · rfl
    | some e =>
      dsimp only
      rw [held_insert]
      split
      · rename_i hs
        subst hs
        split
        · rename_i hsame
          subst hsame
          rw [AList.lookup_insert, ← hlookup, hk]
          rfl
        · rename_i hne
          rw [AList.lookup_insert_ne hne, SessionRing.lookup_retain, held_of_lookup hring]
      · rfl

theorem held_unlockedIds (r : UnlockRing) (now : Nat) (s session key : Text) :
    held (r.unlockedIds now s).2 session key =
      if session = s then (r.held session key).filter (entryAlive · now)
      else r.held session key := by
  unfold unlockedIds
  cases hring : r.lookup s with
  | none =>
    dsimp only
    split
    · rename_i hs
      have hnone : r.held session key = none := by
        unfold held
        rw [hs, hring]
        rfl
      rw [hnone]
      rfl
    · rfl
  | some ring => exact held_retain hring now session key

theorem held_lock (r : UnlockRing) (s k session key : Text) :
    held (r.lock s (some k)) session key =
      if session = s ∧ key = k then none else r.held session key := by
  unfold lock
  cases hring : r.lookup s with
  | none =>
    dsimp only
    split
    · rename_i h
      unfold held
      rw [h.1, hring]
      rfl
    · rfl
  | some ring =>
    dsimp only
    have hlocked : held (r.insert s (ring.erase k)) session key =
        if session = s ∧ key = k then none else r.held session key := by
      rw [held_insert]
      by_cases hs : session = s
      · subst hs
        rw [if_pos rfl, held_of_lookup hring]
        by_cases hk : key = k
        · rw [if_pos ⟨rfl, hk⟩, hk, AList.lookup_erase]
        · rw [if_neg fun h => hk h.2, AList.lookup_erase_ne hk]
      · rw [if_neg hs, if_neg fun h => hs h.1]
    split
    · rename_i hempty
      -- the session is dropped when nothing else is in it
      have hnothing : (ring.erase k).lookup key = none := by
        rw [AList.lookup_eq_none, AList.mem_keys, List.isEmpty_iff.mp hempty]
        exact List.not_mem_nil
      rw [← hlocked, held_erase, held_insert, hnothing]
    · exact hlocked

end UnlockRing

/-! ## What a history leaves -/

section Ops

variable {s k passphrase : Text} {mode : CacheMode} {ttl : Nat}

theorem Op.puts_iff : (Op.put s k passphrase mode ttl).puts session key = true ↔
    session = s ∧ key = k ∧ mode ≠ .once := by
  unfold puts
  rw [Bool.and_eq_true, Bool.and_eq_true, beq_iff_eq, beq_iff_eq, bne_iff_ne, and_assoc]
  exact and_congr eq_comm (and_congr_left' eq_comm)

theorem Op.uses_iff : (s == session && k == key) = true ↔ session = s ∧ key = k := by
  rw [Bool.and_eq_true, beq_iff_eq, beq_iff_eq]
  exact and_congr eq_comm eq_comm

end Ops

/-- The ring shows what the history leaves of an entry: what it has forgotten is not alive. -/
theorem held_ring {h : History} (hsorted : h.Until now) (hlater : now ≤ later)
    (session key : Text) :
    ((ring h).held session key).filter (entryAlive · later) =
      (cell session key h).filter (entryAlive · later) := by
  induction h generalizing now later with
  | nil => rfl
  | cons x h ih =>
    obtain ⟨t, op⟩ := x
    obtain ⟨hnow, hrest⟩ := List.pairwise_cons.mp hsorted
    have ht : t ≤ later := Nat.le_trans (hnow t List.mem_cons_self) hlater
    have hsame := ih hrest ht
    have hforgot : ((((ring h).held session key).filter (entryAlive · t)).filter
        (entryAlive · later)) = (cell session key h).filter (entryAlive · later) := by
      rw [filter_alive ht, hsame]
    have hused : ((ring h).held session key).filter (entryAlive · t) =
        (cell session key h).filter (entryAlive · t) := ih hrest (Nat.le_refl t)
    have hget : ∀ s k, ((((ring h).get t s k).2.held session key).filter (entryAlive · later)) =
        (if (s == session && k == key) = true then
          ((cell session key h).filter (entryAlive · t)).map (.touch t)
        else cell session key h).filter (entryAlive · later) := by
      intro s k
      rw [UnlockRing.held_get]
      by_cases hs : session = s
      · rw [if_pos hs]
        by_cases hk : key = k
        · rw [if_pos hk, if_pos (Op.uses_iff.mpr ⟨hs, hk⟩), hused]
        · rw [if_neg hk, if_neg fun h => hk (Op.uses_iff.mp h).2, hforgot]
      · rw [if_neg hs, if_neg fun h => hs (Op.uses_iff.mp h).1, hsame]
    cases op with
    | put s k passphrase mode ttl =>
      unfold ring UnlockRing.step cell
      rw [UnlockRing.held_put]
      dsimp only
      rw [if_congr Op.puts_iff rfl rfl]
      split
      · rfl
      · exact hsame
    | get s k => exact hget s k
    | isUnlocked s k => exact hget s k
    | lock s k =>
      unfold ring UnlockRing.step cell
      dsimp only
      cases k with
      | none =>
        have hlocks : (Op.lock s none).locks session key = true ↔ session = s :=
          beq_iff_eq.trans eq_comm
        rw [if_congr hlocks rfl rfl, UnlockRing.lock, UnlockRing.held_erase]
        split
        · rfl
        · exact hsame
      | some k =>
        have hlocks : (Op.lock s (some k)).locks session key = true ↔ session = s ∧ key = k :=
          Op.uses_iff
        rw [if_congr hlocks rfl rfl, UnlockRing.held_lock]
        split
        · rfl
        · exact hsame
    | unlockedIds s =>
      unfold ring UnlockRing.step cell
      rw [UnlockRing.held_unlockedIds]
      split
      · exact hforgot
      · exact hsame

/-- The last `put` of the entry; what came later is given. -/
structure Stored (session key : Text) (h : History) (later : History) (t : Nat)
    (passphrase : Text) (mode : CacheMode) (ttlMinutes : Nat) : Prop where
  split : ∃ earlier, h = later ++ (t, .put session key passphrase mode ttlMinutes) :: earlier
  mode : mode ≠ .once
  quiet : ∀ x ∈ later, x.2.puts session key = false ∧ x.2.locks session key = false

/-- The entry as it was put, but for its last use. -/
def entryAt (later : History) (session key : Text) (t : Nat) (passphrase : Text) (mode : CacheMode)
    (ttlMinutes : Nat) : CachedUnlock :=
  .touch ((later.uses session key).headD t) (.new t passphrase mode ttlMinutes)

section Stored

variable {h rest : History} {t u : Nat} {passphrase : Text} {mode : CacheMode} {ttl : Nat} {op : Op}

theorem stored_put : Stored session key ((t, op) :: h) rest u passphrase mode ttl ∧
    op.puts session key = true ↔
      rest = [] ∧ u = t ∧ op = .put session key passphrase mode ttl ∧ mode ≠ .once := by
  constructor
  · rintro ⟨⟨⟨earlier, hsplit⟩, hmode, hquiet⟩, hputs⟩
    cases rest with
    | nil =>
      obtain ⟨hhead, _⟩ := List.cons.inj hsplit
      obtain ⟨rfl, rfl⟩ := Prod.mk.inj hhead
      exact ⟨rfl, rfl, rfl, hmode⟩
    | cons x rest =>
      obtain ⟨hhead, _⟩ := List.cons.inj hsplit
      have hquiet' := (hquiet x List.mem_cons_self).1
      rw [← hhead] at hquiet'
      exact (Bool.false_ne_true (hquiet'.symm.trans hputs)).elim
  · rintro ⟨rfl, rfl, rfl, hmode⟩
    exact ⟨⟨⟨h, rfl⟩, hmode, List.forall_mem_nil _⟩, Op.puts_iff.mpr ⟨rfl, rfl, hmode⟩⟩

theorem stored_cons (hputs : op.puts session key = false) :
    Stored session key ((t, op) :: h) rest u passphrase mode ttl ↔
      ∃ rest', rest = (t, op) :: rest' ∧ op.locks session key = false ∧
        Stored session key h rest' u passphrase mode ttl := by
  constructor
  · rintro ⟨⟨earlier, hsplit⟩, hmode, hquiet⟩
    cases rest with
    | nil =>
      obtain ⟨hhead, _⟩ := List.cons.inj hsplit
      obtain ⟨rfl, rfl⟩ := Prod.mk.inj hhead
      exact (Bool.false_ne_true (hputs.symm.trans (Op.puts_iff.mpr ⟨rfl, rfl, hmode⟩))).elim
    | cons x rest =>
      obtain ⟨hhead, htail⟩ := List.cons.inj hsplit
      subst hhead
      exact ⟨rest, rfl, (hquiet _ List.mem_cons_self).2, ⟨earlier, htail⟩, hmode,
        fun y hy => hquiet y (List.mem_cons_of_mem _ hy)⟩
  · rintro ⟨rest', rfl, hlocks, ⟨earlier, hsplit⟩, hmode, hquiet⟩
    refine ⟨⟨earlier, congrArg ((t, op) :: ·) hsplit⟩, hmode, ?_⟩
    intro y hy
    rcases List.mem_cons.mp hy with rfl | hy'
    · exact ⟨hputs, hlocks⟩
    · exact hquiet y hy'

end Stored

theorem uses_cons_of_use {op : Op} (h : op.uses session key = true) (t : Nat) (rest : History) :
    History.uses session key ((t, op) :: rest) = t :: rest.uses session key := by
  unfold History.uses
  rw [List.filter_cons, if_pos h]
  rfl

theorem uses_cons_of_other {op : Op} (h : op.uses session key = false) (t : Nat) (rest : History) :
    History.uses session key ((t, op) :: rest) = rest.uses session key := by
  unfold History.uses
  rw [List.filter_cons, if_neg (h ▸ Bool.false_ne_true)]

theorem entryAt_alive {rest : History} {t : Nat} {passphrase : Text} {mode : CacheMode}
    {ttl : Nat} : entryAlive (entryAt rest session key t passphrase mode ttl) now = true ↔
      now - (rest.uses session key).headD t ≤ idleTimeout ∧
        (mode = .timed → now < t + lifetime ttl) := by
  refine entryAlive_iff.trans (and_congr_right fun _ => ?_)
  unfold entryAt CachedUnlock.touch CachedUnlock.new
  cases mode with
  | timed =>
    dsimp only
    refine ⟨fun h _ => h _ rfl, ?_⟩
    intro h exp hexp
    rw [← Option.some.inj hexp]
    exact h rfl
  | once => exact iff_of_true (fun exp hexp => nomatch hexp) fun h => nomatch h
  | session => exact iff_of_true (fun exp hexp => nomatch hexp) fun h => nomatch h

/-- No two uses in a row are too far apart. -/
def Steady (times : List Nat) : Prop := times.IsChain fun b a => b - a ≤ idleTimeout

theorem steady_cons {us : List Nat} {t : Nat} : Steady (now :: (us ++ [t])) ↔
    now - us.headD t ≤ idleTimeout ∧ Steady (us ++ [t]) := by
  unfold Steady
  cases us with
  | nil => exact List.isChain_cons_cons
  | cons u us => exact List.isChain_cons_cons

/-- The entry that the last `put` and the uses since then leave, where it lived at each of them. -/
def Lives (session key : Text) (h : History) (e : CachedUnlock) : Prop :=
  ∃ rest t passphrase mode ttl, Stored session key h rest t passphrase mode ttl ∧
    e = entryAt rest session key t passphrase mode ttl ∧
    Steady (rest.uses session key ++ [t]) ∧
    (mode = .timed → ∀ u ∈ rest.uses session key, u < t + lifetime ttl)

section Lives

variable {h : History} {t : Nat} {op : Op}

theorem lives_put {passphrase : Text} {mode : CacheMode} {ttl : Nat}
    (hputs : (Op.put session' key' passphrase mode ttl).puts session key = true) :
    Lives session key ((t, .put session' key' passphrase mode ttl) :: h) e ↔
      CachedUnlock.new t passphrase mode ttl = e := by
  obtain ⟨rfl, rfl, hmode⟩ := Op.puts_iff.mp hputs
  constructor
  · rintro ⟨rest, u, p, m, l, hstored, rfl, _⟩
    obtain ⟨rfl, rfl, hop, _⟩ := stored_put.mp ⟨hstored, hputs⟩
    cases hop
    rfl
  · rintro rfl
    refine ⟨[], t, passphrase, mode, ttl, (stored_put.mpr ⟨rfl, rfl, rfl, hmode⟩).1, rfl,
      List.IsChain.singleton t, ?_⟩
    intro _ u hu
    cases hu

theorem lives_use (huse : op.uses session key = true) (hputs : op.puts session key = false)
    (hlocks : op.locks session key = false) :
    Lives session key ((t, op) :: h) e ↔
      ∃ e', Lives session key h e' ∧ entryAlive e' t = true ∧ e'.touch t = e := by
  constructor
  · rintro ⟨rest, u, p, m, l, hstored, rfl, hsteady, hexp⟩
    obtain ⟨rest', rfl, _, hstored'⟩ := (stored_cons hputs).mp hstored
    rw [uses_cons_of_use huse, List.cons_append] at hsteady
    obtain ⟨hidle, hsteady'⟩ := steady_cons.mp hsteady
    rw [uses_cons_of_use huse] at hexp
    refine ⟨_, ⟨rest', u, p, m, l, hstored', rfl, hsteady', ?_⟩, ?_, ?_⟩
    · exact fun hm v hv => hexp hm v (List.mem_cons_of_mem t hv)
    · exact entryAt_alive.mpr ⟨hidle, fun hm => hexp hm t List.mem_cons_self⟩
    · unfold entryAt
      rw [uses_cons_of_use huse]
      rfl
  · rintro ⟨e', ⟨rest, u, p, m, l, hstored, rfl, hsteady, hexp⟩, halive, rfl⟩
    obtain ⟨hidle, hnow⟩ := entryAt_alive.mp halive
    refine ⟨(t, op) :: rest, u, p, m, l, (stored_cons hputs).mpr ⟨rest, rfl, hlocks, hstored⟩,
      ?_, ?_, ?_⟩
    · unfold entryAt
      rw [uses_cons_of_use huse]
      rfl
    · rw [uses_cons_of_use huse, List.cons_append]
      exact steady_cons.mpr ⟨hidle, hsteady⟩
    · rw [uses_cons_of_use huse]
      intro hm v hv
      rcases List.mem_cons.mp hv with rfl | hv'
      · exact hnow hm
      · exact hexp hm v hv'

theorem lives_other (huse : op.uses session key = false) (hputs : op.puts session key = false)
    (hlocks : op.locks session key = false) :
    Lives session key ((t, op) :: h) e ↔ Lives session key h e := by
  constructor
  · rintro ⟨rest, u, p, m, l, hstored, rfl, hsteady, hexp⟩
    obtain ⟨rest', rfl, _, hstored'⟩ := (stored_cons hputs).mp hstored
    unfold entryAt
    rw [uses_cons_of_other huse] at hsteady hexp ⊢
    exact ⟨rest', u, p, m, l, hstored', rfl, hsteady, hexp⟩
  · rintro ⟨rest, u, p, m, l, hstored, rfl, hsteady, hexp⟩
    refine ⟨(t, op) :: rest, u, p, m, l, (stored_cons hputs).mpr ⟨rest, rfl, hlocks, hstored⟩, ?_⟩
    unfold entryAt
    rw [uses_cons_of_other huse]
    exact ⟨rfl, hsteady, hexp⟩

theorem not_lives_lock (hputs : op.puts session key = false)
    (hlocks : op.locks session key = true) : ¬ Lives session key ((t, op) :: h) e := by
  rintro ⟨rest, u, p, m, l, hstored, _⟩
  obtain ⟨_, _, hnot, _⟩ := (stored_cons hputs).mp hstored
  exact Bool.false_ne_true (hnot.symm.trans hlocks)

end Lives

theorem cell_eq_some_iff {h : History} :
    cell session key h = some e ↔ Lives session key h e := by
  induction h generalizing e with
  | nil =>
    refine iff_of_false (Option.some_ne_none e).symm ?_
    rintro ⟨rest, t, p, m, l, ⟨⟨earlier, hsplit⟩, _, _⟩, _⟩
    cases rest with
    | nil => cases hsplit
    | cons x rest => cases hsplit
  | cons x h ih =>
    obtain ⟨t, op⟩ := x
    have huse : op.uses session key = true → op.puts session key = false →
        op.locks session key = false →
        (((cell session key h).filter (entryAlive · t)).map (.touch t) = some e ↔
          Lives session key ((t, op) :: h) e) := by
      intro huse hputs hlocks
      rw [lives_use huse hputs hlocks, Option.map_eq_some_iff]
      refine exists_congr fun e' => ?_
      rw [Option.filter_eq_some_iff, ih, and_assoc]
    unfold cell
    cases op with
    | put s k p m l =>
      dsimp only
      split
      · rename_i hputs
        rw [lives_put hputs, Option.some_inj]
      · rename_i hputs
        rw [lives_other rfl (eq_false_of_ne_true hputs) rfl, ih]
    | get s k =>
      dsimp only
      split
      · rename_i h'
        exact huse h' rfl rfl
      · rename_i h'
        rw [lives_other (eq_false_of_ne_true h') rfl rfl, ih]
    | isUnlocked s k =>
      dsimp only
      split
      · rename_i h'
        exact huse h' rfl rfl
      · rename_i h'
        rw [lives_other (eq_false_of_ne_true h') rfl rfl, ih]
    | lock s k =>
      dsimp only
      split
      · rename_i hlocks
        exact iff_of_false (Option.some_ne_none e).symm (not_lives_lock rfl hlocks)
      · rename_i hlocks
        rw [lives_other rfl rfl (eq_false_of_ne_true hlocks), ih]
    | unlockedIds s =>
      rw [lives_other rfl rfl rfl, ih]

theorem History.Until.le {h : History} (hsorted : h.Until now) {x : Nat × Op} (hx : x ∈ h) :
    x.1 ≤ now :=
  (List.pairwise_cons.mp hsorted).1 x.1 (List.mem_map.mpr ⟨x, hx, rfl⟩)

/-- What is alive is what the history makes available. -/
theorem cell_available {h : History} (hsorted : h.Until now) {passphrase : Text} :
    (∃ e, (cell session key h).filter (entryAlive · now) = some e ∧ e.passphrase = passphrase) ↔
      Available session key h passphrase now := by
  constructor
  · rintro ⟨e, he, rfl⟩
    obtain ⟨hcell, halive⟩ := Option.filter_eq_some_iff.mp he
    obtain ⟨rest, t, p, m, l, ⟨⟨earlier, hsplit⟩, hmode, hquiet⟩, rfl, hsteady, _⟩ :=
      cell_eq_some_iff.mp hcell
    obtain ⟨hidle, hexp⟩ := entryAt_alive.mp halive
    exact ⟨rest, t, m, l, earlier, hsplit, hmode, hquiet, hexp, steady_cons.mpr ⟨hidle, hsteady⟩⟩
  · rintro ⟨rest, t, m, l, earlier, hsplit, hmode, hquiet, hexp, hsteady⟩
    obtain ⟨hidle, hsteady'⟩ := steady_cons.mp hsteady
    refine ⟨entryAt rest session key t passphrase m l, Option.filter_eq_some_iff.mpr ⟨?_, ?_⟩, rfl⟩
    · refine cell_eq_some_iff.mpr
        ⟨rest, t, passphrase, m, l, ⟨⟨earlier, hsplit⟩, hmode, hquiet⟩, rfl, hsteady', ?_⟩
      intro hm u hu
      obtain ⟨x, hx, rfl⟩ := List.mem_map.mp hu
      have hin : x ∈ h := by
        rw [hsplit]
        exact List.mem_append_left _ (List.mem_filter.mp hx).1
      exact Nat.lt_of_le_of_lt (hsorted.le hin) (hexp hm)
    · exact entryAt_alive.mpr ⟨hidle, hexp⟩

/-! ## What the ring answers -/

theorem get_eq (r : UnlockRing) (now : Nat) (session key : Text) :
    (r.get now session key).1 =
      ((r.held session key).filter (entryAlive · now)).map CachedUnlock.passphrase := by
  unfold UnlockRing.get UnlockRing.held
  cases r.lookup session with
  | none => rfl
  | some ring =>
    dsimp only
    rw [Option.bind_some, ← ring.lookup_retain]
    cases (ring.retain (entryAlive · now)).lookup key with
    | none => rfl
    | some e => rfl

theorem mem_unlockedIds (r : UnlockRing) (now : Nat) (session key : Text) :
    key ∈ (r.unlockedIds now session).1 ↔ ∃ p, (r.get now session key).1 = some p := by
  rw [get_eq]
  unfold UnlockRing.unlockedIds UnlockRing.held
  cases r.lookup session with
  | none => exact iff_of_false List.not_mem_nil fun ⟨_, hp⟩ => Option.some_ne_none _ hp.symm
  | some ring =>
    dsimp only
    rw [Option.bind_some, ← ring.lookup_retain, ← AList.mem_keys, ← AList.lookup_isSome,
      ← Option.isSome_iff_exists, Option.isSome_map]

theorem unlockedIds_nodup (r : UnlockRing) (now : Nat) (session : Text) :
    (r.unlockedIds now session).1.Nodup := by
  unfold UnlockRing.unlockedIds
  cases r.lookup session with
  | none => exact List.nodup_nil
  | some ring => exact AList.keys_nodup _

theorem get_available {h : History} (hsorted : h.Until now) (passphrase : Text) :
    ((ring h).get now session key).1 = some passphrase ↔
      Available session key h passphrase now := by
  rw [get_eq, held_ring hsorted (Nat.le_refl now), Option.map_eq_some_iff]
  exact cell_available hsorted

theorem Available.of_cons {h : History} {t : Nat} {op : Op} {passphrase : Text}
    (hputs : op.puts session key = false) (huses : op.uses session key = false)
    (ha : Available session key ((t, op) :: h) passphrase now) :
    Available session key h passphrase now := by
  obtain ⟨rest, u, m, l, earlier, hsplit, hmode, hquiet, hexp, hsteady⟩ := ha
  obtain ⟨rest', rfl, _, ⟨earlier', hsplit'⟩, _, hquiet'⟩ :=
    (stored_cons hputs).mp ⟨⟨earlier, hsplit⟩, hmode, hquiet⟩
  rw [uses_cons_of_other huses] at hsteady
  exact ⟨rest', u, m, l, earlier', hsplit', hmode, hquiet', hexp, hsteady⟩

/-- `get` answers as the history of the entry says, `is_unlocked` and `unlocked_ids` where it
answers, and a call on another session or key makes nothing available. -/
theorem get_iff (h : History) (now : Nat) (hsorted : h.Until now) (session : Text) :
    (∀ key passphrase, ((ring h).get now session key).1 = some passphrase ↔
      Available session key h passphrase now) ∧
    (∀ key, ((ring h).isUnlocked now session key).1 =
      ((ring h).get now session key).1.isSome) ∧
    (∀ key, key ∈ ((ring h).unlockedIds now session).1 ↔
      ∃ passphrase, ((ring h).get now session key).1 = some passphrase) ∧
    ((ring h).unlockedIds now session).1.Nodup ∧
    ∀ t op rest key passphrase, h = (t, op) :: rest → op.puts session key = false →
      op.uses session key = false → ((ring h).get now session key).1 = some passphrase →
        ((ring rest).get now session key).1 = some passphrase := by
  refine ⟨fun key p => get_available hsorted p, fun key => rfl, mem_unlockedIds _ now session,
    unlockedIds_nodup _ now session, ?_⟩
  rintro t op rest key p rfl hputs huses hget
  obtain ⟨hnow, hrest⟩ := List.pairwise_cons.mp hsorted
  obtain ⟨_, hrest'⟩ := List.pairwise_cons.mp hrest
  have hsorted' : History.Until rest now :=
    List.pairwise_cons.mpr ⟨fun u hu => hnow u (List.mem_cons_of_mem t hu), hrest'⟩
  exact (get_available hsorted' p).mpr (((get_available hsorted p).mp hget).of_cons hputs huses)

/-- A timed entry that is read after nine and after eighteen minutes. -/
def readTwice : History :=
  [(18 * 60 * second, .get "s".toList "k".toList), (9 * 60 * second, .get "s".toList "k".toList),
    (0, .put "s".toList "k".toList "pw".toList .timed 20)]

theorem readTwice_until : readTwice.Until (19 * 60 * second) := by decide

theorem readTwice_get :
    ((ring readTwice).get (19 * 60 * second) "s".toList "k".toList).1 = some "pw".toList ∧
      Available "s".toList "k".toList readTwice "pw".toList (19 * 60 * second) := by
  have hget : ((ring readTwice).get (19 * 60 * second) "s".toList "k".toList).1 =
      some "pw".toList := by decide +kernel
  exact ⟨hget, ((get_iff readTwice _ readTwice_until "s".toList).1 _ _).mp hget⟩

end Lyra.Opengpg
