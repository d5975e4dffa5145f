import Mathlib.Logic.Function.Basic

/-!
# The key-value store

`kv/memory.rs` over any keys and values: entries that may expire, `get`, `set`, `del`,
`del_prefix` and `incr`.  The Redis adapter does the same, `incr` by a script.
-/

namespace Lyra

/-- What becomes of a call of the store. -/
inductive CallOutcome
  | works
  | fails
  /-- The effect took place, the answer is an error. -/
  | lost
  deriving DecidableEq, Repr

def CallOutcome.takesEffect : CallOutcome → Bool
  | .fails => false
  | _ => true

/-- An entry; it expires at a time in seconds. -/
structure KvEntry (ν : Type) where
  value : ν
  expiresAt : Option Nat
  deriving DecidableEq, Repr

/-- What the store holds, expired entries included. -/
abbrev Kv (κ ν : Type) := κ → Option (KvEntry ν)

namespace KvEntry

variable {ν : Type}

/-- `now >= expires_at`. -/
def expired (e : KvEntry ν) (now : Nat) : Bool := e.expiresAt.any fun t => decide (t ≤ now)

theorem expired_mono {e : KvEntry ν} {now later : Nat} (h : now ≤ later)
    (he : e.expired now = true) : e.expired later = true := by
  unfold expired at he ⊢
  cases ht : e.expiresAt with
  | none =>
    rw [ht] at he
    cases he
  | some t =>
    rw [ht] at he
    exact decide_eq_true (Nat.le_trans (of_decide_eq_true he) h)

end KvEntry

namespace Kv

variable {κ ν : Type} {kv : Kv κ ν} {k : κ} {now : Nat}

/-- The entry at a key that has not expired. -/
def live (kv : Kv κ ν) (now : Nat) (k : κ) : Option (KvEntry ν) :=
  (kv k).filter fun e => !e.expired now

def get (kv : Kv κ ν) (now : Nat) (k : κ) : Option ν := (kv.live now k).map KvEntry.value

/-- `del_prefix`, for the keys with a prefix. -/
def delPrefix (kv : Kv κ ν) (hasPrefix : κ → Bool) : Kv κ ν :=
  fun k => if hasPrefix k then none else kv k

theorem live_eq_some {e : KvEntry ν} :
    kv.live now k = some e ↔ kv k = some e ∧ e.expired now = false := by
  unfold live
  rw [Option.filter_eq_some_iff, Bool.not_eq_true']

theorem delPrefix_eq_some {hasPrefix : κ → Bool} {e : KvEntry ν}
    (h : kv.delPrefix hasPrefix k = some e) : hasPrefix k = false ∧ kv k = some e := by
  unfold delPrefix at h
  split at h
  · cases h
  · rename_i hno
    exact ⟨Bool.not_eq_true _ ▸ hno, h⟩

theorem live_congr {kv' : Kv κ ν} (h : kv' k = kv k) : kv'.live now k = kv.live now k := by
  unfold live
  rw [h]

theorem get_eq_some {v : ν} : kv.get now k = some v ↔
    ∃ e, kv k = some e ∧ e.expired now = false ∧ e.value = v := by
  unfold get
  rw [Option.map_eq_some_iff]
  constructor
  · rintro ⟨e, he, hv⟩
    obtain ⟨hk, hlive⟩ := live_eq_some.mp he
    exact ⟨e, hk, hlive, hv⟩
  · rintro ⟨e, hk, hlive, hv⟩
    exact ⟨e, live_eq_some.mpr ⟨hk, hlive⟩, hv⟩

/-! ## Writes -/

variable [DecidableEq κ]

def set (kv : Kv κ ν) (now : Nat) (k : κ) (value : ν) (ttl : Option Nat) : Kv κ ν :=
  Function.update kv k (some ⟨value, ttl.map (now + ·)⟩)

def del (kv : Kv κ ν) (k : κ) : Kv κ ν := Function.update kv k none

def i64Max : Int := 9223372036854775807

/-- `incr` by one; `none` if the value is no number.  An entry that is there keeps its expiry. -/
def incr (number : ν → Option Int) (ofNumber : Int → ν) (kv : Kv κ ν) (now : Nat) (k : κ)
    (ttl : Option Nat) : Option (Kv κ ν) :=
  match kv.live now k with
  | some e =>
    (number e.value).map fun n =>
      Function.update kv k (some ⟨ofNumber (min (n + 1) i64Max), e.expiresAt⟩)
  | none => some (Function.update kv k (some ⟨ofNumber 1, ttl.map (now + ·)⟩))

@[simp] theorem set_same {value : ν} {ttl : Option Nat} :
    kv.set now k value ttl k = some ⟨value, ttl.map (now + ·)⟩ := Function.update_self ..

@[simp] theorem set_other {value : ν} {ttl : Option Nat} {j : κ} (h : j ≠ k) :
    kv.set now k value ttl j = kv j := Function.update_of_ne h ..

@[simp] theorem del_same : kv.del k k = none := Function.update_self ..

@[simp] theorem del_other {j : κ} (h : j ≠ k) : kv.del k j = kv j := Function.update_of_ne h ..

theorem del_eq_some {j : κ} {e : KvEntry ν} (h : kv.del k j = some e) : j ≠ k ∧ kv j = some e := by
  by_cases hj : j = k
  · rw [hj, del_same] at h
    cases h
  · rw [del_other hj] at h
    exact ⟨hj, h⟩

section Incr

variable {number : ν → Option Int} {ofNumber : Int → ν} {ttl : Option Nat}

/-- An increment of an entry that has not expired keeps its expiry. -/
theorem incr_live {e : KvEntry ν} (he : kv.live now k = some e) {n : Int}
    (hn : number e.value = some n) : kv.incr number ofNumber now k ttl =
      some (Function.update kv k (some ⟨ofNumber (min (n + 1) i64Max), e.expiresAt⟩)) := by
  unfold incr
  rw [he]
  dsimp only
  rw [hn]
  rfl

/-- Otherwise a new window begins. -/
theorem incr_dead (he : kv.live now k = none) : kv.incr number ofNumber now k ttl =
    some (Function.update kv k (some ⟨ofNumber 1, ttl.map (now + ·)⟩)) := by
  unfold incr
  rw [he]

theorem incr_expiry {kv' : Kv κ ν} (h : kv.incr number ofNumber now k ttl = some kv') :
    ∃ e', kv' k = some e' ∧
      e'.expiresAt = match kv.live now k with
        | some e => e.expiresAt
        | none => ttl.map (now + ·) := by
  cases hlive : kv.live now k with
  | none =>
    rw [incr_dead hlive] at h
    obtain rfl := Option.some.inj h
    exact ⟨_, Function.update_self .., rfl⟩
  | some e =>
    unfold incr at h
    rw [hlive] at h
    obtain ⟨n, _, rfl⟩ := Option.map_eq_some_iff.mp h
    exact ⟨_, Function.update_self .., rfl⟩

end Incr

/-- An increment of one key leaves the others. -/
theorem incr_other {number : ν → Option Int} {ofNumber : Int → ν} {ttl : Option Nat}
    {kv' : Kv κ ν} (h : kv.incr number ofNumber now k ttl = some kv') {j : κ} (hj : j ≠ k) :
    kv' j = kv j := by
  unfold incr at h
  split at h
  · obtain ⟨n, _, rfl⟩ := Option.map_eq_some_iff.mp h
    exact Function.update_of_ne hj ..
  · obtain rfl := Option.some.inj h
    exact Function.update_of_ne hj ..

end Kv

end Lyra
