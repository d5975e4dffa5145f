import Lyra.Store.Schema
import Lyra.Store.Kv
import Lyra.Lib.Runs

/-!
# The key table

`opengpg/store.rs`: `insert_key`, `set_account_binding`, `set_primary` and `delete_key`, one call
after the other.  A call checks what it is given, then runs its statements, then reads the row
back; every access to the store may fail, and a failed statement may have taken effect.

* `primaries_unique`: in every state that calls under the condition lead to, each bucket has at
  most one primary key, and a call keeps it so, keeps a primary key where there was one and
  changes nothing when it fails, exactly under the condition;
* `primaries_break`: a fingerprint imported twice, a primary key moved to an account that has
  one.
-/

namespace Lyra.Opengpg

open Lyra.Lib

/-! ## Rows -/

inductive OpengpgError
  | database
  | invalidInput (text : String)
  | notFound
  | conflict (text : String)
  deriving DecidableEq, Repr

/-- A row of `opengpg_key`. -/
structure StoredKey where
  id : Text
  userId : Text
  /-- `none` for a contact's key. -/
  accountId : Option Text
  fingerprint : Text
  primaryEmail : Text
  emails : List Text
  isSecret : Bool
  isPrimary : Bool
  revoked : Bool
  keyData : Text
  createdAt : Nat
  updatedAt : Nat
  deriving DecidableEq, Repr

/-- `UNIQUE(user_id, fingerprint)`. -/
def StoredKey.unique (k : StoredKey) : Option (Text × Text) := some (k.userId, k.fingerprint)

abbrev KeyTable := KeyedTable StoredKey StoredKey.id StoredKey.unique

structure ParsedKey where
  fingerprint : Text
  primaryEmail : Text
  emails : List Text
  isSecret : Bool
  revoked : Bool
  keyData : Text
  deriving DecidableEq, Repr

/-- What is read of a row of `mail_account`. -/
structure OwnedAccount where
  id : Text
  userId : Text
  emailAddress : Text
  deriving DecidableEq, Repr

structure KeyStore where
  accounts : List OwnedAccount
  keys : KeyTable

/-! ## Statements -/

inductive KeyStatement
  /-- For the keys of a user that are bound to an account, or to none. -/
  | demote (user : Text) (account : Option Text) (now : Nat)
  | insert (row : StoredKey)
  | promote (key user : Text) (now : Nat)
  | bind (key user : Text) (account : Option Text) (now : Nat)
  | delete (key user : Text)

/-- `bucket_where`. -/
def inBucket (user : Text) (account : Option Text) (k : StoredKey) : Bool :=
  k.userId == user && k.accountId == account

def isKey (key user : Text) (k : StoredKey) : Bool := k.id == key && k.userId == user

def StoredKey.setPrimary (primary : Bool) (now : Nat) (k : StoredKey) : StoredKey :=
  { k with isPrimary := primary, updatedAt := now }

def StoredKey.setAccount (account : Option Text) (now : Nat) (k : StoredKey) : StoredKey :=
  { k with accountId := account, updatedAt := now }

theorem setPrimary_id (primary : Bool) (now : Nat) (k : StoredKey) :
    (k.setPrimary primary now).id = k.id := rfl

theorem setPrimary_unique (primary : Bool) (now : Nat) (k : StoredKey) :
    (k.setPrimary primary now).unique = k.unique := rfl

theorem setAccount_id (account : Option Text) (now : Nat) (k : StoredKey) :
    (k.setAccount account now).id = k.id := rfl

theorem setAccount_unique (account : Option Text) (now : Nat) (k : StoredKey) :
    (k.setAccount account now).unique = k.unique := rfl

/-- `none` where a constraint is violated. -/
def KeyStatement.apply (t : KeyTable) : KeyStatement → Option KeyTable
  | .demote user account now =>
    some (t.updateWhere (inBucket user account) (.setPrimary false now) (setPrimary_id false now)
      (setPrimary_unique false now))
  | .insert row => t.insert row
  | .promote key user now =>
    some (t.updateWhere (isKey key user) (.setPrimary true now) (setPrimary_id true now)
      (setPrimary_unique true now))
  | .bind key user account now =>
    some (t.updateWhere (isKey key user) (.setAccount account now) (setAccount_id account now)
      (setAccount_unique account now))
  | .delete key user => some (t.deleteWhere (isKey key user))

/-- A statement with what becomes of it. -/
def write (t : KeyTable) (c : CallOutcome) (v : KeyStatement) :
    KeyTable × Except OpengpgError Unit :=
  match c, v.apply t with
  | .fails, _ => (t, .error .database)
  | .lost, none => (t, .error .database)
  | .lost, some t' => (t', .error .database)
  | .works, none => (t, .error (.conflict "fingerprint already imported"))
  | .works, some t' => (t', .ok ())

/-- Statements one after the other, up to the first that fails. -/
def writeAll (t : KeyTable) : List (CallOutcome × KeyStatement) →
    KeyTable × Except OpengpgError Unit
  | [] => (t, .ok ())
  | (c, v) :: rest =>
    match write t c v with
    | (t', .error e) => (t', .error e)
    | (t', .ok _) => writeAll t' rest

/-! ## Checks -/

/-- What becomes of the accesses of a call. -/
structure Outcomes where
  /-- `get_key` at the start. -/
  load : CallOutcome
  /-- `load_owned_account`. -/
  owner : CallOutcome
  demote : CallOutcome
  write : CallOutcome
  /-- `get_key` at the end. -/
  reread : CallOutcome
  deriving DecidableEq, Repr

section Calls

variable (validId : Text → Bool)

/-- `id_value`; the dialect of the database says which texts are ids. -/
def idValue (id : Text) (what : String) : Except OpengpgError Unit :=
  if validId id then .ok () else .error (.invalidInput (what ++ " id"))

def getKey (t : KeyTable) (c : CallOutcome) (user key : Text) :
    Except OpengpgError (Option StoredKey) := do
  idValue validId user "user"
  idValue validId key "key"
  if c = .works then return t.rows.find? (isKey key user) else throw .database

def loadOwnedAccount (accounts : List OwnedAccount) (c : CallOutcome) (user account : Text) :
    Except OpengpgError OwnedAccount := do
  idValue validId user "user"
  idValue validId account "account"
  if c = .works then
    match accounts.find? fun a => a.id == account && a.userId == user with
    | some owned => return owned
    | none => throw (.invalidInput "accountId does not reference one of your accounts")
  else throw .database

def eqIgnoreAsciiCase (a b : Text) : Bool := a.map Char.toLower == b.map Char.toLower

def ensureEmailsMatchAccount (emails : List Text) (isSecret : Bool) (owned : OwnedAccount) :
    Except OpengpgError Unit :=
  if !isSecret || emails.any (eqIgnoreAsciiCase · owned.emailAddress) then .ok ()
  else .error (.invalidInput
    ("secret key must carry the account address " ++ String.ofList owned.emailAddress))

def validateAccountBinding (accounts : List OwnedAccount) (c : CallOutcome) (user account : Text)
    (emails : List Text) (isSecret : Bool) : Except OpengpgError OwnedAccount := do
  let owned ← loadOwnedAccount validId accounts c user account
  ensureEmailsMatchAccount emails isSecret owned
  return owned

/-- What `insert_key` checks. -/
def checkInsert (s : KeyStore) (o : Outcomes) (id user : Text) (parsed : ParsedKey)
    (account : Option Text) : Except OpengpgError Unit := do
  match account with
  | some a =>
    let _ ← validateAccountBinding validId s.accounts o.owner user a parsed.emails parsed.isSecret
  | none =>
    if parsed.isSecret then
      throw (.invalidInput "identity (secret) keys must be bound to one of your accounts")
  idValue validId user "user"
  idValue validId id "key"
  match account with
  | some a => idValue validId a "account"
  | none => return ()

/-- What `set_account_binding` checks. -/
def checkBinding (s : KeyStore) (o : Outcomes) (user key : Text) (account : Option Text) :
    Except OpengpgError StoredKey := do
  match ← getKey validId s.keys o.load user key with
  | none => throw .notFound
  | some existing =>
    match account with
    | some a =>
      let _ ← validateAccountBinding validId s.accounts o.owner user a existing.emails
        existing.isSecret
      idValue validId a "account"
      return existing
    | none =>
      if existing.isSecret then
        throw (.invalidInput
          "identity keys stay bound to their account; delete the key instead")
      else return existing

/-- What `set_primary` checks. -/
def checkPrimary (s : KeyStore) (o : Outcomes) (user key : Text) :
    Except OpengpgError StoredKey := do
  match ← getKey validId s.keys o.load user key with
  | none => throw .notFound
  | some existing =>
    match existing.accountId with
    | some a =>
      idValue validId a "account"
      return existing
    | none => return existing

/-- What `delete_key` checks. -/
def checkDelete (s : KeyStore) (o : Outcomes) (user key : Text) :
    Except OpengpgError StoredKey := do
  match ← getKey validId s.keys o.load user key with
  | none => throw .notFound
  | some existing =>
    if existing.isPrimary then
      throw (.invalidInput "refuse deleting primary key; promote another first")
    else return existing

/-! ## Calls -/

inductive KeyCall
  /-- The new row gets this id. -/
  | insertKey (id user : Text) (parsed : ParsedKey) (isPrimary : Bool) (account : Option Text)
  | setAccountBinding (user key : Text) (account : Option Text)
  | setPrimary (user key : Text)
  | deleteKey (user key : Text)

def ParsedKey.row (parsed : ParsedKey) (id user : Text) (isPrimary : Bool) (account : Option Text)
    (now : Nat) : StoredKey where
  id := id
  userId := user
  accountId := account
  fingerprint := parsed.fingerprint
  primaryEmail := parsed.primaryEmail
  emails := parsed.emails
  isSecret := parsed.isSecret
  isPrimary := isPrimary
  revoked := parsed.revoked
  keyData := parsed.keyData
  createdAt := now
  updatedAt := now

/-- The row is read back once the statements have run. -/
def reread (c : CallOutcome) (user key : Text) :
    KeyTable × Except OpengpgError Unit → KeyTable × Except OpengpgError StoredKey
  | (t, .error e) => (t, .error e)
  | (t, .ok _) =>
    match getKey validId t c user key with
    | .error e => (t, .error e)
    | .ok none => (t, .error .notFound)
    | .ok (some row) => (t, .ok row)

def insertKey (s : KeyStore) (o : Outcomes) (now : Nat) (id user : Text) (parsed : ParsedKey)
    (isPrimary : Bool) (account : Option Text) : KeyTable × Except OpengpgError StoredKey :=
  match checkInsert validId s o id user parsed account with
  | .error e => (s.keys, .error e)
  | .ok _ =>
    reread validId o.reread user id (writeAll s.keys
      ((if isPrimary then [(o.demote, .demote user account now)] else []) ++
        [(o.write, .insert (parsed.row id user isPrimary account now))]))

def setAccountBinding (s : KeyStore) (o : Outcomes) (now : Nat) (user key : Text)
    (account : Option Text) : KeyTable × Except OpengpgError StoredKey :=
  match checkBinding validId s o user key account with
  | .error e => (s.keys, .error e)
  | .ok _ =>
    reread validId o.reread user key (writeAll s.keys [(o.write, .bind key user account now)])

def setPrimary (s : KeyStore) (o : Outcomes) (now : Nat) (user key : Text) :
    KeyTable × Except OpengpgError StoredKey :=
  match checkPrimary validId s o user key with
  | .error e => (s.keys, .error e)
  | .ok existing =>
    reread validId o.reread user key (writeAll s.keys
      [(o.demote, .demote user existing.accountId now), (o.write, .promote key user now)])

def deleteKey (s : KeyStore) (o : Outcomes) (user key : Text) :
    KeyTable × Except OpengpgError Unit :=
  match checkDelete validId s o user key with
  | .error e => (s.keys, .error e)
  | .ok _ => writeAll s.keys [(o.write, .delete key user)]

/-- The table after a call, and whether it succeeded. -/
def outcome {α : Type} (r : KeyTable × Except OpengpgError α) : KeyTable × Bool := (r.1, r.2.isOk)

def run (s : KeyStore) (o : Outcomes) (now : Nat) : KeyCall → KeyTable × Bool
  | .insertKey id user parsed isPrimary account =>
    outcome (insertKey validId s o now id user parsed isPrimary account)
  | .setAccountBinding user key account =>
    outcome (setAccountBinding validId s o now user key account)
  | .setPrimary user key => outcome (setPrimary validId s o now user key)
  | .deleteKey user key => outcome (deleteKey validId s o user key)

end Calls

/-! ## The property and the condition -/

/-- At most one key of a bucket is primary. -/
def UniquePrimaries (t : KeyTable) : Prop :=
  ∀ a ∈ t.rows, ∀ b ∈ t.rows, a.userId = b.userId → a.accountId = b.accountId →
    a.isPrimary = true → b.isPrimary = true → a.id = b.id

def HasPrimary (t : KeyTable) (user : Text) (account : Option Text) : Prop :=
  ∃ k ∈ t.rows, k.userId = user ∧ k.accountId = account ∧ k.isPrimary = true

/-- The call moves the primary key of the bucket to another one. -/
def Moves (t : KeyTable) (call : KeyCall) (user : Text) (account : Option Text) : Prop :=
  ∃ k ∈ t.rows, k.userId = user ∧ k.accountId = account ∧ k.isPrimary = true ∧
    ∃ new, call = .setAccountBinding user k.id new ∧ new ≠ account

/-- What a call leaves, and whether it succeeded. -/
structure KeepsPrimaries (s : KeyStore) (call : KeyCall) (r : KeyTable × Bool) : Prop where
  unique : UniquePrimaries r.1
  kept : ∀ user account, HasPrimary s.keys user account →
    HasPrimary r.1 user account ∨ Moves s.keys call user account
  failed : r.2 = false → r.1.rows = s.keys.rows

/-- There is something to demote, or to touch. -/
def Demotable (t : KeyTable) (user : Text) (account : Option Text) (now : Nat) : Prop :=
  ∃ k ∈ t.rows, inBucket user account k = true ∧ (k.isPrimary = true ∨ k.updatedAt ≠ now)

/-- The key is already what `set_primary` makes it, to the second. -/
def Settled (t : KeyTable) (user : Text) (account : Option Text) (key : Text) (now : Nat) : Prop :=
  ∀ k ∈ t.rows, inBucket user account k = true →
    k.updatedAt = now ∧ (k.isPrimary = true ↔ k.id = key)

/-- The import of `row` is not broken off between its statements, and is not given up after the
first one. -/
def InsertUndisturbed (t : KeyTable) (o : Outcomes) (now : Nat) (row : StoredKey) : Prop :=
  (row.isPrimary = true → Demotable t row.userId row.accountId now → o.demote ≠ .fails →
    o.demote = .works ∧ o.write ≠ .fails ∧ t.conflicts row = false) ∧
  ((row.isPrimary = true → o.demote = .works) → o.write ≠ .fails → t.conflicts row = false →
    o.write = .works ∧ o.reread = .works)

/-- The key is not moved to a bucket with another primary key, and the answer is read. -/
def BindUndisturbed (t : KeyTable) (o : Outcomes) (now : Nat) (k : StoredKey)
    (account : Option Text) : Prop :=
  o.write ≠ .fails →
    (o.write = .works ∧ o.reread = .works ∨ k.accountId = account ∧ k.updatedAt = now) ∧
    (k.isPrimary = true → k.accountId ≠ account → ¬ HasPrimary t k.userId account)

def PromoteUndisturbed (t : KeyTable) (o : Outcomes) (now : Nat) (k : StoredKey) : Prop :=
  (Demotable t k.userId k.accountId now → o.demote ≠ .fails →
    o.demote = .works ∧ o.write ≠ .fails) ∧
  (o.demote = .works → o.write ≠ .fails →
    o.write = .works ∧ o.reread = .works ∨ Settled t k.userId k.accountId k.id now)

/-- No access fails once a statement of the call has changed the table; a key that is imported as
primary is new where there is something to demote; and a primary key is not moved to a bucket
that has one. -/
def Undisturbed (validId : Text → Bool) (s : KeyStore) (o : Outcomes) (now : Nat) : KeyCall → Prop
  | .insertKey id user parsed isPrimary account =>
    checkInsert validId s o id user parsed account = .ok () →
      InsertUndisturbed s.keys o now (parsed.row id user isPrimary account now)
  | .setAccountBinding user key account =>
    ∀ k, checkBinding validId s o user key account = .ok k → BindUndisturbed s.keys o now k account
  | .setPrimary user key =>
    ∀ k, checkPrimary validId s o user key = .ok k → PromoteUndisturbed s.keys o now k
  | .deleteKey user key => ∀ k, checkDelete validId s o user key = .ok k → o.write ≠ .lost

/-! ## Tables -/

section Tables

variable {t : KeyTable} {user key : Text} {account : Option Text} {now : Nat}

def demoted (t : KeyTable) (user : Text) (account : Option Text) (now : Nat) : KeyTable :=
  t.updateWhere (inBucket user account) (.setPrimary false now) (setPrimary_id false now)
    (setPrimary_unique false now)

def promoted (t : KeyTable) (user key : Text) (now : Nat) : KeyTable :=
  t.updateWhere (isKey key user) (.setPrimary true now) (setPrimary_id true now)
    (setPrimary_unique true now)

def bound (t : KeyTable) (user key : Text) (account : Option Text) (now : Nat) : KeyTable :=
  t.updateWhere (isKey key user) (.setAccount account now) (setAccount_id account now)
    (setAccount_unique account now)

theorem inBucket_iff {k : StoredKey} :
    inBucket user account k = true ↔ k.userId = user ∧ k.accountId = account := by
  unfold inBucket
  rw [Bool.and_eq_true, beq_iff_eq, beq_iff_eq]

theorem isKey_iff {k : StoredKey} : isKey key user k = true ↔ k.id = key ∧ k.userId = user := by
  unfold isKey
  rw [Bool.and_eq_true, beq_iff_eq, beq_iff_eq]

theorem map_eq_self {α : Type} {l : List α} {f : α → α} :
    l.map f = l ↔ ∀ a ∈ l, f a = a := by
  have hid : l.map f = l.map id ↔ ∀ a ∈ l, f a = id a := List.map_inj_left
  rw [List.map_id] at hid
  exact hid

theorem setPrimary_eq_self {k : StoredKey} {primary : Bool} :
    k.setPrimary primary now = k ↔ k.isPrimary = primary ∧ k.updatedAt = now := by
  cases k
  simp only [StoredKey.setPrimary, StoredKey.mk.injEq, true_and]
  exact and_congr eq_comm eq_comm

theorem setAccount_eq_self {k : StoredKey} :
    k.setAccount account now = k ↔ k.accountId = account ∧ k.updatedAt = now := by
  cases k
  simp only [StoredKey.setAccount, StoredKey.mk.injEq, true_and]
  exact and_congr eq_comm eq_comm

theorem demoted_rows_eq : (demoted t user account now).rows = t.rows ↔
    ¬ Demotable t user account now := by
  refine map_eq_self.trans ?_
  unfold Demotable
  push Not
  refine forall₂_congr fun k _ => ?_
  split
  · rename_i hin
    rw [imp_iff_right hin, setPrimary_eq_self, ne_eq, Bool.not_eq_true]
  · rename_i hin
    exact iff_of_true rfl fun h => (hin h).elim

/-- What the two statements of `set_primary` make of a key of the bucket. -/
theorem promoted_demoted_rows (hkey : ∃ k ∈ t.rows, isKey key user k = true ∧
    k.accountId = account) : (promoted (demoted t user account now) user key now).rows =
      t.rows.map fun k =>
        if inBucket user account k then k.setPrimary (decide (k.id = key)) now else k := by
  obtain ⟨k₀, hk₀, hiskey, hacc⟩ := hkey
  obtain ⟨hid, huser⟩ := isKey_iff.mp hiskey
  refine List.map_map.trans (List.map_congr_left fun k hk => ?_)
  dsimp only [Function.comp]
  split
  · rename_i hin
    obtain ⟨hku, _⟩ := inBucket_iff.mp hin
    have hdemoted : isKey key user (k.setPrimary false now) = true ↔ k.id = key :=
      isKey_iff.trans (and_iff_left hku)
    by_cases hsame : k.id = key
    · rw [if_pos (hdemoted.mpr hsame), decide_eq_true hsame]
      rfl
    · rw [if_neg fun h => hsame (hdemoted.mp h), decide_eq_false hsame]
  · rename_i hin
    refine if_neg fun h => hin (inBucket_iff.mpr ?_)
    obtain ⟨hkid, hku⟩ := isKey_iff.mp h
    exact ⟨hku, t.eq_of_pk hk hk₀ (hkid.trans hid.symm) ▸ hacc⟩

theorem settled_iff (hkey : ∃ k ∈ t.rows, isKey key user k = true ∧ k.accountId = account) :
    (promoted (demoted t user account now) user key now).rows = t.rows ↔
      Settled t user account key now := by
  rw [promoted_demoted_rows hkey, map_eq_self]
  refine forall₂_congr fun k _ => ?_
  split
  · rename_i hin
    rw [imp_iff_right hin, setPrimary_eq_self, and_comm]
    refine and_congr_right fun _ => ?_
    cases k.isPrimary with
    | false => exact eq_comm.trans (decide_eq_false_iff_not.trans (by simp))
    | true => exact eq_comm.trans (decide_eq_true_iff.trans (by simp))
  · rename_i hin
    exact iff_of_true rfl fun h => (hin h).elim

theorem bound_rows_eq {k : StoredKey} (hk : k ∈ t.rows) (hkey : isKey key user k = true) :
    (bound t user key account now).rows = t.rows ↔ k.accountId = account ∧ k.updatedAt = now := by
  refine map_eq_self.trans ?_
  constructor
  · intro h
    have hself := h k hk
    rw [if_pos hkey] at hself
    exact setAccount_eq_self.mp hself
  · intro h a ha
    split
    · rename_i hakey
      have hsame : a = k :=
        t.eq_of_pk ha hk ((isKey_iff.mp hakey).1.trans (isKey_iff.mp hkey).1.symm)
      rw [hsame]
      exact setAccount_eq_self.mpr h
    · rfl

theorem deleted_rows_ne {k : StoredKey} (hk : k ∈ t.rows) (hkey : isKey key user k = true) :
    (t.deleteWhere (isKey key user)).rows ≠ t.rows := by
  intro h
  have hstays := hk
  rw [← h, KeyedTable.mem_deleteWhere] at hstays
  exact Bool.false_ne_true (hstays.2.symm.trans hkey)

end Tables

/-! ## What a call does -/

section Properties

variable {s : KeyStore} {call : KeyCall} {t : KeyTable} {user key : Text} {account : Option Text}
  {now : Nat}

/-- A call that fails has to leave the rows alone, and this is enough. -/
theorem keeps_failed (hunique : UniquePrimaries s.keys) :
    KeepsPrimaries s call (t, false) ↔ t.rows = s.keys.rows := by
  constructor
  · exact fun h => h.failed rfl
  · intro h
    refine ⟨?_, ?_, fun _ => h⟩
    · unfold UniquePrimaries
      rw [h]
      exact hunique
    · intro user account hhas
      refine .inl ?_
      unfold HasPrimary
      rw [h]
      exact hhas

theorem mem_demoted {b : StoredKey} : b ∈ (demoted t user account now).rows ↔
    ∃ a ∈ t.rows, (if inBucket user account a then a.setPrimary false now else a) = b :=
  t.mem_updateWhere _ _ _ _ b

theorem mem_bound {b : StoredKey} : b ∈ (bound t user key account now).rows ↔
    ∃ a ∈ t.rows, (if isKey key user a then a.setAccount account now else a) = b :=
  t.mem_updateWhere _ _ _ _ b

/-- Demoting leaves no primary key in the bucket, and the others as they are. -/
theorem primary_of_demoted {b : StoredKey} (hb : b ∈ (demoted t user account now).rows)
    (hprimary : b.isPrimary = true) : b ∈ t.rows ∧ inBucket user account b = false := by
  obtain ⟨a, ha, rfl⟩ := mem_demoted.mp hb
  by_cases hin : inBucket user account a = true
  · rw [if_pos hin] at hprimary
    cases hprimary
  · rw [if_neg hin]
    exact ⟨ha, eq_false_of_ne_true hin⟩

theorem mem_demoted_of_other {a : StoredKey} (ha : a ∈ t.rows)
    (hin : inBucket user account a = false) : a ∈ (demoted t user account now).rows :=
  mem_demoted.mpr ⟨a, ha, if_neg (hin ▸ Bool.false_ne_true)⟩

theorem keeps_insert (hunique : UniquePrimaries s.keys) {row : StoredKey}
    (hrow : row.isPrimary = false) (ht : t.rows = s.keys.rows ++ [row]) :
    KeepsPrimaries s call (t, true) := by
  have hold : ∀ k ∈ t.rows, k.isPrimary = true → k ∈ s.keys.rows := by
    intro k hk hprimary
    rw [ht] at hk
    rcases List.mem_append.mp hk with hk' | hk'
    · exact hk'
    · rw [List.mem_singleton.mp hk', hrow] at hprimary
      cases hprimary
  refine ⟨?_, ?_, fun h => Bool.noConfusion h⟩
  · intro a ha b hb huser hacc hpa hpb
    exact hunique a (hold a ha hpa) b (hold b hb hpb) huser hacc hpa hpb
  · rintro user account ⟨k, hk, hkey⟩
    refine .inl ⟨k, ?_, hkey⟩
    rw [ht]
    exact List.mem_append_left _ hk

theorem keeps_insert_primary (hunique : UniquePrimaries s.keys) {row : StoredKey}
    (hrow : row.isPrimary = true) (hin : inBucket user account row = true)
    (ht : t.rows = (demoted s.keys user account now).rows ++ [row]) :
    KeepsPrimaries s call (t, true) := by
  obtain ⟨huser, hacc⟩ := inBucket_iff.mp hin
  have hold : ∀ k ∈ t.rows, k.isPrimary = true →
      k = row ∨ k ∈ s.keys.rows ∧ inBucket user account k = false := by
    intro k hk hprimary
    rw [ht] at hk
    rcases List.mem_append.mp hk with hk' | hk'
    · exact .inr (primary_of_demoted hk' hprimary)
    · exact .inl (List.mem_singleton.mp hk')
  have hclash : ∀ k, inBucket user account k = false → k.userId = row.userId →
      k.accountId ≠ row.accountId := by
    intro k hout hku hka
    exact Bool.false_ne_true
      (hout.symm.trans (inBucket_iff.mpr ⟨hku.trans huser, hka.trans hacc⟩))
  refine ⟨?_, ?_, fun h => Bool.noConfusion h⟩
  · intro a ha b hb hu hc hpa hpb
    rcases hold a ha hpa with rfl | ⟨ha', hout⟩
    · rcases hold b hb hpb with rfl | ⟨_, hout'⟩
      · rfl
      · exact (hclash b hout' hu.symm hc.symm).elim
    · rcases hold b hb hpb with rfl | ⟨hb', _⟩
      · exact (hclash a hout hu hc).elim
      · exact hunique a ha' b hb' hu hc hpa hpb
  · rintro u c ⟨k, hk, hku, hka, hprimary⟩
    refine .inl ?_
    unfold HasPrimary
    rw [ht]
    cases hout : inBucket user account k with
    | false => exact ⟨k, List.mem_append_left _ (mem_demoted_of_other hk hout), hku, hka, hprimary⟩
    | true =>
      obtain ⟨hku', hka'⟩ := inBucket_iff.mp hout
      exact ⟨row, List.mem_append_right _ List.mem_cons_self, huser.trans (hku'.symm.trans hku),
        hacc.trans (hka'.symm.trans hka), hrow⟩

theorem keeps_promote (hunique : UniquePrimaries s.keys)
    (hkey : ∃ k ∈ s.keys.rows, isKey key user k = true ∧ k.accountId = account) :
    KeepsPrimaries s call (promoted (demoted s.keys user account now) user key now, true) := by
  have hmem : ∀ b, b ∈ (promoted (demoted s.keys user account now) user key now).rows ↔
      ∃ a ∈ s.keys.rows,
        (if inBucket user account a then a.setPrimary (decide (a.id = key)) now else a) = b := by
    intro b
    rw [promoted_demoted_rows hkey, List.mem_map]
  -- a primary key of the bucket is the one that was promoted
  have hold : ∀ b ∈ (promoted (demoted s.keys user account now) user key now).rows,
      b.isPrimary = true → inBucket user account b = true ∧ b.id = key ∨
        inBucket user account b = false ∧ b ∈ s.keys.rows := by
    intro b hb hprimary
    obtain ⟨a, ha, rfl⟩ := (hmem b).mp hb
    by_cases hin : inBucket user account a = true
    · rw [if_pos hin] at hprimary ⊢
      exact .inl ⟨hin, decide_eq_true_iff.mp hprimary⟩
    · rw [if_neg hin]
      exact .inr ⟨eq_false_of_ne_true hin, ha⟩
  have hsame : ∀ a b : StoredKey, a.userId = b.userId → a.accountId = b.accountId →
      inBucket user account a = inBucket user account b := by
    intro a b hu hc
    unfold inBucket
    rw [hu, hc]
  refine ⟨?_, ?_, fun h => Bool.noConfusion h⟩
  · intro a ha b hb hu hc hpa hpb
    rcases hold a ha hpa with ⟨hin, haid⟩ | ⟨hout, ha'⟩
    · rcases hold b hb hpb with ⟨_, hbid⟩ | ⟨hout', _⟩
      · exact haid.trans hbid.symm
      · exact (Bool.false_ne_true (hout'.symm.trans ((hsame a b hu hc).symm.trans hin))).elim
    · rcases hold b hb hpb with ⟨hin', _⟩ | ⟨_, hb'⟩
      · exact (Bool.false_ne_true (hout.symm.trans ((hsame a b hu hc).trans hin'))).elim
      · exact hunique a ha' b hb' hu hc hpa hpb
  · rintro u c ⟨k, hk, hku, hka, hprimary⟩
    refine .inl ?_
    by_cases hin : inBucket user account k = true
    · obtain ⟨hku', hka'⟩ := inBucket_iff.mp hin
      obtain ⟨k₀, hk₀, hiskey, hacc⟩ := hkey
      obtain ⟨hid, huser⟩ := isKey_iff.mp hiskey
      refine ⟨k₀.setPrimary true now, (hmem _).mpr ⟨k₀, hk₀, ?_⟩, huser.trans (hku'.symm.trans hku),
        hacc.trans (hka'.symm.trans hka), rfl⟩
      rw [if_pos (inBucket_iff.mpr ⟨huser, hacc⟩), decide_eq_true hid]
    · exact ⟨k, (hmem k).mpr ⟨k, hk, if_neg hin⟩, hku, hka, hprimary⟩

/-- A key may be moved exactly where it does not become a second primary key. -/
theorem keeps_bind (hunique : UniquePrimaries s.keys) {k : StoredKey} (hk : k ∈ s.keys.rows)
    (hkey : isKey key user k = true) :
    KeepsPrimaries s (.setAccountBinding user key account) (bound s.keys user key account now, true) ↔
      (k.isPrimary = true → k.accountId ≠ account → ¬ HasPrimary s.keys user account) := by
  obtain ⟨rfl, rfl⟩ := isKey_iff.mp hkey
  have hother : ∀ a ∈ s.keys.rows, a.id = k.id → a = k := fun a ha hid => s.keys.eq_of_pk ha hk hid
  have hk' : k.setAccount account now ∈ (bound s.keys k.userId k.id account now).rows :=
    mem_bound.mpr ⟨k, hk, if_pos hkey⟩
  have hstays : ∀ a ∈ s.keys.rows, a.id ≠ k.id →
      a ∈ (bound s.keys k.userId k.id account now).rows :=
    fun a ha hne => mem_bound.mpr ⟨a, ha, if_neg fun h => hne (isKey_iff.mp h).1⟩
  have hold : ∀ b ∈ (bound s.keys k.userId k.id account now).rows,
      b = k.setAccount account now ∨ b ∈ s.keys.rows ∧ b.id ≠ k.id := by
    intro b hb
    obtain ⟨a, ha, rfl⟩ := mem_bound.mp hb
    by_cases hid : a.id = k.id
    · rw [hother a ha hid, if_pos hkey]
      exact .inl rfl
    · rw [if_neg fun h => hid (isKey_iff.mp h).1]
      exact .inr ⟨ha, hid⟩
  constructor
  · rintro ⟨hunique', _, _⟩ hprimary hmoved ⟨a, ha, hau, haa, hpa⟩
    have hne : a.id ≠ k.id := by
      intro hid
      rw [hother a ha hid] at haa
      exact hmoved haa
    exact hne (hunique' a (hstays a ha hne) (k.setAccount account now) hk' hau haa hpa hprimary)
  · intro hclash
    have hnew : ∀ b ∈ s.keys.rows, b.id ≠ k.id → b.userId = k.userId → b.accountId = account →
        k.isPrimary = true → b.isPrimary = true → False := by
      intro b hb hne hbu hba hpk hpb
      by_cases hmoved : k.accountId = account
      · exact hne (hunique b hb k hk hbu (hba.trans hmoved.symm) hpb hpk)
      · exact hclash hpk hmoved ⟨b, hb, hbu, hba, hpb⟩
    refine ⟨?_, ?_, fun h => Bool.noConfusion h⟩
    · intro a ha b hb hu hc hpa hpb
      rcases hold a ha with rfl | ⟨ha', hane⟩
      · rcases hold b hb with rfl | ⟨hb', hbne⟩
        · rfl
        · exact (hnew b hb' hbne hu.symm hc.symm hpa hpb).elim
      · rcases hold b hb with rfl | ⟨hb', _⟩
        · exact (hnew a ha' hane hu hc hpb hpa).elim
        · exact hunique a ha' b hb' hu hc hpa hpb
    · rintro u c ⟨a, ha, hau, haa, hpa⟩
      by_cases hid : a.id = k.id
      · obtain rfl := hother a ha hid
        by_cases hmoved : a.accountId = account
        · exact .inl ⟨_, hk', hau, hmoved.symm.trans haa, hpa⟩
        · exact .inr ⟨a, ha, hau, haa, hpa, account, hau ▸ rfl, fun e => hmoved (haa.trans e.symm)⟩
      · exact .inl ⟨a, hstays a ha hid, hau, haa, hpa⟩

theorem keeps_delete (hunique : UniquePrimaries s.keys) {k : StoredKey} (hk : k ∈ s.keys.rows)
    (hkey : isKey key user k = true) (hprimary : k.isPrimary = false) :
    KeepsPrimaries s call (s.keys.deleteWhere (isKey key user), true) := by
  refine ⟨?_, ?_, fun h => Bool.noConfusion h⟩
  · intro a ha b hb
    exact hunique a (List.mem_of_mem_filter ha) b (List.mem_of_mem_filter hb)
  · rintro u c ⟨a, ha, hau, haa, hpa⟩
    refine .inl ⟨a, (s.keys.mem_deleteWhere _ a).mpr ⟨ha, ?_⟩, hau, haa, hpa⟩
    refine eq_false_of_ne_true fun hiskey => ?_
    have hsame : a = k :=
      s.keys.eq_of_pk ha hk ((isKey_iff.mp hiskey).1.trans (isKey_iff.mp hkey).1.symm)
    rw [hsame, hprimary] at hpa
    cases hpa

end Properties

/-! ## What the checks tell -/

section Checks

variable {validId : Text → Bool} {s : KeyStore} {t : KeyTable} {o : Outcomes} {c : CallOutcome}
  {user key : Text} {account : Option Text} {now : Nat}

theorem idValue_ok {id : Text} {what : String} (h : idValue validId id what = .ok ()) :
    validId id = true := by
  unfold idValue at h
  split at h
  · assumption
  · cases h

theorem getKey_eq (huser : validId user = true) (hkey : validId key = true) :
    getKey validId t c user key =
      if c = .works then .ok (t.rows.find? (isKey key user)) else .error .database := by
  unfold getKey idValue
  rw [if_pos huser, if_pos hkey]
  rfl

/-- A key that was found is there, and its ids are ids. -/
structure Found (validId : Text → Bool) (t : KeyTable) (user key : Text) (k : StoredKey) :
    Prop where
  mem : k ∈ t.rows
  isKey : isKey key user k = true
  user : validId user = true
  key : validId key = true

theorem getKey_found {k : StoredKey} (h : getKey validId t c user key = .ok (some k)) :
    Found validId t user key k := by
  cases huser : idValue validId user "user" with
  | error e =>
    unfold getKey at h
    rw [huser] at h
    cases h
  | ok =>
    cases hkey : idValue validId key "key" with
    | error e =>
      unfold getKey at h
      rw [huser, hkey] at h
      cases h
    | ok =>
      have huser' := idValue_ok huser
      have hkey' := idValue_ok hkey
      rw [getKey_eq huser' hkey'] at h
      split at h
      · have hfind := Except.ok.inj h
        exact ⟨List.mem_of_find?_eq_some hfind, List.find?_some hfind, huser', hkey'⟩
      · cases h

theorem checkBinding_found {k : StoredKey} (h : checkBinding validId s o user key account = .ok k) :
    Found validId s.keys user key k := by
  unfold checkBinding at h
  cases hget : getKey validId s.keys o.load user key with
  | error e =>
    rw [hget] at h
    cases h
  | ok r =>
    rw [hget] at h
    cases r with
    | none => cases h
    | some existing =>
      have hsame : existing = k := by
        cases account with
        | none =>
          dsimp only [bind, Except.bind] at h
          split at h
          · cases h
          · exact Except.ok.inj h
        | some a =>
          dsimp only [bind, Except.bind] at h
          split at h
          · cases h
          · split at h
            · cases h
            · exact Except.ok.inj h
      rw [← hsame]
      exact getKey_found hget

theorem checkPrimary_found {k : StoredKey} (h : checkPrimary validId s o user key = .ok k) :
    Found validId s.keys user key k := by
  unfold checkPrimary at h
  cases hget : getKey validId s.keys o.load user key with
  | error e =>
    rw [hget] at h
    cases h
  | ok r =>
    rw [hget] at h
    cases r with
    | none => cases h
    | some existing =>
      have hsame : existing = k := by
        dsimp only [bind, Except.bind] at h
        split at h
        · split at h
          · cases h
          · exact Except.ok.inj h
        · exact Except.ok.inj h
      rw [← hsame]
      exact getKey_found hget

theorem checkDelete_found {k : StoredKey} (h : checkDelete validId s o user key = .ok k) :
    Found validId s.keys user key k ∧ k.isPrimary = false := by
  unfold checkDelete at h
  cases hget : getKey validId s.keys o.load user key with
  | error e =>
    rw [hget] at h
    cases h
  | ok r =>
    rw [hget] at h
    cases r with
    | none => cases h
    | some existing =>
      dsimp only [bind, Except.bind] at h
      split at h
      · cases h
      · rename_i hprimary
        have hsame : existing = k := Except.ok.inj h
        rw [← hsame]
        exact ⟨getKey_found hget, eq_false_of_ne_true hprimary⟩

theorem checkInsert_ids {id : Text} {parsed : ParsedKey}
    (h : checkInsert validId s o id user parsed account = .ok ()) :
    validId user = true ∧ validId id = true := by
  have hids : ∀ rest : Except OpengpgError Unit,
      (do idValue validId user "user"; idValue validId id "key"; rest) = .ok () →
        validId user = true ∧ validId id = true := by
    intro rest hrest
    cases hu : idValue validId user "user" with
    | error e =>
      rw [hu] at hrest
      cases hrest
    | ok =>
      cases hk : idValue validId id "key" with
      | error e =>
        rw [hu, hk] at hrest
        cases hrest
      | ok => exact ⟨idValue_ok hu, idValue_ok hk⟩
  unfold checkInsert at h
  cases account with
  | some a =>
    dsimp only [bind, Except.bind] at h
    split at h
    · cases h
    · exact hids _ h
  | none =>
    dsimp only at h
    split at h
    · cases h
    · exact hids _ h

/-- The row is there once the statements have run, so only the reading can fail. -/
theorem outcome_reread (huser : validId user = true) (hkey : validId key = true)
    (hrow : ∃ k ∈ t.rows, isKey key user k = true) (c : CallOutcome) :
    outcome (reread validId c user key (t, .ok ())) = (t, decide (c = .works)) := by
  unfold reread
  dsimp only
  rw [getKey_eq huser hkey]
  obtain ⟨k, hfind⟩ := Option.isSome_iff_exists.mp (List.find?_isSome.mpr hrow)
  cases c with
  | works =>
    rw [if_pos rfl, hfind]
    rfl
  | fails => rfl
  | lost => rfl

end Checks

/-! ## Each call -/

section Each

variable {validId : Text → Bool} {s : KeyStore} {o : Outcomes} {call : KeyCall} {user key : Text}
  {account : Option Text} {now : Nat}

/-- A call that fails its checks changes nothing. -/
theorem keeps_unchecked (hunique : UniquePrimaries s.keys) :
    KeepsPrimaries s call (s.keys, false) :=
  (keeps_failed hunique).mpr rfl

theorem keeps_deleteKey (hunique : UniquePrimaries s.keys) :
    KeepsPrimaries s call (outcome (deleteKey validId s o user key)) ↔
      ∀ k, checkDelete validId s o user key = .ok k → o.write ≠ .lost := by
  unfold deleteKey
  cases hcheck : checkDelete validId s o user key with
  | error e =>
    refine iff_of_true (keeps_unchecked hunique) fun k hk => ?_
    cases hk
  | ok k =>
    obtain ⟨hfound, hprimary⟩ := checkDelete_found hcheck
    cases hwrite : o.write with
    | fails => exact iff_of_true (keeps_unchecked hunique) fun _ _ => CallOutcome.noConfusion
    | works =>
      exact iff_of_true (keeps_delete hunique hfound.mem hfound.isKey hprimary)
        fun _ _ => CallOutcome.noConfusion
    | lost =>
      refine iff_of_false ?_ fun h => h k rfl rfl
      exact fun h => deleted_rows_ne hfound.mem hfound.isKey ((keeps_failed hunique).mp h)

theorem forall_ok_iff {ε α : Type} {a : α} {P : α → Prop} :
    (∀ b, (Except.ok a : Except ε α) = .ok b → P b) ↔ P a := by
  refine ⟨fun h => h a rfl, ?_⟩
  intro h b hb
  rw [← Except.ok.inj hb]
  exact h

theorem keeps_setAccountBinding (hunique : UniquePrimaries s.keys) :
    KeepsPrimaries s (.setAccountBinding user key account)
        (outcome (setAccountBinding validId s o now user key account)) ↔
      ∀ k, checkBinding validId s o user key account = .ok k →
        BindUndisturbed s.keys o now k account := by
  unfold setAccountBinding
  cases hcheck : checkBinding validId s o user key account with
  | error e =>
    refine iff_of_true (keeps_unchecked hunique) fun k hk => ?_
    cases hk
  | ok k =>
    have hfound := checkBinding_found hcheck
    obtain ⟨hid, huser⟩ := isKey_iff.mp hfound.isKey
    have hrow : ∃ b ∈ (bound s.keys user key account now).rows, isKey key user b = true :=
      ⟨k.setAccount account now, mem_bound.mpr ⟨k, hfound.mem, if_pos hfound.isKey⟩,
        isKey_iff.mpr ⟨hid, huser⟩⟩
    -- a key that stays where it is does not clash
    have hfailed : KeepsPrimaries s (.setAccountBinding user key account)
        (bound s.keys user key account now, false) ↔
          (k.accountId = account ∧ k.updatedAt = now) ∧
            (k.isPrimary = true → k.accountId ≠ account → ¬ HasPrimary s.keys user account) :=
      (keeps_failed hunique).trans ((bound_rows_eq hfound.mem hfound.isKey).trans
        (and_iff_left_of_imp fun h _ hne => (hne h.1).elim).symm)
    rw [forall_ok_iff]
    unfold BindUndisturbed
    rw [huser]
    cases hwrite : o.write with
    | fails => exact iff_of_true (keeps_unchecked hunique) fun h => (h rfl).elim
    | lost =>
      have hlost : CallOutcome.lost ≠ .fails := by decide
      rw [imp_iff_right hlost]
      refine hfailed.trans (and_congr_left fun _ => ?_)
      exact (or_iff_right fun h => CallOutcome.noConfusion h.1).symm
    | works =>
      have hworks : CallOutcome.works ≠ .fails := by decide
      rw [imp_iff_right hworks]
      have hrun := outcome_reread hfound.user hfound.key hrow o.reread
      refine (iff_of_eq (congrArg (KeepsPrimaries s _) hrun)).trans ?_
      by_cases hread : o.reread = .works
      · rw [decide_eq_true hread]
        refine (keeps_bind hunique hfound.mem hfound.isKey).trans ?_
        exact (and_iff_right (.inl ⟨rfl, hread⟩)).symm
      · rw [decide_eq_false hread]
        refine hfailed.trans (and_congr_left fun _ => ?_)
        exact (or_iff_right fun h => hread h.2).symm

theorem keeps_setPrimary (hunique : UniquePrimaries s.keys) :
    KeepsPrimaries s call (outcome (setPrimary validId s o now user key)) ↔
      ∀ k, checkPrimary validId s o user key = .ok k → PromoteUndisturbed s.keys o now k := by
  unfold setPrimary
  cases hcheck : checkPrimary validId s o user key with
  | error e =>
    refine iff_of_true (keeps_unchecked hunique) fun k hk => ?_
    cases hk
  | ok k =>
    have hfound := checkPrimary_found hcheck
    obtain ⟨rfl, rfl⟩ := isKey_iff.mp hfound.isKey
    have hkey : ∃ a ∈ s.keys.rows, isKey k.id k.userId a = true ∧ a.accountId = k.accountId :=
      ⟨k, hfound.mem, hfound.isKey, rfl⟩
    have hdemoted : KeepsPrimaries s call (demoted s.keys k.userId k.accountId now, false) ↔
        ¬ Demotable s.keys k.userId k.accountId now :=
      (keeps_failed hunique).trans demoted_rows_eq
    have hsettled : KeepsPrimaries s call
        (promoted (demoted s.keys k.userId k.accountId now) k.userId k.id now, false) ↔
          Settled s.keys k.userId k.accountId k.id now :=
      (keeps_failed hunique).trans (settled_iff hkey)
    have hrow : ∃ b ∈ (promoted (demoted s.keys k.userId k.accountId now) k.userId k.id now).rows,
        isKey k.id k.userId b = true := by
      refine ⟨k.setPrimary true now, ?_, isKey_iff.mpr ⟨rfl, rfl⟩⟩
      rw [promoted_demoted_rows hkey]
      refine List.mem_map.mpr ⟨k, hfound.mem, ?_⟩
      rw [if_pos (inBucket_iff.mpr ⟨rfl, rfl⟩), decide_eq_true rfl]
    rw [forall_ok_iff]
    unfold PromoteUndisturbed
    cases hdemote : o.demote with
    | fails =>
      refine iff_of_true (keeps_unchecked hunique) ⟨fun _ h => (h rfl).elim, fun h => ?_⟩
      cases h
    | lost =>
      refine hdemoted.trans ⟨fun h => ⟨fun h' => (h h').elim, fun h' => ?_⟩, fun h h' => ?_⟩
      · cases h'
      · exact CallOutcome.noConfusion (h.1 h' (by decide)).1
    | works =>
      have hworks : CallOutcome.works ≠ .fails := by decide
      rw [imp_iff_right hworks, imp_iff_right rfl]
      cases hwrite : o.write with
      | fails =>
        refine hdemoted.trans ⟨fun h => ⟨fun h' => (h h').elim, fun h' => (h' rfl).elim⟩, ?_⟩
        exact fun h h' => (h.1 h').2 rfl
      | lost =>
        refine hsettled.trans ⟨fun h => ⟨fun _ => ⟨rfl, by decide⟩, fun _ => .inr h⟩, ?_⟩
        intro h
        rcases h.2 (by decide) with h' | h'
        · exact CallOutcome.noConfusion h'.1
        · exact h'
      | works =>
        have hrun := outcome_reread hfound.user hfound.key hrow o.reread
        refine (iff_of_eq (congrArg (KeepsPrimaries s _) hrun)).trans ?_
        by_cases hread : o.reread = .works
        · rw [decide_eq_true hread]
          refine iff_of_true (keeps_promote hunique hkey) ⟨fun _ => ⟨rfl, hworks⟩, fun _ => ?_⟩
          exact .inl ⟨rfl, hread⟩
        · rw [decide_eq_false hread]
          refine hsettled.trans ⟨fun h => ⟨fun _ => ⟨rfl, hworks⟩, fun _ => .inr h⟩, ?_⟩
          exact fun h => (h.2 hworks).resolve_left fun h' => hread h'.2

/-- An insertion that does not take effect. -/
theorem outcome_insert_taken {t : KeyTable} {row : StoredKey}
    (h : o.write = .fails ∨ t.conflicts row = true) :
    outcome (reread validId o.reread user key (writeAll t [(o.write, .insert row)])) =
      (t, false) := by
  cases hwrite : o.write with
  | fails => rfl
  | lost =>
    have htaken : (KeyStatement.insert row).apply t = none :=
      KeyedTable.insert_taken (h.resolve_left fun h' => CallOutcome.noConfusion (hwrite.symm.trans h'))
    unfold writeAll write
    rw [htaken]
    rfl
  | works =>
    have htaken : (KeyStatement.insert row).apply t = none :=
      KeyedTable.insert_taken (h.resolve_left fun h' => CallOutcome.noConfusion (hwrite.symm.trans h'))
    unfold writeAll write
    rw [htaken]
    rfl

/-- An insertion that takes effect; the call succeeds if it and the reading say so. -/
theorem outcome_insert_free {t : KeyTable} {row : StoredKey} (huser : validId row.userId = true)
    (hid : validId row.id = true) (hwrite : o.write ≠ .fails) (hfree : t.conflicts row = false) :
    ∃ t' : KeyTable, t'.rows = t.rows ++ [row] ∧
      outcome (reread validId o.reread row.userId row.id (writeAll t [(o.write, .insert row)])) =
        (t', decide (o.write = .works ∧ o.reread = .works)) := by
  obtain ⟨t', hinsert, hrows⟩ := KeyedTable.insert_free hfree
  have happly : (KeyStatement.insert row).apply t = some t' := hinsert
  refine ⟨t', hrows, ?_⟩
  have hrow : ∃ k ∈ t'.rows, isKey row.id row.userId k = true := by
    refine ⟨row, ?_, isKey_iff.mpr ⟨rfl, rfl⟩⟩
    rw [hrows]
    exact List.mem_append_right _ List.mem_cons_self
  unfold writeAll write
  rw [happly]
  cases h : o.write with
  | fails => exact (hwrite h).elim
  | lost => rfl
  | works =>
    refine (outcome_reread huser hid hrow o.reread).trans ?_
    simp

theorem demoted_conflicts (t : KeyTable) (row : StoredKey) :
    (demoted t user account now).conflicts row = t.conflicts row := by
  unfold KeyedTable.conflicts demoted KeyedTable.updateWhere
  rw [List.any_map]
  refine congrArg (List.any t.rows) (funext fun k => ?_)
  dsimp only [Function.comp]
  split
  · rfl
  · rfl

/-- With a row more in the table, a call keeps the primaries only if it succeeds. -/
theorem keeps_appended (hunique : UniquePrimaries s.keys) {t : KeyTable} {rows : List StoredKey}
    {row : StoredKey} (ht : t.rows = rows ++ [row]) (hlength : rows.length = s.keys.rows.length)
    (hdone : KeepsPrimaries s call (t, true)) {p : Prop} [Decidable p] :
    KeepsPrimaries s call (t, decide p) ↔ p := by
  by_cases hp : p
  · rw [decide_eq_true hp]
    exact iff_of_true hdone hp
  · rw [decide_eq_false hp]
    refine iff_of_false (fun h => ?_) hp
    have hsame := congrArg List.length ((keeps_failed hunique).mp h)
    rw [ht, List.length_append, hlength] at hsame
    exact Nat.succ_ne_self _ hsame

theorem keeps_insertKey (hunique : UniquePrimaries s.keys) {id : Text} {parsed : ParsedKey}
    {isPrimary : Bool} :
    KeepsPrimaries s call (outcome (insertKey validId s o now id user parsed isPrimary account)) ↔
      (checkInsert validId s o id user parsed account = .ok () →
        InsertUndisturbed s.keys o now (parsed.row id user isPrimary account now)) := by
  unfold insertKey
  cases hcheck : checkInsert validId s o id user parsed account with
  | error e =>
    refine iff_of_true (keeps_unchecked hunique) fun h => ?_
    cases h
  | ok =>
    obtain ⟨huser, hid⟩ := checkInsert_ids hcheck
    rw [imp_iff_right rfl]
    dsimp only
    have hrow : (parsed.row id user isPrimary account now).isPrimary = isPrimary := rfl
    generalize hr : parsed.row id user isPrimary account now = row at hrow ⊢
    have hru : row.userId = user := by rw [← hr]; rfl
    have hri : row.id = id := by rw [← hr]; rfl
    have hra : row.accountId = account := by rw [← hr]; rfl
    clear hr
    subst hru hri hra hrow
    have hdemoted : KeepsPrimaries s call
        (demoted s.keys row.userId row.accountId now, false) ↔
          ¬ Demotable s.keys row.userId row.accountId now :=
      (keeps_failed hunique).trans demoted_rows_eq
    have hlength : (demoted s.keys row.userId row.accountId now).rows.length =
        s.keys.rows.length := List.length_map ..
    have hconflicts : (demoted s.keys row.userId row.accountId now).conflicts row =
        s.keys.conflicts row := demoted_conflicts s.keys row
    have htaken : ¬ (o.write ≠ .fails ∧ s.keys.conflicts row = false) →
        o.write = .fails ∨ s.keys.conflicts row = true := by
      intro h
      rcases Decidable.em (o.write = .fails) with hwrite | hwrite
      · exact .inl hwrite
      · exact .inr (eq_true_of_ne_false fun hfree => h ⟨hwrite, hfree⟩)
    cases hprimary : row.isPrimary with
    | false =>
      have hnot : row.isPrimary ≠ true := hprimary ▸ Bool.false_ne_true
      by_cases hstored : o.write ≠ .fails ∧ s.keys.conflicts row = false
      · obtain ⟨t', hrows, hrun⟩ := outcome_insert_free huser hid hstored.1 hstored.2
        refine (iff_of_eq (congrArg (KeepsPrimaries s call) hrun)).trans ?_
        refine (keeps_appended hunique hrows rfl (keeps_insert hunique hprimary hrows)).trans ?_
        refine ⟨fun h => ⟨fun h' => (hnot h').elim, fun _ _ _ => h⟩, fun h => ?_⟩
        exact h.2 (fun h' => (hnot h').elim) hstored.1 hstored.2
      · have hrun : outcome (reread validId o.reread row.userId row.id
            (writeAll s.keys [(o.write, .insert row)])) = (s.keys, false) :=
          outcome_insert_taken (htaken hstored)
        refine (iff_of_eq (congrArg (KeepsPrimaries s call) hrun)).trans ?_
        refine iff_of_true (keeps_unchecked hunique) ⟨fun h' => (hnot h').elim, ?_⟩
        exact fun _ hwrite hfree => (hstored ⟨hwrite, hfree⟩).elim
    | true =>
      cases hdemote : o.demote with
      | fails =>
        refine iff_of_true (keeps_unchecked hunique) ⟨fun _ _ h => (h hdemote).elim, fun h => ?_⟩
        exact CallOutcome.noConfusion (hdemote.symm.trans (h hprimary))
      | lost =>
        have hworks : o.demote ≠ .works := hdemote ▸ CallOutcome.noConfusion
        refine hdemoted.trans ⟨fun h => ⟨fun _ h' => (h h').elim, fun h' => ?_⟩, fun h h' => ?_⟩
        · exact (hworks (h' hprimary)).elim
        · exact hworks (h.1 hprimary h' (hdemote ▸ CallOutcome.noConfusion)).1
      | works =>
        by_cases hstored : o.write ≠ .fails ∧ s.keys.conflicts row = false
        · obtain ⟨t', hrows, hrun⟩ :=
            outcome_insert_free huser hid hstored.1 (hconflicts.trans hstored.2)
          refine (iff_of_eq (congrArg (KeepsPrimaries s call) hrun)).trans ?_
          refine (keeps_appended hunique hrows hlength (keeps_insert_primary hunique hprimary
            (inBucket_iff.mpr ⟨rfl, rfl⟩) hrows)).trans ?_
          refine ⟨fun h => ⟨fun _ _ _ => ⟨hdemote, hstored⟩, fun _ _ _ => h⟩, fun h => ?_⟩
          exact h.2 (fun _ => hdemote) hstored.1 hstored.2
        · have hrun : outcome (reread validId o.reread row.userId row.id
              (writeAll (demoted s.keys row.userId row.accountId now)
                [(o.write, .insert row)])) =
              (demoted s.keys row.userId row.accountId now, false) :=
            outcome_insert_taken ((htaken hstored).imp_right hconflicts.trans)
          refine (iff_of_eq (congrArg (KeepsPrimaries s call) hrun)).trans ?_
          refine hdemoted.trans ⟨fun h => ⟨fun _ h' => (h h').elim, ?_⟩, fun h h' => ?_⟩
          · exact fun _ hwrite hfree => (hstored ⟨hwrite, hfree⟩).elim
          · exact hstored (h.1 hprimary h' (hdemote ▸ CallOutcome.noConfusion)).2

end Each

/-- A call keeps the primaries exactly when it is undisturbed. -/
theorem keeps_iff {validId : Text → Bool} {s : KeyStore} (hunique : UniquePrimaries s.keys)
    (o : Outcomes) (now : Nat) (call : KeyCall) :
    KeepsPrimaries s call (run validId s o now call) ↔ Undisturbed validId s o now call := by
  cases call with
  | insertKey id user parsed isPrimary account => exact keeps_insertKey hunique
  | setAccountBinding user key account => exact keeps_setAccountBinding hunique
  | setPrimary user key => exact keeps_setPrimary hunique
  | deleteKey user key => exact keeps_deleteKey hunique

/-! ## Runs -/

structure KeyAction where
  call : KeyCall
  outcomes : Outcomes
  now : Nat

/-- One call after the other. -/
def keySystem (validId : Text → Bool) : System KeyStore KeyAction where
  init s := UniquePrimaries s.keys
  step s a s' := s' = { s with keys := (run validId s a.outcomes a.now a.call).1 }

/-- In every state of a run of undisturbed calls the primary keys are unique, and the next call
keeps them so, keeps one where there was one and fails without a trace, exactly if it is
undisturbed too. -/
theorem primaries_unique (validId : Text → Bool) {s : KeyStore}
    (h : (keySystem validId).Reachable
      (fun s a => Undisturbed validId s a.outcomes a.now a.call) s) :
    UniquePrimaries s.keys ∧ ∀ a : KeyAction,
      KeepsPrimaries s a.call (run validId s a.outcomes a.now a.call) ↔
        Undisturbed validId s a.outcomes a.now a.call := by
  have hunique : UniquePrimaries s.keys := by
    refine h.invariant (fun _ hinit => hinit) ?_
    rintro s a _ hs hok rfl
    exact ((keeps_iff hs a.outcomes a.now a.call).mpr hok).unique
  exact ⟨hunique, fun a => keeps_iff hunique a.outcomes a.now a.call⟩

/-! ## A key imported twice, and a key moved -/

def ada : Text := "ada".toList

def publicKey (id account fingerprint : Text) (isPrimary : Bool) : StoredKey where
  id := id
  userId := ada
  accountId := some account
  fingerprint := fingerprint
  primaryEmail := "ada@example.com".toList
  emails := ["ada@example.com".toList]
  isSecret := false
  isPrimary := isPrimary
  revoked := false
  keyData := fingerprint
  createdAt := 0
  updatedAt := 0

def threeRows : List StoredKey :=
  [publicKey "1".toList "a".toList "f".toList true, publicKey "2".toList "b".toList "g".toList true,
    publicKey "3".toList "a".toList "h".toList false]

theorem threeRows_ids : (threeRows.map StoredKey.id).Nodup := by decide

theorem threeRows_unique : KeysDistinct StoredKey.unique threeRows := by
  unfold KeysDistinct
  decide

def threeKeys : KeyStore where
  accounts :=
    [⟨"a".toList, ada, "ada@example.com".toList⟩, ⟨"b".toList, ada, "ada@example.org".toList⟩]
  keys := ⟨threeRows, threeRows_ids, threeRows_unique⟩

theorem threeKeys_primaries : UniquePrimaries threeKeys.keys := by
  unfold UniquePrimaries
  decide

def anyId : Text → Bool := fun _ => true

def smooth : Outcomes := ⟨.works, .works, .works, .works, .works⟩

/-- The first key once more, as primary. -/
def reimport : KeyCall :=
  .insertKey "4".toList ada
    ⟨"f".toList, "ada@example.com".toList, ["ada@example.com".toList], false, false, "f".toList⟩
    true (some "a".toList)

def rebind : KeyCall := .setAccountBinding ada "1".toList (some "b".toList)

def summary (t : KeyTable) : List (Text × Option Text × Bool) :=
  t.rows.map fun k => (k.id, k.accountId, k.isPrimary)

theorem primaries_break : UniquePrimaries threeKeys.keys ∧
    ¬ KeepsPrimaries threeKeys reimport (run anyId threeKeys smooth 1 reimport) ∧
    ¬ KeepsPrimaries threeKeys rebind (run anyId threeKeys smooth 1 rebind) := by
  refine ⟨threeKeys_primaries, ?_, ?_⟩
  · intro h
    have hfailed : (run anyId threeKeys smooth 1 reimport).2 = false := by decide +kernel
    have hchanged : (run anyId threeKeys smooth 1 reimport).1.rows ≠ threeKeys.keys.rows := by
      decide +kernel
    exact hchanged (h.failed hfailed)
  · intro h
    have hrows : publicKey "2".toList "b".toList "g".toList true ∈
          (run anyId threeKeys smooth 1 rebind).1.rows ∧
        { publicKey "1".toList "b".toList "f".toList true with updatedAt := 1 } ∈
          (run anyId threeKeys smooth 1 rebind).1.rows := by decide +kernel
    have hsame := h.unique _ hrows.1 _ hrows.2 rfl rfl rfl rfl
    exact absurd hsame (by decide)

/-- The third key becomes the primary one of its account. -/
theorem primary_passed_on : ∃ s, (keySystem anyId).Reachable
      (fun s a => Undisturbed anyId s a.outcomes a.now a.call) s ∧
    summary s.keys = [("1".toList, some "a".toList, false), ("2".toList, some "b".toList, true),
      ("3".toList, some "a".toList, true)] ∧
    UniquePrimaries s.keys ∧ ∀ a : KeyAction,
      KeepsPrimaries s a.call (run anyId s a.outcomes a.now a.call) ↔
        Undisturbed anyId s a.outcomes a.now a.call := by
  have hok : Undisturbed anyId threeKeys smooth 1 (.setPrimary ada "3".toList) := by
    intro k _
    exact ⟨fun _ _ => ⟨rfl, CallOutcome.noConfusion⟩, fun _ _ => .inl ⟨rfl, rfl⟩⟩
  have hreach : (keySystem anyId).Reachable
      (fun s a => Undisturbed anyId s a.outcomes a.now a.call)
      { threeKeys with keys := (run anyId threeKeys smooth 1 (.setPrimary ada "3".toList)).1 } :=
    System.Reachable.take (.init threeKeys_primaries)
      (⟨.setPrimary ada "3".toList, smooth, 1⟩ : KeyAction) hok rfl
  refine ⟨_, hreach, ?_, primaries_unique anyId hreach⟩
  decide +kernel

end Lyra.Opengpg
