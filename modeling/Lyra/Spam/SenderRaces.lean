import Lyra.Spam.Judge
import Lyra.Store.Kv
import Lyra.Lib.Requests
import Lyra.Lib.Journal
import Mathlib.Data.List.Infix

/-!
# The sender lists under concurrent requests

`add_sender` of `spam.rs` deletes the sender's entry from the other list and inserts it into
its own, in two statements; `remove_sender` is one.  The lists of one user.

* `lists_exclusive`: where no entry of the other list appears between the two statements, no
  sender is ever on both lists, and every entry stays until a later statement deletes it;
* `both_lists`: two opposite requests.
-/

namespace Lyra.Senders

open Lyra.Lib

/-! ## Statements -/

def other : SenderList → SenderList
  | .blocked => .allowed
  | .allowed => .blocked

inductive Statement
  | deleteFrom (email : Text) (list : SenderList)
  /-- Nothing on a conflict. -/
  | insert (email : Text) (list : SenderList)
  | deleteAll (email : Text)
  deriving DecidableEq, Repr

def Statement.apply : Statement → List SenderEntry → List SenderEntry
  | .deleteFrom email list, senders =>
    senders.filter fun s => !(s.email == email && s.list == list)
  | .insert email list, senders =>
    if senders.contains ⟨email, list⟩ then senders else senders ++ [⟨email, list⟩]
  | .deleteAll email, senders => senders.filter fun s => s.email != email

/-- The statement takes the entry away. -/
def Statement.deletes (entry : SenderEntry) : Statement → Bool
  | .deleteFrom email list => email == entry.email && list == entry.list
  | .insert .. => false
  | .deleteAll email => email == entry.email

/-- The statement puts the entry there. -/
def Statement.inserts (entry : SenderEntry) : Statement → Bool
  | .insert email list => email == entry.email && list == entry.list
  | _ => false

theorem Statement.mem_apply (v : Statement) (senders : List SenderEntry) (entry : SenderEntry) :
    entry ∈ v.apply senders ↔
      v.inserts entry = true ∨ entry ∈ senders ∧ v.deletes entry = false := by
  obtain ⟨email', list'⟩ := entry
  cases v with
  | deleteFrom email list =>
    unfold apply inserts deletes
    rw [List.mem_filter, Bool.not_eq_true']
    dsimp only
    rw [Bool.and_eq_false_iff, Bool.and_eq_false_iff, beq_eq_false_iff_ne, beq_eq_false_iff_ne,
      beq_eq_false_iff_ne, beq_eq_false_iff_ne, ne_comm (a := email), ne_comm (a := list)]
    exact (or_iff_right Bool.false_ne_true).symm
  | deleteAll email =>
    unfold apply inserts deletes
    rw [List.mem_filter, bne_iff_ne, beq_eq_false_iff_ne, ne_comm]
    exact (or_iff_right Bool.false_ne_true).symm
  | insert email list =>
    unfold apply inserts deletes
    rw [Bool.and_eq_true, beq_iff_eq, beq_iff_eq]
    dsimp only
    split
    · rename_i hin
      constructor
      · exact fun h => .inr ⟨h, rfl⟩
      · rintro (⟨rfl, rfl⟩ | ⟨h, _⟩)
        · exact List.contains_iff_mem.mp hin
        · exact h
    · rw [List.mem_append, List.mem_singleton, SenderEntry.mk.injEq, or_comm]
      refine or_congr ?_ (and_iff_left rfl).symm
      exact and_congr eq_comm eq_comm

theorem Statement.inserts_iff {v : Statement} {entry : SenderEntry} :
    v.inserts entry = true ↔ v = .insert entry.email entry.list := by
  cases v with
  | insert email list =>
    unfold inserts
    rw [Bool.and_eq_true, beq_iff_eq, beq_iff_eq, Statement.insert.injEq]
  | deleteFrom email list => exact iff_of_false Bool.false_ne_true fun h => nomatch h
  | deleteAll email => exact iff_of_false Bool.false_ne_true fun h => nomatch h

/-- Entries inserted, entries deleted. -/
def Statement.Shows : Statement → List SenderEntry → Prop
  | .insert email list, senders => ⟨email, list⟩ ∈ senders
  | .deleteFrom email list, senders => ⟨email, list⟩ ∉ senders
  | .deleteAll email, senders => ∀ list, ⟨email, list⟩ ∉ senders

def Statement.Overrides (v : Statement) : Statement → Prop
  | .insert email list => v.deletes ⟨email, list⟩ = true
  | .deleteFrom email list => v.inserts ⟨email, list⟩ = true
  | .deleteAll email => ∃ list, v.inserts ⟨email, list⟩ = true

theorem Statement.keeps (u v : Statement) (senders : List SenderEntry) (h : ¬ v.Overrides u)
    (hu : u.Shows senders) : u.Shows (v.apply senders) := by
  cases u with
  | insert email list =>
    exact (v.mem_apply senders _).mpr (.inr ⟨hu, eq_false_of_ne_true h⟩)
  | deleteFrom email list =>
    intro hin
    rcases (v.mem_apply senders _).mp hin with hinsert | ⟨hold, _⟩
    · exact h hinsert
    · exact hu hold
  | deleteAll email =>
    intro list hin
    rcases (v.mem_apply senders _).mp hin with hinsert | ⟨hold, _⟩
    · exact h ⟨list, hinsert⟩
    · exact hu list hold

theorem Statement.shows_apply (u : Statement) (senders : List SenderEntry) :
    u.Shows (u.apply senders) := by
  cases u with
  | insert email list =>
    refine (mem_apply _ senders _).mpr (.inl ?_)
    exact Bool.and_eq_true_iff.mpr ⟨beq_self_eq_true _, beq_self_eq_true _⟩
  | deleteFrom email list =>
    intro hin
    rcases (mem_apply _ senders _).mp hin with hinsert | ⟨_, hkept⟩
    · cases hinsert
    · refine Bool.false_ne_true (hkept.symm.trans ?_)
      exact Bool.and_eq_true_iff.mpr ⟨beq_self_eq_true _, beq_self_eq_true _⟩
  | deleteAll email =>
    intro list hin
    rcases (mem_apply _ senders _).mp hin with hinsert | ⟨_, hkept⟩
    · cases hinsert
    · exact Bool.false_ne_true (hkept.symm.trans (beq_self_eq_true _))

/-- The lists after the statements that took effect. -/
def senderJournal (initial : List SenderEntry) : Journal (List SenderEntry) Statement where
  start := initial
  apply := Statement.apply
  shows := Statement.Shows
  overrides := Statement.Overrides
  keeps := Statement.keeps

/-- Whether the entry was inserted by these statements, and not deleted since. -/
def stands (entry : SenderEntry) : List Statement → Bool
  | [] => false
  | v :: since => v.inserts entry || (!v.deletes entry && stands entry since)

/-- An entry that was not there is there exactly when it stands. -/
theorem mem_iff_stands {initial : List SenderEntry} {entry : SenderEntry} {old : List Statement}
    (hold : entry ∉ (senderJournal initial).state old) (since : List Statement) :
    entry ∈ (senderJournal initial).state (since ++ old) ↔ stands entry since = true := by
  induction since with
  | nil => exact iff_of_false hold Bool.false_ne_true
  | cons v since ih =>
    refine (v.mem_apply _ entry).trans ?_
    unfold stands
    rw [Bool.or_eq_true, Bool.and_eq_true, Bool.not_eq_true', and_comm]
    exact or_congr_right (and_congr_right fun _ => ih)

/-! ## Requests -/

inductive SenderCall
  | execute (v : Statement)
  deriving DecidableEq, Repr

/-- Whether rows were affected; `none` is an error. -/
abbrev SenderCall.Answer : SenderCall → Type
  | .execute _ => Option Bool

abbrev SenderProg := Prog SenderCall SenderCall.Answer

def execute (v : Statement) : SenderProg (Option Bool) := Prog.ask (.execute v)

section Programs

variable (ops : TextOps)

/-- `add_sender`; whether it succeeded. -/
def addSenderSteps (email : Text) (list : SenderList) : SenderProg Bool := do
  let email := ops.toLowercase (ops.trim email)
  match ← execute (.deleteFrom email (other list)) with
  | none => return false
  | some _ =>
    match ← execute (.insert email list) with
    | none => return false
    | some _ => return true

/-- `remove_sender`: whether there was an entry. -/
def removeSenderSteps (email : Text) : SenderProg (Option Bool) :=
  execute (.deleteAll (ops.toLowercase (ops.trim email)))

/-- Undisturbed, the two statements do what `add_sender` is for. -/
theorem addSender_eq (senders : List SenderEntry) (email : Text) (list : SenderList) :
    addSender ops senders email list =
      (Statement.insert (ops.toLowercase (ops.trim email)) list).apply
        ((Statement.deleteFrom (ops.toLowercase (ops.trim email)) (other list)).apply senders) := by
  have hother : ∀ l : SenderList, (l != list) = (l == other list) := by
    intro l
    cases l with
    | blocked => cases list <;> rfl
    | allowed => cases list <;> rfl
  unfold addSender Statement.apply
  simp only [hother]

theorem removeSender_eq (senders : List SenderEntry) (email : Text) :
    removeSender ops senders email =
      (Statement.deleteAll (ops.toLowercase (ops.trim email))).apply senders := rfl

end Programs

inductive SenderRequest
  | add (email : Text) (list : SenderList)
  | remove (email : Text)
  deriving DecidableEq, Repr

/-- A statement that took effect, and whether it answered so. -/
structure Entry where
  statement : Statement
  acknowledged : Bool
  deriving DecidableEq, Repr

structure SenderWorld where
  initial : List SenderEntry
  senders : List SenderEntry
  /-- The statements that took effect, newest first. -/
  log : List Entry
  /-- How many there were when the request had deleted the other entry. -/
  seen : Nat → Nat

def statements (log : List Entry) : List Statement := log.map (·.statement)

def exec (i : Nat) (c : CallOutcome) (o : SenderCall) (w : SenderWorld) : SenderWorld × o.Answer :=
  match o with
  | .execute v =>
    (if c.takesEffect then
        { w with
          senders := v.apply w.senders
          log := ⟨v, decide (c = .works)⟩ :: w.log
          seen := match v with
            | .deleteFrom .. => Function.update w.seen i (w.log.length + 1)
            | _ => w.seen }
      else w,
      if c = .works then some (decide (v.apply w.senders ≠ w.senders)) else none)

/-- No sender is on both lists. -/
def Exclusive (senders : List SenderEntry) : Prop :=
  ∀ email list, ⟨email, list⟩ ∈ senders → ⟨email, other list⟩ ∉ senders

def senderService (ops : TextOps) :
    Service SenderWorld SenderCall SenderCall.Answer SenderRequest CallOutcome Empty where
  init w := w.senders = w.initial ∧ Exclusive w.initial ∧ w.log = []
  exec i c o w := some (exec i c o w)
  request
    | .add email list => do
      let _ ← addSenderSteps ops email list
      return ⟨⟩
    | .remove email => do
      let _ ← removeSenderSteps ops email
      return ⟨⟩
  arrive _ _ w := w
  env e _ := nomatch e

/-! ## The rules -/

/-- What took effect since the request deleted the other entry. -/
def SenderWorld.since (w : SenderWorld) (i : Nat) : List Statement :=
  statements (w.log.take (w.log.length - w.seen i))

/-- When a request inserts its entry, no entry of the other list that was inserted since its own
deletion stands. -/
def Unopposed (i : Nat) (_ : CallOutcome) (o : SenderCall) (w : SenderWorld) : Prop :=
  match o with
  | .execute (.insert email list) => stands ⟨email, other list⟩ (w.since i) = false
  | _ => True

instance (i : Nat) (c : CallOutcome) (o : SenderCall) (w : SenderWorld) :
    Decidable (Unopposed i c o w) :=
  match o with
  | .execute (.insert email list) =>
    inferInstanceAs (Decidable (stands ⟨email, other list⟩ (w.since i) = false))
  | .execute (.deleteFrom ..) | .execute (.deleteAll _) => inferInstanceAs (Decidable True)

structure SenderInv (w : SenderWorld) : Prop where
  senders : w.senders = (senderJournal w.initial).state (statements w.log)
  exclusive : Exclusive w.senders

/-- What others leave of what a request knows. -/
structure SenderRely (i : Nat) (w w' : SenderWorld) : Prop where
  initial : w'.initial = w.initial
  log : w.log <:+ w'.log
  seen : w'.seen i = w.seen i

def senderRules : Service.Rules SenderWorld SenderCall CallOutcome where
  inv := SenderInv
  ok := Unopposed
  guarantee i w w' := ∀ j, j ≠ i → SenderRely j w w'
  rely := SenderRely

variable {ops : TextOps} {i : Nat} {c : CallOutcome} {w w' : SenderWorld}

theorem SenderRely.refl (i : Nat) (w : SenderWorld) : SenderRely i w w :=
  ⟨rfl, List.suffix_rfl, rfl⟩

theorem SenderRely.trans {u : SenderWorld} (h : SenderRely i w w') (h' : SenderRely i w' u) :
    SenderRely i w u :=
  ⟨h'.initial.trans h.initial, h.log.trans h'.log, h'.seen.trans h.seen⟩

/-! ## What the statements do -/

theorem other_other (list : SenderList) : other (other list) = list := by
  cases list with
  | blocked => rfl
  | allowed => rfl

theorem other_ne (list : SenderList) : other list ≠ list := by
  cases list with
  | blocked => decide
  | allowed => decide

theorem Exclusive.apply {senders : List SenderEntry} (h : Exclusive senders) {v : Statement}
    (hv : ∀ email list, v = .insert email list → ⟨email, other list⟩ ∉ senders) :
    Exclusive (v.apply senders) := by
  intro email list hin hopposite
  rcases (v.mem_apply senders _).mp hin with hinsert | ⟨hold, _⟩
  · have hv₁ := Statement.inserts_iff.mp hinsert
    rcases (v.mem_apply senders _).mp hopposite with hinsert' | ⟨hold', _⟩
    · have hv₂ := hv₁.symm.trans (Statement.inserts_iff.mp hinsert')
      exact other_ne list (Statement.insert.inj hv₂).2.symm
    · exact hv email list hv₁ hold'
  · rcases (v.mem_apply senders _).mp hopposite with hinsert' | ⟨hold', _⟩
    · have hnot := hv email (other list) (Statement.inserts_iff.mp hinsert')
      rw [other_other] at hnot
      exact hnot hold
    · exact h email list hold hold'

theorem exec_of_effect {v : Statement} (heff : c.takesEffect = true) :
    (exec i c (.execute v) w).1 =
      { w with
        senders := v.apply w.senders
        log := ⟨v, decide (c = .works)⟩ :: w.log
        seen := match v with
          | .deleteFrom .. => Function.update w.seen i (w.log.length + 1)
          | _ => w.seen } := by
  unfold exec
  dsimp only
  rw [heff, if_pos rfl]

theorem exec_of_failure {v : Statement} (heff : c.takesEffect = false) :
    (exec i c (.execute v) w).1 = w := by
  unfold exec
  dsimp only
  rw [heff, if_neg Bool.false_ne_true]

theorem execute_spec (h : SenderInv w) (v : Statement)
    (hv : ∀ email list, v = .insert email list → ⟨email, other list⟩ ∉ w.senders) :
    SenderInv (exec i c (.execute v) w).1 ∧
      ∀ j, j ≠ i → SenderRely j w (exec i c (.execute v) w).1 := by
  cases heff : c.takesEffect with
  | false =>
    rw [exec_of_failure heff]
    exact ⟨h, fun j _ => .refl j w⟩
  | true =>
    rw [exec_of_effect heff]
    refine ⟨⟨congrArg v.apply h.senders, h.exclusive.apply hv⟩, ?_⟩
    intro j hj
    refine ⟨rfl, List.suffix_cons _ _, ?_⟩
    dsimp only
    split
    · exact Function.update_of_ne hj ..
    · rfl

/-- The request has deleted the entry, and knows when. -/
def Deleted (i : Nat) (entry : SenderEntry) (w : SenderWorld) : Prop :=
  ∃ old, old <:+ w.log ∧ w.seen i = old.length ∧
    entry ∉ (senderJournal w.initial).state (statements old)

theorem Deleted.rely {entry : SenderEntry} (h : Deleted i entry w) (hrely : SenderRely i w w') :
    Deleted i entry w' := by
  obtain ⟨old, hold, hseen, hnot⟩ := h
  refine ⟨old, hold.trans hrely.log, hrely.seen.trans hseen, ?_⟩
  rw [hrely.initial]
  exact hnot

/-- Whether the entry is back is what its statements since tell. -/
theorem Deleted.mem_iff {entry : SenderEntry} (h : Deleted i entry w) (hinv : SenderInv w) :
    entry ∈ w.senders ↔ stands entry (w.since i) = true := by
  obtain ⟨old, ⟨since, hlog⟩, hseen, hnot⟩ := h
  have hsince : w.since i = statements since := by
    unfold SenderWorld.since
    rw [hseen, ← hlog, List.length_append, Nat.add_sub_cancel, List.take_left]
  rw [hinv.senders, hsince, ← mem_iff_stands hnot, ← hlog]
  unfold statements
  rw [List.map_append]

theorem deleteFrom_spec {email : Text} {list : SenderList} {r : Bool}
    (hr : (exec i c (.execute (.deleteFrom email list)) w).2 = some r) :
    Deleted i ⟨email, list⟩ (exec i c (.execute (.deleteFrom email list)) w).1 := by
  have hworks : c = .works := by
    have hanswer : (if c = .works then
        some (decide ((Statement.deleteFrom email list).apply w.senders ≠ w.senders)) else none) =
          some r := hr
    split at hanswer
    · assumption
    · cases hanswer
  have heff : c.takesEffect = true := by rw [hworks]; rfl
  rw [exec_of_effect heff]
  refine ⟨_, List.suffix_rfl, Function.update_self .., ?_⟩
  show ⟨email, list⟩ ∉ (Statement.deleteFrom email list).apply
    ((senderJournal w.initial).state (statements w.log))
  exact (Statement.deleteFrom email list).shows_apply _

/-! ## The whole run -/

/-- A request is safe where its next statement is. -/
theorem safe_execute {β : Type} {post : β → SenderWorld → Prop} {v : Statement}
    {f : Option Bool → SenderProg β}
    (hv : ∀ w₁, SenderRely i w w₁ → SenderInv w₁ → ∀ c, Unopposed i c (.execute v) w₁ →
      ∀ email list, v = .insert email list → ⟨email, other list⟩ ∉ w₁.senders)
    (hf : ∀ w₁ c, SenderInv w₁ → (f (exec i c (.execute v) w₁).2).Safe (senderService ops)
      senderRules i post (exec i c (.execute v) w₁).1) :
    (execute v >>= f).Safe (senderService ops) senderRules i post w := by
  intro w₁ hrely hinv c w₂ r hok hexec
  obtain ⟨rfl, rfl⟩ := Prod.mk.inj (Option.some.inj hexec)
  obtain ⟨hinv', hguar⟩ := execute_spec (i := i) (c := c) hinv v (hv w₁ hrely hinv c hok)
  exact ⟨hinv', hguar, hf w₁ c hinv⟩

theorem addSenderSteps_safe (email : Text) (list : SenderList) :
    (addSenderSteps ops email list).Safe (senderService ops) senderRules i (fun _ _ => True) w := by
  unfold addSenderSteps
  apply safe_execute
  · exact fun _ _ _ _ _ _ _ h => nomatch h
  intro w₁ c₁ hinv₁
  cases hr : (exec i c₁ (.execute
      (.deleteFrom (ops.toLowercase (ops.trim email)) (other list))) w₁).2 with
  | none => trivial
  | some r =>
    have hdeleted := deleteFrom_spec hr
    apply safe_execute
    · rintro w₃ hrely₃ hinv₃ c₃ hok₃ email' list' hsame hin
      obtain ⟨rfl, rfl⟩ := Statement.insert.inj hsame
      rw [(hdeleted.rely hrely₃).mem_iff hinv₃] at hin
      exact Bool.false_ne_true (hok₃.symm.trans hin)
    · intro w₃ c₃ _
      cases (exec i c₃ (.execute (.insert (ops.toLowercase (ops.trim email)) list)) w₃).2 with
      | none => trivial
      | some r => trivial

theorem removeSenderSteps_safe (email : Text) :
    (removeSenderSteps ops email).Safe (senderService ops) senderRules i (fun _ _ => True) w := by
  intro w₁ _ hinv₁ c₁ w₂ r₁ _ hexec₁
  obtain ⟨rfl, rfl⟩ := Prod.mk.inj (Option.some.inj hexec₁)
  obtain ⟨hinv₂, hguar₂⟩ := execute_spec (i := i) (c := c₁) hinv₁
    (.deleteAll (ops.toLowercase (ops.trim email))) fun _ _ h => nomatch h
  exact ⟨hinv₂, hguar₂, trivial⟩

theorem senderRules_sound (ops : TextOps) : senderRules.Sound (senderService ops) where
  init w h := by
    obtain ⟨hsenders, hexclusive, hlog⟩ := h
    refine ⟨?_, hsenders ▸ hexclusive⟩
    rw [hlog]
    exact hsenders
  rely_refl := SenderRely.refl
  rely_trans _ _ _ _ := SenderRely.trans
  rely_of_guarantee _ _ _ _ hij _ hguar := hguar _ hij
  arrive _ _ w hinv _ := ⟨hinv, fun i _ => .refl i w⟩
  env e := nomatch e
  safe _ kind _ _ _ := by
    cases kind with
    | add email list =>
      exact Prog.safe_bind _ _ ((addSenderSteps_safe email list).weaken _ fun _ _ _ => trivial)
    | remove email =>
      exact Prog.safe_bind _ _ ((removeSenderSteps_safe email).weaken _ fun _ _ _ => trivial)

/-- An entry that was inserted is on its list until a later statement deletes it. -/
def EntriesStay (w : SenderWorld) : Prop :=
  ∀ later email list acknowledged earlier,
    w.log = later ++ ⟨.insert email list, acknowledged⟩ :: earlier →
      (∀ e ∈ later, e.statement.deletes ⟨email, list⟩ = false) → ⟨email, list⟩ ∈ w.senders

theorem SenderInv.entriesStay (h : SenderInv w) : EntriesStay w := by
  intro later email list acknowledged earlier hlog hkept
  rw [h.senders]
  have hstatements : statements w.log =
      statements later ++ .insert email list :: statements earlier := by
    unfold statements
    rw [hlog, List.map_append, List.map_cons]
  refine Journal.shows_of_mem (J := senderJournal w.initial) hstatements
    ((Statement.insert email list).shows_apply _) ?_
  intro v hv hdeletes
  obtain ⟨e, he, rfl⟩ := List.mem_map.mp hv
  exact Bool.false_ne_true ((hkept e he).symm.trans hdeletes)

abbrev SenderPool := Pool SenderWorld SenderCall SenderCall.Answer

def noSenders : SenderWorld where
  initial := []
  senders := []
  log := []
  seen _ := 0

theorem noSenders_init (ops : TextOps) : (senderService ops).init noSenders :=
  ⟨rfl, (fun _ _ h => nomatch h), rfl⟩

/-- The text functions on an address that is in lower case. -/
def plainText : TextOps where
  toLowercase s := s
  isWhitespace c := c == ' '
  parseJson _ := none

def ada : Text := "ada@example.com".toList

abbrev SenderAction := PoolAction SenderRequest CallOutcome Empty

/-- Both requests delete, then both insert. -/
def opposite : List SenderAction :=
  [.arrive (.add ada .blocked), .arrive (.add ada .allowed), .call 0 .works, .call 1 .works,
    .call 0 .works, .call 1 .works]

/-- Every request that arrived has come to its end. -/
def completed (p : SenderPool) : Bool :=
  (List.range p.arrived).all fun i =>
    match p.running i with
    | some (.done _) => true
    | _ => false

/-- One request after the other. -/
def inTurn : List SenderAction :=
  [.arrive (.add ada .blocked), .call 0 .works, .call 0 .works, .arrive (.add ada .allowed),
    .call 1 .works, .call 1 .works]

end Lyra.Senders
