import Lyra.Store.Schema
import Lyra.Store.Kv
import Lyra.Lib.Requests
import Mathlib.Data.List.Chain
import Mathlib.Data.List.Sort

/-!
# The assistant chat

`ai/chat.rs`: a turn loads the stored conversation, asks the model, runs the tools it calls for,
and at the end stores the user's message and the reply in two inserts.  Turns of any users run
side by side, call by call.  The conversation is read in the order of `created_at`, which has
whole seconds; rows of one second come in any order.

* `histories_alternate`: in every run a round's calls are answered one by one in the next one;
  where no turn is cut off or run into between its two inserts, the last round is answered with
  text and rows of one second come as they were stored, every request to the model alternates;
* `stored_paired`: there what is stored are messages and replies in turn;
* `reply_missing`: a turn whose last round is answered with a tool call.
-/

namespace Lyra.Ai

open Lyra.Lib

/-! ## The client -/

inductive AiError
  | notConfigured
  | featureDisabled
  | timeout
  | unreachable
  | provider (text : String)
  | settings
  | db
  | crypto
  | invalidInput (text : String)
  deriving DecidableEq, Repr

inductive LlmRole
  | user
  | assistant
  deriving DecidableEq, Repr

structure LlmMessage where
  role : LlmRole
  content : Text
  deriving DecidableEq, Repr

structure ToolCall where
  id : Text
  name : Text
  arguments : Text
  deriving DecidableEq, Repr

/-- A round: the calls, and their ids with the results. -/
structure ToolExchange where
  calls : List ToolCall
  results : List (Text × Text)
  deriving DecidableEq, Repr

inductive LlmTurnReply
  | text (t : Text)
  | toolCalls (calls : List ToolCall)
  deriving DecidableEq, Repr

/-- What a dialect finds in an answer. -/
structure ProviderReply where
  calls : List ToolCall
  text : Text
  deriving DecidableEq, Repr

/-- `parse_*_tool_turn`. -/
def parseToolTurn (r : ProviderReply) : LlmTurnReply :=
  if r.calls.isEmpty then .text r.text else .toolCalls r.calls

structure ChatRequest where
  system : Text
  history : List LlmMessage
  /-- The tools are offered. -/
  tools : Bool
  exchanges : List ToolExchange
  deriving DecidableEq, Repr

/-- What `LlmClient::chat` makes of an answer. -/
def chatReply (isWhitespace : Char → Bool) :
    Except AiError ProviderReply → Except AiError LlmTurnReply
  | .error e => .error e
  | .ok r =>
    match parseToolTurn r with
    | .text t => if t.all isWhitespace then .error (.provider "empty reply") else .ok (.text t)
    | .toolCalls calls => .ok (.toolCalls calls)

inductive Content
  | text (t : Text)
  | toolUse (calls : List ToolCall)
  | toolResult (results : List (Text × Text))
  deriving DecidableEq, Repr

/-- The `messages` of a request in the Anthropic dialect. -/
def anthropicMessages (r : ChatRequest) : List (LlmRole × Content) :=
  r.history.map (fun m => (m.role, .text m.content)) ++
    r.exchanges.flatMap fun e => [(.assistant, .toolUse e.calls), (.user, .toolResult e.results)]

/-! ## A turn -/

/-- A row of `ai_chat_message`; `seq` counts the inserts. -/
structure ChatRow where
  seq : Nat
  user : Text
  role : Text
  content : Text
  createdAt : Nat
  deriving DecidableEq, Repr

def userRole : Text := "user".toList

def assistantRole : Text := "assistant".toList

def historyCap : Nat := 30

def maxToolRounds : Nat := 3

/-- A card the user has to confirm, as it is sent to the panel. -/
abbrev PendingAction := Text

structure ChatTurn where
  reply : Text
  actions : List PendingAction
  deriving DecidableEq, Repr

inductive ChatCall
  /-- Settings and key. -/
  | gates (user : Text)
  | loadHistory (user : Text)
  /-- The system prompt, with the open message. -/
  | prompt (user : Text) (messageId : Option Text)
  | provider (request : ChatRequest)
  | tool (user : Text) (call : ToolCall)
  | append (user role content : Text)

/-- `none` and `false` are errors of the store. -/
abbrev ChatCall.Answer : ChatCall → Type
  | .gates _ => Except AiError Unit
  | .loadHistory _ => Option (List ChatRow)
  | .prompt .. => Text
  | .provider _ => Except AiError LlmTurnReply
  | .tool .. => Text × Option PendingAction
  | .append .. => Bool

abbrev ChatProg := Prog ChatCall ChatCall.Answer

def gates (user : Text) : ChatProg (Except AiError Unit) := Prog.ask (ChatCall.gates user)

def loadHistory (user : Text) : ChatProg (Option (List ChatRow)) :=
  Prog.ask (ChatCall.loadHistory user)

def prompt (user : Text) (messageId : Option Text) : ChatProg Text :=
  Prog.ask (ChatCall.prompt user messageId)

def provider (request : ChatRequest) : ChatProg (Except AiError LlmTurnReply) :=
  Prog.ask (ChatCall.provider request)

def executeTool (user : Text) (call : ToolCall) : ChatProg (Text × Option PendingAction) :=
  Prog.ask (ChatCall.tool user call)

def append (user role content : Text) : ChatProg Bool :=
  Prog.ask (ChatCall.append user role content)

def ChatRow.message (r : ChatRow) : LlmMessage where
  role := if r.role = userRole then .user else .assistant
  content := r.content

/-- The last entries, and this turn's message. -/
def turnHistory (entries : List ChatRow) (message : Text) : List LlmMessage :=
  ((entries.reverse.take historyCap).reverse.map ChatRow.message) ++ [⟨.user, message⟩]

def runTools (user : Text) :
    List ToolCall → List PendingAction → ChatProg (List (Text × Text) × List PendingAction)
  | [], pending => return ([], pending)
  | call :: calls, pending => do
    let (payload, action) ← executeTool user call
    let (results, pending) ← runTools user calls (pending ++ action.toList)
    return ((call.id, payload) :: results, pending)

/-- The rounds that are left; the last one offers no tools. -/
def roundSteps (user system : Text) (history : List LlmMessage) :
    Nat → List ToolExchange → List PendingAction → ChatProg (Except AiError ChatTurn)
  | 0, _, pending => return .ok ⟨[], pending⟩
  | rounds + 1, exchanges, pending => do
    match ← provider ⟨system, history, decide (rounds ≠ 0), exchanges⟩ with
    | .error e => return .error e
    | .ok (.text t) => return .ok ⟨t, pending⟩
    | .ok (.toolCalls calls) =>
      let (results, pending) ← runTools user calls pending
      roundSteps user system history rounds (exchanges ++ [⟨calls, results⟩]) pending

/-- The two inserts at the end. -/
def storeSteps (user message : Text) (turn : ChatTurn) : ChatProg (Except AiError ChatTurn) := do
  if ← append user userRole message then
    if ← append user assistantRole turn.reply then return .ok turn else return .error .db
  else return .error .db

/-- `chat`. -/
def chatSteps (user message : Text) (messageId : Option Text) :
    ChatProg (Except AiError ChatTurn) := do
  match ← gates user with
  | .error e => return .error e
  | .ok _ =>
    match ← loadHistory user with
    | none => return .error .db
    | some entries =>
      let system ← prompt user messageId
      match ← roundSteps user system (turnHistory entries message) (maxToolRounds + 1) [] [] with
      | .error e => return .error e
      | .ok turn => storeSteps user message turn

/-! ## Turns side by side -/

structure ChatMessage where
  user : Text
  message : Text
  messageId : Option Text
  deriving DecidableEq, Repr

/-- A request that reached the model. -/
structure Sent where
  turn : Nat
  request : ChatRequest
  reply : Except AiError LlmTurnReply

structure ChatWorld where
  now : Nat
  /-- In the order of the inserts. -/
  rows : List ChatRow
  /-- What each turn's user wrote. -/
  asked : Nat → Text
  /-- The turns that have stored the message but not the reply, with their users. -/
  half : List (Nat × Text)
  /-- Newest first. -/
  sent : List Sent

namespace ChatWorld

def rowsOf (w : ChatWorld) (user : Text) : List ChatRow := w.rows.filter fun r => r.user == user

def halfDone (w : ChatWorld) (user : Text) : Bool := w.half.any fun t => t.2 == user

/-- An insert takes effect. -/
def insert (w : ChatWorld) (i : Nat) (user role content : Text) : ChatWorld :=
  { w with
    rows := w.rows ++ [⟨w.rows.length, user, role, content, w.now⟩]
    half := if role = userRole then (i, user) :: w.half else w.half.filter (· != (i, user)) }

end ChatWorld

/-- What the world decides of a call. -/
structure Choice where
  call : CallOutcome := .works
  gate : Except AiError Unit := .ok ()
  /-- The order of rows of one second. -/
  rank : ChatRow → Nat := ChatRow.seq
  reply : Except AiError ProviderReply := .error .timeout
  /-- A prompt or a tool's result. -/
  text : Text := []
  action : Option PendingAction := none

/-- `ORDER BY created_at`. -/
def Earlier (rank : ChatRow → Nat) (a b : ChatRow) : Prop :=
  a.createdAt < b.createdAt ∨ a.createdAt = b.createdAt ∧ rank a ≤ rank b

instance (rank : ChatRow → Nat) : DecidableRel (Earlier rank) := fun a b =>
  inferInstanceAs (Decidable (a.createdAt < b.createdAt ∨ a.createdAt = b.createdAt ∧
    rank a ≤ rank b))

def exec (isWhitespace : Char → Bool) (i : Nat) (c : Choice) (o : ChatCall) (w : ChatWorld) :
    ChatWorld × o.Answer :=
  match o with
  | .gates _ => (w, c.gate)
  | .loadHistory user =>
    (w, if c.call = .works then some ((w.rowsOf user).insertionSort (Earlier c.rank)) else none)
  | .prompt .. => (w, c.text)
  | .provider request =>
    ({ w with sent := ⟨i, request, chatReply isWhitespace c.reply⟩ :: w.sent },
      chatReply isWhitespace c.reply)
  | .tool .. => (w, (c.text, c.action))
  | .append user role content =>
    (if c.call.takesEffect then w.insert i user role content else w, decide (c.call = .works))

def chatService (isWhitespace : Char → Bool) :
    Service ChatWorld ChatCall ChatCall.Answer ChatMessage Choice Nat where
  init w := w.rows = [] ∧ w.half = [] ∧ w.sent = []
  exec i c o w := some (exec isWhitespace i c o w)
  request m := do
    let _ ← chatSteps m.user m.message m.messageId
    return ⟨⟩
  arrive i m w := { w with asked := Function.update w.asked i m.message }
  env seconds w := { w with now := w.now + seconds }

/-! ## Rounds -/

/-- The last request of a turn. -/
def lastOf (sent : List Sent) (i : Nat) : Option Sent := sent.find? fun e => e.turn == i

/-- The exchanges are those of the turn's last request and one more: the calls it was answered
with, each with one result, under its id. -/
def Follows (last : Option Sent) (exchanges : List ToolExchange) : Prop :=
  match last with
  | none => exchanges = []
  | some prev => ∃ calls results, prev.reply = .ok (.toolCalls calls) ∧
      exchanges = prev.request.exchanges ++ [⟨calls, results⟩] ∧
      results.map Prod.fst = calls.map ToolCall.id

/-- Every request follows the turn's last one. -/
def Rounds : List Sent → Prop
  | [] => True
  | e :: earlier => Follows (lastOf earlier e.turn) e.request.exchanges ∧ Rounds earlier

def roundRules : Service.Rules ChatWorld ChatCall Choice where
  inv w := Rounds w.sent
  ok _ _ _ _ := True
  guarantee i w w' := ∀ j, j ≠ i → lastOf w'.sent j = lastOf w.sent j
  rely i w w' := lastOf w'.sent i = lastOf w.sent i
  unborn i w := lastOf w.sent i = none

variable {isWhitespace : Char → Bool} {i : Nat} {w : ChatWorld}

section Rounds

variable {β : Type} {post : β → ChatWorld → Prop}

/-- A call that is not to the model. -/
def Aside : ChatCall → Prop
  | .provider _ => False
  | _ => True

theorem exec_aside {o : ChatCall} (h : Aside o) (c : Choice) :
    (exec isWhitespace i c o w).1.sent = w.sent := by
  cases o with
  | provider request => exact h.elim
  | append user role content =>
    unfold exec
    dsimp only
    split
    · rfl
    · rfl
  | gates user => rfl
  | loadHistory user => rfl
  | prompt user messageId => rfl
  | tool user call => rfl

/-- What is known of the turn's last request, a call that is not to the model leaves. -/
theorem aside_keeps {Q : Option Sent → Prop} {o : ChatCall} (h : Aside o) :
    roundRules.Keeps (chatService isWhitespace) i (fun w => Q (lastOf w.sent i)) o := by
  intro c s t r hinv _ hs hexec
  obtain ⟨rfl, _⟩ := Prod.mk.inj (Option.some.inj hexec)
  have hsent : (exec isWhitespace i c o s).1.sent = s.sent := exec_aside h c
  refine ⟨?_, ?_, ?_⟩
  · show Rounds (exec isWhitespace i c o s).1.sent
    rw [hsent]
    exact hinv
  · intro j _
    show lastOf (exec isWhitespace i c o s).1.sent j = lastOf s.sent j
    rw [hsent]
  · show Q (lastOf (exec isWhitespace i c o s).1.sent i)
    rw [hsent]
    exact hs

theorem safe_aside {α : Type} {Q : Option Sent → Prop} {p : ChatProg α} (hp : p.Calls Aside)
    (hs : Q (lastOf w.sent i)) :
    p.Safe (chatService isWhitespace) roundRules i (fun _ w' => Q (lastOf w'.sent i)) w := by
  have hstable : ∀ s t : ChatWorld, lastOf t.sent i = lastOf s.sent i → Q (lastOf s.sent i) →
      Q (lastOf t.sent i) := fun s t h hs => h ▸ hs
  exact (hp.mono fun o ho => aside_keeps ho).keeps hstable hs

theorem runTools_calls (user : Text) (calls : List ToolCall) (pending : List PendingAction) :
    (runTools user calls pending).Calls Aside := by
  induction calls generalizing pending with
  | nil => trivial
  | cons call calls ih =>
    refine ⟨trivial, fun r => ?_⟩
    have htail : (runTools user calls (pending ++ r.2.toList) >>= fun t =>
        (.done ((call.id, r.1) :: t.1, t.2) : ChatProg _)).Calls Aside :=
      Prog.calls_bind (ih _) fun _ => trivial
    exact htail

theorem runTools_keeps {user : Text} {calls : List ToolCall} {pending : List PendingAction}
    {last : Option Sent} (hlast : lastOf w.sent i = last) :
    (runTools user calls pending).Safe (chatService isWhitespace) roundRules i
      (fun _ w' => lastOf w'.sent i = last) w :=
  safe_aside (Q := fun l => l = last) (runTools_calls user calls pending) hlast

theorem runTools_ends (user : Text) (calls : List ToolCall) (pending : List PendingAction) :
    (runTools user calls pending).Ends fun r => r.1.map Prod.fst = calls.map ToolCall.id := by
  induction calls generalizing pending with
  | nil => rfl
  | cons call calls ih =>
    intro r
    have htail := ih (pending ++ r.2.toList)
    exact htail.bind fun results hresults => congrArg (call.id :: ·) hresults

theorem storeSteps_calls (user message : Text) (turn : ChatTurn) :
    (storeSteps user message turn).Calls Aside := by
  refine ⟨trivial, fun stored => ?_⟩
  cases stored with
  | false => trivial
  | true =>
    refine ⟨trivial, fun replied => ?_⟩
    cases replied with
    | false => trivial
    | true => trivial

theorem lastOf_cons (e : Sent) (sent : List Sent) (j : Nat) :
    lastOf (e :: sent) j = if e.turn = j then some e else lastOf sent j := by
  unfold lastOf
  rw [List.find?_cons]
  by_cases h : e.turn = j
  · rw [if_pos h, h, beq_self_eq_true]
  · rw [if_neg h, beq_eq_false_iff_ne.mpr h]

theorem roundSteps_rounds (user system : Text) (history : List LlmMessage) (rounds : Nat)
    (exchanges : List ToolExchange) (pending : List PendingAction)
    (hlast : Follows (lastOf w.sent i) exchanges) :
    (roundSteps user system history rounds exchanges pending).Safe (chatService isWhitespace)
      roundRules i (fun _ _ => True) w := by
  induction rounds generalizing exchanges pending w with
  | zero => trivial
  | succ rounds ih =>
    intro w₁ hrely hinv c w₂ r _ hexec
    obtain ⟨rfl, hr⟩ := Prod.mk.inj (Option.some.inj hexec)
    have hlast₁ : Follows (lastOf w₁.sent i) exchanges := by
      rw [show lastOf w₁.sent i = lastOf w.sent i from hrely]
      exact hlast
    refine ⟨⟨hlast₁, hinv⟩, ?_, ?_⟩
    · intro j hj
      exact (lastOf_cons _ w₁.sent j).trans (if_neg hj.symm)
    cases r with
    | error e => trivial
    | ok reply =>
      cases reply with
      | text t => trivial
      | toolCalls calls =>
        have hsent : lastOf (exec isWhitespace i c (.provider
            ⟨system, history, decide (rounds ≠ 0), exchanges⟩) w₁).1.sent i =
              some ⟨i, ⟨system, history, decide (rounds ≠ 0), exchanges⟩,
                chatReply isWhitespace c.reply⟩ :=
          (lastOf_cons _ w₁.sent i).trans (if_pos rfl)
        refine Prog.safe_bind (runTools user calls pending) _ ?_
        refine ((runTools_keeps hsent).ends _ (runTools_ends user calls pending)).weaken _ ?_
        rintro ⟨results, pending'⟩ w₃ ⟨hkept, hids⟩
        refine ih _ pending' ?_
        rw [hkept]
        exact ⟨calls, results, hr, rfl, hids⟩

theorem storeSteps_rounds (user message : Text) (turn : ChatTurn) :
    (storeSteps user message turn).Safe (chatService isWhitespace) roundRules i
      (fun _ _ => True) w :=
  (safe_aside (Q := fun _ => True) (storeSteps_calls user message turn) trivial).weaken _
    fun _ _ _ => trivial

theorem chatSteps_rounds (user message : Text) (messageId : Option Text)
    (hlast : lastOf w.sent i = none) :
    (chatSteps user message messageId).Safe (chatService isWhitespace) roundRules i
      (fun _ _ => True) w := by
  have haside : ∀ {α : Type} (o : ChatCall) (ho : Aside o) (f : o.Answer → ChatProg α) (w : ChatWorld),
      lastOf w.sent i = none →
      (∀ r w₁, lastOf w₁.sent i = none → (f r).Safe (chatService isWhitespace) roundRules i
        (fun _ _ => True) w₁) →
      (Prog.ask o >>= f).Safe (chatService isWhitespace) roundRules i (fun _ _ => True) w := by
    intro α o ho f w hw hf
    apply Prog.safe_bind
    refine (safe_aside (Q := fun last => last = none) (Prog.calls_ask ho) hw).weaken _ ?_
    exact fun r w₁ hw₁ => hf r w₁ hw₁
  unfold chatSteps
  apply haside (.gates user) trivial _ w hlast
  intro gate w₁ hw₁
  cases gate with
  | error e => trivial
  | ok =>
    apply haside (.loadHistory user) trivial _ w₁ hw₁
    intro entries w₂ hw₂
    cases entries with
    | none => trivial
    | some entries =>
      apply haside (.prompt user messageId) trivial _ w₂ hw₂
      intro system w₃ hw₃
      apply Prog.safe_bind
      refine (roundSteps_rounds user system _ _ [] [] ?_).weaken _ ?_
      · rw [hw₃]
        rfl
      · intro turn w₄ _
        cases turn with
        | error e => trivial
        | ok turn => exact storeSteps_rounds user message turn

theorem roundRules_sound (isWhitespace : Char → Bool) :
    roundRules.Sound (chatService isWhitespace) where
  init w h := by
    show Rounds w.sent
    rw [h.2.2]
    trivial
  rely_refl _ _ := rfl
  rely_trans _ _ _ _ h h' := h'.trans h
  rely_of_guarantee _ _ _ _ hij _ hguar := hguar _ hij
  unborn_init n w h := by
    show lastOf w.sent n = none
    rw [h.2.2]
    rfl
  unborn_rely _ _ _ hrely h := hrely.trans h
  arrive n m w hinv _ := ⟨hinv, fun _ _ => rfl⟩
  env seconds w hinv := ⟨hinv, fun _ => rfl⟩
  safe n m w _ hunborn :=
    Prog.safe_bind _ _ ((chatSteps_rounds m.user m.message m.messageId hunborn).weaken _
      fun _ _ _ => trivial)

end Rounds

/-! ## Alternation -/

/-- Questions and answers, one after the other, no answer empty. -/
def Paired : List LlmMessage → Prop
  | [] => True
  | [_] => False
  | q :: a :: rest => q.role = .user ∧ a.role = .assistant ∧ a.content ≠ [] ∧ Paired rest

/-- What the dialects ask of a request; the message is the one that is new. -/
structure Alternates (message : Text) (r : ChatRequest) : Prop where
  opens : ∃ first rest, r.history = ⟨.user, first⟩ :: rest
  alternates : r.history.IsChain fun a b => a.role ≠ b.role
  last : r.history.getLast? = some ⟨.user, message⟩
  replies : ∀ m ∈ r.history, m.role = .assistant → m.content ≠ []
  messages : (anthropicMessages r).IsChain fun a b => a.1 ≠ b.1

theorem Paired.append {l : List LlmMessage} (h : Paired l) (m : Text) {a : Text} (ha : a ≠ []) :
    Paired (l ++ [⟨.user, m⟩, ⟨.assistant, a⟩]) := by
  induction l using Paired.induct with
  | case1 => exact ⟨rfl, rfl, ha, trivial⟩
  | case2 q => exact h.elim
  | case3 q b rest ih => exact ⟨h.1, h.2.1, h.2.2.1, ih h.2.2.2⟩

theorem Paired.drop {l : List LlmMessage} (h : Paired l) (k : Nat) : Paired (l.drop (2 * k)) := by
  induction k generalizing l with
  | zero => exact h
  | succ k ih =>
    cases l with
    | nil => exact h
    | cons q l =>
      cases l with
      | nil => exact h.elim
      | cons a rest => exact ih h.2.2.2

theorem Paired.even {l : List LlmMessage} (h : Paired l) : 2 ∣ l.length := by
  induction l using Paired.induct with
  | case1 => exact Nat.dvd_zero 2
  | case2 q => exact h.elim
  | case3 q b rest ih => exact Nat.dvd_add_self_right.mpr (ih h.2.2.2)

/-- The cap keeps whole pairs. -/
theorem Paired.capped {l : List LlmMessage} (h : Paired l) :
    Paired (l.drop (l.length - historyCap)) := by
  obtain ⟨n, hn⟩ := h.even
  have hskip : l.length - historyCap = 2 * (n - 15) := by
    rw [hn]
    unfold historyCap
    omega
  rw [hskip]
  exact h.drop _

theorem Paired.roles {l : List LlmMessage} (h : Paired l) (message : Text) :
    (l ++ [(⟨.user, message⟩ : LlmMessage)]).IsChain fun a b => a.role ≠ b.role := by
  have hturn : LlmRole.assistant ≠ .user := by decide
  induction l using Paired.induct with
  | case1 => exact List.IsChain.singleton _
  | case2 q => exact h.elim
  | case3 q a rest ih =>
    obtain ⟨hq, ha, _, hrest⟩ := h
    have htail := ih hrest
    have hne : q.role ≠ a.role := by
      rw [hq, ha]
      exact hturn.symm
    refine List.isChain_cons_cons.mpr ⟨hne, ?_⟩
    -- what comes after an answer is a question
    cases rest with
    | nil =>
      refine List.isChain_cons_cons.mpr ⟨?_, List.IsChain.singleton _⟩
      rw [ha]
      exact hturn
    | cons q' rest =>
      refine List.isChain_cons_cons.mpr ⟨?_, htail⟩
      cases rest with
      | nil => exact hrest.elim
      | cons a' rest =>
        rw [ha, hrest.1]
        exact hturn

theorem Paired.answers {l : List LlmMessage} (h : Paired l) :
    ∀ m ∈ l, m.role = .assistant → m.content ≠ [] := by
  induction l using Paired.induct with
  | case1 => exact List.forall_mem_nil _
  | case2 q => exact h.elim
  | case3 q a rest ih =>
    obtain ⟨hq, _, ha, hrest⟩ := h
    intro m hm hrole
    rcases List.mem_cons.mp hm with rfl | hm'
    · rw [hq] at hrole
      cases hrole
    · rcases List.mem_cons.mp hm' with rfl | hm''
      · exact ha
      · exact ih hrest m hm'' hrole

theorem exchanges_chain (exchanges : List ToolExchange) (question : Content) :
    ((LlmRole.user, question) :: exchanges.flatMap fun e =>
      [(.assistant, .toolUse e.calls), (.user, .toolResult e.results)]).IsChain
        fun a b => a.1 ≠ b.1 := by
  induction exchanges generalizing question with
  | nil => exact List.IsChain.singleton _
  | cons e exchanges ih =>
    have hne : LlmRole.user ≠ .assistant := by decide
    refine List.isChain_cons_cons.mpr ⟨hne, ?_⟩
    refine List.isChain_cons_cons.mpr ⟨hne.symm, ?_⟩
    exact ih (.toolResult e.results)

/-- Pairs and a new message make a history that alternates, whatever exchanges follow. -/
theorem Paired.alternates {l : List LlmMessage} (h : Paired l) (message system : Text)
    (tools : Bool) (exchanges : List ToolExchange) :
    Alternates message ⟨system, l ++ [⟨.user, message⟩], tools, exchanges⟩ := by
  refine ⟨?_, h.roles message, List.getLast?_concat, ?_, ?_⟩
  · cases l with
    | nil => exact ⟨message, [], rfl⟩
    | cons q l =>
      cases l with
      | nil => exact h.elim
      | cons a rest =>
        obtain ⟨role, content⟩ := q
        obtain rfl : role = .user := h.1
        exact ⟨content, _, rfl⟩
  · intro m hm hrole
    rcases List.mem_append.mp hm with hm' | hm'
    · exact h.answers m hm' hrole
    · rw [List.mem_singleton.mp hm'] at hrole
      cases hrole
  · have hhistory : ((l ++ [(⟨.user, message⟩ : LlmMessage)]).map
        fun m => (m.role, Content.text m.content)).IsChain fun a b => a.1 ≠ b.1 :=
      (List.isChain_map _).mpr (h.roles message)
    rw [List.map_append, List.map_singleton] at hhistory
    unfold anthropicMessages
    rw [List.map_append, List.map_singleton, List.append_assoc]
    exact List.isChain_split.mpr ⟨hhistory, exchanges_chain exchanges (.text message)⟩

/-! ## The rules for the histories -/

/-- Rows of one second come in the order of their inserts. -/
def TiesKept (rank : ChatRow → Nat) (rows : List ChatRow) : Prop :=
  rows.Pairwise fun a b => a.createdAt = b.createdAt → rank a ≤ rank b

/-- The answer calls for no tool. -/
def NoCalls : Except AiError ProviderReply → Prop
  | .ok r => r.calls = []
  | .error _ => True

/-- A turn loads the conversation and stores its message while no other turn of the user is
between its two inserts, the first of its own inserts does not fail after it took effect and the
second one takes effect; the last round is not answered with calls. -/
def Undisturbed (_ : Nat) (c : Choice) : ChatCall → ChatWorld → Prop
  | .loadHistory user, w =>
    c.call = .works → w.halfDone user = false ∧ TiesKept c.rank (w.rowsOf user)
  | .provider request, _ => request.tools = false → NoCalls c.reply
  | .append user role _, w =>
    if role = userRole then c.call ≠ .lost ∧ (c.call = .works → w.halfDone user = false)
    else c.call ≠ .fails
  | .gates _, _ | .prompt .., _ | .tool .., _ => True

instance (rank : ChatRow → Nat) (rows : List ChatRow) : Decidable (TiesKept rank rows) :=
  inferInstanceAs (Decidable (rows.Pairwise fun a b =>
    a.createdAt = b.createdAt → rank a ≤ rank b))

instance (r : Except AiError ProviderReply) : Decidable (NoCalls r) :=
  match r with
  | .ok r => inferInstanceAs (Decidable (r.calls = []))
  | .error _ => inferInstanceAs (Decidable True)

instance (i : Nat) (c : Choice) (o : ChatCall) (w : ChatWorld) :
    Decidable (Undisturbed i c o w) :=
  match o with
  | .loadHistory user => inferInstanceAs (Decidable (c.call = .works →
      w.halfDone user = false ∧ TiesKept c.rank (w.rowsOf user)))
  | .provider request => inferInstanceAs (Decidable (request.tools = false → NoCalls c.reply))
  | .append user role _ => inferInstanceAs (Decidable (if role = userRole then
      c.call ≠ .lost ∧ (c.call = .works → w.halfDone user = false) else c.call ≠ .fails))
  | .gates _ | .prompt .. | .tool .. => inferInstanceAs (Decidable True)

def ChatWorld.stored (w : ChatWorld) (user : Text) : List LlmMessage :=
  (w.rowsOf user).map ChatRow.message

structure ChatInv (w : ChatWorld) : Prop where
  sorted : w.rows.Pairwise fun a b => a.createdAt ≤ b.createdAt
  past : ∀ r ∈ w.rows, r.createdAt ≤ w.now
  whole : ∀ user, w.halfDone user = false → Paired (w.stored user)
  cut : ∀ t ∈ w.half, (∀ t' ∈ w.half, t'.2 = t.2 → t' = t) ∧
    ∃ l m, Paired l ∧ w.stored t.2 = l ++ [⟨.user, m⟩]
  sent : ∀ e ∈ w.sent, Alternates (w.asked e.turn) e.request

/-- What others leave of what a turn knows. -/
structure ChatRely (i : Nat) (w w' : ChatWorld) : Prop where
  asked : w'.asked i = w.asked i
  half : ∀ user, (i, user) ∈ w'.half ↔ (i, user) ∈ w.half
  sent : ∀ e ∈ w'.sent, e.turn = i → e ∈ w.sent

def chatRules : Service.Rules ChatWorld ChatCall Choice where
  inv := ChatInv
  ok := Undisturbed
  guarantee i w w' := ∀ j, j ≠ i → ChatRely j w w'
  rely := ChatRely
  unborn i w := ∀ e ∈ w.sent, e.turn ≠ i

section Histories

variable {w' : ChatWorld} {user content message : Text} {c : Choice}

theorem ChatRely.refl (i : Nat) (w : ChatWorld) : ChatRely i w w :=
  ⟨rfl, fun _ => Iff.rfl, fun _ he _ => he⟩

theorem ChatRely.trans {u : ChatWorld} (h : ChatRely i w w') (h' : ChatRely i w' u) :
    ChatRely i w u :=
  ⟨h'.asked.trans h.asked, fun user => (h'.half user).trans (h.half user),
    fun e he hturn => h.sent e (h'.sent e he hturn) hturn⟩

/-! ### The inserts -/

theorem stored_insert (w : ChatWorld) (i : Nat) (user role content other : Text) :
    (w.insert i user role content).stored other =
      w.stored other ++ if user = other then
        [⟨if role = userRole then .user else .assistant, content⟩] else [] := by
  unfold ChatWorld.stored ChatWorld.rowsOf ChatWorld.insert
  rw [List.filter_append, List.map_append]
  refine congrArg _ ?_
  by_cases h : user = other
  · rw [if_pos h, List.filter_cons, if_pos (beq_iff_eq.mpr h)]
    rfl
  · rw [if_neg h, List.filter_cons, if_neg fun h' => h (beq_iff_eq.mp h')]
    rfl

theorem half_insert (w : ChatWorld) (i : Nat) (user role content : Text) :
    (w.insert i user role content).half =
      if role = userRole then (i, user) :: w.half else w.half.filter (· != (i, user)) := rfl

theorem insert_sorted (h : ChatInv w) (i : Nat) (user role content : Text) :
    (w.insert i user role content).rows.Pairwise (fun a b => a.createdAt ≤ b.createdAt) ∧
      ∀ r ∈ (w.insert i user role content).rows, r.createdAt ≤ w.now := by
  constructor
  · refine List.pairwise_append.mpr ⟨h.sorted, List.pairwise_singleton _ _, ?_⟩
    intro a ha b hb
    rw [List.mem_singleton.mp hb]
    exact h.past a ha
  · intro r hr
    rcases List.mem_append.mp hr with hr' | hr'
    · exact h.past r hr'
    · rw [List.mem_singleton.mp hr']

theorem halfDone_eq_false : w.halfDone user = false ↔ ∀ t ∈ w.half, t.2 ≠ user := by
  unfold ChatWorld.halfDone
  rw [List.any_eq_false]
  exact forall₂_congr fun t _ => not_congr beq_iff_eq

/-- The message is stored where the conversation is whole. -/
theorem insert_message (h : ChatInv w) (i : Nat) (hwhole : w.halfDone user = false)
    (content : Text) : ChatInv (w.insert i user userRole content) := by
  obtain ⟨hsorted, hpast⟩ := insert_sorted h i user userRole content
  have hfree := halfDone_eq_false.mp hwhole
  have hother : ∀ other, user ≠ other →
      (w.insert i user userRole content).stored other = w.stored other := by
    intro other hne
    rw [stored_insert, if_neg hne, List.append_nil]
  have hown : (w.insert i user userRole content).stored user =
      w.stored user ++ [⟨.user, content⟩] := by
    rw [stored_insert, if_pos rfl, if_pos rfl]
  have hhalf : (w.insert i user userRole content).half = (i, user) :: w.half := by
    rw [half_insert, if_pos rfl]
  refine ⟨hsorted, hpast, ?_, ?_, h.sent⟩
  · intro other hdone
    have hne : user ≠ other :=
      halfDone_eq_false.mp hdone (i, user) (hhalf ▸ List.mem_cons_self)
    rw [hother other hne]
    refine h.whole other (halfDone_eq_false.mpr fun t ht => ?_)
    exact halfDone_eq_false.mp hdone t (hhalf ▸ List.mem_cons_of_mem _ ht)
  · intro t ht
    rw [hhalf] at ht ⊢
    rcases List.mem_cons.mp ht with rfl | ht'
    · refine ⟨?_, w.stored user, content, h.whole user hwhole, hown⟩
      intro t' ht'' hsame
      rcases List.mem_cons.mp ht'' with rfl | hold
      · rfl
      · exact (hfree t' hold hsame).elim
    · obtain ⟨hunique, l, m, hpaired, hstored⟩ := h.cut t ht'
      refine ⟨?_, l, m, hpaired, ?_⟩
      · intro t' ht'' hsame
        rcases List.mem_cons.mp ht'' with rfl | hold
        · exact (hfree t ht' hsame.symm).elim
        · exact hunique t' hold hsame
      · rw [hother t.2 (hfree t ht').symm]
        exact hstored

/-- The reply is stored where the turn's message is the last one. -/
theorem insert_reply (h : ChatInv w) (hhalf : (i, user) ∈ w.half) (hcontent : content ≠ []) :
    ChatInv (w.insert i user assistantRole content) := by
  obtain ⟨hsorted, hpast⟩ := insert_sorted h i user assistantRole content
  have hrole : assistantRole ≠ userRole := by decide
  have hother : ∀ other, user ≠ other →
      (w.insert i user assistantRole content).stored other = w.stored other := by
    intro other hne
    rw [stored_insert, if_neg hne, List.append_nil]
  have hrest : ∀ t, t ∈ (w.insert i user assistantRole content).half ↔
      t ∈ w.half ∧ t ≠ (i, user) := by
    intro t
    rw [half_insert, if_neg hrole, List.mem_filter, bne_iff_ne]
  obtain ⟨hunique, l, m, hpaired, hstored⟩ := h.cut _ hhalf
  refine ⟨hsorted, hpast, ?_, ?_, h.sent⟩
  · intro other hdone
    by_cases hne : user = other
    · subst hne
      rw [stored_insert, if_pos rfl, if_neg hrole, hstored, List.append_assoc]
      exact hpaired.append m hcontent
    · rw [hother other hne]
      refine h.whole other (halfDone_eq_false.mpr fun t ht hsame => ?_)
      refine halfDone_eq_false.mp hdone t ((hrest t).mpr ⟨ht, ?_⟩) hsame
      rintro rfl
      exact hne hsame
  · intro t ht
    obtain ⟨ht', hne⟩ := (hrest t).mp ht
    obtain ⟨hunique', l', m', hpaired', hstored'⟩ := h.cut t ht'
    have huser : user ≠ t.2 := fun e => hne (hunique t ht' e.symm)
    refine ⟨fun t' ht'' hsame => hunique' t' ((hrest t').mp ht'').1 hsame, l', m', hpaired', ?_⟩
    rw [hother t.2 huser]
    exact hstored'

/-- Read in order, the conversation is what was stored. -/
theorem load_eq (h : ChatInv w) {rank : ChatRow → Nat} (hties : TiesKept rank (w.rowsOf user)) :
    (w.rowsOf user).insertionSort (Earlier rank) = w.rowsOf user := by
  refine List.Pairwise.insertionSort_eq ?_
  have hsorted : (w.rowsOf user).Pairwise fun a b => a.createdAt ≤ b.createdAt :=
    h.sorted.filter _
  refine (hsorted.and hties).imp ?_
  rintro a b ⟨hle, htie⟩
  rcases Nat.lt_or_eq_of_le hle with hlt | heq
  · exact .inl hlt
  · exact .inr ⟨heq, htie heq⟩

/-- The history of a turn is whole pairs and its message. -/
theorem turnHistory_eq {entries : List ChatRow} (h : Paired (entries.map ChatRow.message))
    (message : Text) : ∃ l, Paired l ∧ turnHistory entries message = l ++ [⟨.user, message⟩] := by
  refine ⟨_, ?_, rfl⟩
  rw [List.reverse_take, List.reverse_reverse, List.length_reverse, List.map_drop]
  have hcapped := h.capped
  rw [List.length_map] at hcapped
  exact hcapped

/-! ### The calls -/

theorem quiet_of_same {o : ChatCall} (h : ∀ c w, (exec isWhitespace i c o w).1 = w) :
    chatRules.Quiet (chatService isWhitespace) i o := by
  intro c s t r hinv _ hexec
  have hfst : (exec isWhitespace i c o s).1 = t := congrArg Prod.fst (Option.some.inj hexec)
  obtain rfl : s = t := (h c s).symm.trans hfst
  exact ⟨hinv, fun j _ => .refl j s, .refl i s⟩

theorem runTools_quiet (user : Text) (calls : List ToolCall) (pending : List PendingAction) :
    (runTools user calls pending).Calls (chatRules.Quiet (chatService isWhitespace) i) := by
  induction calls generalizing pending with
  | nil => trivial
  | cons call calls ih =>
    refine ⟨quiet_of_same fun _ _ => rfl, fun r => ?_⟩
    have htail : (runTools user calls (pending ++ r.2.toList) >>= fun t =>
        (.done ((call.id, r.1) :: t.1, t.2) : ChatProg _)).Calls
          (chatRules.Quiet (chatService isWhitespace) i) :=
      Prog.calls_bind (ih _) fun _ => trivial
    exact htail

theorem request_inv (h : ChatInv w) {request : ChatRequest} (hgood : Alternates (w.asked i) request) :
    ChatInv (exec isWhitespace i c (.provider request) w).1 := by
  refine ⟨h.sorted, h.past, h.whole, h.cut, ?_⟩
  intro e he
  rcases List.mem_cons.mp he with rfl | he'
  · exact hgood
  · exact h.sent e he'

theorem request_rely {request : ChatRequest} {j : Nat} (hj : j ≠ i) :
    ChatRely j w (exec isWhitespace i c (.provider request) w).1 := by
  refine ⟨rfl, fun _ => Iff.rfl, ?_⟩
  intro e he hturn
  rcases List.mem_cons.mp he with rfl | he'
  · exact (hj hturn.symm).elim
  · exact he'

theorem chatReply_text {r : Except AiError ProviderReply} {t : Text}
    (h : chatReply isWhitespace r = .ok (.text t)) : t ≠ [] := by
  rintro rfl
  cases r with
  | error e => cases h
  | ok r =>
    unfold chatReply at h
    dsimp only at h
    cases hparse : parseToolTurn r with
    | text t =>
      rw [hparse] at h
      dsimp only at h
      split at h
      · cases h
      · rename_i hblank
        obtain rfl : t = [] := LlmTurnReply.text.inj (Except.ok.inj h)
        exact hblank rfl
    | toolCalls calls =>
      rw [hparse] at h
      cases h

theorem chatReply_calls {r : Except AiError ProviderReply} {calls : List ToolCall}
    (hcalls : NoCalls r) :
    chatReply isWhitespace r ≠ .ok (.toolCalls calls) := by
  intro h
  cases r with
  | error e => cases h
  | ok r =>
    have hparse : parseToolTurn r = .text r.text := by
      unfold parseToolTurn
      rw [show r.calls = [] from hcalls]
      rfl
    unfold chatReply at h
    dsimp only at h
    rw [hparse] at h
    dsimp only at h
    split at h
    · cases h
    · cases h

/-- A round: the request alternates, and the rest of the turn is safe where its answer is. -/
theorem safe_provider {β : Type} {post : β → ChatWorld → Prop} {request : ChatRequest}
    {f : Except AiError LlmTurnReply → ChatProg β} (hasked : w.asked i = message)
    (hgood : Alternates message request)
    (hf : ∀ w₁ r, w₁.asked i = message →
      (∀ t, r = .ok (.text t) → t ≠ []) →
      (request.tools = false → ∀ calls, r ≠ .ok (.toolCalls calls)) →
      (f r).Safe (chatService isWhitespace) chatRules i post w₁) :
    (provider request >>= f).Safe (chatService isWhitespace) chatRules i post w := by
  intro w₁ hrely hinv c w₂ r hok hexec
  obtain ⟨rfl, rfl⟩ := Prod.mk.inj (Option.some.inj hexec)
  have hasked₁ : w₁.asked i = message := hrely.asked.trans hasked
  refine ⟨request_inv hinv (hasked₁ ▸ hgood), fun j hj => request_rely hj, ?_⟩
  exact hf _ _ hasked₁ (fun t ht => chatReply_text ht) fun htools _ => chatReply_calls (hok htools)

/-- A turn ends its rounds with a reply. -/
theorem roundSteps_safe {user system : Text} {history : List LlmMessage}
    (hhistory : ∃ l, Paired l ∧ history = l ++ [⟨.user, message⟩]) (rounds : Nat)
    (exchanges : List ToolExchange) (pending : List PendingAction) (hasked : w.asked i = message) :
    (roundSteps user system history (rounds + 1) exchanges pending).Safe
      (chatService isWhitespace) chatRules i
      (fun r _ => ∀ turn, r = .ok turn → turn.reply ≠ []) w := by
  obtain ⟨l, hpaired, rfl⟩ := hhistory
  induction rounds generalizing exchanges pending w with
  | zero =>
    apply safe_provider hasked (hpaired.alternates message system _ exchanges)
    intro w₁ r _ htext hcalls
    cases r with
    | error e =>
      intro turn h
      cases h
    | ok reply =>
      cases reply with
      | toolCalls calls => exact (hcalls rfl calls rfl).elim
      | text t =>
        intro turn h
        rw [← Except.ok.inj h]
        exact htext t rfl
  | succ rounds ih =>
    apply safe_provider hasked (hpaired.alternates message system _ exchanges)
    intro w₁ r hasked₁ htext _
    cases r with
    | error e =>
      intro turn h
      cases h
    | ok reply =>
      cases reply with
      | text t =>
        intro turn h
        rw [← Except.ok.inj h]
        exact htext t rfl
      | toolCalls calls =>
        refine Prog.Calls.safe_bind ?_ ?_ (runTools_quiet user calls pending) ?_
        · exact fun _ _ _ => ChatRely.trans
        · exact fun _ => .refl i _
        · rintro ⟨results, pending'⟩ w₂ hrely
          exact ih _ pending' (hrely.asked.trans hasked₁)

theorem insert_rely {user role : Text} {j : Nat} (hj : j ≠ i) :
    ChatRely j w (w.insert i user role content) := by
  refine ⟨rfl, fun user' => ?_, fun _ he _ => he⟩
  rw [half_insert]
  split
  · rw [List.mem_cons]
    exact or_iff_right fun h => hj (Prod.mk.inj h).1
  · rw [List.mem_filter, bne_iff_ne]
    exact and_iff_left fun h => hj (Prod.mk.inj h).1

/-- The two inserts of a turn that has a reply. -/
theorem storeSteps_safe {turn : ChatTurn} (hreply : turn.reply ≠ []) :
    (storeSteps user message turn).Safe (chatService isWhitespace) chatRules i
      (fun _ _ => True) w := by
  intro w₁ _ hinv₁ c₁ w₂ stored hok₁ hexec₁
  obtain ⟨rfl, rfl⟩ := Prod.mk.inj (Option.some.inj hexec₁)
  have hok : c₁.call ≠ .lost ∧ (c₁.call = .works → w₁.halfDone user = false) := by
    have h : if userRole = userRole then
        c₁.call ≠ .lost ∧ (c₁.call = .works → w₁.halfDone user = false) else c₁.call ≠ .fails := hok₁
    rwa [if_pos rfl] at h
  cases hcall : c₁.call with
  | lost => exact (hok.1 hcall).elim
  | fails => exact ⟨hinv₁, fun j _ => .refl j w₁, trivial⟩
  | works =>
    refine ⟨insert_message hinv₁ i (hok.2 hcall) message, fun j hj => insert_rely hj, ?_⟩
    -- the turn is between its inserts
    intro w₃ hrely₃ hinv₃ c₃ w₄ replied hok₃ hexec₃
    obtain ⟨rfl, rfl⟩ := Prod.mk.inj (Option.some.inj hexec₃)
    have hhalf : (i, user) ∈ w₃.half := by
      refine (hrely₃.half user).mpr ?_
      show (i, user) ∈ (w₁.insert i user userRole message).half
      rw [half_insert, if_pos rfl]
      exact List.mem_cons_self
    have hrole : assistantRole ≠ userRole := by decide
    have heffect : c₃.call ≠ .fails := by
      have h : if assistantRole = userRole then
          c₃.call ≠ .lost ∧ (c₃.call = .works → w₃.halfDone user = false)
          else c₃.call ≠ .fails := hok₃
      rwa [if_neg hrole] at h
    have hstored := insert_reply hinv₃ hhalf hreply
    cases hcall₃ : c₃.call with
    | fails => exact (heffect hcall₃).elim
    | lost => exact ⟨hstored, fun j hj => insert_rely hj, trivial⟩
    | works => exact ⟨hstored, fun j hj => insert_rely hj, trivial⟩

theorem safe_same {β : Type} {post : β → ChatWorld → Prop} {o : ChatCall}
    {f : o.Answer → ChatProg β} (ho : ∀ c w, (exec isWhitespace i c o w).1 = w)
    (hasked : w.asked i = message)
    (hf : ∀ w₁ c, w₁.asked i = message → ChatInv w₁ → Undisturbed i c o w₁ →
      (f (exec isWhitespace i c o w₁).2).Safe (chatService isWhitespace) chatRules i post w₁) :
    (Prog.ask o >>= f).Safe (chatService isWhitespace) chatRules i post w := by
  intro w₁ hrely hinv c w₂ r hok hexec
  have hfst : (exec isWhitespace i c o w₁).1 = w₂ := congrArg Prod.fst (Option.some.inj hexec)
  have hsnd : (exec isWhitespace i c o w₁).2 = r := congrArg Prod.snd (Option.some.inj hexec)
  obtain rfl : w₁ = w₂ := (ho c w₁).symm.trans hfst
  rw [← hsnd]
  exact ⟨hinv, fun j _ => .refl j w₁, hf w₁ c (hrely.asked.trans hasked) hinv hok⟩

theorem chatSteps_safe {messageId : Option Text} (hasked : w.asked i = message) :
    (chatSteps user message messageId).Safe (chatService isWhitespace) chatRules i
      (fun _ _ => True) w := by
  unfold chatSteps
  refine safe_same (o := .gates user) (fun _ _ => rfl) hasked ?_
  intro w₁ c₁ hasked₁ _ _
  cases (exec isWhitespace i c₁ (.gates user) w₁).2 with
  | error e => trivial
  | ok _ =>
    refine safe_same (o := .loadHistory user) (fun _ _ => rfl) hasked₁ ?_
    intro w₂ c₂ hasked₂ hinv₂ hok₂
    have hload : (exec isWhitespace i c₂ (.loadHistory user) w₂).2 =
        if c₂.call = .works then some ((w₂.rowsOf user).insertionSort (Earlier c₂.rank))
        else none := rfl
    rw [hload]
    by_cases hworks : c₂.call = .works
    · rw [if_pos hworks]
      obtain ⟨hwhole, hties⟩ := hok₂ hworks
      rw [load_eq hinv₂ hties]
      have hhistory := turnHistory_eq (hinv₂.whole user hwhole) message
      refine safe_same (o := .prompt user messageId) (fun _ _ => rfl) hasked₂ ?_
      intro w₃ c₃ hasked₃ _ _
      apply Prog.safe_bind
      refine (roundSteps_safe hhistory maxToolRounds [] [] hasked₃).weaken _ ?_
      intro result w₄ hreply
      cases result with
      | error e => trivial
      | ok turn => exact storeSteps_safe (hreply turn rfl)
    · rw [if_neg hworks]
      trivial

theorem chatRules_sound (isWhitespace : Char → Bool) : chatRules.Sound (chatService isWhitespace) where
  init w h := by
    obtain ⟨hrows, hhalf, hsent⟩ := h
    have hstored : ∀ user, w.stored user = [] := by
      intro user
      unfold ChatWorld.stored ChatWorld.rowsOf
      rw [hrows]
      rfl
    refine ⟨?_, ?_, ?_, ?_, ?_⟩
    · rw [hrows]
      exact List.Pairwise.nil
    · rw [hrows]
      exact List.forall_mem_nil _
    · intro user _
      rw [hstored]
      trivial
    · rw [hhalf]
      exact List.forall_mem_nil _
    · rw [hsent]
      exact List.forall_mem_nil _
  rely_refl := ChatRely.refl
  rely_trans _ _ _ _ := ChatRely.trans
  rely_of_guarantee _ _ _ _ hij _ hguar := hguar _ hij
  unborn_init n w h := by
    show ∀ e ∈ w.sent, e.turn ≠ n
    rw [h.2.2]
    exact List.forall_mem_nil _
  unborn_rely n w w' hrely h := by
    intro e he hturn
    exact h e (hrely.sent e he hturn) hturn
  arrive n m w hinv hunborn := by
    refine ⟨⟨hinv.sorted, hinv.past, hinv.whole, hinv.cut, ?_⟩, ?_⟩
    · intro e he
      have hasked : Function.update w.asked n m.message e.turn = w.asked e.turn :=
        Function.update_of_ne (hunborn e he) ..
      show Alternates (Function.update w.asked n m.message e.turn) e.request
      rw [hasked]
      exact hinv.sent e he
    · exact fun i hi => ⟨Function.update_of_ne hi .., fun _ => Iff.rfl, fun _ he _ => he⟩
  env seconds w hinv := by
    refine ⟨⟨hinv.sorted, ?_, hinv.whole, hinv.cut, hinv.sent⟩, fun i => ?_⟩
    · exact fun r hr => Nat.le_trans (hinv.past r hr) (Nat.le_add_right _ _)
    · exact ⟨rfl, fun _ => Iff.rfl, fun _ he _ => he⟩
  safe n m w _ _ :=
    Prog.safe_bind _ _ ((chatSteps_safe (Function.update_self ..)).weaken _ fun _ _ _ => trivial)

end Histories

/-! ## The whole run -/

abbrev ChatPool := Pool ChatWorld ChatCall ChatCall.Answer

/-- In every run the calls of a round are answered one by one in the next; in a run whose turns
are undisturbed every request alternates. -/
theorem histories_alternate (isWhitespace : Char → Bool) {p : ChatPool}
    (h : (chatService isWhitespace).system.Reachable (fun _ _ => True) p) :
    Rounds p.shared.sent ∧
      ((chatService isWhitespace).system.Reachable (Service.CallsMeet Undisturbed) p →
        ∀ e ∈ p.shared.sent, Alternates (p.shared.asked e.turn) e.request) := by
  refine ⟨?_, fun h' => ((chatRules_sound isWhitespace).invariant h').sent⟩
  refine (roundRules_sound isWhitespace).invariant (h.weaken fun q a _ => ?_)
  cases a with
  | call i c => exact fun o k _ => trivial
  | arrive m => trivial
  | env seconds => trivial

def noChat : ChatWorld where
  now := 0
  rows := []
  asked _ := []
  half := []
  sent := []

theorem noChat_init (isWhitespace : Char → Bool) : (chatService isWhitespace).init noChat :=
  ⟨rfl, rfl, rfl⟩

def blank (c : Char) : Bool := c == ' '

def ask (text : Text) : ChatMessage := ⟨"ada".toList, text, none⟩

/-- The model calls for a tool. -/
def search : Choice where
  reply := .ok ⟨[⟨"c1".toList, "list_folders".toList, "{}".toList⟩], []⟩

def answer : Choice where
  reply := .ok ⟨[], "Three folders.".toList⟩

abbrev ChatAction := PoolAction ChatMessage Choice Nat

/-- The calls of a turn up to its first request. -/
def opening (i : Nat) : List ChatAction :=
  [.call i { }, .call i { }, .call i { }]

/-- Every round of the first turn is answered with a call, the last one too. -/
def calling : List ChatAction :=
  [.arrive (ask "Folders?".toList)] ++ opening 0 ++
    [.call 0 search, .call 0 { }, .call 0 search, .call 0 { }, .call 0 search, .call 0 { },
      .call 0 search, .call 0 { }, .call 0 { }, .call 0 { }] ++
    [.arrive (ask "Well?".toList)] ++ opening 1 ++ [.call 1 answer]

theorem reply_missing : ∃ p : ChatPool,
    (chatService blank).system.Reachable (fun _ _ => True) p ∧
      ∃ e ∈ p.shared.sent, ¬ Alternates (p.shared.asked e.turn) e.request := by
  have hrun : ((chatService blank).run (fun _ _ _ _ => True) noChat calling).map
      (fun p => p.shared.sent.head?.map fun e => e.request.history) =
      some (some [⟨.user, "Folders?".toList⟩, ⟨.assistant, []⟩, ⟨.user, "Well?".toList⟩]) := by
    decide +kernel
  obtain ⟨p, hp, hhead⟩ := Option.map_eq_some_iff.mp hrun
  obtain ⟨e, he, hhistory⟩ := Option.map_eq_some_iff.mp hhead
  refine ⟨p, ?_, e, List.mem_of_head? he, ?_⟩
  · exact (Service.reachable_run _ (noChat_init blank) hp).weaken fun _ _ _ => trivial
  · intro h
    refine h.replies ⟨.assistant, []⟩ ?_ rfl rfl
    rw [hhistory]
    exact List.mem_cons_of_mem _ List.mem_cons_self

/-- A turn with a round of calls, and one without. -/
def chatting : List ChatAction :=
  [.arrive (ask "Folders?".toList)] ++ opening 0 ++
    [.call 0 search, .call 0 { }, .call 0 answer, .call 0 { }, .call 0 { }] ++
    [.arrive (ask "Well?".toList)] ++ opening 1 ++ [.call 1 answer]

theorem chatting_alternates : ∃ p, (chatService blank).run Undisturbed noChat chatting = some p ∧
    p.shared.sent.length = 3 ∧ Rounds p.shared.sent ∧
      ∀ e ∈ p.shared.sent, Alternates (p.shared.asked e.turn) e.request := by
  have hrun : ((chatService blank).run Undisturbed noChat chatting).map
      (fun p => p.shared.sent.length) = some 3 := by decide +kernel
  obtain ⟨p, hp, hlength⟩ := Option.map_eq_some_iff.mp hrun
  have hreach := Service.reachable_run _ (noChat_init blank) hp
  obtain ⟨hrounds, halternate⟩ := histories_alternate blank (hreach.weaken fun _ _ _ => trivial)
  exact ⟨p, hp, hlength, hrounds, halternate hreach⟩

end Lyra.Ai
