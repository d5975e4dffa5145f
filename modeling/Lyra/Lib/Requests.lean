import Lyra.Lib.Runs
import Mathlib.Logic.Function.Basic

/-!
# Requests over a shared state

A request is a program of atomic calls; any number of requests run side by side, one call
at a time, over a shared state.

* `Prog.Safe`: a request keeps an invariant and does only what its guarantee says, whatever
  the others do between its calls as far as its rely says;
* `Rules.Sound.invariant`: where every request is safe, the invariant holds in every state of
  every run whose calls meet a condition.
-/

namespace Lyra.Lib

/-! ## Programs -/

/-- Calls one after the other; `ρ o` is what the call `o` answers. -/
inductive Prog (ω : Type) (ρ : ω → Type) (α : Type) : Type
  | done (a : α)
  | call (o : ω) (k : ρ o → Prog ω ρ α)

namespace Prog

variable {ω : Type} {ρ : ω → Type} {α β : Type}

def bind : Prog ω ρ α → (α → Prog ω ρ β) → Prog ω ρ β
  | .done a, f => f a
  | .call o k, f => .call o fun r => (k r).bind f

instance : Monad (Prog ω ρ) where
  pure := .done
  bind := bind

/-- A single call. -/
def ask (o : ω) : Prog ω ρ (ρ o) := .call o .done

@[simp] theorem pure_eq (a : α) : (pure a : Prog ω ρ α) = .done a := rfl

/-- A program run alone, over a state of its own. -/
def interpret {σ : Type} (exec : σ → (o : ω) → σ × ρ o) : Prog ω ρ α → σ → σ × α
  | .done a, s => (s, a)
  | .call o k, s => (k (exec s o).2).interpret exec (exec s o).1

end Prog

/-! ## Services -/

/-- What requests run over: `κ` are the requests that may arrive, `ι` is what the world decides
of a call, `ε` are the steps that are no request's. -/
structure Service (σ ω : Type) (ρ : ω → Type) (κ ι ε : Type) where
  init : σ → Prop
  /-- A call of the request with this number. -/
  exec : Nat → ι → (o : ω) → σ → Option (σ × ρ o)
  request : κ → Prog ω ρ PUnit
  /-- What is noted when a request arrives. -/
  arrive : Nat → κ → σ → σ
  env : ε → σ → σ

/-- The shared state and what every request has still to do. -/
structure Pool (σ ω : Type) (ρ : ω → Type) where
  shared : σ
  arrived : Nat
  running : Nat → Option (Prog ω ρ PUnit)

/-- Every request that arrived has come to its end. -/
def Pool.completed {σ ω : Type} {ρ : ω → Type} (p : Pool σ ω ρ) : Bool :=
  (List.range p.arrived).all fun i =>
    match p.running i with
    | some (.done _) => true
    | _ => false

theorem Pool.completed_iff {σ ω : Type} {ρ : ω → Type} {p : Pool σ ω ρ} :
    p.completed = true ↔ ∀ i, i < p.arrived → p.running i = some (.done ⟨⟩) := by
  unfold completed
  rw [List.all_eq_true]
  refine forall_congr' fun i => ?_
  rw [List.mem_range]
  refine imp_congr_right fun _ => ?_
  constructor
  · intro h
    split at h
    · assumption
    · cases h
  · intro h
    rw [h]

inductive PoolAction (κ ι ε : Type)
  | arrive (kind : κ)
  | call (request : Nat) (choice : ι)
  | env (e : ε)

namespace Service

variable {σ ω : Type} {ρ : ω → Type} {κ ι ε : Type} (V : Service σ ω ρ κ ι ε)

def next (p : Pool σ ω ρ) : PoolAction κ ι ε → Option (Pool σ ω ρ)
  | .arrive kind =>
    some
      { shared := V.arrive p.arrived kind p.shared
        arrived := p.arrived + 1
        running := Function.update p.running p.arrived (some (V.request kind)) }
  | .call i c =>
    match p.running i with
    | some (.call o k) =>
      (V.exec i c o p.shared).map fun r =>
        { p with shared := r.1, running := Function.update p.running i (some (k r.2)) }
    | _ => none
  | .env e => some { p with shared := V.env e p.shared }

/-- The runs of the requests. -/
def system : System (Pool σ ω ρ) (PoolAction κ ι ε) where
  init p := V.init p.shared ∧ p.arrived = 0 ∧ p.running = fun _ => none
  step p a q := V.next p a = some q

/-- Every call of a run meets the condition, in the state it is made in. -/
def CallsMeet (ok : Nat → ι → ω → σ → Prop) (p : Pool σ ω ρ) : PoolAction κ ι ε → Prop
  | .call i c => ∀ o k, p.running i = some (.call o k) → ok i c o p.shared
  | _ => True

/-- The next pool, where the call meets the condition. -/
def nextMeeting (ok : Nat → ι → ω → σ → Prop) [∀ i c o s, Decidable (ok i c o s)]
    (p : Pool σ ω ρ) : PoolAction κ ι ε → Option (Pool σ ω ρ)
  | .call i c =>
    match p.running i with
    | some (.call o _) => if ok i c o p.shared then V.next p (.call i c) else none
    | _ => none
  | a => V.next p a

/-- The pool after these actions, from the start; `none` if a call misses the condition. -/
def run (ok : Nat → ι → ω → σ → Prop) [∀ i c o s, Decidable (ok i c o s)] (s : σ)
    (l : List (PoolAction κ ι ε)) : Option (Pool σ ω ρ) :=
  System.after (V.nextMeeting ok) ⟨s, 0, fun _ => none⟩ l

theorem nextMeeting_eq_some {ok : Nat → ι → ω → σ → Prop} [∀ i c o s, Decidable (ok i c o s)]
    {p q : Pool σ ω ρ} {a : PoolAction κ ι ε} (h : V.nextMeeting ok p a = some q) :
    CallsMeet ok p a ∧ V.next p a = some q := by
  cases a with
  | call i c =>
    rw [nextMeeting] at h
    split at h
    · rename_i o k hrun
      split at h
      · rename_i hok
        refine ⟨?_, h⟩
        intro o' k' hrun'
        rw [hrun] at hrun'
        obtain ⟨rfl, _⟩ := Prog.call.inj (Option.some.inj hrun')
        exact hok
      · cases h
    · cases h
  | arrive kind => exact ⟨trivial, h⟩
  | env e => exact ⟨trivial, h⟩

theorem reachable_run {ok : Nat → ι → ω → σ → Prop} [∀ i c o s, Decidable (ok i c o s)] {s : σ}
    (hs : V.init s) {l : List (PoolAction κ ι ε)} {p : Pool σ ω ρ} (h : V.run ok s l = some p) :
    V.system.Reachable (CallsMeet ok) p := by
  have hstart : V.system.Reachable (CallsMeet ok) (⟨s, 0, fun _ => none⟩ : Pool σ ω ρ) :=
    .init ⟨hs, rfl, rfl⟩
  unfold run at h
  generalize (⟨s, 0, fun _ => none⟩ : Pool σ ω ρ) = q at h hstart
  induction l generalizing q with
  | nil =>
    obtain rfl := Option.some.inj h
    exact hstart
  | cons a l ih =>
    obtain ⟨u, hu, hl⟩ := Option.bind_eq_some_iff.mp h
    obtain ⟨hok, hnext⟩ := nextMeeting_eq_some V hu
    exact ih u hl (hstart.take a hok hnext)

/-! ## Rely and guarantee -/

/-- The assumptions about a service under which requests are proved safe one by one. -/
structure Rules (σ ω ι : Type) where
  inv : σ → Prop
  /-- The condition on calls. -/
  ok : Nat → ι → ω → σ → Prop
  /-- What the request may do. -/
  guarantee : Nat → σ → σ → Prop
  /-- What may happen between two calls of the request. -/
  rely : Nat → σ → σ → Prop
  /-- What holds of a request's number until it arrives. -/
  unborn : Nat → σ → Prop := fun _ _ => True
  /-- What holds from the request's end on. -/
  post : Nat → σ → Prop := fun _ _ => True

end Service

/-- The request keeps the invariant and its guarantee, whatever its rely allows in between,
and ends in `post`. -/
def Prog.Safe {σ ω : Type} {ρ : ω → Type} {κ ι ε α : Type} (V : Service σ ω ρ κ ι ε)
    (R : Service.Rules σ ω ι) (i : Nat) (post : α → σ → Prop) : Prog ω ρ α → σ → Prop
  | .done a, s => post a s
  | .call o k, s => ∀ s₁, R.rely i s s₁ → R.inv s₁ → ∀ c s₂ r, R.ok i c o s₁ →
      V.exec i c o s₁ = some (s₂, r) →
      R.inv s₂ ∧ R.guarantee i s₁ s₂ ∧ (k r).Safe V R i post s₂

section Safe

variable {σ ω : Type} {ρ : ω → Type} {κ ι ε α β : Type} {V : Service σ ω ρ κ ι ε}
  {R : Service.Rules σ ω ι} {i : Nat}

theorem Prog.safe_bind {post : β → σ → Prop} (p : Prog ω ρ α) (f : α → Prog ω ρ β) {s : σ}
    (h : p.Safe V R i (fun a s => (f a).Safe V R i post s) s) :
    (p >>= f).Safe V R i post s := by
  induction p generalizing s with
  | done a => exact h
  | call o k ih =>
    intro s₁ hrely hinv c s₂ r hok hexec
    obtain ⟨hinv', hguar, hrest⟩ := h s₁ hrely hinv c s₂ r hok hexec
    exact ⟨hinv', hguar, ih r hrest⟩

theorem Prog.Safe.weaken {post post' : α → σ → Prop} (p : Prog ω ρ α) {s : σ}
    (h : p.Safe V R i post s) (hpost : ∀ a s, post a s → post' a s) : p.Safe V R i post' s := by
  induction p generalizing s with
  | done a => exact hpost a s h
  | call o k ih =>
    intro s₁ hrely hinv c s₂ r hok hexec
    obtain ⟨hinv', hguar, hrest⟩ := h s₁ hrely hinv c s₂ r hok hexec
    exact ⟨hinv', hguar, ih r hrest⟩

/-- What neither the request's own calls nor others change holds at its end too. -/
theorem Prog.Safe.frame {post : α → σ → Prop} {Q : σ → Prop}
    (hrely : ∀ s t, R.rely i s t → Q s → Q t)
    (hexec : ∀ c o s t r, V.exec i c o s = some (t, r) → Q s → Q t) (p : Prog ω ρ α) {s : σ}
    (h : p.Safe V R i post s) (hs : Q s) : p.Safe V R i (fun a t => post a t ∧ Q t) s := by
  induction p generalizing s with
  | done a => exact ⟨h, hs⟩
  | call o k ih =>
    intro s₁ hs₁ hinv c s₂ r hok hcall
    obtain ⟨hinv', hguar, hrest⟩ := h s₁ hs₁ hinv c s₂ r hok hcall
    exact ⟨hinv', hguar, ih r hrest (hexec c o s₁ s₂ r hcall (hrely s s₁ hs₁ hs))⟩

/-- Whatever the calls answer, the program ends with one of these. -/
def Prog.Ends (P : α → Prop) : Prog ω ρ α → Prop
  | .done a => P a
  | .call _ k => ∀ r, (k r).Ends P

theorem Prog.ends_bind {P : β → Prop} (p : Prog ω ρ α) {f : α → Prog ω ρ β}
    (hf : ∀ a, (f a).Ends P) : (p >>= f).Ends P := by
  induction p with
  | done a => exact hf a
  | call o k ih => exact fun r => ih r

theorem Prog.Ends.bind {P : α → Prop} {Q : β → Prop} {p : Prog ω ρ α} {f : α → Prog ω ρ β}
    (hp : p.Ends P) (hf : ∀ a, P a → (f a).Ends Q) : (p >>= f).Ends Q := by
  induction p with
  | done a => exact hf a hp
  | call o k ih => exact fun r => ih r (hp r)

theorem Prog.Safe.ends {post : α → σ → Prop} {P : α → Prop} (p : Prog ω ρ α) {s : σ}
    (h : p.Safe V R i post s) (hp : p.Ends P) :
    p.Safe V R i (fun a t => post a t ∧ P a) s := by
  induction p generalizing s with
  | done a => exact ⟨h, hp⟩
  | call o k ih =>
    intro s₁ hs₁ hinv c s₂ r hok hcall
    obtain ⟨hinv', hguar, hrest⟩ := h s₁ hs₁ hinv c s₂ r hok hcall
    exact ⟨hinv', hguar, ih r hrest (hp r)⟩

/-- Every call of the program is one of these. -/
def Prog.Calls (P : ω → Prop) : Prog ω ρ α → Prop
  | .done _ => True
  | .call o k => P o ∧ ∀ r, (k r).Calls P

theorem Prog.calls_bind {P : ω → Prop} {p : Prog ω ρ α} {f : α → Prog ω ρ β} (hp : p.Calls P)
    (hf : ∀ a, (f a).Calls P) : (p >>= f).Calls P := by
  induction p with
  | done a => exact hf a
  | call o k ih => exact ⟨hp.1, fun r => ih r (hp.2 r)⟩

theorem Prog.calls_ask {P : ω → Prop} {o : ω} (h : P o) :
    (Prog.ask o : Prog ω ρ (ρ o)).Calls P :=
  ⟨h, fun _ => trivial⟩

theorem Prog.Calls.mono {P Q : ω → Prop} {p : Prog ω ρ α} (hp : p.Calls P) (h : ∀ o, P o → Q o) :
    p.Calls Q := by
  induction p with
  | done a => trivial
  | call o k ih => exact ⟨h o hp.1, fun r => ih r (hp.2 r)⟩

/-- A call that keeps the invariant, the guarantee and what the request knows. -/
def Service.Rules.Keeps (R : Service.Rules σ ω ι) (V : Service σ ω ρ κ ι ε) (i : Nat)
    (Q : σ → Prop) (o : ω) : Prop :=
  ∀ c s t r, R.inv s → R.ok i c o s → Q s → V.exec i c o s = some (t, r) →
    R.inv t ∧ R.guarantee i s t ∧ Q t

/-- A program of such calls is safe, and what the request knows holds at its end. -/
theorem Prog.Calls.keeps {Q : σ → Prop} (hQ : ∀ s t, R.rely i s t → Q s → Q t)
    {p : Prog ω ρ α} (hp : p.Calls (R.Keeps V i Q)) {s : σ} (hs : Q s) :
    p.Safe V R i (fun _ t => Q t) s := by
  induction p generalizing s with
  | done a => exact hs
  | call o k ih =>
    intro s₁ hrely hinv c s₂ r hok hexec
    obtain ⟨hinv', hguar, hs'⟩ := hp.1 c s₁ s₂ r hinv hok (hQ s s₁ hrely hs) hexec
    exact ⟨hinv', hguar, ih r (hp.2 r) hs'⟩

/-- A call that keeps the invariant and does not go beyond the request's own rely. -/
def Service.Rules.Quiet (R : Service.Rules σ ω ι) (V : Service σ ω ρ κ ι ε) (i : Nat) (o : ω) :
    Prop :=
  ∀ c s t r, R.inv s → R.ok i c o s → V.exec i c o s = some (t, r) →
    R.inv t ∧ R.guarantee i s t ∧ R.rely i s t

/-- A program of quiet calls is safe, and ends within its rely. -/
theorem Prog.Calls.safe (htrans : ∀ s t u, R.rely i s t → R.rely i t u → R.rely i s u)
    {p : Prog ω ρ α} (hp : p.Calls (R.Quiet V i)) {s₀ s : σ} (hs : R.rely i s₀ s) :
    p.Safe V R i (fun _ t => R.rely i s₀ t) s := by
  refine (hp.mono fun o ho => ?_).keeps (fun s t hst h => htrans s₀ s t h hst) hs
  intro c s t r hinv hok hs₀ hexec
  obtain ⟨hinv', hguar, hown⟩ := ho c s t r hinv hok hexec
  exact ⟨hinv', hguar, htrans s₀ s t hs₀ hown⟩

/-- Quiet calls before a program that is safe wherever the rely may lead. -/
theorem Prog.Calls.safe_bind (htrans : ∀ s t u, R.rely i s t → R.rely i t u → R.rely i s u)
    (hrefl : ∀ s, R.rely i s s) {p : Prog ω ρ α} (hp : p.Calls (R.Quiet V i))
    {f : α → Prog ω ρ β} {post : β → σ → Prop} {s : σ}
    (hf : ∀ a t, R.rely i s t → (f a).Safe V R i post t) : (p >>= f).Safe V R i post s :=
  Prog.safe_bind p f ((hp.safe htrans (hrefl s)).weaken p fun a t ht => hf a t ht)

end Safe

namespace Service

variable {σ ω : Type} {ρ : ω → Type} {κ ι ε : Type} {V : Service σ ω ρ κ ι ε}

/-- What makes the rules apply to a service: others' steps are within the rely, and every
request that arrives is safe. -/
structure Rules.Sound (R : Rules σ ω ι) (V : Service σ ω ρ κ ι ε) : Prop where
  init : ∀ s, V.init s → R.inv s
  rely_refl : ∀ i s, R.rely i s s
  rely_trans : ∀ i s t u, R.rely i s t → R.rely i t u → R.rely i s u
  rely_of_guarantee : ∀ i j s t, i ≠ j → R.inv s → R.guarantee j s t → R.rely i s t
  unborn_init : ∀ n s, V.init s → R.unborn n s := by intros; trivial
  unborn_rely : ∀ n s t, R.rely n s t → R.unborn n s → R.unborn n t := by intros; trivial
  post_rely : ∀ n s t, R.rely n s t → R.post n s → R.post n t := by intros; trivial
  arrive : ∀ n kind s, R.inv s → R.unborn n s → R.inv (V.arrive n kind s) ∧
    ∀ i, i ≠ n → R.rely i s (V.arrive n kind s)
  env : ∀ e s, R.inv s → R.inv (V.env e s) ∧ ∀ i, R.rely i s (V.env e s)
  safe : ∀ n kind s, R.inv s → R.unborn n s →
    (V.request kind).Safe V R n (fun _ => R.post n) (V.arrive n kind s)

/-- The rest of a request stays safe while others act. -/
theorem Rules.Sound.safe_rely {R : Rules σ ω ι} (h : R.Sound V) {i : Nat}
    {p : Prog ω ρ PUnit} {s t : σ} (hp : p.Safe V R i (fun _ => R.post i) s)
    (hst : R.rely i s t) : p.Safe V R i (fun _ => R.post i) t := by
  cases p with
  | done a => exact h.post_rely i s t hst hp
  | call o k =>
    intro s₁ hrely
    exact hp s₁ (h.rely_trans i s t s₁ hst hrely)

/-- What a run keeps, of the pool as a whole. -/
structure Rules.Kept (R : Rules σ ω ι) (V : Service σ ω ρ κ ι ε) (p : Pool σ ω ρ) : Prop where
  inv : R.inv p.shared
  safe : ∀ i prog, p.running i = some prog → prog.Safe V R i (fun _ => R.post i) p.shared
  arrived : ∀ i, p.arrived ≤ i → p.running i = none
  unborn : ∀ i, p.arrived ≤ i → R.unborn i p.shared

theorem Rules.Kept.arrive {R : Rules σ ω ι} (h : R.Sound V) {p : Pool σ ω ρ} (hp : R.Kept V p)
    (kind : κ) : R.Kept V
      { shared := V.arrive p.arrived kind p.shared
        arrived := p.arrived + 1
        running := Function.update p.running p.arrived (some (V.request kind)) } := by
  have hunborn := hp.unborn p.arrived (Nat.le_refl _)
  obtain ⟨hinv, hrely⟩ := h.arrive p.arrived kind p.shared hp.inv hunborn
  refine ⟨hinv, ?_, ?_, ?_⟩
  · intro i prog hprog
    dsimp only at hprog ⊢
    by_cases hi : i = p.arrived
    · subst hi
      rw [Function.update_self] at hprog
      obtain rfl := Option.some.inj hprog
      exact h.safe p.arrived kind p.shared hp.inv hunborn
    · rw [Function.update_of_ne hi] at hprog
      exact h.safe_rely (hp.safe i prog hprog) (hrely i hi)
  · intro i hi
    exact (Function.update_of_ne (Nat.ne_of_gt hi) ..).trans (hp.arrived i (Nat.le_of_succ_le hi))
  · intro i hi
    exact h.unborn_rely i _ _ (hrely i (Nat.ne_of_gt hi)) (hp.unborn i (Nat.le_of_succ_le hi))

theorem Rules.Kept.call {R : Rules σ ω ι} (h : R.Sound V) {p : Pool σ ω ρ} (hp : R.Kept V p)
    {i : Nat} {c : ι} {o : ω} {k : ρ o → Prog ω ρ PUnit} (hrun : p.running i = some (.call o k))
    (hok : R.ok i c o p.shared) {s : σ} {r : ρ o} (hexec : V.exec i c o p.shared = some (s, r)) :
    R.Kept V { p with shared := s, running := Function.update p.running i (some (k r)) } := by
  obtain ⟨hinv, hguar, hrest⟩ :=
    hp.safe i _ hrun p.shared (h.rely_refl i p.shared) hp.inv c s r hok hexec
  have hlt : ∀ j, p.arrived ≤ j → j ≠ i := by
    rintro j hj rfl
    rw [hp.arrived j hj] at hrun
    cases hrun
  refine ⟨hinv, ?_, ?_, ?_⟩
  · intro j prog hprog
    dsimp only at hprog ⊢
    by_cases hj : j = i
    · subst hj
      rw [Function.update_self] at hprog
      obtain rfl := Option.some.inj hprog
      exact hrest
    · rw [Function.update_of_ne hj] at hprog
      exact h.safe_rely (hp.safe j prog hprog) (h.rely_of_guarantee j i p.shared s hj hp.inv hguar)
  · intro j hj
    exact (Function.update_of_ne (hlt j hj) ..).trans (hp.arrived j hj)
  · intro j hj
    exact h.unborn_rely j _ _ (h.rely_of_guarantee j i p.shared s (hlt j hj) hp.inv hguar)
      (hp.unborn j hj)

theorem Rules.Sound.kept {R : Rules σ ω ι} (h : R.Sound V) {p : Pool σ ω ρ}
    (hp : V.system.Reachable (CallsMeet R.ok) p) : R.Kept V p := by
  induction hp with
  | init hs =>
    obtain ⟨hinit, _, hnone⟩ := hs
    refine ⟨h.init _ hinit, ?_, fun i _ => congrFun hnone i, fun i _ => h.unborn_init i _ hinit⟩
    intro i prog hprog
    rw [hnone] at hprog
    cases hprog
  | @step p q a _ hok hst ih =>
    cases a with
    | arrive kind =>
      obtain rfl := Option.some.inj hst
      exact ih.arrive h kind
    | env e =>
      obtain rfl := Option.some.inj hst
      obtain ⟨hinv, hrely⟩ := h.env e p.shared ih.inv
      exact ⟨hinv, fun i prog hprog => h.safe_rely (ih.safe i prog hprog) (hrely i), ih.arrived,
        fun i hi => h.unborn_rely i _ _ (hrely i) (ih.unborn i hi)⟩
    | call i c =>
      have hnext : V.next p (.call i c) = some q := hst
      rw [next] at hnext
      split at hnext
      · rename_i o k hrun
        obtain ⟨⟨s, r⟩, hexec, rfl⟩ := Option.map_eq_some_iff.mp hnext
        exact ih.call h hrun (hok o k hrun) hexec
      · cases hnext

/-- What the requests establish holds of each that has come to its end. -/
theorem Rules.Sound.ended {R : Rules σ ω ι} (h : R.Sound V) {p : Pool σ ω ρ}
    (hp : V.system.Reachable (CallsMeet R.ok) p) {i : Nat} {a : PUnit}
    (hi : p.running i = some (.done a)) : R.post i p.shared :=
  (h.kept hp).safe i _ hi

/-- Once all requests are over, each number is that of one that has ended or of none. -/
theorem Rules.Sound.completed {R : Rules σ ω ι} (h : R.Sound V) {p : Pool σ ω ρ}
    (hp : V.system.Reachable (CallsMeet R.ok) p) (hdone : p.completed = true) (i : Nat) :
    R.post i p.shared ∨ R.unborn i p.shared := by
  rcases Nat.lt_or_ge i p.arrived with hi | hi
  · exact .inl (h.ended hp (Pool.completed_iff.mp hdone i hi))
  · exact .inr ((h.kept hp).unborn i hi)

/-- What every call of every request is, every call of a run is. -/
theorem running_calls {P : ω → Prop} (hP : ∀ kind, (V.request kind).Calls P) {p : Pool σ ω ρ}
    {ok : Pool σ ω ρ → PoolAction κ ι ε → Prop} (hp : V.system.Reachable ok p) :
    ∀ i prog, p.running i = some prog → prog.Calls P := by
  induction hp with
  | init hs =>
    intro i prog hprog
    rw [hs.2.2] at hprog
    cases hprog
  | @step p q a _ _ hst ih =>
    cases a with
    | arrive kind =>
      obtain rfl := Option.some.inj hst
      intro i prog hprog
      dsimp only at hprog
      by_cases hi : i = p.arrived
      · rw [hi, Function.update_self] at hprog
        obtain rfl := Option.some.inj hprog
        exact hP kind
      · rw [Function.update_of_ne hi] at hprog
        exact ih i prog hprog
    | env e =>
      obtain rfl := Option.some.inj hst
      exact ih
    | call i c =>
      have hnext : V.next p (.call i c) = some q := hst
      rw [next] at hnext
      split at hnext
      · rename_i o k hrun
        obtain ⟨⟨s, r⟩, _, rfl⟩ := Option.map_eq_some_iff.mp hnext
        intro j prog hprog
        dsimp only at hprog
        by_cases hj : j = i
        · rw [hj, Function.update_self] at hprog
          obtain rfl := Option.some.inj hprog
          exact (ih i _ hrun).2 r
        · rw [Function.update_of_ne hj] at hprog
          exact ih j prog hprog
      · cases hnext

/-- In every run whose calls meet the condition the invariant holds. -/
theorem Rules.Sound.invariant {R : Rules σ ω ι} (h : R.Sound V) {p : Pool σ ω ρ}
    (hp : V.system.Reachable (CallsMeet R.ok) p) : R.inv p.shared :=
  (h.kept hp).inv

end Service

end Lyra.Lib
