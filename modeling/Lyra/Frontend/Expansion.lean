import Lyra.Dav.WriteRoundTrip
import Lyra.Frontend.Recurrence

/-!
# The expansion and the recurrence set

`Instance` is the recurrence set of RFC 5545 in the viewer's zone, by the days from the first
instance on.

* `expansion_exact`: the copies in a range are the instances that begin in it, once each, up to
  the bounds of the walk;
* `occurrences_byday`: with `BYDAY` the interval and the count are not looked at;
* `expansion_bounded`: instances that overlap a range and have no copy.
-/

namespace Lyra.Recurrence

open Lyra.Lib

/-! ## The recurrence set -/

/-- Weeks begin on Monday. -/
def weekOf (day : Int) : Int := (day + 3) / 7

namespace ParsedRule

variable (rule : ParsedRule)

/-- Whether the rule names a day. -/
def fallsOn (first day : Int) : Bool :=
  match rule.freq with
  | .daily => (day - first) % rule.interval.val = 0
  | .weekly => (weekOf day - weekOf first) % rule.interval.val = 0 ∧
      if rule.days = [] then weekdayOf day = weekdayOf first else weekdayOf day ∈ rule.days
  | .monthly => (monthOf day - monthOf first) % rule.interval.val = 0 ∧
      dayOfMonth day = dayOfMonth first
  | .yearly => (yearOf day - yearOf first) % rule.interval.val = 0 ∧
      monthOf day % 12 = monthOf first % 12 ∧ dayOfMonth day = dayOfMonth first

/-- The first day is an instance in any case. -/
def recurs (first : Int) (k : Nat) : Bool := k = 0 ∨ rule.fallsOn first (first + k)

end ParsedRule

/-- The time of `s` on another day. -/
def Zone.onDay (z : Zone) (s day : Int) : Int := z.instant day (z.timeInDay s)

/-- The instance `k` days after the first. -/
structure Instance (z : Zone) (rule : ParsedRule) (s : Int) (k : Nat) : Prop where
  recurs : rule.recurs (z.day s) k = true
  kept : k ≠ 0 → rule.past (z.onDay s (z.day s + k)) = false
  counted : ∀ c, rule.count = some c → Nat.count (fun i => rule.recurs (z.day s) i) k < c.val

/-- The bounds of the walk: 800 occurrences within five years, or 800 days with `BYDAY`. -/
def Bounded (z : Zone) (rule : ParsedRule) (s : Int) (k : Nat) : Prop :=
  if rule.daywise then k < 800
  else Nat.count (fun i => rule.recurs (z.day s) i) k < 800 ∧
    yearOf (z.day s + k) ≤ yearOf (z.day s) + 5

/-- The zone has the time of `s` on every day, on the same side of midnight in UTC. -/
structure Zone.Steady (z : Zone) (s : Int) : Prop where
  start : z.onDay s (z.day s) = s
  exists_time : ∀ day, z.toLocal (z.onDay s day) = day * msPerDay + z.timeInDay s
  same_side : ∃ shift, ∀ day, z.onDay s day / msPerDay = day + shift

/-- Up to the end of the range there is no week, no month and no day past a count that the rule
skips and the walk does not. -/
structure Regular (z : Zone) (rule : ParsedRule) (s rangeEnd : Int) : Prop where
  supported : rule.byday.isSome → rule.freq = .weekly
  first_listed : rule.daywise = true → weekdayOf (z.day s) ∈ rule.days
  weeks : rule.daywise = true → ∀ k : Nat, z.onDay s (z.day s + k) ≤ rangeEnd →
    weekdayOf (z.day s + k) ∈ rule.days →
      (weekOf (z.day s + k) - weekOf (z.day s)) % rule.interval.val = 0
  counts : rule.daywise = true → ∀ c, rule.count = some c → c.val = 1 ∨
    ∀ k : Nat, z.onDay s (z.day s + k) ≤ rangeEnd → rule.recurs (z.day s) k = true →
      Nat.count (fun i => rule.recurs (z.day s) i) k < c.val
  months : rule.freq = .monthly → ∀ j : Nat,
    let month := monthOf (z.day s) + j * rule.interval.val
    z.onDay s (makeDay month (dayOfMonth (z.day s))) ≤ rangeEnd →
      dayOfMonth (z.day s) ≤ monthLength month
  years : rule.freq = .yearly → ∀ j : Nat,
    let month := monthOf (z.day s) + j * (12 * rule.interval.val)
    z.onDay s (makeDay month (dayOfMonth (z.day s))) ≤ rangeEnd →
      dayOfMonth (z.day s) ≤ monthLength month

/-- The copies of an event stand for these starts. -/
structure Expands (event : Event) (out : List Event) (starts : Int → Prop) : Prop where
  mem : ∀ t, (∃ e ∈ out, e.dtstart = some t) ↔ starts t
  once : (out.map (·.dtstart)).Nodup
  ends : ∀ e ∈ out, ∃ t, e.dtstart = some t ∧ e.dtend = some (t + event.duration)

/-! ## Dates that step -/

namespace Zone.Steady

variable {z : Zone} {s : Int} (hz : z.Steady s)

include hz

theorem day_onDay (day : Int) : z.day (z.onDay s day) = day := by
  unfold Zone.day
  rw [hz.exists_time]
  unfold Zone.timeInDay msPerDay
  omega

theorem timeInDay_onDay (day : Int) : z.timeInDay (z.onDay s day) = z.timeInDay s := by
  unfold Zone.timeInDay
  rw [hz.exists_time]
  unfold Zone.timeInDay msPerDay
  omega

theorem onDay_strictMono : StrictMono (z.onDay s) := by
  intro d d' hlt
  obtain ⟨shift, hshift⟩ := hz.same_side
  have h := hshift d
  have h' := hshift d'
  unfold msPerDay at h h'
  omega

theorem onDay_inj {d d' : Int} : z.onDay s d = z.onDay s d' ↔ d = d' :=
  hz.onDay_strictMono.injective.eq_iff

theorem setDate_onDay (day n : Int) :
    z.setDate (z.onDay s day) (z.getDate (z.onDay s day) + n) = z.onDay s (day + n) := by
  unfold Zone.setDate Zone.getDate
  rw [hz.day_onDay, hz.timeInDay_onDay, makeDay_add, makeDay_monthOf]
  rfl

theorem setMonth_onDay (day n : Int) :
    z.setMonth (z.onDay s day) (z.getMonth (z.onDay s day) + n) =
      z.onDay s (makeDay (monthOf day + n) (dayOfMonth day)) := by
  unfold Zone.setMonth Zone.getMonth Zone.getFullYear Zone.getDate yearOf
  rw [hz.day_onDay, hz.timeInDay_onDay]
  have hmonth : 12 * (monthOf day / 12) + (monthOf day % 12 + n) = monthOf day + n := by omega
  rw [hmonth]
  rfl

theorem setFullYear_onDay (day n : Int) :
    z.setFullYear (z.onDay s day) (z.getFullYear (z.onDay s day) + n) =
      z.onDay s (makeDay (monthOf day + 12 * n) (dayOfMonth day)) := by
  unfold Zone.setFullYear Zone.getMonth Zone.getFullYear Zone.getDate yearOf
  rw [hz.day_onDay, hz.timeInDay_onDay]
  have hmonth : 12 * (monthOf day / 12 + n) + monthOf day % 12 = monthOf day + 12 * n := by omega
  rw [hmonth]
  rfl

end Zone.Steady

/-! ## The days the walk visits -/

/-- The `j`th day of the walk. -/
def ParsedRule.candidateDay (rule : ParsedRule) (first : Int) (j : Nat) : Int :=
  if rule.daywise then first + j
  else match rule.freq with
    | .daily => first + j * rule.interval.val
    | .weekly => first + j * (rule.interval.val * 7)
    | .monthly => makeDay (monthOf first + j * rule.interval.val) (dayOfMonth first)
    | .yearly => makeDay (monthOf first + j * (12 * rule.interval.val)) (dayOfMonth first)

namespace ParsedRule

variable (rule : ParsedRule) (first : Int)

theorem interval_pos : (1 : Int) ≤ rule.interval.val := by
  have h := rule.interval.property
  omega

@[simp] theorem candidateDay_zero : rule.candidateDay first 0 = first := by
  unfold candidateDay
  split
  · simp
  · split <;> simp [makeDay_monthOf]

theorem candidateDay_strictMono : StrictMono (rule.candidateDay first) := by
  apply strictMono_nat_of_lt_succ
  intro j
  have hpos := rule.interval_pos
  have hsucc : ∀ n : Int, ((j + 1 : Nat) : Int) * n = j * n + n := by
    intro n
    rw [Nat.cast_succ, Int.add_mul, Int.one_mul]
  unfold candidateDay
  split
  · omega
  · split
    · rw [hsucc]
      omega
    · rw [hsucc]
      omega
    · apply makeDay_strictMono
      rw [hsucc]
      omega
    · apply makeDay_strictMono
      rw [hsucc]
      omega

theorem first_le_candidateDay (j : Nat) : first ≤ rule.candidateDay first j := by
  have hmono := (rule.candidateDay_strictMono first).monotone (Nat.zero_le j)
  rwa [candidateDay_zero] at hmono

end ParsedRule

/-! ## The loop as a walk -/

section Loop

variable (z : Zone) (rule : ParsedRule) (event : Event) (s a b : Int)

/-- The state a round leaves: the candidate and the number of its occurrence. -/
def advance (x : Int × Nat) : Option (Int × Nat) :=
  if b < x.1 then none
  else if rule.daywise then
    if rule.past (z.setDate x.1 (z.getDate x.1 + 1)) ∨ rule.exhausted x.2 then none
    else some (z.setDate x.1 (z.getDate x.1 + 1), x.2)
  else (nextOccurrence z rule s x.1 x.2).map fun next => (next, x.2 + 1)

def copyAt (x : Int × Nat) : Option Event :=
  if a ≤ x.1 ∧ x.1 ≤ b ∧ (rule.freq ≠ .weekly ∨ matchesByDay z rule x.1) then
    some (cloneForDate event x.1)
  else none

theorem occurrences_eq_walk (guard : Nat) (candidate : Int) (n : Nat) :
    occurrences z rule event s a b guard candidate n =
      walk (advance z rule s b) (copyAt z rule event a b) guard (candidate, n) := by
  induction guard generalizing candidate n with
  | zero => rfl
  | succ guard ih =>
    have hshown : (copyAt z rule event a b (candidate, n)).toList =
        if a ≤ candidate ∧ candidate ≤ b ∧ (rule.freq ≠ .weekly ∨ matchesByDay z rule candidate) then
          [cloneForDate event candidate]
        else [] := by
      unfold copyAt
      split <;> rfl
    rw [walk, hshown, occurrences]
    simp only [ih]
    unfold advance
    split
    · simp
    split
    · split <;> simp
    · cases nextOccurrence z rule s candidate n <;> simp

/-- The number of an occurrence; with `BYDAY` the code never counts. -/
def number (j : Nat) : Nat := if rule.daywise then 1 else j + 1

/-- The walk goes on after its `j`th day. -/
def Goes (j : Nat) : Prop :=
  z.onDay s (rule.candidateDay (z.day s) j) ≤ b ∧
    rule.past (z.onDay s (rule.candidateDay (z.day s) (j + 1))) = false ∧
    rule.exhausted (number rule j) = false ∧
    (rule.daywise = false →
      yearOf (rule.candidateDay (z.day s) (j + 1)) ≤ yearOf (z.day s) + 5)

instance : DecidablePred (Goes z rule s b) := fun _ => inferInstanceAs (Decidable (_ ∧ _))

/-- The `j`th state of the walk. -/
def stateAt (j : Nat) : Int × Nat := (z.onDay s (rule.candidateDay (z.day s) j), number rule j)

end Loop

section Walk

variable {z : Zone} {rule : ParsedRule} {event : Event} {s a b : Int}

theorem past_mono {t t' : Int} (hle : t ≤ t') (h : rule.past t' = false) : rule.past t = false := by
  unfold ParsedRule.past at h ⊢
  cases hu : rule.untilAt with
  | none => rfl
  | some u =>
    rw [hu] at h
    simp only [Option.any_some, decide_eq_false_iff_not] at h ⊢
    omega

theorem exhausted_iff {n : Nat} :
    rule.exhausted n = false ↔ ∀ c, rule.count = some c → n < c.val := by
  unfold ParsedRule.exhausted
  cases rule.count <;> simp

theorem goes_stays (hz : z.Steady s) (i j : Nat) (hle : i ≤ j) (h : Goes z rule s b j) :
    Goes z rule s b i := by
  obtain ⟨hrange, hpast, hcount, hyear⟩ := h
  have hcandidate := rule.candidateDay_strictMono (z.day s)
  have hstart := hcandidate.monotone hle
  have hnext := hcandidate.monotone (Nat.succ_le_succ hle)
  refine ⟨?_, ?_, ?_, ?_⟩
  · exact le_trans (hz.onDay_strictMono.monotone hstart) hrange
  · exact past_mono (hz.onDay_strictMono.monotone hnext) hpast
  · rw [exhausted_iff] at hcount ⊢
    intro c hc
    have hlt := hcount c hc
    unfold number at hlt ⊢
    split
    · rename_i hdaywise
      rwa [if_pos hdaywise] at hlt
    · rename_i hdaywise
      rw [if_neg hdaywise] at hlt
      omega
  · intro hdaywise
    exact le_trans (yearOf_mono hnext) (hyear hdaywise)

theorem stepped_month {first n : Int} {j : Nat}
    (h : dayOfMonth first ≤ monthLength (monthOf first + j * n)) :
    let day := makeDay (monthOf first + j * n) (dayOfMonth first)
    makeDay (monthOf day + n) (dayOfMonth day) =
      makeDay (monthOf first + (j + 1 : Nat) * n) (dayOfMonth first) := by
  intro day
  rw [monthOf_makeDay (dayOfMonth_pos first) h, dayOfMonth_makeDay (dayOfMonth_pos first) h]
  congr 1
  rw [Nat.cast_succ, Int.add_mul]
  omega

/-- The walk steps to its next day while every month has the day. -/
theorem stepDate_candidate (hz : z.Steady s) (hreg : Regular z rule s b)
    (hdaywise : rule.daywise = false) {j : Nat}
    (hrange : z.onDay s (rule.candidateDay (z.day s) j) ≤ b) :
    stepDate z rule (z.onDay s (rule.candidateDay (z.day s) j)) =
      z.onDay s (rule.candidateDay (z.day s) (j + 1)) := by
  have hsucc : ∀ n : Int, ((j + 1 : Nat) : Int) * n = j * n + n := by
    intro n
    rw [Nat.cast_succ, Int.add_mul, Int.one_mul]
  have hmonthly := hreg.months
  have hyearly := hreg.years
  unfold stepDate
  unfold ParsedRule.candidateDay at hrange ⊢
  simp only [hdaywise, Bool.false_eq_true, if_false] at hrange ⊢
  cases hfreq : rule.freq with
  | daily =>
    simp only [hfreq] at hrange ⊢
    rw [hz.setDate_onDay, hsucc, Int.add_assoc]
  | weekly =>
    simp only [hfreq] at hrange ⊢
    rw [hz.setDate_onDay, hsucc, Int.add_assoc]
  | monthly =>
    simp only [hfreq] at hrange ⊢
    rw [hz.setMonth_onDay, stepped_month (hmonthly hfreq j hrange)]
  | yearly =>
    simp only [hfreq] at hrange ⊢
    rw [hz.setFullYear_onDay, stepped_month (hyearly hfreq j hrange)]

theorem nextOccurrence_candidate (hz : z.Steady s) (hreg : Regular z rule s b)
    (hdaywise : rule.daywise = false) {j : Nat}
    (hrange : z.onDay s (rule.candidateDay (z.day s) j) ≤ b) (n : Nat) :
    nextOccurrence z rule s (z.onDay s (rule.candidateDay (z.day s) j)) n =
      if rule.past (z.onDay s (rule.candidateDay (z.day s) (j + 1))) = false ∧
          rule.exhausted n = false ∧
          yearOf (rule.candidateDay (z.day s) (j + 1)) ≤ yearOf (z.day s) + 5 then
        some (z.onDay s (rule.candidateDay (z.day s) (j + 1)))
      else none := by
  unfold nextOccurrence
  simp only []
  rw [stepDate_candidate hz hreg hdaywise hrange]
  unfold Zone.getFullYear
  rw [hz.day_onDay]
  cases rule.past (z.onDay s (rule.candidateDay (z.day s) (j + 1))) <;>
    cases rule.exhausted n <;> simp
  split <;> split <;> first | rfl | omega

/-- One round of the loop, by the days it visits. -/
theorem advance_stateAt (hz : z.Steady s) (hreg : Regular z rule s b) (j : Nat) :
    advance z rule s b (stateAt z rule s j) =
      if Goes z rule s b j then some (stateAt z rule s (j + 1)) else none := by
  by_cases hrange : z.onDay s (rule.candidateDay (z.day s) j) ≤ b
  · have hgo : Goes z rule s b j ↔
        rule.past (z.onDay s (rule.candidateDay (z.day s) (j + 1))) = false ∧
          rule.exhausted (number rule j) = false ∧ (rule.daywise = false →
            yearOf (rule.candidateDay (z.day s) (j + 1)) ≤ yearOf (z.day s) + 5) :=
      and_iff_right hrange
    rw [if_congr hgo rfl rfl]
    unfold advance stateAt
    simp only []
    rw [if_neg (by omega)]
    obtain hdaywise | hdaywise := Bool.eq_false_or_eq_true rule.daywise
    · have hnext : z.setDate (z.onDay s (rule.candidateDay (z.day s) j))
          (z.getDate (z.onDay s (rule.candidateDay (z.day s) j)) + 1) =
          z.onDay s (rule.candidateDay (z.day s) (j + 1)) := by
        rw [hz.setDate_onDay]
        unfold ParsedRule.candidateDay
        rw [if_pos hdaywise, if_pos hdaywise, Nat.cast_succ, Int.add_assoc]
      have hnumber : ∀ i, number rule i = 1 := fun i => if_pos hdaywise
      rw [if_pos hdaywise, hnext, hnumber, hnumber]
      cases rule.past (z.onDay s (rule.candidateDay (z.day s) (j + 1))) <;>
        cases rule.exhausted 1 <;> simp [hdaywise]
    · have hnumber : ∀ i, number rule i = i + 1 := fun i => if_neg (by simp [hdaywise])
      rw [if_neg (by simp [hdaywise]), nextOccurrence_candidate hz hreg hdaywise hrange, hnumber,
        hnumber]
      simp only [hdaywise, forall_const]
      split <;> rfl
  · have hstop : ¬ Goes z rule s b j := fun h => hrange h.1
    rw [if_neg hstop]
    exact if_pos (by show b < z.onDay s (rule.candidateDay (z.day s) j); omega)

theorem stateAt_zero (hz : z.Steady s) : stateAt z rule s 0 = (s, 1) := by
  unfold stateAt
  rw [rule.candidateDay_zero, hz.start]
  unfold number
  split <;> rfl

end Walk

/-! ## The days the rule names -/

section Days

variable {z : Zone} {rule : ParsedRule} {s b : Int}

theorem emod_eq_zero_iff {n i : Int} (hn : 0 ≤ n) (hi : 1 ≤ i) :
    n % i = 0 ↔ ∃ j : Nat, n = j * i := by
  constructor
  · intro h
    obtain ⟨q, rfl⟩ := Int.dvd_of_emod_eq_zero h
    have hq : 0 ≤ q := by
      by_contra hneg
      have hlt : i * q < 0 := Int.mul_neg_of_pos_of_neg (by omega) (by omega)
      omega
    refine ⟨q.toNat, ?_⟩
    rw [Int.toNat_of_nonneg hq, Int.mul_comm]
  · rintro ⟨j, rfl⟩
    exact Int.mul_emod_left _ _

theorem weekdayOf_eq_iff (d d' : Int) : weekdayOf d = weekdayOf d' ↔ (d - d') % 7 = 0 := by
  have hinj : ∀ i < 7, ∀ j < 7, (dayNames.map (·.1)).getD i .su = (dayNames.map (·.1)).getD j .su →
      i = j := by decide
  unfold weekdayOf
  constructor
  · intro h
    have heq := hinj _ (by omega) _ (by omega) h
    omega
  · intro h
    have heq : (d + 4) % 7 = (d' + 4) % 7 := by omega
    rw [heq]

theorem weekOf_sub {d d' : Int} (h : (d - d') % 7 = 0) : d - d' = 7 * (weekOf d - weekOf d') := by
  unfold weekOf
  omega

theorem fallsOn_first (hdays : rule.daywise = false) (first : Int) :
    rule.fallsOn first first = true := by
  unfold ParsedRule.fallsOn
  unfold ParsedRule.daywise at hdays
  cases hfreq : rule.freq <;> simp_all

theorem fallsOn_daily (hfreq : rule.freq = .daily) {first : Int} {k : Nat} :
    rule.fallsOn first (first + k) = true ↔ ∃ j, rule.candidateDay first j = first + k := by
  have hdaywise : rule.daywise = false := by
    unfold ParsedRule.daywise
    simp [hfreq]
  unfold ParsedRule.fallsOn ParsedRule.candidateDay
  simp only [hfreq, hdaywise, decide_eq_true_eq, Bool.false_eq_true, if_false]
  rw [emod_eq_zero_iff (by omega) rule.interval_pos]
  constructor <;> rintro ⟨j, hj⟩ <;> exact ⟨j, by omega⟩

theorem fallsOn_weekly (hfreq : rule.freq = .weekly) (hdaywise : rule.daywise = false) {first : Int}
    {k : Nat} :
    rule.fallsOn first (first + k) = true ↔ ∃ j, rule.candidateDay first j = first + k := by
  have hdays : rule.days = [] := by
    unfold ParsedRule.daywise at hdaywise
    simpa [hfreq] using hdaywise
  unfold ParsedRule.fallsOn ParsedRule.candidateDay
  simp only [hfreq, hdaywise, hdays, decide_eq_true_eq, Bool.false_eq_true, if_false, if_true]
  rw [weekdayOf_eq_iff]
  constructor
  · rintro ⟨hweek, hday⟩
    have hsub := weekOf_sub hday
    obtain ⟨j, hj⟩ := (emod_eq_zero_iff (by omega) rule.interval_pos).mp hweek
    refine ⟨j, ?_⟩
    rw [← Int.mul_assoc]
    omega
  · rintro ⟨j, hj⟩
    rw [← Int.mul_assoc] at hj
    have hday : (first + k - first) % 7 = 0 := by omega
    have hsub := weekOf_sub hday
    exact ⟨(emod_eq_zero_iff (by omega) rule.interval_pos).mpr ⟨j, by omega⟩, hday⟩

/-- The days of the first's number, a whole number of strides of months later. -/
theorem same_date_iff {first stride : Int} {k : Nat} (hstride : 1 ≤ stride)
    (hlen : ∀ j : Nat, makeDay (monthOf first + j * stride) (dayOfMonth first) = first + k →
      dayOfMonth first ≤ monthLength (monthOf first + j * stride)) :
    ((monthOf (first + k) - monthOf first) % stride = 0 ∧
        dayOfMonth (first + k) = dayOfMonth first) ↔
      ∃ j : Nat, makeDay (monthOf first + j * stride) (dayOfMonth first) = first + k := by
  constructor
  · rintro ⟨hmonth, hdate⟩
    have hmono : monthOf first ≤ monthOf (first + k) := monthOf_mono (by omega)
    obtain ⟨j, hj⟩ := (emod_eq_zero_iff (by omega) hstride).mp hmonth
    refine ⟨j, ?_⟩
    have hm : monthOf first + j * stride = monthOf (first + k) := by omega
    rw [hm, ← hdate, makeDay_monthOf]
  · rintro ⟨j, hj⟩
    have hlen' := hlen j hj
    rw [← hj, monthOf_makeDay (dayOfMonth_pos first) hlen',
      dayOfMonth_makeDay (dayOfMonth_pos first) hlen']
    refine ⟨?_, rfl⟩
    have hsub : monthOf first + j * stride - monthOf first = j * stride := by omega
    rw [hsub]
    exact Int.mul_emod_left _ _

theorem years_iff {m m' stride : Int} (hle : m' ≤ m) (hstride : 1 ≤ stride) :
    ((m / 12 - m' / 12) % stride = 0 ∧ m % 12 = m' % 12) ↔ (m - m') % (12 * stride) = 0 := by
  rw [emod_eq_zero_iff (n := m / 12 - m' / 12) (by omega) hstride,
    emod_eq_zero_iff (n := m - m') (by omega) (by omega)]
  constructor
  · rintro ⟨⟨j, hj⟩, hmonth⟩
    refine ⟨j, ?_⟩
    rw [Int.mul_left_comm]
    omega
  · rintro ⟨j, hj⟩
    rw [Int.mul_left_comm] at hj
    exact ⟨⟨j, by omega⟩, by omega⟩

/-- The rule names the days the walk visits, up to the end of the range. -/
theorem recurs_iff (hreg : Regular z rule s b) (hdaywise : rule.daywise = false) {k : Nat}
    (hk : z.onDay s (z.day s + k) ≤ b) :
    rule.recurs (z.day s) k = true ↔ ∃ j, rule.candidateDay (z.day s) j = z.day s + k := by
  have hfalls : rule.recurs (z.day s) k = true ↔ rule.fallsOn (z.day s) (z.day s + k) = true := by
    unfold ParsedRule.recurs
    rw [decide_eq_true_eq]
    constructor
    · rintro (rfl | h)
      · simpa using fallsOn_first hdaywise (z.day s)
      · exact h
    · exact Or.inr
  rw [hfalls]
  cases hfreq : rule.freq with
  | daily => exact fallsOn_daily hfreq
  | weekly => exact fallsOn_weekly hfreq hdaywise
  | monthly =>
    unfold ParsedRule.fallsOn ParsedRule.candidateDay
    simp only [hfreq, hdaywise, decide_eq_true_eq, Bool.false_eq_true, if_false]
    apply same_date_iff rule.interval_pos
    intro j hj
    exact hreg.months hfreq j (by rw [hj]; exact hk)
  | yearly =>
    unfold ParsedRule.fallsOn ParsedRule.candidateDay
    simp only [hfreq, hdaywise, decide_eq_true_eq, Bool.false_eq_true, if_false]
    have hpos := rule.interval_pos
    rw [← same_date_iff (by omega) fun j hj => hreg.years hfreq j (by rw [hj]; exact hk),
      ← and_assoc]
    exact and_congr_left' (years_iff (monthOf_mono (by omega)) hpos)

/-- The instances before the `j`th day of the walk are `j`. -/
theorem count_recurs (hz : z.Steady s) (hreg : Regular z rule s b) (hdaywise : rule.daywise = false)
    {j k : Nat} (hj : rule.candidateDay (z.day s) j = z.day s + k)
    (hk : z.onDay s (z.day s + k) ≤ b) :
    Nat.count (fun i => rule.recurs (z.day s) i) k = j := by
  let offset : Nat → Nat := fun i => (rule.candidateDay (z.day s) i - z.day s).toNat
  have hoffset : ∀ i, z.day s + offset i = rule.candidateDay (z.day s) i := by
    intro i
    have hle := rule.first_le_candidateDay (z.day s) i
    show z.day s + ((rule.candidateDay (z.day s) i - z.day s).toNat : Int) = _
    omega
  have hmono : StrictMono offset := by
    intro i i' hlt
    have hcandidate := rule.candidateDay_strictMono (z.day s) hlt
    have h := hoffset i
    have h' := hoffset i'
    omega
  have hend : offset j = k := by
    have h := hoffset j
    omega
  rw [← hend]
  apply count_enumerated hmono
  intro i hi
  have hrange : z.onDay s (z.day s + i) ≤ b :=
    le_trans (hz.onDay_strictMono.monotone (by omega)) hk
  rw [recurs_iff hreg hdaywise hrange]
  constructor
  · rintro ⟨i', h⟩
    exact ⟨i', by have h' := hoffset i'; omega⟩
  · rintro ⟨i', rfl⟩
    exact ⟨i', (hoffset i').symm⟩

/-- With `BYDAY` the rule names the listed weekdays, up to the end of the range. -/
theorem recurs_daywise (hreg : Regular z rule s b) (hdaywise : rule.daywise = true) {k : Nat}
    (hk : z.onDay s (z.day s + k) ≤ b) :
    rule.recurs (z.day s) k = true ↔ weekdayOf (z.day s + k) ∈ rule.days := by
  have hweekly : rule.freq = .weekly ∧ rule.days ≠ [] := by
    unfold ParsedRule.daywise at hdaywise
    simpa using hdaywise
  unfold ParsedRule.recurs ParsedRule.fallsOn
  simp only [hweekly.1, hweekly.2, if_false, decide_eq_true_eq]
  constructor
  · rintro (rfl | ⟨-, h⟩)
    · simpa using hreg.first_listed hdaywise
    · exact h
  · intro h
    exact Or.inr ⟨hreg.weeks hdaywise k hk h, h⟩

/-- With `BYDAY` the walk stops after the first day or never for the count. -/
theorem counted_daywise (hreg : Regular z rule s b) (hdaywise : rule.daywise = true) {k : Nat}
    (hk : z.onDay s (z.day s + k) ≤ b) (hrecurs : rule.recurs (z.day s) k = true) :
    (k ≠ 0 → rule.exhausted 1 = false) ↔
      ∀ c, rule.count = some c → Nat.count (fun i => rule.recurs (z.day s) i) k < c.val := by
  have hzero : rule.recurs (z.day s) 0 = true := by
    unfold ParsedRule.recurs
    simp
  rw [exhausted_iff]
  constructor
  · intro h c hc
    by_cases hne : k = 0
    · subst hne
      rw [Nat.count_zero]
      exact c.property
    · have hmany := h hne c hc
      exact ((hreg.counts hdaywise c hc).resolve_left (by omega)) k hk hrecurs
  · intro h hne c hc
    have hcount := h c hc
    have hfirst : Nat.count (fun i => rule.recurs (z.day s) i = true) 1 = 1 := by
      rw [Nat.count_succ, Nat.count_zero, if_pos hzero]
    have hle : Nat.count (fun i => rule.recurs (z.day s) i = true) 1 ≤
        Nat.count (fun i => rule.recurs (z.day s) i = true) k :=
      Nat.count_monotone _ (by omega)
    omega

end Days

/-! ## The copies -/

section Copies

variable {z : Zone} {rule : ParsedRule} {event : Event} {s a b : Int}

/-- The walk comes to a day in the range. -/
theorem reaches_iff (hz : z.Steady s) (hdaywise : rule.daywise = false) {j : Nat}
    (hrange : z.onDay s (rule.candidateDay (z.day s) j) ≤ b) :
    (j = 0 ∨ Goes z rule s b (j - 1)) ↔
      (j ≠ 0 → rule.past (z.onDay s (rule.candidateDay (z.day s) j)) = false) ∧
        (∀ c, rule.count = some c → j < c.val) ∧
        yearOf (rule.candidateDay (z.day s) j) ≤ yearOf (z.day s) + 5 := by
  cases j with
  | zero =>
    simp only [true_or, ne_eq, not_true_eq_false, false_implies, true_and, true_iff,
      ParsedRule.candidateDay_zero]
    exact ⟨fun c _ => c.property, by omega⟩
  | succ j =>
    have hbefore : z.onDay s (rule.candidateDay (z.day s) j) ≤ b := by
      have hlt := rule.candidateDay_strictMono (z.day s) (Nat.lt_succ_self j)
      exact le_trans (hz.onDay_strictMono.monotone hlt.le) hrange
    have hnumber : number rule j = j + 1 := if_neg (by simp [hdaywise])
    rw [Nat.add_sub_cancel]
    unfold Goes
    rw [hnumber, exhausted_iff]
    simp [hbefore, hdaywise]

theorem reaches_daywise (hz : z.Steady s) (hdaywise : rule.daywise = true) {j : Nat}
    (hrange : z.onDay s (rule.candidateDay (z.day s) j) ≤ b) :
    (j = 0 ∨ Goes z rule s b (j - 1)) ↔
      (j ≠ 0 → rule.past (z.onDay s (rule.candidateDay (z.day s) j)) = false) ∧
        (j ≠ 0 → rule.exhausted 1 = false) := by
  cases j with
  | zero => simp
  | succ j =>
    have hbefore : z.onDay s (rule.candidateDay (z.day s) j) ≤ b := by
      have hlt := rule.candidateDay_strictMono (z.day s) (Nat.lt_succ_self j)
      exact le_trans (hz.onDay_strictMono.monotone hlt.le) hrange
    have hnumber : number rule j = 1 := if_pos hdaywise
    rw [Nat.add_sub_cancel]
    unfold Goes
    rw [hnumber]
    simp [hbefore, hdaywise]

/-- The days the walk comes to and shows are the instances within its bounds. -/
theorem shown_days_iff (hz : z.Steady s) (hreg : Regular z rule s b) {t : Int} (ht : t ≤ b) :
    (∃ j < 800, (j = 0 ∨ Goes z rule s b (j - 1)) ∧ (rule.freq ≠ .weekly ∨ matchesByDay z rule t) ∧
        z.onDay s (rule.candidateDay (z.day s) j) = t) ↔
      ∃ k, Instance z rule s k ∧ Bounded z rule s k ∧ z.onDay s (z.day s + k) = t := by
  cases hdaywise : rule.daywise with
  | true =>
    have hcandidate : ∀ j, rule.candidateDay (z.day s) j = z.day s + j := fun j => if_pos hdaywise
    have hweekly : rule.freq = .weekly ∧ rule.days ≠ [] := by
      unfold ParsedRule.daywise at hdaywise
      simpa using hdaywise
    have hmatches : ∀ k : Nat, z.onDay s (z.day s + k) ≤ b →
        (matchesByDay z rule (z.onDay s (z.day s + k)) = true ↔
          rule.recurs (z.day s) k = true) := by
      intro k hk
      rw [recurs_daywise hreg hdaywise hk]
      unfold matchesByDay Zone.getDay
      rw [hz.day_onDay]
      simp [hweekly.2]
    have hbounded : ∀ k, Bounded z rule s k ↔ k < 800 := by
      intro k
      unfold Bounded
      rw [if_pos hdaywise]
    constructor
    · rintro ⟨j, hj, hreach, hshown, rfl⟩
      rw [reaches_daywise hz hdaywise ht, hcandidate] at hreach
      rw [hcandidate] at ht hshown ⊢
      have hrecurs := (hmatches j ht).mp (hshown.resolve_left fun h => h hweekly.1)
      have hcounted := (counted_daywise hreg hdaywise ht hrecurs).mp hreach.2
      exact ⟨j, ⟨hrecurs, hreach.1, hcounted⟩, (hbounded j).mpr hj, rfl⟩
    · rintro ⟨k, hk, hbound, rfl⟩
      refine ⟨k, (hbounded k).mp hbound, ?_, Or.inr ((hmatches k ht).mpr hk.recurs), ?_⟩
      · rw [reaches_daywise hz hdaywise (by rw [hcandidate]; exact ht), hcandidate]
        exact ⟨hk.kept, (counted_daywise hreg hdaywise ht hk.recurs).mpr hk.counted⟩
      · rw [hcandidate]
  | false =>
    have hshown : rule.freq ≠ .weekly ∨ matchesByDay z rule t = true := by
      unfold ParsedRule.daywise at hdaywise
      unfold matchesByDay
      by_cases hfreq : rule.freq = .weekly
      · have hdays : rule.days = [] := by simpa [hfreq] using hdaywise
        simp [hdays]
      · exact Or.inl hfreq
    constructor
    · rintro ⟨j, hj, hreach, -, rfl⟩
      rw [reaches_iff hz hdaywise ht] at hreach
      obtain ⟨hpast, hcount, hyear⟩ := hreach
      obtain ⟨k, hk⟩ : ∃ k : Nat, rule.candidateDay (z.day s) j = z.day s + k :=
        ⟨(rule.candidateDay (z.day s) j - z.day s).toNat, by
          have hle := rule.first_le_candidateDay (z.day s) j
          omega⟩
      rw [hk] at ht hpast hyear ⊢
      have hindex := count_recurs hz hreg hdaywise hk ht
      refine ⟨k, ⟨(recurs_iff hreg hdaywise ht).mpr ⟨j, hk⟩, ?_, ?_⟩, ?_, rfl⟩
      · intro hne
        apply hpast
        rintro rfl
        rw [rule.candidateDay_zero] at hk
        omega
      · rw [hindex]
        exact hcount
      · unfold Bounded
        rw [if_neg (by simp [hdaywise]), hindex]
        exact ⟨hj, hyear⟩
    · rintro ⟨k, ⟨hrecurs, hkept, hcounted⟩, hbounded, rfl⟩
      obtain ⟨j, hj⟩ := (recurs_iff hreg hdaywise ht).mp hrecurs
      have hindex := count_recurs hz hreg hdaywise hj ht
      unfold Bounded at hbounded
      rw [if_neg (by simp [hdaywise]), hindex] at hbounded
      rw [hindex] at hcounted
      refine ⟨j, hbounded.1, ?_, hshown, by rw [hj]⟩
      rw [reaches_iff hz hdaywise (by rw [hj]; exact ht), hj]
      refine ⟨?_, hcounted, hbounded.2⟩
      intro hne
      apply hkept
      rintro rfl
      have hlt := rule.candidateDay_strictMono (z.day s) (Nat.pos_of_ne_zero hne)
      rw [rule.candidateDay_zero] at hlt
      omega

theorem copyAt_eq_some {x : Int × Nat} {e : Event} :
    copyAt z rule event a b x = some e ↔
      (a ≤ x.1 ∧ x.1 ≤ b ∧ (rule.freq ≠ .weekly ∨ matchesByDay z rule x.1)) ∧
        e = cloneForDate event x.1 := by
  unfold copyAt
  split
  · rename_i h
    rw [Option.some_inj, and_iff_right h]
    exact eq_comm
  · rename_i h
    constructor
    · intro hnone
      cases hnone
    · rintro ⟨hshown, -⟩
      exact absurd hshown h

/-- The copies the loop makes. -/
theorem mem_occurrences (hz : z.Steady s) (hreg : Regular z rule s b) {e : Event} :
    e ∈ occurrences z rule event s a b 800 s 1 ↔
      ∃ k, Instance z rule s k ∧ Bounded z rule s k ∧ a ≤ z.onDay s (z.day s + k) ∧
        z.onDay s (z.day s + k) ≤ b ∧ e = cloneForDate event (z.onDay s (z.day s + k)) := by
  rw [occurrences_eq_walk, ← stateAt_zero hz,
    mem_walk (advance_stateAt hz hreg) (goes_stays hz)]
  simp only [copyAt_eq_some]
  constructor
  · rintro ⟨j, hj, hreach, ⟨ha, hb, hshown⟩, rfl⟩
    obtain ⟨k, hk, hbound, heq⟩ := (shown_days_iff hz hreg hb).mp ⟨j, hj, hreach, hshown, rfl⟩
    refine ⟨k, hk, hbound, ?_⟩
    rw [heq]
    exact ⟨ha, hb, rfl⟩
  · rintro ⟨k, hk, hbound, ha, hb, rfl⟩
    obtain ⟨j, hj, hreach, hshown, heq⟩ := (shown_days_iff hz hreg hb).mpr ⟨k, hk, hbound, rfl⟩
    refine ⟨j, hj, hreach, ?_⟩
    have hstate : (stateAt z rule s j).1 = z.onDay s (z.day s + k) := heq
    rw [hstate]
    exact ⟨⟨ha, hb, hshown⟩, rfl⟩

/-- Later copies begin on later days. -/
theorem pairwise_occurrences (hz : z.Steady s) (hreg : Regular z rule s b) {r : Event → Event → Prop}
    (hr : ∀ d d', d < d' → a ≤ z.onDay s d → z.onDay s d' ≤ b →
      r (cloneForDate event (z.onDay s d)) (cloneForDate event (z.onDay s d'))) :
    (occurrences z rule event s a b 800 s 1).Pairwise r := by
  rw [occurrences_eq_walk, ← stateAt_zero hz]
  apply pairwise_walk (advance_stateAt hz hreg) (goes_stays hz)
  intro i j hlt x y hx hy
  obtain ⟨⟨ha, -, -⟩, rfl⟩ := copyAt_eq_some.mp hx
  obtain ⟨⟨-, hb, -⟩, rfl⟩ := copyAt_eq_some.mp hy
  exact hr _ _ (rule.candidateDay_strictMono (z.day s) hlt) ha hb

/-- With `BYDAY` neither the interval nor a count above one changes what is shown. -/
theorem occurrences_byday (hdaywise : rule.daywise = true) (interval : Positive)
    {count : Option Positive} (hcount : ∀ c, count = some c → 1 < c.val) (guard : Nat)
    (candidate : Int) :
    occurrences z { rule with interval := interval, count := count } event s a b guard candidate 1 =
      occurrences z { rule with count := none } event s a b guard candidate 1 := by
  induction guard generalizing candidate with
  | zero => rfl
  | succ guard ih =>
    have hcounted : ParsedRule.exhausted { rule with interval := interval, count := count } 1 =
        ParsedRule.exhausted { rule with count := none } 1 := exhausted_iff.mpr hcount
    unfold occurrences
    simp only [ih]
    rw [hcounted]
    have hdaywise' : ∀ i c, ParsedRule.daywise { rule with interval := i, count := c } = true :=
      fun _ _ => hdaywise
    rw [if_pos (hdaywise' interval count), if_pos (hdaywise' rule.interval none)]
    rfl

/-- Three Mondays, every other week: shown is every Monday. -/
theorem occurrences_byday_mondays :
    let rule : ParsedRule := ⟨.weekly, ⟨1, one_positive⟩, none, none, some [.mo]⟩
    let event : Event := ⟨"e1".toList, some 0, none, none⟩
    occurrences ⟨id, id⟩ { rule with interval := ⟨2, by decide⟩, count := some ⟨3, by decide⟩ }
        event 0 0 (60 * msPerDay) 800 0 1 =
      occurrences ⟨id, id⟩ rule event 0 0 (60 * msPerDay) 800 0 1 :=
  occurrences_byday rfl ⟨2, by decide⟩ (fun c hc => by cases hc; decide) 800 0

end Copies

/-! ## Keys of dates -/

theorem isoDate_of_year {day : Int} (h0 : 0 ≤ yearOf day) (h9999 : yearOf day ≤ 9999) :
    isoDate day = Pim.fourDigits (yearOf day).natAbs ++ ('-' ::
      (Pim.twoDigits (monthOf day % 12 + 1).toNat ++
        '-' :: Pim.twoDigits (dayOfMonth day).toNat)) := by
  unfold isoDate
  simp only []
  rw [if_pos ⟨h0, h9999⟩, List.append_assoc]
  rfl

/-- The year, the month and the day can be read from a key. -/
theorem dateKey_fields {t : Int} (h0 : 0 ≤ yearOf (t / msPerDay))
    (h9999 : yearOf (t / msPerDay) ≤ 9999) :
    Pim.readNat ((dateKey t).take 4) = some (yearOf (t / msPerDay)).natAbs ∧
      Pim.readNat (((dateKey t).drop 5).take 2) = some (monthOf (t / msPerDay) % 12 + 1).toNat ∧
      Pim.readNat (((dateKey t).drop 8).take 2) = some (dayOfMonth (t / msPerDay)).toNat := by
  have hdate := dayOfMonth_le (t / msPerDay)
  have hlen := (monthLength_bounds (monthOf (t / msPerDay))).2
  unfold dateKey
  rw [isoDate_of_year h0 h9999]
  refine ⟨?_, ?_, ?_⟩
  · exact Pim.readNat_fourDigits (by omega)
  · exact Pim.readNat_twoDigits (by omega)
  · exact Pim.readNat_twoDigits (by omega)

/-- Days of four-digit years have keys of their own. -/
theorem dateKey_inj {t t' : Int} (h0 : 0 ≤ yearOf (t / msPerDay))
    (h9999 : yearOf (t / msPerDay) ≤ 9999) (h0' : 0 ≤ yearOf (t' / msPerDay))
    (h9999' : yearOf (t' / msPerDay) ≤ 9999) (h : dateKey t = dateKey t') :
    t / msPerDay = t' / msPerDay := by
  obtain ⟨hyear, hmonth, hdate⟩ := dateKey_fields h0 h9999
  obtain ⟨hyear', hmonth', hdate'⟩ := dateKey_fields h0' h9999'
  rw [h, hyear', Option.some_inj] at hyear
  rw [h, hmonth', Option.some_inj] at hmonth
  rw [h, hdate', Option.some_inj] at hdate
  have hpos := dayOfMonth_pos (t / msPerDay)
  have hpos' := dayOfMonth_pos (t' / msPerDay)
  unfold yearOf at *
  have hm : monthOf (t / msPerDay) = monthOf (t' / msPerDay) := by omega
  have hd : dayOfMonth (t / msPerDay) = dayOfMonth (t' / msPerDay) := by omega
  rw [← makeDay_monthOf (t / msPerDay), hm, hd, makeDay_monthOf]

/-! ## The range -/

/-- The instances that begin in a range, within the bounds of the walk. -/
def BeginsIn (z : Zone) (rule : ParsedRule) (s a b t : Int) : Prop :=
  ∃ k, Instance z rule s k ∧ Bounded z rule s k ∧ z.onDay s (z.day s + k) = t ∧ a ≤ t ∧ t ≤ b

/-- The copies of an event are the instances that begin in the range and the walk can reach, each
once. -/
theorem expansion_exact (upper : Text → Text) {z : Zone} {event : Event} {rule : ParsedRule}
    {s a b : Int} (hrule : event.rule upper = some rule) (hstart : event.dtstart = some s)
    (hz : z.Steady s) (hreg : Regular z rule s b) :
    Expands event (expandEventsForRange upper z [event] a b) (BeginsIn z rule s a b) ∧
      (0 ≤ yearOf (a / msPerDay) → yearOf (b / msPerDay) ≤ 9999 →
        ((expandEventsForRange upper z [event] a b).map (·.id)).Nodup) := by
  have hout : expandEventsForRange upper z [event] a b =
      occurrences z rule event s a b 800 s 1 := by
    unfold expandEventsForRange expandEvent
    rw [List.flatMap_singleton, hrule, hstart]
  rw [hout]
  refine ⟨⟨?_, ?_, ?_⟩, ?_⟩
  · intro t
    constructor
    · rintro ⟨e, he, hstarts⟩
      obtain ⟨k, hk, hbound, ha, hb, rfl⟩ := (mem_occurrences hz hreg).mp he
      obtain rfl := Option.some.inj hstarts
      exact ⟨k, hk, hbound, rfl, ha, hb⟩
    · rintro ⟨k, hk, hbound, rfl, ha, hb⟩
      exact ⟨_, (mem_occurrences hz hreg).mpr ⟨k, hk, hbound, ha, hb, rfl⟩, rfl⟩
  · rw [List.Nodup, List.pairwise_map]
    apply pairwise_occurrences hz hreg
    intro d d' hlt _ _ heq
    have hsame := Option.some.inj heq
    rw [hz.onDay_inj] at hsame
    omega
  · intro e he
    obtain ⟨k, -, -, -, -, rfl⟩ := (mem_occurrences hz hreg).mp he
    exact ⟨_, rfl, rfl⟩
  · intro h0 h9999
    rw [List.Nodup, List.pairwise_map]
    apply pairwise_occurrences hz hreg
    intro d d' hlt ha hb heq
    obtain ⟨shift, hshift⟩ := hz.same_side
    have hle := (hz.onDay_strictMono hlt).le
    have hkey : dateKey (z.onDay s d) = dateKey (z.onDay s d') := List.append_cancel_left heq
    have hyears : ∀ t, a ≤ t → t ≤ b → 0 ≤ yearOf (t / msPerDay) ∧ yearOf (t / msPerDay) ≤ 9999 := by
      intro t hat htb
      have hlow : yearOf (a / msPerDay) ≤ yearOf (t / msPerDay) :=
        yearOf_mono (Int.ediv_le_ediv (by decide) hat)
      have hhigh : yearOf (t / msPerDay) ≤ yearOf (b / msPerDay) :=
        yearOf_mono (Int.ediv_le_ediv (by decide) htb)
      omega
    have hd := hyears _ ha (le_trans hle hb)
    have hd' := hyears _ (le_trans ha hle) hb
    have hdays := dateKey_inj hd.1 hd.2 hd'.1 hd'.2 hkey
    rw [hshift, hshift] at hdays
    omega

/-! ## What the expansion leaves out -/

/-- The instances of which some part lies in a range without its end. -/
def Overlaps (z : Zone) (rule : ParsedRule) (event : Event) (s a b t : Int) : Prop :=
  ∃ k, Instance z rule s k ∧ z.onDay s (z.day s + k) = t ∧ t < b ∧ (a ≤ t ∨ a < t + event.duration)

/-- Every instance that overlaps a range has its copy, however far from the first. -/
def ExpandsFully (upper : Text → Text) (z : Zone) (event : Event) (a b : Int) : Prop :=
  ∀ rule s, event.rule upper = some rule → event.dtstart = some s →
    Expands event (expandEventsForRange upper z [event] a b) (Overlaps z rule event s a b) ∧
      ((expandEventsForRange upper z [event] a b).map (·.id)).Nodup

def Zone.utc : Zone := ⟨id, id⟩

theorem utc_steady (s : Int) : Zone.utc.Steady s := by
  have hday : ∀ day, Zone.utc.onDay s day = day * msPerDay + s % msPerDay := fun _ => rfl
  refine ⟨?_, fun _ => rfl, 0, ?_⟩
  · rw [hday]
    show s / msPerDay * msPerDay + s % msPerDay = s
    exact Int.ediv_mul_add_emod s msPerDay
  · intro day
    rw [hday]
    unfold msPerDay
    omega

def asciiUpper : Text → Text := List.map Char.toUpper

/-- An event of one hour at nine in the morning. -/
def morning (year month date : Int) (rule : String) : Event where
  id := "e1".toList
  dtstart := some (dateUtc year (month - 1) date 9 0 0)
  dtend := some (dateUtc year (month - 1) date 10 0 0)
  recurrenceRule := some rule.toList

theorem expansion_exact_byday :
    let event := morning 2026 9 2 "RRULE:FREQ=WEEKLY;BYDAY=MO,WE,FR"
    let rule : ParsedRule := ⟨.weekly, ⟨1, one_positive⟩, none, none, some [.mo, .we, .fr]⟩
    let a := dateUtc 2026 8 1 0 0 0
    let b := dateUtc 2026 8 30 0 0 0
    Expands event (expandEventsForRange asciiUpper Zone.utc [event] a b)
        (BeginsIn Zone.utc rule (dateUtc 2026 8 2 9 0 0) a b) ∧
      (0 ≤ yearOf (a / msPerDay) → yearOf (b / msPerDay) ≤ 9999 →
        ((expandEventsForRange asciiUpper Zone.utc [event] a b).map (·.id)).Nodup) :=
  expansion_exact asciiUpper (by decide +kernel) rfl (utc_steady _)
    ⟨fun _ => rfl, fun _ => by decide, fun _ _ _ _ => Int.emod_one _, fun _ => nofun, nofun, nofun⟩

section Failures

variable {upper : Text → Text} {z : Zone} {event : Event} {a b s : Int}

theorem not_expandsFully_of_missing (rule : ParsedRule) (hrule : event.rule upper = some rule)
    (hstart : event.dtstart = some s) (hnone : expandEventsForRange upper z [event] a b = [])
    {t : Int} (ht : Overlaps z rule event s a b t) : ¬ ExpandsFully upper z event a b := by
  intro h
  obtain ⟨e, he, -⟩ := ((h rule s hrule hstart).1.mem t).mpr ht
  rw [hnone] at he
  exact List.not_mem_nil he

theorem not_expandsFully_of_end (rule : ParsedRule) (hrule : event.rule upper = some rule)
    (hstart : event.dtstart = some s)
    (hend : b ∈ (expandEventsForRange upper z [event] a b).filterMap (·.dtstart)) :
    ¬ ExpandsFully upper z event a b := by
  intro h
  obtain ⟨e, he, hb⟩ := List.mem_filterMap.mp hend
  obtain ⟨k, -, -, hlt, -⟩ := ((h rule s hrule hstart).1.mem b).mp ⟨e, he, hb⟩
  exact lt_irrefl b hlt

end Failures

/-- Beyond five years, begun before the range, or at its end. -/
theorem expansion_bounded :
    ¬ ExpandsFully asciiUpper Zone.utc (morning 2020 1 15 "FREQ=YEARLY")
        (dateUtc 2026 0 1 0 0 0) (dateUtc 2026 1 1 0 0 0) ∧
      ¬ ExpandsFully asciiUpper Zone.utc (morning 2026 9 1 "FREQ=WEEKLY")
        (dateUtc 2026 8 1 9 30 0) (dateUtc 2026 8 2 0 0 0) ∧
      ¬ ExpandsFully asciiUpper Zone.utc (morning 2026 9 1 "FREQ=DAILY")
        (dateUtc 2026 8 1 0 0 0) (dateUtc 2026 8 2 9 0 0) := by
  refine ⟨?_, ?_, ?_⟩
  · apply not_expandsFully_of_missing ⟨.yearly, ⟨1, one_positive⟩, none, none, none⟩
      (by decide +kernel) rfl (by decide +kernel)
    exact ⟨2192, ⟨by decide +kernel, fun _ => rfl, nofun⟩, rfl, by decide +kernel, by decide +kernel⟩
  · apply not_expandsFully_of_missing ⟨.weekly, ⟨1, one_positive⟩, none, none, none⟩
      (by decide +kernel) rfl (by decide +kernel)
    exact ⟨0, ⟨by decide +kernel, fun _ => rfl, nofun⟩, rfl, by decide +kernel, by decide +kernel⟩
  · exact not_expandsFully_of_end ⟨.daily, ⟨1, one_positive⟩, none, none, none⟩
      (by decide +kernel) rfl (by decide +kernel)

end Lyra.Recurrence
