import NatsClient.Foundation.Run

/-!
# The idle heartbeat monitor

Model of `IdleHeartbeatMonitor` (`idleheartbeat_monitor.ts`) with a clock: its interval timer and
the timer that cancels it, `work` for what comes from the server, and the callback, which may call
the monitor itself, return or throw. A timer fires when it is due or later.

* `alarms_sound`: the callback is called with `n` only behind `n` intervals without work, however
  late the timers are;
* `alarms_complete`: with timers that are not late it is called before `maxOut + 1` intervals
  without work are over, and the monitor does not outlast `cancelAfter`.
-/

set_option autoImplicit false

namespace NatsClient.JetStream

open NatsClient.Foundation

/-- `IdleHeartbeatMonitor`; the timers are the times at which they are due. -/
structure IdleHeartbeatMonitor where
  interval : Nat
  maxOut : Nat
  cancelAfter : Nat
  timer : Option Nat
  autoCancelTimer : Option Nat
  last : Nat
  missed : Nat
  count : Nat
deriving DecidableEq, Repr

/-- The callback was called at a time, with `missed`. -/
structure Alarm where
  time : Nat
  missed : Nat
  interval : Nat
  maxOut : Nat
  last : Nat
  scheduled : Nat
deriving DecidableEq, Repr

/-- A monitor, the time, when its timers were set, and the calls of its callback so far. -/
structure Monitored where
  monitor : IdleHeartbeatMonitor
  now : Nat
  scheduled : Nat
  alarms : List Alarm
deriving DecidableEq, Repr

namespace Monitored

/-- The methods. -/
inductive Call where
  | work
  | cancel
  | restart
  | change (interval : Nat) (cancelAfter maxOut : Option Nat)
deriving DecidableEq, Repr

/-- What the callback does: its calls, and what it returns unless it throws. -/
structure Reaction where
  calls : List Call
  result : Option Bool
deriving DecidableEq, Repr

/-- What can happen. -/
inductive Event where
  | elapse (millis : Nat)
  | tick (reaction : Reaction)
  | autoCancel
  | call (c : Call)
deriving DecidableEq, Repr

/-- `cancel()`. -/
def cancel (s : Monitored) : Monitored :=
  { s with monitor := { s.monitor with timer := none, autoCancelTimer := none, missed := 0 } }

/-- `work()`. -/
def work (s : Monitored) : Monitored :=
  { s with monitor := { s.monitor with last := s.now, missed := 0 } }

/-- `_schedule()`. -/
def schedule (s : Monitored) : Monitored :=
  { s with
    scheduled := s.now
    monitor := { s.monitor with
      autoCancelTimer :=
        if 0 < s.monitor.cancelAfter then some (s.now + s.monitor.cancelAfter)
        else s.monitor.autoCancelTimer
      timer := some (s.now + s.monitor.interval) } }

/-- `restart()`. -/
def restart (s : Monitored) : Monitored := s.cancel.schedule

/-- `_change(interval, cancelAfter, maxOut)`. -/
def change (s : Monitored) (interval : Nat) (cancelAfter maxOut : Option Nat) : Monitored :=
  restart { s with monitor := { s.monitor with
    interval := interval
    maxOut := maxOut.getD 2
    cancelAfter := cancelAfter.getD 0 } }

/-- The constructor; an option `0` is as good as none. -/
def new (now interval : Nat) (maxOut cancelAfter : Option Nat) : Monitored :=
  schedule
    ⟨⟨interval, if maxOut.getD 0 = 0 then 2 else maxOut.getD 0, cancelAfter.getD 0, none,
      none, now, 0, 0⟩,
    now, now, []⟩

/-- A call of the monitor. -/
def apply (s : Monitored) : Call → Monitored
  | .work => s.work
  | .cancel => s.cancel
  | .restart => s.restart
  | .change interval cancelAfter maxOut => s.change interval cancelAfter maxOut

/-- The interval is over: a heartbeat may be missed. -/
def beat (s : Monitored) : Monitored :=
  { s with monitor := { s.monitor with
    timer := some (s.now + s.monitor.interval)
    count := s.monitor.count + 1
    missed := if s.monitor.interval < s.now - s.monitor.last then s.monitor.missed + 1
      else s.monitor.missed } }

/-- The callback is called. -/
def alarm (s : Monitored) (reaction : Reaction) : Monitored :=
  let m := s.monitor
  let s :=
    { s with alarms := s.alarms ++ [⟨s.now, m.missed, m.interval, m.maxOut, m.last, s.scheduled⟩] }
  let s := reaction.calls.foldl apply s
  if reaction.result = some true then s.cancel else s

/-- The function of the interval timer. -/
def tick (s : Monitored) (reaction : Reaction) : Monitored :=
  if s.beat.monitor.maxOut ≤ s.beat.monitor.missed then s.beat.alarm reaction else s.beat

/-- One event; `none` where it cannot happen. -/
def step (s : Monitored) : Event → Option Monitored
  | .elapse millis => some { s with now := s.now + millis }
  | .tick reaction =>
      match s.monitor.timer with
      | some due => if due ≤ s.now then some (s.tick reaction) else none
      | none => none
  | .autoCancel =>
      match s.monitor.autoCancelTimer with
      | some due => if due ≤ s.now then some s.cancel else none
      | none => none
  | .call c => some (s.apply c)

/-- The time since which nothing came and the timers run. -/
def since (s : Monitored) : Nat := max s.monitor.last s.scheduled

/-- No timer is late: time does not pass one that is due. -/
def Punctual (s : Monitored) : Event → Prop
  | .elapse millis =>
      (∀ due ∈ s.monitor.timer, s.now + millis ≤ due) ∧ ∀ due ∈ s.monitor.autoCancelTimer,
        s.now + millis ≤ due
  | .tick _ | .autoCancel | .call _ => True

instance (s : Monitored) : (e : Event) → Decidable (s.Punctual e)
  | .elapse _ => inferInstanceAs (Decidable (_ ∧ _))
  | .tick _ | .autoCancel | .call _ => isTrue trivial

/-! ## What one event does -/

section

variable {s s' : Monitored} {e : Event}

/-- **What one event does.** -/
inductive Step (s : Monitored) : Event → Monitored → Prop where
  | elapse (millis : Nat) : Step s (.elapse millis) { s with now := s.now + millis }
  | tick (reaction : Reaction) (due : Nat) (hdue : s.monitor.timer = some due) (hle : due ≤ s.now) :
      Step s (.tick reaction) (s.tick reaction)
  | autoCancel (due : Nat) (hdue : s.monitor.autoCancelTimer = some due) (hle : due ≤ s.now) :
      Step s .autoCancel s.cancel
  | call (c : Call) : Step s (.call c) (s.apply c)

theorem step_of_eq (h : s.step e = some s') : Step s e s' := by
  cases e with
  | elapse millis =>
      cases h
      exact Step.elapse millis
  | tick reaction =>
      cases hdue : s.monitor.timer with
      | none => simp only [step, hdue, reduceCtorEq] at h
      | some due =>
          simp only [step, hdue] at h
          obtain ⟨hle, heq⟩ := Option.ite_none_right_eq_some.1 h
          exact Option.some.inj heq ▸ Step.tick reaction due hdue hle
  | autoCancel =>
      cases hdue : s.monitor.autoCancelTimer with
      | none => simp only [step, hdue, reduceCtorEq] at h
      | some due =>
          simp only [step, hdue] at h
          obtain ⟨hle, heq⟩ := Option.ite_none_right_eq_some.1 h
          exact Option.some.inj heq ▸ Step.autoCancel due hdue hle
  | call c =>
      cases h
      exact Step.call c

/-- **Invariants of the methods** are invariants of a callback's calls. -/
theorem foldl_apply {I : Monitored → Prop} (happly : ∀ s c, I s → I (apply s c)) :
    ∀ (calls : List Call) {s : Monitored}, I s → I (calls.foldl apply s) := by
  intro calls
  induction calls with
  | nil => exact fun h => h
  | cons c calls ih => exact fun h => ih (happly _ c h)

/-- **Invariants of ticks**: what the methods, the end of an interval and a call of the callback
keep. -/
theorem tick_induction {I J : Monitored → Prop} (happly : ∀ s c, I s → I (apply s c))
    (hbeat : J s.beat)
    (hquiet : s.beat.monitor.missed < s.beat.monitor.maxOut → J s.beat → I s.beat)
    (hcall : s.beat.monitor.maxOut ≤ s.beat.monitor.missed → J s.beat →
      I
      { s.beat with
        alarms := s.beat.alarms ++ [⟨s.beat.now, s.beat.monitor.missed, s.beat.monitor.interval,
        s.beat.monitor.maxOut, s.beat.monitor.last, s.beat.scheduled⟩] })
    (reaction : Reaction) : I (s.tick reaction) := by
  rw [tick]
  by_cases hmissed : s.beat.monitor.maxOut ≤ s.beat.monitor.missed
  · rw [if_pos hmissed, alarm]
    have hreacted := foldl_apply happly reaction.calls (hcall hmissed hbeat)
    split
    · exact happly _ .cancel hreacted
    · exact hreacted
  · rw [if_neg hmissed]
    exact hquiet (Nat.lt_of_not_le hmissed) hbeat

end

/-! ## Late timers -/

/-- What all runs keep. A missed heartbeat stands for a whole interval without work. -/
structure Sound (s : Monitored) : Prop where
  last_le : s.monitor.last ≤ s.now
  scheduled_le : s.scheduled ≤ s.now
  due : ∀ due ∈ s.monitor.timer, s.scheduled + s.monitor.interval ≤ due ∧
    (0 < s.monitor.missed → s.since + (s.monitor.missed + 1) * s.monitor.interval ≤ due)
  silent : 0 < s.monitor.missed → s.monitor.last + s.monitor.interval < s.now
  alarms : ∀ a ∈ s.alarms, a.maxOut ≤ a.missed ∧
    max a.last a.scheduled + a.missed * a.interval ≤ a.time

section

variable {s s' : Monitored} {e : Event}

theorem Sound.cancel (h : Sound s) : Sound s.cancel where
  last_le := h.last_le
  scheduled_le := h.scheduled_le
  due _ hdue := absurd hdue (Option.not_mem_none _)
  silent hmissed := absurd hmissed (Nat.lt_irrefl 0)
  alarms := h.alarms

theorem Sound.restart (h : Sound s) : Sound s.restart where
  last_le := h.last_le
  scheduled_le := Nat.le_refl _
  due due hdue := by
    cases hdue
    exact ⟨Nat.le_refl _, fun hmissed => absurd hmissed (Nat.lt_irrefl 0)⟩
  silent hmissed := absurd hmissed (Nat.lt_irrefl 0)
  alarms := h.alarms

/-- The options do not matter to a monitor that is restarted. -/
theorem Sound.change (h : Sound s) (interval : Nat) (cancelAfter maxOut : Option Nat) :
    Sound (s.change interval cancelAfter maxOut) where
  last_le := h.last_le
  scheduled_le := Nat.le_refl _
  due due hdue := by
    cases hdue
    exact ⟨Nat.le_refl _, fun hmissed => absurd hmissed (Nat.lt_irrefl 0)⟩
  silent hmissed := absurd hmissed (Nat.lt_irrefl 0)
  alarms := h.alarms

theorem Sound.apply (h : Sound s) (c : Call) : Sound (s.apply c) := by
  cases c with
  | work =>
      exact ⟨Nat.le_refl _, h.scheduled_le, fun due hdue => ⟨(h.due due hdue).1, fun hmissed =>
        absurd hmissed (Nat.lt_irrefl 0)⟩, fun hmissed => absurd hmissed (Nat.lt_irrefl 0),
        h.alarms⟩
  | cancel => exact h.cancel
  | restart => exact h.restart
  | change interval cancelAfter maxOut => exact h.change interval cancelAfter maxOut

/-- **The end of an interval.** As many intervals are over as heartbeats are missed. -/
theorem Sound.beat (h : Sound s) {due : Nat} (hdue : s.monitor.timer = some due)
    (hle : due ≤ s.now) :
    Sound s.beat ∧ s.beat.since + s.beat.monitor.missed * s.beat.monitor.interval ≤ s.beat.now := by
  obtain ⟨hfirst, hmore⟩ := h.due due hdue
  have hlast := h.last_le
  have hscheduled := h.scheduled_le
  have hkey : s.beat.since + s.beat.monitor.missed * s.beat.monitor.interval ≤ s.beat.now ∧
      (0 < s.beat.monitor.missed → s.monitor.last + s.monitor.interval < s.now) := by
    show max s.monitor.last s.scheduled + (if s.monitor.interval < s.now - s.monitor.last
        then s.monitor.missed + 1
        else s.monitor.missed) * s.monitor.interval ≤ s.now ∧
        (0 < (if s.monitor.interval < s.now - s.monitor.last then
        s.monitor.missed + 1 else s.monitor.missed) → s.monitor.last + s.monitor.interval < s.now)
    by_cases hmissed : s.monitor.interval < s.now - s.monitor.last
    · rw [if_pos hmissed]
      refine ⟨?_, fun _ => by omega⟩
      by_cases hzero : s.monitor.missed = 0
      · rw [hzero, Nat.zero_add, Nat.one_mul]
        omega
      · have := hmore (by omega)
        rw [since] at this
        omega
    · rw [if_neg hmissed]
      -- a heartbeat that was missed before would be missed again
      have hzero : s.monitor.missed = 0 := by
        by_contra hne
        have := h.silent (by omega)
        omega
      rw [hzero, Nat.zero_mul]
      exact ⟨by omega, fun hpos => absurd hpos (Nat.lt_irrefl 0)⟩
  refine ⟨⟨hlast, hscheduled, fun due' hdue' => ?_, hkey.2, h.alarms⟩, hkey.1⟩
  cases hdue'
  refine ⟨Nat.add_le_add_right hscheduled _, fun _ => ?_⟩
  have hsum := hkey.1
  rw [Nat.succ_mul]
  show s.beat.since + (s.beat.monitor.missed * s.beat.monitor.interval + s.monitor.interval) ≤
      s.now + s.monitor.interval
  have hnow : s.beat.now = s.now := rfl
  omega

theorem Sound.step (h : Sound s) (hstep : Step s e s') : Sound s' := by
  cases hstep with
  | elapse millis =>
      exact ⟨Nat.le_trans h.last_le (Nat.le_add_right _ _),
        Nat.le_trans h.scheduled_le (Nat.le_add_right _ _), h.due,
        fun hmissed => Nat.lt_of_lt_of_le (h.silent hmissed) (Nat.le_add_right _ _), h.alarms⟩
  | tick reaction due hdue hle =>
      refine tick_induction (I := Sound)
        (J := fun s => Sound s ∧ s.since + s.monitor.missed * s.monitor.interval ≤ s.now)
        (fun s c h => h.apply c) (h.beat hdue hle) (fun _ h => h.1) (fun hmissed h => ?_) reaction
      refine ⟨h.1.last_le, h.1.scheduled_le, h.1.due, h.1.silent, fun a ha => ?_⟩
      rcases List.mem_append.1 ha with ha | ha
      · exact h.1.alarms a ha
      · rw [List.mem_singleton.1 ha]
        exact ⟨hmissed, h.2⟩
  | autoCancel due hdue hle => exact h.cancel
  | call c => exact h.apply c

theorem sound_new (now interval : Nat) (maxOut cancelAfter : Option Nat) :
    Sound (new now interval maxOut cancelAfter) where
  last_le := Nat.le_refl _
  scheduled_le := Nat.le_refl _
  due due hdue := by
    cases hdue
    exact ⟨Nat.le_refl _, fun hmissed => absurd hmissed (Nat.lt_irrefl 0)⟩
  silent hmissed := absurd hmissed (Nat.lt_irrefl 0)
  alarms a ha := absurd ha List.not_mem_nil

/-- The event does not set the timers anew. -/
def Leaves : Event → Prop
  | .call .restart | .call (.change ..) => False
  | .elapse _ | .tick _ | .autoCancel | .call .work | .call .cancel => True

/-- A monitor that is canceled is silent. -/
theorem alarms_of_canceled {es : List Event} (hcanceled : s.monitor.timer = none)
    (hleaves : ∀ e ∈ es, Leaves e) (hrun : run Monitored.step s es = some s') :
    s'.alarms = s.alarms := by
  have hinv : s'.monitor.timer = none ∧ s'.alarms = s.alarms := by
    refine invariant_run_of_forall (I := fun s₁ : Monitored => s₁.monitor.timer = none ∧
      s₁.alarms = s.alarms) (fun s₁ e s₂ hinv hleaves hstep => ?_) hrun hleaves ⟨hcanceled, rfl⟩
    cases step_of_eq hstep with
    | elapse millis => exact hinv
    | tick reaction due hdue hle =>
        rw [hinv.1] at hdue
        cases hdue
    | autoCancel due hdue hle => exact ⟨rfl, hinv.2⟩
    | call c =>
        cases c with
        | work => exact hinv
        | cancel => exact ⟨rfl, hinv.2⟩
        | restart => exact hleaves.elim
        | change interval cancelAfter maxOut => exact hleaves.elim
  exact hinv.2

end

/-- **An alarm is not false.** Whatever the timers' delays, the calls, and what the callback does:
it is called with `n` only if `n` reaches `maxOut`, and `n` intervals are over since the last work
and since the timers were set. A monitor that is canceled calls it no more until it is restarted. -/
theorem alarms_sound (now interval : Nat) (maxOut cancelAfter : Option Nat) (es : List Event)
    (s : Monitored) (hrun : run step (new now interval maxOut cancelAfter) es = some s) :
    (∀ a ∈ s.alarms, a.maxOut ≤ a.missed ∧
      max a.last a.scheduled + a.missed * a.interval ≤ a.time) ∧
      (s.monitor.timer = none → ∀ es' s', (∀ e ∈ es', Leaves e) → run step s es' = some s' →
        s'.alarms = s.alarms) := by
  have hsound : Sound s := invariant_run (fun _ _ _ h hstep => h.step (step_of_eq hstep)) hrun
    (sound_new now interval maxOut cancelAfter)
  exact ⟨hsound.alarms, fun hcanceled es' s' hleaves hrun' => alarms_of_canceled hcanceled
    hleaves hrun'⟩

/-- A callback that is called twice and then stops the monitor. -/
theorem alarms_sound_stopped :
    ∃ s, run step (new 0 10 none none) [.elapse 11, .tick ⟨[], none⟩, .elapse 25,
      .tick ⟨[], some false⟩, .elapse 10,
        .tick ⟨[], some true⟩] = some s ∧
      ∀ a ∈ s.alarms, a.maxOut ≤ a.missed ∧
      max a.last a.scheduled + a.missed * a.interval ≤ a.time :=
  ⟨_, rfl,
    (alarms_sound 0 10 none none [.elapse 11, .tick ⟨[], none⟩, .elapse 25,
      .tick ⟨[], some false⟩, .elapse 10,
    .tick ⟨[], some true⟩] _ rfl).1⟩

/-! ## Timers in time -/

/-- What runs keep in which no timer is late. -/
structure Timed (s : Monitored) : Prop where
  last_le : s.monitor.last ≤ s.now
  scheduled_le : s.scheduled ≤ s.now
  due : ∀ due ∈ s.monitor.timer, s.now ≤ due ∧ due ≤ s.now + s.monitor.interval ∧
    due ≤ s.since + (s.monitor.missed + 2) * s.monitor.interval
  cancels : ∀ due ∈ s.monitor.autoCancelTimer, s.now ≤ due
  limit : s.monitor.timer ≠ none → 0 < s.monitor.cancelAfter →
    s.monitor.autoCancelTimer = some (s.scheduled + s.monitor.cancelAfter)

/-- A silence that went on for `maxOut` intervals has had its alarm. With `maxOut` zero, the end of
each interval in it has one. -/
def Alarmed (s : Monitored) : Prop :=
  ∀ due ∈ s.monitor.timer, s.monitor.maxOut ≤ s.monitor.missed →
    0 < s.monitor.maxOut ∨ s.since + s.monitor.interval < due →
      ∃ a ∈ s.alarms, a.last = s.monitor.last ∧ a.scheduled = s.scheduled

section

variable {s s' : Monitored} {e : Event}

theorem Timed.cancel (h : Timed s) : Timed s.cancel where
  last_le := h.last_le
  scheduled_le := h.scheduled_le
  due _ hdue := absurd hdue (Option.not_mem_none _)
  cancels _ hdue := absurd hdue (Option.not_mem_none _)
  limit htimer := absurd rfl htimer

/-- The timers of a monitor that is set up now. -/
theorem timed_schedule (hlast : s.monitor.last ≤ s.now)
    (hcancel : s.monitor.autoCancelTimer = none) : Timed s.schedule where
  last_le := hlast
  scheduled_le := Nat.le_refl _
  due due hdue := by
    cases hdue
    have hsince : s.now ≤ s.schedule.since := Nat.le_max_right _ _
    refine ⟨Nat.le_add_right _ _, Nat.le_refl _, ?_⟩
    rw [Nat.add_mul, Nat.two_mul]
    show s.now + s.monitor.interval ≤ _ + (_ + (s.monitor.interval + s.monitor.interval))
    omega
  cancels due hdue := by
    have hset : s.schedule.monitor.autoCancelTimer =
        if 0 < s.monitor.cancelAfter then some (s.now + s.monitor.cancelAfter)
        else s.monitor.autoCancelTimer := rfl
    rw [hset, hcancel] at hdue
    split at hdue
    · cases hdue
      exact Nat.le_add_right _ _
    · exact absurd hdue (Option.not_mem_none _)
  limit _ hpos := if_pos hpos

/-- Nothing was missed, and no interval has ended in the silence. -/
theorem alarmed_of_fresh (h : s.monitor.missed = 0)
    (hdue : ∀ due ∈ s.monitor.timer, due ≤ s.since + s.monitor.interval) : Alarmed s := by
  intro due hmem hle hwhen
  have hfirst := hdue due hmem
  omega

theorem alarmed_schedule (h : s.monitor.missed = 0) : Alarmed s.schedule := by
  refine alarmed_of_fresh h fun due hdue => ?_
  cases hdue
  exact Nat.add_le_add_right (Nat.le_max_right _ _) _

theorem Timed.apply (h : Timed s) (c : Call) : Timed (s.apply c) ∧ Alarmed (s.apply c) := by
  cases c with
  | work =>
      have hsince : s.now ≤ s.work.since := Nat.le_max_left _ _
      refine ⟨⟨Nat.le_refl _, h.scheduled_le, fun due hdue => ?_, h.cancels, h.limit⟩,
        alarmed_of_fresh rfl fun due hdue => ?_⟩
      · obtain ⟨hnow, hnext, -⟩ := h.due due hdue
        refine ⟨hnow, hnext, ?_⟩
        show due ≤ s.work.since + (0 + 2) * s.monitor.interval
        omega
      · exact Nat.le_trans (h.due due hdue).2.1 (Nat.add_le_add_right hsince _)
  | cancel => exact ⟨h.cancel, fun _ hdue => absurd hdue (Option.not_mem_none _)⟩
  | restart => exact ⟨timed_schedule h.last_le rfl, alarmed_schedule rfl⟩
  | change interval cancelAfter maxOut => exact ⟨timed_schedule h.last_le rfl, alarmed_schedule rfl⟩

/-- **The end of an interval**, at the time it is due. -/
theorem Timed.beat (h : Timed s) {due : Nat} (hdue : s.monitor.timer = some due)
    (hle : due ≤ s.now) : Timed s.beat := by
  obtain ⟨hnow, -, hbound⟩ := h.due due hdue
  have hlast : s.monitor.last ≤ s.since := Nat.le_max_left _ _
  refine ⟨h.last_le, h.scheduled_le, fun due' hdue' => ?_, h.cancels,
    fun _ hpos => h.limit (by rw [hdue]; simp) hpos⟩
  cases hdue'
  refine ⟨Nat.le_add_right _ _, Nat.le_refl _, ?_⟩
  show s.now + s.monitor.interval ≤ s.since + ((if s.monitor.interval < s.now - s.monitor.last then
    s.monitor.missed + 1 else s.monitor.missed) + 2) * s.monitor.interval
  by_cases hmissed : s.monitor.interval < s.now - s.monitor.last
  · rw [if_pos hmissed, Nat.add_right_comm, Nat.succ_mul]
    omega
  · rw [if_neg hmissed, Nat.add_mul, Nat.two_mul]
    omega

theorem Timed.step (h : Timed s) (ha : Alarmed s) (hpunctual : s.Punctual e) (hstep : Step s e s') :
    Timed s' ∧ Alarmed s' := by
  cases hstep with
  | elapse millis =>
      refine ⟨⟨Nat.le_trans h.last_le (Nat.le_add_right _ _),
        Nat.le_trans h.scheduled_le (Nat.le_add_right _ _),
        fun due hdue => ?_, hpunctual.2, h.limit⟩, ha⟩
      obtain ⟨-, hnext, hbound⟩ := h.due due hdue
      refine ⟨hpunctual.1 due hdue, ?_, hbound⟩
      show due ≤ s.now + millis + s.monitor.interval
      omega
  | tick reaction due hdue hle =>
      refine tick_induction (I := fun s => Timed s ∧ Alarmed s) (J := Timed)
        (fun s c h => h.1.apply c) (h.beat hdue hle) (fun hless h => ⟨h, fun _ _ hge _ => ?_⟩)
        (fun _ h => ⟨⟨h.last_le, h.scheduled_le, h.due,
          h.cancels, h.limit⟩, fun _ _ _ _ => ?_⟩) reaction
      · omega
      · exact ⟨_, List.mem_append_right _ (List.mem_singleton.2 rfl), rfl, rfl⟩
  | autoCancel due hdue hle => exact ⟨h.cancel, fun _ hdue => absurd hdue (Option.not_mem_none _)⟩
  | call c => exact h.apply c

end

/-- **A silence is noticed.** In every run in which no timer is late: where the monitor runs and
more than `maxOut + 1` intervals have passed since the last work and since its timers were set, the
callback was called in this silence; and a monitor with `cancelAfter` does not run longer than
that. -/
theorem alarms_complete (now interval : Nat) (maxOut cancelAfter : Option Nat) (es : List Event)
    (s : Monitored) (hrun : run step (new now interval maxOut cancelAfter) es = some s)
    (hpunctual : Meets step Punctual (new now interval maxOut cancelAfter) es) :
    (s.monitor.timer ≠ none → s.since + (s.monitor.maxOut + 1) * s.monitor.interval < s.now →
        ∃ a ∈ s.alarms, a.last = s.monitor.last ∧ a.scheduled = s.scheduled) ∧
      (s.monitor.timer ≠ none → 0 < s.monitor.cancelAfter →
        s.now ≤ s.scheduled + s.monitor.cancelAfter) := by
  obtain ⟨htimed, halarmed⟩ := invariant_run_of_meets (I := fun s => Timed s ∧ Alarmed s)
    (fun _ _ _ h hok hstep => h.1.step h.2 hok (step_of_eq hstep)) hrun hpunctual
    ⟨timed_schedule (Nat.le_refl _) rfl, alarmed_schedule rfl⟩
  refine ⟨fun htimer hsilent => ?_, fun htimer hpos => ?_⟩
  · -- the next end of an interval is ahead, so that enough of them are behind
    obtain ⟨due, hdue⟩ := Option.ne_none_iff_exists'.1 htimer
    obtain ⟨hnow, -, hbound⟩ := htimed.due due hdue
    have hlt : (s.monitor.maxOut + 1) * s.monitor.interval < (s.monitor.missed + 2) *
        s.monitor.interval := by
      omega
    have hmissed := Nat.lt_of_mul_lt_mul_right hlt
    refine halarmed due hdue (by omega) ?_
    rcases Nat.eq_zero_or_pos s.monitor.maxOut with hzero | hpos
    · rw [hzero, Nat.zero_add, Nat.one_mul] at hsilent
      exact .inr (by omega)
    · exact .inl hpos
  · exact htimed.cancels _ (htimed.limit htimer hpos)

/-- Heartbeats of an interval of 10 stop at 5. -/
theorem alarms_complete_stopped :
    ∃ s, run step (new 0 10 none none) [.elapse 5, .call .work, .elapse 5, .tick ⟨[], none⟩,
      .elapse 10, .tick ⟨[], none⟩,
        .elapse 10, .tick ⟨[], some false⟩, .elapse 6] = some s ∧
      ∃ a ∈ s.alarms, a.last = s.monitor.last ∧ a.scheduled = s.scheduled :=
  ⟨_, rfl,
    (alarms_complete 0 10 none none [.elapse 5, .call .work, .elapse 5,
      .tick ⟨[], none⟩, .elapse 10,
    .tick ⟨[], none⟩, .elapse 10, .tick ⟨[], some false⟩,
    .elapse 6] _ rfl (by decide)).1 (by decide) (by decide)⟩

end Monitored

end NatsClient.JetStream
