import NatsClient.Connection.Link
import Mathlib.Data.List.Range

/-!
# The heartbeat monitor

Model of `Heartbeat` (`heartbeats.ts`) beside the `pongs` of the protocol handler: the timer ticks,
the pings of its ticks are answered in order or rejected by a disconnect, and the timer is canceled
and started. A PONG that answers another flush does nothing here. The continuations of settled pings
are microtasks, so all of them have run before the timer ticks.

A ping is a deferred. The first PONG resolves all pings that are pending; the later ones find them
settled. `cancel` and `start` reset the pendings too, so that the count begins anew
(`more_pings_restarted`): pings are counted from the last PONG or start (`monitor_rule`).
-/

set_option autoImplicit false

namespace NatsClient.Connection

open NatsClient.Foundation

/-- The heartbeats, the deferreds of their pings, and the pings that wait for a PONG. `disconnects`
counts the calls of `disconnect`, `answered` are the pings that a PONG came for, `resetAt` is the
number of pings sent before the last reset, and `mark` the one before the last PONG or start. -/
structure HeartbeatMonitor where
  heartbeats : Heartbeat
  deferreds : Deferreds
  pongs : List Nat
  disconnects : Nat
  answered : List Nat
  resetAt : Nat
  mark : Nat

namespace HeartbeatMonitor

/-- The constructor. -/
def new (maxOut : Nat) : HeartbeatMonitor := ⟨⟨false, maxOut, [], []⟩, .empty, [], 0, [], 0, 0⟩

/-- The number of pings sent. -/
def sent (s : HeartbeatMonitor) : Nat := s.deferreds.created

/-- What became of a ping. -/
def outcome (s : HeartbeatMonitor) (ping : Nat) : Option Outcome := s.deferreds.outcome ping

/-- `_reset()`. -/
def reset (s : HeartbeatMonitor) : HeartbeatMonitor :=
  { s with
    deferreds := s.deferreds.settleAll s.heartbeats.pendings .resolved
    heartbeats := { s.heartbeats with pendings := [] }
    resetAt := s.sent }

/-- `cancel(stale)`. -/
def cancel (s : HeartbeatMonitor) (stale : Bool) : HeartbeatMonitor :=
  let s := { s with heartbeats := { s.heartbeats with timer := false } }.reset
  if stale then { s with disconnects := s.disconnects + 1 } else s

/-- `start()`. -/
def start (s : HeartbeatMonitor) : HeartbeatMonitor :=
  let s := s.cancel false
  { s with heartbeats := { s.heartbeats with timer := true }, mark := s.sent }

/-- What the timer does. -/
def tick (s : HeartbeatMonitor) : HeartbeatMonitor :=
  if s.heartbeats.pendings.length = s.heartbeats.maxOut then s.cancel true
  else
    let ping := s.deferreds.created
    { s with
      deferreds := s.deferreds.create
      pongs := s.pongs ++ [ping]
      heartbeats := { s.heartbeats with
        timer := true
        pendings := s.heartbeats.pendings ++ [ping]
        waiting := s.heartbeats.waiting ++ [ping] } }

/-- The continuations of `flush(ping)`. -/
def settled (s : HeartbeatMonitor) (ping : Nat) (o : Outcome) : HeartbeatMonitor :=
  let s := { s with heartbeats := { s.heartbeats with waiting := s.heartbeats.waiting.erase ping } }
  match o with
  | .resolved => s.reset
  | .rejected => s.cancel false

/-- `processPong()`, where a ping is the first that waits. -/
def processPong (s : HeartbeatMonitor) : HeartbeatMonitor :=
  match s.pongs with
  | [] => s
  | ping :: pongs =>
      { s with
        deferreds := s.deferreds.settle ping .resolved
        pongs := pongs
        answered := s.answered ++ [ping]
        mark := s.sent }

/-- `resetOutbound()` behind a disconnect: the pongs are rejected. -/
def rejectPongs (s : HeartbeatMonitor) : HeartbeatMonitor :=
  { s with deferreds := s.deferreds.settleAll s.pongs .rejected, pongs := [] }

/-- What can happen. -/
inductive Event where
  | tick
  | pong
  | disconnected
  | settled (ping : Nat)
  | cancel (stale : Bool)
  | start
deriving DecidableEq, Repr

/-- The timer can tick: it is set, and the continuations of settled pings have run. -/
def Ticks (s : HeartbeatMonitor) : Prop :=
  s.heartbeats.timer = true ∧ ∀ p ∈ s.heartbeats.waiting, s.outcome p = none

instance (s : HeartbeatMonitor) : Decidable s.Ticks := inferInstanceAs (Decidable (_ ∧ _))

/-- One event; `none` where it cannot happen. -/
def step (s : HeartbeatMonitor) : Event → Option HeartbeatMonitor
  | .tick => if s.Ticks then some s.tick else none
  | .pong => if s.pongs = [] then none else some s.processPong
  | .disconnected => some s.rejectPongs
  | .settled ping =>
      match s.outcome ping with
      | some o => if ping ∈ s.heartbeats.waiting then some (s.settled ping o) else none
      | none => none
  | .cancel stale => some (s.cancel stale)
  | .start => some s.start

/-! ## What the events keep -/

/-- The pings that are pending are those sent since the last reset, at most `m` of them, and the
continuation of each is still to run. While the timer is set, the last reset is not behind the last
PONG or start, and a ping whose continuation is still to run was resolved only since the last ping
was sent. -/
structure Inv (m : Nat) (s : HeartbeatMonitor) : Prop where
  maxOut : s.heartbeats.maxOut = m
  pendings : s.heartbeats.pendings = List.range' s.resetAt (s.sent - s.resetAt)
  resetAt_le : s.resetAt ≤ s.sent
  sent_le : s.sent ≤ s.resetAt + m
  waits : ∀ p ∈ s.heartbeats.pendings, p ∈ s.heartbeats.waiting
  created : ∀ p ∈ s.pongs, p < s.sent
  answered : ∀ p ∈ s.answered, s.outcome p ≠ none
  mark_le : s.mark ≤ s.sent
  bounded : s.sent ≤ s.mark + m
  resetAt_le_mark : s.heartbeats.timer = true → s.resetAt ≤ s.mark
  recent : s.heartbeats.timer = true → ∀ p ∈ s.heartbeats.waiting, s.outcome p = some .resolved →
    s.mark = s.sent

variable {m : Nat} {s s' : HeartbeatMonitor}

theorem inv_new (m : Nat) : (new m).Inv m where
  maxOut := rfl
  pendings := rfl
  resetAt_le := Nat.le_refl _
  sent_le := Nat.zero_le _
  waits := fun p hp => by cases hp
  created := fun p hp => by cases hp
  answered := fun p hp => by cases hp
  mark_le := Nat.le_refl _
  bounded := Nat.zero_le _
  resetAt_le_mark := fun h => by cases h
  recent := fun h => by cases h

@[simp] theorem sent_reset (s : HeartbeatMonitor) : s.reset.sent = s.sent :=
  Deferreds.created_settleAll ..

theorem outcome_reset {p : Nat} {o : Outcome} (h : s.outcome p = some o) :
    s.reset.outcome p = some o :=
  Deferreds.settleAll_of_settled h

/-- What is settled stays so. -/
theorem ne_none_of_kept {f g : Nat → Option Outcome} {p : Nat}
    (hkept : ∀ o, f p = some o → g p = some o) (hp : f p ≠ none) : g p ≠ none := by
  obtain ⟨o, ho⟩ := Option.ne_none_iff_exists'.1 hp
  rw [hkept o ho]
  exact Option.some_ne_none o

/-- **A reset** where no ping was sent since the last PONG or start, or the timer is not set. -/
theorem Inv.reset (h : s.Inv m) (hmark : s.heartbeats.timer = true → s.mark = s.sent) :
    s.reset.Inv m where
  maxOut := h.maxOut
  pendings := by
    rw [sent_reset]
    show [] = List.range' s.sent (s.sent - s.sent)
    rw [Nat.sub_self]
    rfl
  resetAt_le := Nat.le_of_eq (sent_reset s).symm
  sent_le := by
    rw [sent_reset]
    exact Nat.le_add_right s.sent m
  waits := fun p hp => by cases hp
  created := by
    rw [sent_reset]
    exact h.created
  answered := fun p hp => ne_none_of_kept (fun _ => outcome_reset) (h.answered p hp)
  mark_le := by
    rw [sent_reset]
    exact h.mark_le
  bounded := by
    rw [sent_reset]
    exact h.bounded
  resetAt_le_mark := fun htimer => Nat.le_of_eq (hmark htimer).symm
  recent := by
    intro htimer p _ _
    rw [sent_reset]
    exact hmark htimer

/-- The timer is cleared. -/
theorem Inv.clear (h : s.Inv m) :
    ({ s with heartbeats := { s.heartbeats with timer := false } } : HeartbeatMonitor).Inv m where
  maxOut := h.maxOut
  pendings := h.pendings
  resetAt_le := h.resetAt_le
  sent_le := h.sent_le
  waits := h.waits
  created := h.created
  answered := h.answered
  mark_le := h.mark_le
  bounded := h.bounded
  resetAt_le_mark := fun htimer => by cases htimer
  recent := fun htimer => by cases htimer

/-- What `cancel` leaves, calls of `disconnect` apart. -/
theorem cancel_cases (s : HeartbeatMonitor) (stale : Bool) :
    let c := { s with heartbeats := { s.heartbeats with timer := false } }.reset
    s.cancel stale = c ∨ s.cancel stale = { c with disconnects := c.disconnects + 1 } := by
  cases stale with
  | false => exact .inl rfl
  | true => exact .inr rfl

theorem sent_cancel (s : HeartbeatMonitor) (stale : Bool) : (s.cancel stale).sent = s.sent := by
  rcases s.cancel_cases stale with heq | heq
  · rw [heq]
    exact sent_reset _
  · rw [heq]
    exact sent_reset { s with heartbeats := { s.heartbeats with timer := false } }

theorem timer_cancel (s : HeartbeatMonitor) (stale : Bool) :
    (s.cancel stale).heartbeats.timer = false := by
  rcases s.cancel_cases stale with heq | heq
  · rw [heq]
    rfl
  · rw [heq]
    rfl

/-- Calls of `disconnect` do not matter. -/
theorem Inv.disconnects (h : s.Inv m) (n : Nat) :
    ({ s with disconnects := n } : HeartbeatMonitor).Inv m :=
  ⟨h.maxOut, h.pendings, h.resetAt_le, h.sent_le, h.waits, h.created, h.answered,
    h.mark_le, h.bounded, h.resetAt_le_mark, h.recent⟩

theorem Inv.cancel (h : s.Inv m) (stale : Bool) : (s.cancel stale).Inv m := by
  have hreset := h.clear.reset fun htimer => by cases htimer
  rcases s.cancel_cases stale with heq | heq
  · rw [heq]
    exact hreset
  · rw [heq]
    exact hreset.disconnects _

theorem Inv.start (h : s.Inv m) : s.start.Inv m := by
  have hc := h.cancel false
  have hreset : (s.cancel false).resetAt = (s.cancel false).sent := by
    rw [sent_cancel]
    rfl
  exact ⟨hc.maxOut, hc.pendings, hc.resetAt_le, hc.sent_le, hc.waits, hc.created, hc.answered,
    Nat.le_refl _, Nat.le_add_right _ m, fun _ => Nat.le_of_eq hreset, fun _ _ _ _ => rfl⟩

/-- **A tick** sends a ping, or finds `m` pings that are pending. -/
theorem Inv.tick (h : s.Inv m) (hticks : s.Ticks) : s.tick.Inv m := by
  rw [HeartbeatMonitor.tick]
  by_cases hstale : s.heartbeats.pendings.length = s.heartbeats.maxOut
  · rw [if_pos hstale]
    exact h.cancel true
  · rw [if_neg hstale]
    have hlength : s.heartbeats.pendings.length = s.sent - s.resetAt := by
      rw [h.pendings, List.length_range']
    have hreset := h.resetAt_le
    have hsent := h.sent_le
    have hmark := h.resetAt_le_mark hticks.1
    rw [hlength, h.maxOut] at hstale
    refine ⟨h.maxOut, ?_, Nat.le_succ_of_le hreset, ?_, ?_, ?_, h.answered,
      Nat.le_succ_of_le h.mark_le, ?_, fun _ => hmark, ?_⟩
    · show s.heartbeats.pendings ++ [s.sent] = List.range' s.resetAt (s.sent + 1 - s.resetAt)
      have hlast : s.resetAt + 1 * (s.sent - s.resetAt) = s.sent := by omega
      rw [h.pendings, Nat.succ_sub hreset, Nat.succ_eq_add_one, List.range'_concat, hlast]
    · show s.sent + 1 ≤ s.resetAt + m
      omega
    · intro p hp
      rcases List.mem_append.1 hp with hp | hp
      · exact List.mem_append_left _ (h.waits p hp)
      · exact List.mem_append_right _ hp
    · intro p hp
      rcases List.mem_append.1 hp with hp | hp
      · exact Nat.lt_succ_of_lt (h.created p hp)
      · rw [List.mem_singleton.1 hp]
        exact Nat.lt_succ_self _
    · show s.sent + 1 ≤ s.mark + m
      omega
    · -- none of the pings is settled
      intro _ p hp hresolved
      have hnone : s.outcome p = none := by
        rcases List.mem_append.1 hp with hp | hp
        · exact hticks.2 p hp
        · rw [List.mem_singleton.1 hp]
          exact s.deferreds.fresh _ (Nat.le_refl _)
      rw [show s.outcome p = some .resolved from hresolved] at hnone
      cases hnone

/-- **A PONG**, also a late one. -/
theorem Inv.processPong (h : s.Inv m) : s.processPong.Inv m := by
  rw [HeartbeatMonitor.processPong]
  split
  · exact h
  · next ping pongs hpongs =>
      obtain ⟨hping, hcreated⟩ := List.forall_mem_cons.1 (hpongs ▸ h.created)
      refine ⟨h.maxOut, h.pendings, h.resetAt_le, h.sent_le, h.waits, hcreated, fun p hp => ?_,
        Nat.le_refl _, Nat.le_add_right _ m, fun _ => h.resetAt_le, fun _ _ _ _ => rfl⟩
      show (s.deferreds.settle ping .resolved).outcome p ≠ none
      rcases List.mem_append.1 hp with hp | hp
      · exact ne_none_of_kept (fun _ => Deferreds.settle_of_settled) (h.answered p hp)
      · rw [List.mem_singleton.1 hp]
        cases hopen : s.deferreds.outcome ping with
        | none =>
            rw [Deferreds.settle_self hping hopen]
            exact Option.some_ne_none _
        | some o =>
            rw [Deferreds.settle_of_settled hopen]
            exact Option.some_ne_none o

/-- **A disconnect** rejects pings and resolves none. -/
theorem Inv.rejectPongs (h : s.Inv m) : s.rejectPongs.Inv m := by
  have hsent : s.rejectPongs.sent = s.sent := Deferreds.created_settleAll ..
  have hempty : ∀ p ∈ s.rejectPongs.pongs, p < s.rejectPongs.sent := by
    intro p hp
    cases hp
  refine ⟨h.maxOut, ?_, ?_, ?_, h.waits, hempty, fun p hp => ?_, ?_, ?_, h.resetAt_le_mark, ?_⟩
  · rw [hsent]
    exact h.pendings
  · rw [hsent]
    exact h.resetAt_le
  · rw [hsent]
    exact h.sent_le
  · exact ne_none_of_kept (fun _ => Deferreds.settleAll_of_settled) (h.answered p hp)
  · rw [hsent]
    exact h.mark_le
  · rw [hsent]
    exact h.bounded
  · intro htimer p hp hresolved
    rw [hsent]
    apply h.recent htimer p hp
    rw [show s.rejectPongs.outcome p = _ from Deferreds.outcome_settleAll s.deferreds s.pongs
      .rejected p] at hresolved
    split at hresolved
    · cases hresolved
    · exact hresolved

/-- A continuation has run, and no ping is pending. -/
theorem Inv.erase (h : s.Inv m) (hpendings : s.heartbeats.pendings = []) (ping : Nat) :
    ({ s with heartbeats := { s.heartbeats with waiting := s.heartbeats.waiting.erase ping } } :
      HeartbeatMonitor).Inv m where
  maxOut := h.maxOut
  pendings := h.pendings
  resetAt_le := h.resetAt_le
  sent_le := h.sent_le
  waits := by
    intro p hp
    rw [hpendings] at hp
    cases hp
  created := h.created
  answered := h.answered
  mark_le := h.mark_le
  bounded := h.bounded
  resetAt_le_mark := h.resetAt_le_mark
  recent := fun htimer p hp => h.recent htimer p (List.mem_of_mem_erase hp)

/-- **A continuation**: a resolved ping resets the pendings, a rejected one clears the timer too. -/
theorem Inv.settled (h : s.Inv m) {ping : Nat} {o : Outcome} (ho : s.outcome ping = some o)
    (hping : ping ∈ s.heartbeats.waiting) : (s.settled ping o).Inv m := by
  cases o with
  | resolved => exact (h.reset fun htimer => h.recent htimer ping hping ho).erase rfl ping
  | rejected => exact (h.cancel false).erase rfl ping

/-- **One event.** -/
theorem inv_step {e : Event} (h : s.Inv m) (hstep : s.step e = some s') : s'.Inv m := by
  cases e with
  | tick =>
      rw [step, Option.ite_none_right_eq_some] at hstep
      obtain ⟨hticks, heq⟩ := hstep
      exact Option.some.inj heq ▸ h.tick hticks
  | pong =>
      rw [step, Option.ite_none_left_eq_some] at hstep
      exact Option.some.inj hstep.2 ▸ h.processPong
  | disconnected => exact Option.some.inj hstep ▸ h.rejectPongs
  | settled ping =>
      rw [step] at hstep
      split at hstep
      · next o ho =>
          rw [Option.ite_none_right_eq_some] at hstep
          exact Option.some.inj hstep.2 ▸ h.settled ho hstep.1
      · cases hstep
  | cancel stale => exact Option.some.inj hstep ▸ h.cancel stale
  | start => exact Option.some.inj hstep ▸ h.start

/-- **Runs.** -/
theorem inv_run {es : List Event} (hrun : run step (new m) es = some s) : s.Inv m :=
  invariant_run (fun _ _ _ h hstep => inv_step h hstep) hrun (inv_new m)

/-! ## The rule -/

/-- At a tick, no ping that is pending was answered. -/
theorem Inv.unanswered (h : s.Inv m) (hticks : s.Ticks) {p : Nat} (hp : p ∈ s.heartbeats.pendings) :
    p ∉ s.answered :=
  fun hanswered => h.answered p hanswered (hticks.2 p (h.waits p hp))

/-- A tick disconnects exactly where `m` pings are pending. -/
theorem disconnects_tick (h : s.Inv m) :
    s.tick.disconnects = s.disconnects + (if s.sent = s.resetAt + m then 1 else 0) := by
  have hlength : s.heartbeats.pendings.length = s.sent - s.resetAt := by
    rw [h.pendings, List.length_range']
  have hreset := h.resetAt_le
  rw [tick, hlength, h.maxOut]
  by_cases hstale : s.sent = s.resetAt + m
  · rw [if_pos hstale, if_pos (by omega)]
    rfl
  · rw [if_neg hstale, if_neg (by omega)]
    rfl

/-- Without a timer, only `start` sets one. -/
theorem stopped_step {e : Event} (hstep : s.step e = some s') (hstart : e ≠ .start)
    (htimer : s.heartbeats.timer = false) : s'.heartbeats.timer = false ∧ s'.sent = s.sent := by
  cases e with
  | tick =>
      rw [step, Option.ite_none_right_eq_some] at hstep
      rw [hstep.1.1] at htimer
      cases htimer
  | pong =>
      rw [step, Option.ite_none_left_eq_some] at hstep
      rw [← Option.some.inj hstep.2, processPong]
      split
      · exact ⟨htimer, rfl⟩
      · exact ⟨htimer, rfl⟩
  | disconnected =>
      rw [← Option.some.inj hstep]
      exact ⟨htimer, Deferreds.created_settleAll ..⟩
  | settled ping =>
      rw [step] at hstep
      split at hstep
      · next o ho =>
          rw [Option.ite_none_right_eq_some] at hstep
          rw [← Option.some.inj hstep.2]
          cases o with
          | resolved => exact ⟨htimer, sent_reset _⟩
          | rejected => exact ⟨timer_cancel _ _, sent_cancel _ _⟩
      · cases hstep
  | cancel stale =>
      rw [← Option.some.inj hstep]
      exact ⟨timer_cancel s stale, sent_cancel s stale⟩
  | start => exact absurd rfl hstart

theorem stopped_run {es : List Event} (hrun : run step s es = some s') (hstart : .start ∉ es)
    (htimer : s.heartbeats.timer = false) : s'.sent = s.sent := by
  induction es generalizing s with
  | nil =>
      cases hrun
      rfl
  | cons e es ih =>
      obtain ⟨s₁, hstep, hrest⟩ := run_cons_inv hrun
      rw [List.mem_cons, not_or] at hstart
      obtain ⟨htimer₁, hsent⟩ := stopped_step hstep (Ne.symm hstart.1) htimer
      exact (ih hrest hstart.2 htimer₁).trans hsent

/-- **The rule**: at a tick the pings that are pending are those sent since the last reset, at most
`m` and none of them answered, and the tick disconnects only where the last `m` pings were not
answered; no more than `m` pings are sent behind the last PONG or start, and the next tick then
disconnects; and behind `cancel` none is sent before `start`. -/
theorem monitor_rule (m : Nat) (es : List Event) (s : HeartbeatMonitor)
    (hrun : run step (new m) es = some s) :
    (s.Ticks →
      s.heartbeats.pendings = List.range' s.resetAt (s.sent - s.resetAt) ∧
      s.heartbeats.pendings.length ≤ m ∧
      (∀ p ∈ s.heartbeats.pendings, p ∉ s.answered) ∧
      (s.tick.disconnects ≠ s.disconnects →
        m ≤ s.sent ∧ ∀ p, s.sent ≤ p + m → p < s.sent → p ∉ s.answered) ∧
      (0 < m → (∀ p, p + m ≤ s.sent → p ∈ s.answered) → s.tick.disconnects = s.disconnects) ∧
      (s.sent = s.mark + m → s.tick.disconnects = s.disconnects + 1)) ∧
    s.sent ≤ s.mark + m ∧
    ∀ stale es' s', .start ∉ es' → run step (s.cancel stale) es' = some s' → s'.sent = s.sent := by
  have h := inv_run hrun
  have hdisconnects := disconnects_tick h
  have hreset := h.resetAt_le
  have hsent := h.sent_le
  have hpendings : ∀ p, s.resetAt ≤ p → p < s.sent → p ∈ s.heartbeats.pendings := by
    intro p hle hlt
    rw [h.pendings, List.mem_range'_1]
    omega
  refine ⟨fun hticks => ⟨h.pendings, ?_, fun p => h.unanswered hticks, fun hstale => ?_,
    fun hpos hall => ?_, fun hmark => ?_⟩, h.bounded, fun stale es' s' hstart hrun' => ?_⟩
  · rw [h.pendings, List.length_range']
    omega
  · have hfull : s.sent = s.resetAt + m := by
      by_contra hne
      rw [if_neg hne] at hdisconnects
      exact hstale hdisconnects
    refine ⟨by omega, fun p hle hlt => h.unanswered hticks (hpendings p (by omega) hlt)⟩
  · by_cases hfull : s.sent = s.resetAt + m
    · -- the first of the pings that are pending was answered
      have hfirst := h.unanswered hticks (hpendings s.resetAt (Nat.le_refl _) (by omega))
      exact absurd (hall s.resetAt (by omega)) hfirst
    · rw [if_neg hfull] at hdisconnects
      exact hdisconnects
  · have hle := h.resetAt_le_mark hticks.1
    rw [hdisconnects, if_pos (by omega)]
  · rw [stopped_run hrun' hstart (timer_cancel s stale), sent_cancel]

theorem monitor_rule_ticks :
    ∃ s, run step (new 1) [.start, .tick] = some s ∧ s.Ticks ∧ s.heartbeats.pendings.length ≤ 1 ∧
      s.sent ≤ s.mark + 1 := by
  have hticks : ∃ s, run step (new 1) [.start, .tick] = some s ∧ s.Ticks :=
    ⟨_, rfl, by decide, by decide⟩
  obtain ⟨s, hrun, hticks⟩ := hticks
  obtain ⟨hrule, hbounded, -⟩ := monitor_rule 1 [.start, .tick] s hrun
  exact ⟨s, hrun, hticks, (hrule hticks).2.1, hbounded⟩

/-- A PONG, a ping, a start and a ping, with `m = 1`: two pings behind the last PONG, and no
disconnect. -/
theorem more_pings_restarted :
    ¬ ∀ (m : Nat) (es es' : List Event) (s s' : HeartbeatMonitor), 0 < m →
      run step (new m) (es ++ [.pong]) = some s → run step s es' = some s' → .pong ∉ es' →
      s'.disconnects = s.disconnects → s'.sent ≤ s.sent + m := by
  intro hall
  have hle :=
    hall 1 [.start, .tick] [.settled 0, .tick, .start, .settled 1, .tick] _ _ Nat.one_pos rfl rfl
    (by decide) rfl
  revert hle
  decide

end HeartbeatMonitor

end NatsClient.Connection
