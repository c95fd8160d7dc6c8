import NatsClient.Foundation.Run

/-!
# A mutex for a number of callers

Model of `SimpleMutex` (`util.ts`) and of those who call it. `lock` counts, and defers the promise
where the count is above `max`; `unlock` counts down, and resolves the deferred that was pushed
last. Nothing keeps a caller from `unlock` without `lock`: such a call is a `stray` one.

* `holders_exact`: how many callers are in, with and without stray calls;
* `waits_iff`: who waits, exactly.
-/

set_option autoImplicit false

namespace NatsClient.Util

open NatsClient.Foundation

/-- A deferred is the number of the call of `lock` that made it. -/
structure SimpleMutex where
  max : Nat
  current : Int
  waiting : List Nat
deriving DecidableEq, Repr

namespace SimpleMutex

/-- `new SimpleMutex(max)`. -/
def new (max : Nat) : SimpleMutex := ⟨max, 0, []⟩

/-- `lock()`, with whether the promise is resolved at once. -/
def lock (m : SimpleMutex) (d : Nat) : SimpleMutex × Bool :=
  let m := { m with current := m.current + 1 }
  if m.current ≤ m.max then (m, true) else ({ m with waiting := m.waiting ++ [d] }, false)

/-- `unlock()`, with the deferred that it resolves. -/
def unlock (m : SimpleMutex) : SimpleMutex × Option Nat :=
  ({ m with current := m.current - 1, waiting := m.waiting.dropLast }, m.waiting.getLast?)

end SimpleMutex

/-- Where a call of `lock` got to. -/
inductive Phase where
  | waiting
  | holding
  | released
deriving DecidableEq, Repr

/-- A mutex and the calls of it, `strays` of them without a `lock`. -/
structure Callers where
  mutex : SimpleMutex
  phases : List Phase
  strays : Nat
deriving DecidableEq, Repr

/-- `unlock` is that of a caller that holds the mutex, `stray` one of anybody else. -/
inductive Call where
  | lock
  | unlock (i : Nat)
  | stray
deriving DecidableEq, Repr

def Call.isLock : Call → Bool
  | .lock => true
  | _ => false

namespace Callers

def new (max : Nat) : Callers := ⟨.new max, [], 0⟩

/-- The caller that waited on a deferred goes on. -/
def wake (phases : List Phase) : Option Nat → List Phase
  | some d => phases.set d .holding
  | none => phases

def lock (s : Callers) : Callers :=
  let (mutex, now) := s.mutex.lock s.phases.length
  { s with mutex, phases := s.phases ++ [if now then .holding else .waiting] }

/-- `unlock`, where the phases are `phases` in front of it. -/
def unlock (s : Callers) (phases : List Phase) : Callers :=
  let (mutex, next) := s.mutex.unlock
  { s with mutex, phases := wake phases next }

def step (s : Callers) : Call → Option Callers
  | .lock => some s.lock
  | .unlock i =>
      if s.phases[i]? = some .holding then some (s.unlock (s.phases.set i .released)) else none
  | .stray => some { s.unlock s.phases with strays := s.strays + 1 }

/-- How many calls are at a phase. -/
def count (s : Callers) (p : Phase) : Nat := s.phases.count p

variable {s s' : Callers} {c : Call} {cs : List Call} {i : Nat}

/-- **What one call does.** -/
inductive Step (s : Callers) : Call → Callers → Prop where
  | enter (hroom : s.mutex.current + 1 ≤ s.mutex.max) :
      Step s .lock
        { s with
          mutex := { s.mutex with current := s.mutex.current + 1 }
          phases := s.phases ++ [.holding] }
  | wait (hfull : s.mutex.max < s.mutex.current + 1) :
      Step s .lock
        { s with
          mutex :=
            { s.mutex with
              current := s.mutex.current + 1, waiting := s.mutex.waiting ++ [s.phases.length] }
          phases := s.phases ++ [.waiting] }
  | leave (i : Nat) (hi : s.phases[i]? = some .holding) (hnobody : s.mutex.waiting = []) :
      Step s (.unlock i)
        { s with
          mutex := { s.mutex with current := s.mutex.current - 1 }
          phases := s.phases.set i .released }
  | handOver (i d : Nat) (waiting : List Nat) (hi : s.phases[i]? = some .holding)
      (hwaiting : s.mutex.waiting = waiting ++ [d]) :
      Step s (.unlock i)
        { s with
          mutex := { s.mutex with current := s.mutex.current - 1, waiting }
          phases := (s.phases.set i .released).set d .holding }
  | stray (hnobody : s.mutex.waiting = []) :
      Step s .stray
        { s with mutex := { s.mutex with current := s.mutex.current - 1 }, strays := s.strays + 1 }
  | letIn (d : Nat) (waiting : List Nat) (hwaiting : s.mutex.waiting = waiting ++ [d]) :
      Step s .stray
        { s with
          mutex := { s.mutex with current := s.mutex.current - 1, waiting }
          phases := s.phases.set d .holding, strays := s.strays + 1 }

/-- Whom `unlock` lets in. -/
theorem unlock_cases (s : Callers) (phases : List Phase) :
    s.mutex.waiting = [] ∧
        s.unlock phases =
        { s with mutex := { s.mutex with current := s.mutex.current - 1 }, phases } ∨
      ∃ d waiting, s.mutex.waiting = waiting ++ [d] ∧
        s.unlock phases =
          { s with
            mutex := { s.mutex with current := s.mutex.current - 1, waiting }
            phases := phases.set d .holding } := by
  rcases List.eq_nil_or_concat s.mutex.waiting with hnil | ⟨waiting, d, hconcat⟩
  · left
    refine ⟨hnil, ?_⟩
    simp only [unlock, SimpleMutex.unlock, hnil, List.dropLast_nil, List.getLast?_nil, wake]
  · right
    rw [List.concat_eq_append] at hconcat
    refine ⟨d, waiting, hconcat, ?_⟩
    simp only [unlock, SimpleMutex.unlock, hconcat, List.dropLast_concat,
      List.getLast?_concat, wake]

theorem step_of_eq (h : s.step c = some s') : Step s c s' := by
  cases c with
  | lock =>
      cases h
      simp only [lock, SimpleMutex.lock]
      by_cases hroom : s.mutex.current + 1 ≤ s.mutex.max
      · rw [if_pos hroom]
        exact .enter hroom
      · rw [if_neg hroom]
        exact .wait (Int.not_le.1 hroom)
  | unlock i =>
      obtain ⟨hi, heq⟩ := Option.ite_none_right_eq_some.1 h
      cases Option.some.inj heq
      rcases s.unlock_cases (s.phases.set i .released) with ⟨hnobody, hdone⟩ | ⟨d, waiting,
        hwaiting, hdone⟩
      · rw [hdone]
        exact .leave i hi hnobody
      · rw [hdone]
        exact .handOver i d waiting hi hwaiting
  | stray =>
      cases h
      rcases s.unlock_cases s.phases with ⟨hnobody, hdone⟩ | ⟨d, waiting, hwaiting, hdone⟩
      · rw [hdone]
        exact .stray hnobody
      · rw [hdone]
        exact .letIn d waiting hwaiting

/-! ## Who is in -/

/-- The deferreds of those who wait. -/
structure Queued (waiting : List Nat) (phases : List Phase) : Prop where
  nodup : waiting.Nodup
  waits : ∀ i, i ∈ waiting ↔ phases[i]? = some .waiting
  counted : phases.count .waiting = waiting.length

section

variable {waiting : List Nat} {phases : List Phase} {d : Nat}

/-- A caller moves to another phase. -/
theorem count_set {p : Phase} (h : phases[i]? = some p) (q r : Phase) :
    (phases.set i q).count r + (if p = r then 1 else 0) = phases.count r + if q = r
      then 1 else 0 := by
  obtain ⟨hi, hp⟩ := List.getElem?_eq_some_iff.1 h
  have hpositive : p = r → 0 < phases.count r := by
    rintro rfl
    exact List.count_pos_iff.2 (hp ▸ List.getElem_mem hi)
  rw [List.count_set hi, hp]
  simp only [beq_iff_eq]
  split <;> split <;> grind

theorem getElem?_concat (phases : List Phase) (p : Phase) (i : Nat) :
    (phases ++ [p])[i]? = if i = phases.length then some p else phases[i]? := by
  split
  case isTrue heq => rw [heq, List.getElem?_concat_length]
  case isFalse hne => grind

theorem Queued.enter (h : Queued waiting phases) : Queued waiting (phases ++ [.holding]) where
  nodup := h.nodup
  waits i := by
    rw [h.waits, getElem?_concat]
    split
    case isTrue heq =>
      rw [heq, List.getElem?_eq_none (Nat.le_refl _)]
      exact iff_of_false (fun h => by cases h) fun h => by cases h
    case isFalse => exact Iff.rfl
  counted := by
    rw [List.count_append, h.counted]
    rfl

theorem Queued.wait (h : Queued waiting phases) :
    Queued (waiting ++ [phases.length]) (phases ++ [.waiting]) where
  nodup := by
    refine List.nodup_append.2 ⟨h.nodup, List.pairwise_singleton _ _, fun i hi j hj => ?_⟩
    obtain ⟨hlt, -⟩ := List.getElem?_eq_some_iff.1 ((h.waits i).1 hi)
    rw [List.mem_singleton.1 hj]
    exact Nat.ne_of_lt hlt
  waits i := by
    rw [List.mem_append, List.mem_singleton, h.waits, getElem?_concat]
    split
    case isTrue heq => exact iff_of_true (.inr heq) rfl
    case isFalse hne => exact or_iff_left hne
  counted := by
    rw [List.count_append, h.counted, List.length_append]
    rfl

theorem Queued.release (h : Queued waiting phases) (hi : phases[i]? = some .holding) :
    Queued waiting (phases.set i .released) where
  nodup := h.nodup
  waits j := by
    rw [h.waits, List.getElem?_set]
    split
    case isTrue heq =>
      rw [← heq, hi]
      split <;> exact iff_of_false (fun h => by cases h) fun h => by cases h
    case isFalse => exact Iff.rfl
  counted := (count_set hi .released .waiting).trans h.counted

/-- Who is let in waits no more. -/
theorem Queued.wake (h : Queued (waiting ++ [d]) phases) :
    Queued waiting (phases.set d .holding) where
  nodup := (List.nodup_append.1 h.nodup).1
  waits j := by
    have hlast := (List.nodup_append.1 h.nodup).2.2
    rw [List.getElem?_set]
    split
    case isTrue heq =>
      refine iff_of_false (fun hj => hlast j hj d (List.mem_singleton_self d) heq.symm) fun h => ?_
      split at h <;> cases h
    case isFalse hne =>
      rw [← h.waits j, List.mem_append, List.mem_singleton]
      exact (or_iff_left fun h => hne h.symm).symm
  counted := by
    have hd := (h.waits d).1 (List.mem_append_right waiting (List.mem_singleton_self d))
    have hcount := count_set hd .holding .waiting
    rw [h.counted, List.length_append] at hcount
    exact Nat.succ.inj hcount

end

/-- What holds of a mutex and its callers. -/
structure Inv (s : Callers) : Prop where
  queued : Queued s.mutex.waiting s.phases
  current : s.mutex.current = s.count .holding + s.mutex.waiting.length - s.strays
  bounded : s.count .holding ≤ s.mutex.max + s.strays
  full : s.mutex.waiting ≠ [] → s.count .holding = s.mutex.max + s.strays

theorem inv_new (max : Nat) : (new max).Inv where
  queued := ⟨List.nodup_nil, fun _ => iff_of_false List.not_mem_nil fun h => (by cases h), rfl⟩
  current := rfl
  bounded := Nat.zero_le _
  full h := absurd rfl h

/-- Somebody leaves. -/
theorem count_release {phases : List Phase} (hi : phases[i]? = some .holding) :
    (phases.set i .released).count .holding + 1 = phases.count .holding :=
  count_set hi .released .holding

/-- Somebody who waits is let in. -/
theorem Queued.count_wake {waiting : List Nat} {phases : List Phase} {d : Nat}
    (h : Queued (waiting ++ [d]) phases) :
    (phases.set d .holding).count .holding = phases.count .holding + 1 :=
  count_set ((h.waits d).1 (List.mem_append_right waiting (List.mem_singleton_self d)))
    .holding .holding

/-- **A call keeps the count.** -/
theorem inv_step (h : s.Inv) (hstep : Step s c s') : s'.Inv := by
  obtain ⟨hqueued, hcurrent, hbounded, hfull⟩ := h
  simp only [count] at hcurrent hbounded hfull
  cases hstep with
  | enter hroom =>
      have hcount : (s.phases ++ [Phase.holding]).count .holding = s.phases.count .holding + 1 := by
        rw [List.count_append]
        rfl
      refine ⟨hqueued.enter, ?_, ?_, fun hsome => ?_⟩ <;> simp only [count, hcount]
      · omega
      · omega
      · have := hfull hsome
        omega
  | wait hroom =>
      have hcount : (s.phases ++ [Phase.waiting]).count .holding = s.phases.count .holding := by
        rw [List.count_append]
        rfl
      refine ⟨hqueued.wait, ?_, ?_, fun _ => ?_⟩ <;> simp only [count, hcount]
      · rw [List.length_append, List.length_singleton]
        omega
      · exact hbounded
      · -- the first one who waits finds the mutex full
        by_cases hnobody : s.mutex.waiting = []
        · rw [hnobody, List.length_nil] at hcurrent
          omega
        · exact hfull hnobody
  | leave i hi hnobody =>
      have hcount := count_release hi
      refine ⟨hqueued.release hi, ?_, ?_, fun hsome => absurd hnobody hsome⟩ <;> simp only [count]
      · omega
      · omega
  | handOver i d waiting hi hwaiting =>
      have hrelease := hqueued.release hi
      rw [hwaiting] at hrelease hcurrent
      have hcount := count_release hi
      have hwake := hrelease.count_wake
      have hheld := hfull (by simp [hwaiting])
      rw [List.length_append, List.length_singleton] at hcurrent
      refine ⟨hrelease.wake, ?_, ?_, fun _ => ?_⟩ <;> simp only [count]
      · omega
      · omega
      · omega
  | stray hnobody =>
      refine ⟨hqueued, ?_, ?_, fun hsome => absurd hnobody hsome⟩ <;> simp only [count]
      · omega
      · omega
  | letIn d waiting hwaiting =>
      have hheld := hfull (by simp [hwaiting])
      rw [hwaiting] at hqueued hcurrent
      have hwake := hqueued.count_wake
      rw [List.length_append, List.length_singleton] at hcurrent
      refine ⟨hqueued.wake, ?_, ?_, fun _ => ?_⟩ <;> simp only [count]
      · omega
      · omega
      · omega

theorem inv_run {max : Nat} (hrun : run step (new max) cs = some s) : s.Inv :=
  invariant_run (fun _ _ _ h hstep => inv_step h (step_of_eq hstep)) hrun (inv_new max)

theorem strays_run (hrun : run step s cs = some s') :
    s'.mutex.max = s.mutex.max ∧ s'.strays = s.strays + cs.count .stray := by
  induction cs generalizing s with
  | nil =>
      cases hrun
      exact ⟨rfl, rfl⟩
  | cons c cs ih =>
      obtain ⟨s₁, hstep, hrest⟩ := run_cons_inv hrun
      obtain ⟨hmax, hstrays⟩ := ih hrest
      rw [hmax, hstrays, List.count_cons]
      cases step_of_eq hstep with
      | stray => exact ⟨rfl, Nat.add_right_comm s.strays 1 _⟩
      | letIn => exact ⟨rfl, Nat.add_right_comm s.strays 1 _⟩
      | _ => exact ⟨rfl, rfl⟩

/-- **How many are in.** In every run, whoever calls `unlock` beside those who hold the mutex, the
callers that have not released it are in as far as there is room for them: for `max` of them, and
one more for each stray call. -/
theorem holders_exact (max : Nat) (cs : List Call) (hrun : run step (new max) cs = some s) :
    s.count .holding = min (s.count .holding + s.count .waiting) (max + cs.count .stray) := by
  obtain ⟨hqueued, -, hbounded, hfull⟩ := inv_run hrun
  obtain ⟨hmax, hstrays⟩ := strays_run hrun
  have hroom : s.mutex.max + s.strays = max + cs.count .stray := by
    rw [hmax, hstrays]
    exact congrArg (max + ·) (Nat.zero_add _)
  rw [hroom] at hbounded hfull
  have hcounted : s.count .waiting = s.mutex.waiting.length := hqueued.counted
  by_cases hnobody : s.mutex.waiting = []
  · rw [hcounted, hnobody]
    exact (Nat.min_eq_left hbounded).symm
  · rw [← hfull hnobody]
    exact (Nat.min_eq_right (Nat.le_add_right _ _)).symm

/-- A stray call lets in a second caller. -/
theorem holders_exact_stray :
    ∃ s, run step (new 1) [.lock, .lock, .lock, .stray] = some s ∧
      2 = min (s.count .holding + s.count .waiting)
      (1 + [Call.lock, .lock, .lock, .stray].count .stray) :=
  ⟨_, rfl, holders_exact 1 [.lock, .lock, .lock, .stray] rfl⟩

/-! ## Who waits -/

theorem set_ne_waiting {phases : List Phase} {p : Phase} (h : phases[i]? ≠ some .waiting)
    (hp : p ≠ .waiting) (j : Nat) : (phases.set j p)[i]? ≠ some .waiting := by
  rw [List.getElem?_set]
  split
  · split
    · exact fun heq => hp (Option.some.inj heq)
    · exact fun heq => by cases heq
  · exact h

/-- Who is let in does not wait again. -/
theorem not_waiting_step (hlt : i < s.phases.length) (hi : s.phases[i]? ≠ some .waiting)
    (hstep : Step s c s') : i < s'.phases.length ∧ s'.phases[i]? ≠ some .waiting := by
  have happend : ∀ p : Phase, i < (s.phases ++ [p]).length ∧
      (s.phases ++ [p])[i]? ≠ some .waiting := fun p => by
    rw [List.getElem?_append_left hlt, List.length_append]
    exact ⟨Nat.lt_add_right _ hlt, hi⟩
  cases hstep with
  | enter => exact happend .holding
  | wait => exact happend .waiting
  | leave j => exact ⟨by rwa [List.length_set], set_ne_waiting hi (fun h => by cases h) j⟩
  | handOver j d =>
      refine ⟨by rwa [List.length_set, List.length_set], ?_⟩
      exact set_ne_waiting (set_ne_waiting hi (fun h => by cases h) j) (fun h => by cases h) d
  | stray => exact ⟨hlt, hi⟩
  | letIn d => exact ⟨by rwa [List.length_set], set_ne_waiting hi (fun h => by cases h) d⟩

theorem not_waiting_run (hlt : i < s.phases.length) (hi : s.phases[i]? ≠ some .waiting)
    (hrun : run step s cs = some s') : s'.phases[i]? ≠ some .waiting := by
  have hboth := invariant_run (I := fun s => i < s.phases.length ∧ s.phases[i]? ≠ some .waiting)
    (fun s c s' h hstep => not_waiting_step h.1 h.2 (step_of_eq hstep)) hrun ⟨hlt, hi⟩
  exact hboth.2

/-- As long as somebody waits, who comes waits too, behind the others; who goes lets in the last
one. -/
theorem queue_step (hinv : s.Inv) (hsome : s.mutex.waiting ≠ []) (hstep : Step s c s') :
    if c.isLock then s'.mutex.waiting = s.mutex.waiting ++ [s.phases.length]
    else ∃ d, s.mutex.waiting = s'.mutex.waiting ++ [d] ∧ d < s'.phases.length ∧
      s'.phases[d]? ≠ some .waiting := by
  have hin : ∀ {d : Nat} {waiting : List Nat} {phases : List Phase}, d < phases.length →
      d < (phases.set d .holding).length ∧ (phases.set d .holding)[d]? ≠ some .waiting :=
        fun {d _ phases} hlt => by
    rw [List.length_set, List.getElem?_set_self hlt]
    exact ⟨hlt, fun h => by cases h⟩
  have hlast : ∀ {d : Nat} {waiting : List Nat}, s.mutex.waiting = waiting ++ [d] →
      d < s.phases.length :=
    fun {d waiting} h => by
      have hd :=
        (hinv.queued.waits d).1 (h ▸ List.mem_append_right waiting (List.mem_singleton_self d))
      exact (List.getElem?_eq_some_iff.1 hd).1
  cases hstep with
  | enter hroom =>
      have hcurrent := hinv.current
      have hfull := hinv.full hsome
      have hpositive := List.length_pos_iff.2 hsome
      omega
  | wait => exact rfl
  | leave j hj hnobody => exact absurd hnobody hsome
  | handOver j d waiting hj hwaiting =>
      exact ⟨d, hwaiting, @hin d waiting _ ((List.length_set ..).symm ▸ hlast hwaiting)⟩
  | stray hnobody => exact absurd hnobody hsome
  | letIn d waiting hwaiting => exact ⟨d, hwaiting, @hin d waiting _ (hlast hwaiting)⟩

theorem forall_prefix_cons {α : Type} {P : List α → Prop} {a : α} {l : List α} :
    (∀ p, p <+: a :: l → P p) ↔ P [] ∧ ∀ p, p <+: l → P (a :: p) := by
  simp only [List.prefix_cons_iff]
  constructor
  · exact fun h => ⟨h [] (.inl rfl), fun p hp => h (a :: p) (.inr ⟨p, rfl, hp⟩)⟩
  · rintro ⟨hnil, hcons⟩ p (rfl | ⟨t, rfl, ht⟩)
    · exact hnil
    · exact hcons t ht

/-- **Who waits.** The last who came is the first who is let in: a caller with `later` behind it
waits on as long as there never were more calls of `unlock` than `later` and new calls of `lock`
together. -/
theorem waits_iff (max : Nat) (cs₀ cs : List Call) (hfirst : run step (new max) cs₀ = some s)
    {front later : List Nat} (hwaiting : s.mutex.waiting = front ++ i :: later)
    (hrun : run step s cs = some s') :
    s'.phases[i]? = some .waiting ↔
      ∀ p : List Call, p <+: cs → p.countP (!·.isLock) ≤ later.length + p.countP Call.isLock := by
  have hinv := inv_run hfirst
  clear hfirst
  induction cs generalizing s later with
  | nil =>
      cases hrun
      refine iff_of_true
        ((hinv.queued.waits i).1 (hwaiting ▸ List.mem_append_right front List.mem_cons_self)) ?_
      intro p hp
      rw [List.prefix_nil.1 hp]
      exact Nat.zero_le _
  | cons c cs ih =>
      obtain ⟨s₁, hstep, hrest⟩ := run_cons_inv hrun
      have hqueue := queue_step hinv (by simp [hwaiting]) (step_of_eq hstep)
      have hinv₁ := inv_step hinv (step_of_eq hstep)
      rw [forall_prefix_cons]
      cases hlock : c.isLock with
      | true =>
          rw [if_pos hlock, hwaiting, List.append_assoc, List.cons_append] at hqueue
          refine (ih hqueue hrest hinv₁).trans ?_
          simp [hlock, Nat.add_assoc, Nat.add_comm 1]
      | false =>
          rw [if_neg (by rw [hlock]; exact Bool.false_ne_true)] at hqueue
          obtain ⟨d, hqueue, hlt, hnot⟩ := hqueue
          rw [hwaiting] at hqueue
          rcases List.eq_nil_or_concat later with rfl | ⟨rest, x, hlater⟩
          · -- it is the turn of the caller itself
            obtain ⟨-, hsame⟩ := List.append_inj' hqueue rfl
            cases hsame
            refine iff_of_false (not_waiting_run hlt hnot hrest) fun h => ?_
            have hone := h.2 [] List.nil_prefix
            simp [hlock] at hone
          · rw [hlater, List.concat_eq_append, ← List.cons_append, ← List.append_assoc] at hqueue
            obtain ⟨hsame, -⟩ := List.append_inj' hqueue rfl
            refine (ih hsame.symm hrest hinv₁).trans ?_
            rw [hlater]
            simp [hlock, Nat.add_right_comm _ 1]

/-- The second caller waits while the third and the fourth come and go. -/
theorem waits_iff_overtaken :
    ∃ s s', run step (new 1) [.lock, .lock] = some s ∧
      run step s [.lock, .unlock 0, .lock, .unlock 2] = some s' ∧
      (s'.phases[1]? = some .waiting ↔ ∀ p : List Call, p <+: [.lock, .unlock 0, .lock, .unlock 2] →
        p.countP (!·.isLock) ≤ 0 + p.countP Call.isLock) :=
  ⟨_, _, rfl, rfl, @waits_iff _ _ 1 1 [.lock, .lock] [.lock, .unlock 0, .lock, .unlock 2] rfl
    [] [] rfl rfl⟩

end Callers

end NatsClient.Util
