import NatsClient.Foundation.Run
import NatsClient.Iterator.Trace

/-!
# The iterator as a queue

All runs of a `QueuedIteratorImpl` (`queued_iterator.ts`), in which pushes, stops and the steps of
the consumer come in any order. The generator is taken step by step, so a push may come between any
two of its steps: the functions and the filters it calls may push too.

* `traced_run`: what was pushed is what the iterator went through and what is left, in this order;
* `awake_step`: a queue with something in it, and a stopped iterator, have a resolved signal;
* `runs_fifo`: nothing is lost, doubled or passed over, and no wake-up is missed.
-/

set_option autoImplicit false

namespace NatsClient.Iterator

open NatsClient.Foundation

/-- What can happen to an iterator: the code around it pushes, with the answer of the ingestion
filter, or stops it; the generator leaves a suspension or takes a step; the user leaves the loop. -/
inductive IteratorEvent (α φ E : Type) where
  | push (v : α) (r : IngestionFilterFnResult)
  | pushFn (f : φ)
  | stop (err : Option E)
  | resume
  | tick
  | leave
deriving DecidableEq, Repr

variable {α φ E : Type}

/-- What the events push, as far as the ingestion filter lets it in. -/
def pushed : List (IteratorEvent α φ E) → List (Item α φ)
  | [] => []
  | .push v r :: es => if r.ingest then .value v :: pushed es else pushed es
  | .pushFn f :: es => .fn f :: pushed es
  | .stop _ :: es | .resume :: es | .tick :: es | .leave :: es => pushed es

namespace QueuedIterator

/-- One event; `none` where it cannot happen. -/
def step (protocolFilterFn : α → Bool) (effect : φ → Effect E) (it : QueuedIterator α φ E) :
    IteratorEvent α φ E → Option (QueuedIterator α φ E)
  | .push v r => some (it.push v r)
  | .pushFn f => some (it.pushFn f)
  | .stop err => some (it.stop err)
  | .resume => it.resume
  | .tick => if it.consumer.isRunning then some (it.tick protocolFilterFn effect) else none
  | .leave =>
      match it.consumer with
      | .presenting _ _ => some (it.finish none)
      | .idle | .waiting | .running _ | .finished _ => none

/-- A lossless queue: of what was pushed the iterator went through a first part, whose accepted
values were presented and whose functions ran, each once; the rest is left. -/
structure Fifo (protocolFilterFn : α → Bool) (items : List (Item α φ)) (it : QueuedIterator α φ E) :
    Prop where
  values : it.yielded ++ accepted protocolFilterFn it.left = accepted protocolFilterFn items
  functions : it.called ++ functions it.left = functions items
  /-- A function that ran had every value in front of it presented before. -/
  behind : ∀ front f back, items = front ++ .fn f :: back →
    (Iterator.functions front).length < it.called.length →
    accepted protocolFilterFn front <+: it.yielded
  /-- And until it runs no value behind it is presented. -/
  before : ∀ front f back, items = front ++ .fn f :: back →
    it.called.length ≤ (Iterator.functions front).length →
    it.yielded <+: accepted protocolFilterFn front

/-- The signal is resolved where there is something to wake up for. -/
def Awake (it : QueuedIterator α φ E) : Prop := it.yields ≠ [] ∨ it.done = true → it.signal = true

section

variable {p : α → Bool} {effect : φ → Effect E} {it it' : QueuedIterator α φ E}
  {items : List (Item α φ)} {e : IteratorEvent α φ E} {es : List (IteratorEvent α φ E)}

/-! ## What one event does -/

theorem done_stop (it : QueuedIterator α φ E) (err : Option E) : (it.stop err).done = true := by
  unfold QueuedIterator.stop
  split
  · assumption
  · rfl

theorem done_finish (it : QueuedIterator α φ E) (err : Option E) : (it.finish err).done = true :=
  done_stop it none

theorem done_apply (h : it.done = true) (effect : Effect E) : (it.apply effect).done = true := by
  unfold QueuedIterator.apply
  split
  · exact done_stop it _
  · exact h

theorem done_takeBatch (h : it.done = true) : it.takeBatch.done = true := by
  unfold QueuedIterator.takeBatch
  split
  · exact done_finish it _
  · exact h

theorem done_resume (h : it.done = true) (hresume : it.resume = some it') : it'.done = true := by
  cases hc : it.consumer with
  | idle =>
      simp only [QueuedIterator.resume, hc, Option.some.injEq] at hresume
      rw [← hresume]
      split
      · exact h
      · exact done_takeBatch h
  | waiting =>
      simp only [QueuedIterator.resume, hc, Option.ite_none_right_eq_some,
        Option.some.injEq] at hresume
      rw [← hresume.2]
      exact done_takeBatch h
  | presenting v batch =>
      simp only [QueuedIterator.resume, hc, Option.some.injEq] at hresume
      rw [← hresume]
      exact h
  | running batch | finished err =>
      simp only [QueuedIterator.resume, hc] at hresume
      cases hresume

theorem done_tick (h : it.done = true) : (it.tick p effect).done = true := by
  cases hc : it.consumer with
  | idle | waiting | presenting v batch | finished err =>
      simp only [QueuedIterator.tick, hc]
      exact h
  | running batch =>
      cases batch with
      | nil =>
          simp only [QueuedIterator.tick, hc, if_pos h]
          exact done_finish it none
      | cons item batch =>
          cases item with
          | value v =>
              simp only [QueuedIterator.tick, hc]
              split <;> exact h
          | fn f =>
              simp only [QueuedIterator.tick, hc]
              split
              · exact done_finish _ _
              · split
                · exact done_finish _ _
                · exact done_apply h _

/-- **A stopped iterator stays stopped.** -/
theorem done_step (h : it.done = true) (hs : it.step p effect e = some it') : it'.done = true := by
  cases e with
  | push v r =>
      cases hs
      rw [QueuedIterator.push, if_pos h]
      exact h
  | pushFn f =>
      cases hs
      rw [QueuedIterator.pushFn, if_pos h]
      exact h
  | stop err =>
      cases hs
      exact done_stop it err
  | resume => exact done_resume h hs
  | tick =>
      obtain ⟨-, hsome⟩ := Option.ite_none_right_eq_some.1 hs
      rw [← Option.some.inj hsome]
      exact done_tick h
  | leave =>
      simp only [step] at hs
      split at hs <;> cases hs
      exact done_finish it none

/-- **One event** adds what it pushes. -/
theorem traced_step (h : it.Traced p items) (hdone : it.done = false)
    (hs : it.step p effect e = some it') : it'.Traced p (items ++ pushed [e]) := by
  cases e with
  | push v r =>
      cases hs
      simp only [pushed]
      split
      · rename_i hingest
        have hpush := h.push v hingest
        rw [hdone, if_neg Bool.false_ne_true] at hpush
        exact hpush
      · rename_i hingest
        rw [List.append_nil, QueuedIterator.push, hdone, if_neg Bool.false_ne_true, if_neg hingest]
        exact h
  | pushFn f =>
      cases hs
      have hpush := h.pushFn f
      rw [hdone, if_neg Bool.false_ne_true] at hpush
      exact hpush
  | stop err =>
      cases hs
      rw [pushed, pushed, List.append_nil]
      exact h.stop err
  | resume =>
      rw [pushed, pushed, List.append_nil]
      exact h.resume hs
  | tick =>
      obtain ⟨hrun, hsome⟩ := Option.ite_none_right_eq_some.1 hs
      rw [pushed, pushed, List.append_nil, ← Option.some.inj hsome]
      exact h.tick hrun
  | leave =>
      rw [pushed, pushed, List.append_nil]
      simp only [step] at hs
      split at hs <;> cases hs
      obtain ⟨processed, h⟩ := h
      exact ⟨processed, h.finish none⟩

/-- What is pushed first comes first. -/
theorem pushed_cons (e : IteratorEvent α φ E) (es : List (IteratorEvent α φ E)) :
    pushed (e :: es) = pushed [e] ++ pushed es := by
  cases e with
  | push v r =>
      simp only [pushed]
      split <;> rfl
  | pushFn f | stop err | resume | tick | leave => rfl

/-- **What was pushed in a run** is what the iterator went through and what is left. -/
theorem traced_run (h : it.Traced p items) (hrun : run (step p effect) it es = some it')
    (hdone : it'.done = false) : it.done = false ∧ it'.Traced p (items ++ pushed es) := by
  induction es generalizing it items with
  | nil =>
      cases hrun
      rw [pushed, List.append_nil]
      exact ⟨hdone, h⟩
  | cons e es ih =>
      obtain ⟨it₁, hstep, hrest⟩ := run_cons_inv hrun
      have hopen : it.done = false := by
        cases hclosed : it.done with
        | false => rfl
        | true =>
            have hstays : it'.done = true :=
              invariant_run (I := fun it => it.done = true) (fun _ _ _ h hs => done_step h hs)
                hrun hclosed
            rw [hdone] at hstays
            cases hstays
      refine ⟨hopen, ?_⟩
      rw [pushed_cons, ← List.append_assoc]
      exact (ih (traced_step h hopen hstep) hrest).2

/-! ## The signal -/

theorem Awake.stop (h : it.Awake) (err : Option E) : (it.stop err).Awake := by
  unfold QueuedIterator.stop
  split
  · exact h
  · exact fun _ => rfl

theorem Awake.finish (h : it.Awake) (err : Option E) : (it.finish err).Awake := h.stop none

theorem Awake.apply (h : it.Awake) (effect : Effect E) : (it.apply effect).Awake := by
  unfold QueuedIterator.apply
  split
  · exact h.stop _
  · exact h

/-- The queue is emptied; the signal stays as it is. -/
theorem Awake.takeBatch (h : it.Awake) : it.takeBatch.Awake := by
  unfold QueuedIterator.takeBatch
  split
  · exact h.finish _
  · intro hsome
    exact h (.inr (hsome.resolve_left fun hne => hne rfl))

theorem awake_resume (h : it.Awake) (hresume : it.resume = some it') : it'.Awake := by
  cases hc : it.consumer with
  | idle =>
      simp only [QueuedIterator.resume, hc, Option.some.injEq] at hresume
      rw [← hresume]
      split
      · exact h
      · exact h.takeBatch
  | waiting =>
      simp only [QueuedIterator.resume, hc, Option.ite_none_right_eq_some,
        Option.some.injEq] at hresume
      rw [← hresume.2]
      exact h.takeBatch
  | presenting v batch =>
      simp only [QueuedIterator.resume, hc, Option.some.injEq] at hresume
      rw [← hresume]
      exact h
  | running batch | finished err =>
      simp only [QueuedIterator.resume, hc] at hresume
      cases hresume

theorem awake_tick (h : it.Awake) : (it.tick p effect).Awake := by
  cases hc : it.consumer with
  | idle | waiting | presenting v batch | finished err =>
      simp only [QueuedIterator.tick, hc]
      exact h
  | running batch =>
      cases batch with
      | nil =>
          simp only [QueuedIterator.tick, hc]
          split
          · exact h.finish none
          · rename_i hdone
            split
            · -- a new signal, with nothing to wake up for
              rename_i hyields
              rintro (hne | hdone')
              · exact absurd hyields hne
              · exact absurd hdone' hdone
            · exact h.takeBatch
      | cons item batch =>
          cases item with
          | value v =>
              simp only [QueuedIterator.tick, hc]
              split <;> exact h
          | fn f =>
              have happlied : Awake { it.apply (effect f) with called := it.called ++ [f] } :=
                h.apply _
              simp only [QueuedIterator.tick, hc]
              split
              · exact happlied.finish _
              · split
                · exact happlied.finish _
                · exact happlied

/-- **One event** misses no wake-up. -/
theorem awake_step (h : it.Awake) (hs : it.step p effect e = some it') : it'.Awake := by
  cases e with
  | push v r =>
      cases hs
      unfold QueuedIterator.push
      split
      · exact h
      · split
        · exact fun _ => rfl
        · exact h
  | pushFn f =>
      cases hs
      unfold QueuedIterator.pushFn
      split
      · exact h
      · exact fun _ => rfl
  | stop err =>
      cases hs
      exact h.stop err
  | resume => exact awake_resume h hs
  | tick =>
      obtain ⟨-, hsome⟩ := Option.ite_none_right_eq_some.1 hs
      rw [← Option.some.inj hsome]
      exact awake_tick h
  | leave =>
      simp only [step] at hs
      split at hs <;> cases hs
      exact h.finish none

theorem awake_new : (new : QueuedIterator α φ E).Awake := by
  rintro (hne | hdone)
  · exact absurd rfl hne
  · cases hdone

/-! ## The order of values and functions -/

/-- Of two first parts of a list, one is a first part of the other. -/
theorem functions_length_le {xs ys : List (Item α φ)} (h : xs <+: ys) :
    (functions xs).length ≤ (functions ys).length := by
  obtain ⟨rest, rfl⟩ := h
  rw [functions_append, List.length_append]
  exact Nat.le_add_right ..

theorem accepted_prefix {xs ys : List (Item α φ)} (h : xs <+: ys) :
    accepted p xs <+: accepted p ys := by
  obtain ⟨rest, rfl⟩ := h
  rw [accepted_append]
  exact List.prefix_append ..

/-- **An iterator that was not stopped** is a lossless queue. -/
theorem Traced.fifo (h : it.Traced p items) (hdone : it.done = false) : it.Fifo p items := by
  obtain ⟨processed, h⟩ := h
  have hopen : it.consumer.isFinished = false := by
    cases hc : it.consumer.isFinished with
    | false => rfl
    | true =>
        rw [h.closed hc] at hdone
        cases hdone
  have hitems : items = processed ++ it.left := by
    rw [left, hopen, if_neg Bool.false_ne_true, ← List.append_assoc]
    exact h.rest hopen
  refine ⟨?_, ?_, fun front f back hsplit hran => ?_, fun front f back hsplit hwaits => ?_⟩
  · rw [hitems, accepted_append, h.yielded]
  · rw [hitems, functions_append, h.called]
  · -- what was gone through is longer than `front`
    have hfront : front <+: items := hsplit ▸ List.prefix_append ..
    rw [← h.yielded]
    rcases List.prefix_or_prefix_of_prefix hfront h.initial with hle | hle
    · exact accepted_prefix hle
    · rw [← h.called] at hran
      exact absurd (functions_length_le hle) (Nat.not_le.2 hran)
  · -- what was gone through ends in front of the function
    have hfn : front ++ [.fn f] <+: items := by
      rw [hsplit]
      exact ⟨back, List.append_assoc ..⟩
    rw [← h.yielded]
    rcases List.prefix_or_prefix_of_prefix hfn h.initial with hle | hle
    · have hlength := functions_length_le hle
      rw [h.called, functions_append, List.length_append] at hlength
      exact absurd (Nat.le_trans hlength hwaits) (Nat.not_succ_le_self _)
    · rcases List.prefix_concat_iff.1 hle with hall | hle
      · rw [hall, accepted_append]
        exact (List.append_nil (accepted p front)).symm ▸ List.prefix_rfl
      · exact accepted_prefix hle

end

/-- **The iterator is a lossless queue.** In every run, while nothing has stopped the iterator, it
went through what was pushed in order: what it has not presented or run is left, functions keep
their place among the values, and nothing happens twice. A consumer that is parked in front of
something, or behind a stop, waits on a resolved signal; one that waits on an open signal has been
given everything. -/
theorem runs_fifo (protocolFilterFn : α → Bool) (effect : φ → Effect E)
    (es : List (IteratorEvent α φ E)) (it : QueuedIterator α φ E)
    (hrun : run (step protocolFilterFn effect) new es = some it) :
    (it.done = false → it.Fifo protocolFilterFn (pushed es)) ∧
      (it.consumer = .waiting → it.yields ≠ [] ∨ it.done = true → it.signal = true) ∧
      (it.consumer = .waiting → it.signal = false →
        it.yielded = accepted protocolFilterFn (pushed es) ∧
        it.called = functions (pushed es)) := by
  have hawake : it.Awake := invariant_run (fun _ _ _ h hs => awake_step h hs) hrun awake_new
  have htraced : it.done = false → it.Traced protocolFilterFn (pushed es) :=
    fun hdone => (traced_run traced_new hrun hdone).2
  refine ⟨fun hdone => (htraced hdone).fifo hdone, fun _ => hawake, fun hwaiting hsignal => ?_⟩
  have hopen : ¬ (it.yields ≠ [] ∨ it.done = true) := by
    intro hsome
    rw [hawake hsome] at hsignal
    cases hsignal
  rw [not_or, ne_eq, not_not, Bool.not_eq_true] at hopen
  exact (htraced hopen.2).of_waiting hwaiting hopen.1

/-- A function between two values, with the consumer in the middle of its batch. -/
theorem runs_fifo_function_between :
    ∃ it : QueuedIterator Nat Nat Unit, it.Fifo (fun _ => true) [.value 1, .fn 0, .value 2] ∧
      it.yielded = [1] ∧ it.called = [0] := by
  let effect : Nat → Effect Unit := fun _ => ⟨none, none⟩
  let es : List (IteratorEvent Nat Nat Unit) :=
    [.push 1 ⟨true, false⟩, .resume, .pushFn 0, .tick, .push 2 ⟨true, false⟩, .resume, .tick, .tick]
  have hends : (run (step (fun _ => true) effect) new es).any
      (fun it => it.done = false ∧ it.yielded = [1] ∧ it.called = [0]) = true := by
    decide +kernel
  obtain ⟨it, hrun, hit⟩ := (Option.any_eq_true _ _).1 hends
  obtain ⟨hdone, hyielded, hcalled⟩ := of_decide_eq_true hit
  exact ⟨it, (runs_fifo (fun _ => true) effect es it hrun).1 hdone, hyielded, hcalled⟩

end QueuedIterator

end NatsClient.Iterator
