import NatsClient.Iterator.Fifo

/-!
# The pending count of an iterator

Model of `getPending` (`queued_iterator.ts`): the length of the queue and what is in flight of the
batch, without the protocol values among them. A function counts as long as it is in the queue, and
in the batch until the next one is taken, as the generator passes over its `inflight--`; and a value
is taken for a protocol value by the ingestion filter, but dropped by the protocol filter.

So the count is right in the runs in which no function is pushed and both filters agree
(`getPending_eq`). The number of processed values is right in all of them.
-/

set_option autoImplicit false

namespace NatsClient.Iterator

open NatsClient.Foundation

variable {α φ E : Type}

/-- The number of values of a list of items that the protocol filter drops. -/
def rejected (protocolFilterFn : α → Bool) : List (Item α φ) → Nat
  | [] => 0
  | .value v :: items =>
      if protocolFilterFn v then rejected protocolFilterFn items
      else rejected protocolFilterFn items + 1
  | .fn _ :: items => rejected protocolFilterFn items

/-- A value is with the user. -/
def Consumer.isPresenting : Consumer α φ E → Bool
  | .presenting _ _ => true
  | .idle | .waiting | .running _ | .finished _ => false

namespace QueuedIterator

/-- `getPending()`. -/
def getPending (it : QueuedIterator α φ E) : Int :=
  it.yields.length + it.inflight - it.pendingFiltered

/-- The values that are still to be presented, and the one that is being processed. -/
def outstanding (protocolFilterFn : α → Bool) (it : QueuedIterator α φ E) : Nat :=
  (accepted protocolFilterFn it.left).length + it.consumer.isPresenting.toNat

/-- What the numbers are for. -/
structure PendingExact (protocolFilterFn : α → Bool) (it : QueuedIterator α φ E) : Prop where
  pending : it.getPending = it.outstanding protocolFilterFn
  nonneg : 0 ≤ it.getPending
  consumed : it.left = [] → it.consumer.isPresenting = false → it.getPending = 0
  processed : it.processed = it.yielded.length

/-- The condition on a step: a value is pushed, which the ingestion filter takes for a protocol
value just where the protocol filter is going to drop it, or the generator goes on. -/
def Countable (protocolFilterFn : α → Bool) (_ : QueuedIterator α φ E) : IteratorEvent α φ E → Prop
  | .push v r => r.ingest = true → r.protocol = !protocolFilterFn v
  | .resume | .tick => True
  | .pushFn _ | .stop _ | .leave => False

instance (p : α → Bool) (it : QueuedIterator α φ E) :
    (e : IteratorEvent α φ E) → Decidable (it.Countable p e)
  | .push _ _ => inferInstanceAs (Decidable (_ → _))
  | .resume | .tick => isTrue trivial
  | .pushFn _ | .stop _ | .leave => isFalse id

/-- The values of the batch that the generator still counts. -/
def counted (it : QueuedIterator α φ E) : Nat :=
  it.consumer.batch.length + it.consumer.isPresenting.toNat

/-- The invariant of the runs whose steps meet the condition. -/
structure Counts (protocolFilterFn : α → Bool) (it : QueuedIterator α φ E) : Prop where
  running : it.Running
  values : functions it.left = []
  inflight : it.inflight = it.counted
  pendingFiltered : it.pendingFiltered = rejected protocolFilterFn it.left

section

variable {p : α → Bool} {effect : φ → Effect E} {it it' : QueuedIterator α φ E}
  {xs ys : List (Item α φ)} {e : IteratorEvent α φ E}

/-! ## Counting values -/

theorem rejected_append (xs ys : List (Item α φ)) :
    rejected p (xs ++ ys) = rejected p xs + rejected p ys := by
  induction xs with
  | nil => exact (Nat.zero_add _).symm
  | cons x xs ih =>
      cases x with
      | fn f => exact ih
      | value v =>
          simp only [List.cons_append, rejected]
          split
          · exact ih
          · rw [ih, Nat.add_right_comm]

/-- A list of values is what passes and what is dropped. -/
theorem length_of_values (h : functions xs = []) :
    xs.length = (accepted p xs).length + rejected p xs := by
  induction xs with
  | nil => rfl
  | cons x xs ih =>
      cases x with
      | fn f => cases h
      | value v =>
          have htail := ih h
          simp only [accepted, rejected, List.length_cons]
          split
          · rw [List.length_cons, htail]
            omega
          · rw [htail]
            omega

theorem left_of_running (h : it.Running) : it.left = it.consumer.batch ++ it.yields := by
  rw [left, h.consumer, if_neg Bool.false_ne_true]

/-- **The count is right** where the invariant holds. -/
theorem Counts.getPending (h : it.Counts p) : it.getPending = it.outstanding p := by
  have hleft := left_of_running h.running
  have hlength := length_of_values (p := p) h.values
  rw [hleft, List.length_append, ← hleft] at hlength
  rw [QueuedIterator.getPending, h.inflight, h.pendingFiltered, counted, outstanding]
  omega

/-! ## The number of processed values -/

theorem processed_stop (it : QueuedIterator α φ E) (err : Option E) :
    (it.stop err).processed = it.processed ∧ (it.stop err).yielded = it.yielded := by
  unfold QueuedIterator.stop
  split <;> exact ⟨rfl, rfl⟩

theorem processed_finish (it : QueuedIterator α φ E) (err : Option E) :
    (it.finish err).processed = it.processed ∧ (it.finish err).yielded = it.yielded :=
  processed_stop it none

theorem processed_apply (it : QueuedIterator α φ E) (effect : Effect E) :
    (it.apply effect).processed = it.processed ∧ (it.apply effect).yielded = it.yielded := by
  unfold QueuedIterator.apply
  split
  · exact processed_stop it _
  · exact ⟨rfl, rfl⟩

theorem processed_takeBatch (it : QueuedIterator α φ E) :
    it.takeBatch.processed = it.processed ∧ it.takeBatch.yielded = it.yielded := by
  unfold QueuedIterator.takeBatch
  split
  · exact processed_finish it _
  · exact ⟨rfl, rfl⟩

theorem processed_resume (h : it.processed = it.yielded.length) (hresume : it.resume = some it') :
    it'.processed = it'.yielded.length := by
  have htaken : it.takeBatch.processed = it.takeBatch.yielded.length := by
    rw [(processed_takeBatch it).1, (processed_takeBatch it).2]
    exact h
  cases hc : it.consumer with
  | idle =>
      simp only [QueuedIterator.resume, hc, Option.some.injEq] at hresume
      rw [← hresume]
      split
      · exact h
      · exact htaken
  | waiting =>
      simp only [QueuedIterator.resume, hc, Option.ite_none_right_eq_some,
        Option.some.injEq] at hresume
      rw [← hresume.2]
      exact htaken
  | presenting v batch =>
      simp only [QueuedIterator.resume, hc, Option.some.injEq] at hresume
      rw [← hresume]
      exact h
  | running batch | finished err =>
      simp only [QueuedIterator.resume, hc] at hresume
      cases hresume

theorem processed_tick (h : it.processed = it.yielded.length) :
    (it.tick p effect).processed = (it.tick p effect).yielded.length := by
  have hfinish : ∀ (it' : QueuedIterator α φ E) (err : Option E),
      it'.processed = it'.yielded.length →
      (it'.finish err).processed = (it'.finish err).yielded.length := by
    intro it' err h'
    rw [(processed_finish it' err).1, (processed_finish it' err).2]
    exact h'
  cases hc : it.consumer with
  | idle | waiting | presenting v batch | finished err =>
      simp only [QueuedIterator.tick, hc]
      exact h
  | running batch =>
      cases batch with
      | nil =>
          simp only [QueuedIterator.tick, hc]
          split
          · exact hfinish it none h
          · split
            · exact h
            · rw [(processed_takeBatch it).1, (processed_takeBatch it).2]
              exact h
      | cons item batch =>
          cases item with
          | value v =>
              simp only [QueuedIterator.tick, hc]
              split
              · -- a value that passes is counted as it is yielded
                show it.processed + 1 = (it.yielded ++ [v]).length
                rw [h, List.length_append]
                rfl
              · exact h
          | fn f =>
              have happlied : (it.apply (effect f)).processed =
                  (it.apply (effect f)).yielded.length := by
                rw [(processed_apply it _).1, (processed_apply it _).2]
                exact h
              simp only [QueuedIterator.tick, hc]
              split
              · exact hfinish _ _ happlied
              · split
                · exact hfinish _ _ happlied
                · exact happlied

/-- **One event** keeps the number of processed values right, whatever it is. -/
theorem processed_step (h : it.processed = it.yielded.length) (hs : it.step p effect e = some it') :
    it'.processed = it'.yielded.length := by
  cases e with
  | push v r =>
      cases hs
      unfold QueuedIterator.push
      split
      · exact h
      · split <;> exact h
  | pushFn f =>
      cases hs
      unfold QueuedIterator.pushFn
      split <;> exact h
  | stop err =>
      cases hs
      rw [(processed_stop it err).1, (processed_stop it err).2]
      exact h
  | resume => exact processed_resume h hs
  | tick =>
      obtain ⟨-, hsome⟩ := Option.ite_none_right_eq_some.1 hs
      rw [← Option.some.inj hsome]
      exact processed_tick h
  | leave =>
      simp only [step] at hs
      split at hs <;> cases hs
      rw [(processed_finish it none).1, (processed_finish it none).2]
      exact h

/-! ## The pending count -/

/-- The queue becomes the batch. -/
theorem Counts.takeBatch (h : it.Counts p) (hbatch : it.consumer.batch = []) :
    it.takeBatch.Counts p := by
  have hleft : it.left = it.yields := by rw [left_of_running h.running, hbatch, List.nil_append]
  have htaken : it.takeBatch.left = it.yields := by
    rw [left_of_running h.running.takeBatch]
    unfold QueuedIterator.takeBatch
    rw [h.running.err]
    exact List.append_nil _
  refine ⟨h.running.takeBatch, ?_, ?_, ?_⟩
  · rw [htaken, ← hleft]
    exact h.values
  · unfold QueuedIterator.takeBatch
    rw [h.running.err]
    rfl
  · rw [htaken, ← hleft, ← h.pendingFiltered]
    unfold QueuedIterator.takeBatch
    rw [h.running.err]

/-- A value is pushed. -/
theorem Counts.push (h : it.Counts p) {v : α} {r : IngestionFilterFnResult}
    (hr : r.ingest = true → r.protocol = !p v) : (it.push v r).Counts p := by
  have hopen := h.running.push v r
  have hleft := left_of_running h.running
  unfold QueuedIterator.push at hopen ⊢
  rw [h.running.done, if_neg Bool.false_ne_true] at hopen ⊢
  split
  · rename_i hingest
    rw [if_pos hingest] at hopen
    have hleft' := left_of_running hopen
    simp only at hleft'
    rw [← List.append_assoc, ← hleft] at hleft'
    refine ⟨hopen, ?_, h.inflight, ?_⟩
    · rw [hleft', functions_append, h.values]
      rfl
    · rw [hleft', rejected_append]
      simp only [rejected]
      rw [hr hingest, h.pendingFiltered]
      cases p v <;> simp
  · exact h

theorem Counts.resume (h : it.Counts p) (hresume : it.resume = some it') : it'.Counts p := by
  have hleft := left_of_running h.running
  cases hc : it.consumer with
  | idle =>
      simp only [QueuedIterator.resume, hc, Option.some.injEq] at hresume
      rw [← hresume]
      split
      · have hinflight := h.inflight
        have hvalues := h.values
        have hfiltered := h.pendingFiltered
        rw [counted, hc] at hinflight
        rw [hleft, hc] at hvalues hfiltered
        exact ⟨⟨h.running.done, h.running.err, rfl⟩, hvalues, hinflight, hfiltered⟩
      · exact h.takeBatch (by rw [hc]; rfl)
  | waiting =>
      simp only [QueuedIterator.resume, hc, Option.ite_none_right_eq_some,
        Option.some.injEq] at hresume
      rw [← hresume.2]
      exact h.takeBatch (by rw [hc]; rfl)
  | presenting v batch =>
      simp only [QueuedIterator.resume, hc, Option.some.injEq] at hresume
      rw [← hresume]
      have hinflight := h.inflight
      have hvalues := h.values
      have hfiltered := h.pendingFiltered
      rw [counted, hc] at hinflight
      rw [hleft, hc] at hvalues hfiltered
      refine ⟨⟨h.running.done, h.running.err, rfl⟩, hvalues, ?_, hfiltered⟩
      show it.inflight - 1 = ((batch.length + 0 : Nat) : Int)
      rw [hinflight]
      simp [Consumer.batch, Consumer.isPresenting]
  | running batch | finished err =>
      simp only [QueuedIterator.resume, hc] at hresume
      cases hresume

theorem Counts.tick (h : it.Counts p) (hrun : it.consumer.isRunning = true) :
    (it.tick p effect).Counts p := by
  have hleft := left_of_running h.running
  have hinflight := h.inflight
  have hvalues := h.values
  have hfiltered := h.pendingFiltered
  cases hc : it.consumer with
  | idle | waiting | presenting v batch | finished err =>
      rw [hc] at hrun
      cases hrun
  | running batch =>
      rw [counted, hc] at hinflight
      rw [hleft, hc] at hvalues hfiltered
      cases batch with
      | nil =>
          have hdone : ¬ it.done = true := by
            -- only a function of the queue would have ended the iterator
            rw [h.running.done]
            exact Bool.false_ne_true
          simp only [QueuedIterator.tick, hc, if_neg hdone]
          split
          · exact ⟨⟨h.running.done, h.running.err, rfl⟩, hvalues, hinflight, hfiltered⟩
          · exact h.takeBatch (by rw [hc]; rfl)
      | cons item batch =>
          cases item with
          | fn f => cases hvalues
          | value v =>
              simp only [QueuedIterator.tick, hc]
              split
              · rename_i hv
                refine ⟨⟨h.running.done, h.running.err, rfl⟩, hvalues, hinflight, ?_⟩
                rw [hfiltered]
                simp [left, Consumer.isFinished, Consumer.batch, rejected, hv]
              · rename_i hv
                refine ⟨⟨h.running.done, h.running.err, rfl⟩, hvalues, ?_, ?_⟩
                · -- a value that is filtered out was in flight, and is accounted for at once
                  show it.inflight - 1 = ((batch.length + 0 : Nat) : Int)
                  rw [hinflight]
                  simp [Consumer.batch, Consumer.isPresenting]
                · show it.pendingFiltered - 1 = _
                  rw [hfiltered]
                  simp [left, Consumer.isFinished, Consumer.batch, rejected, hv]

/-- **One event** that meets the condition. -/
theorem Counts.step (h : it.Counts p) (hok : it.Countable p e)
    (hs : it.step p effect e = some it') : it'.Counts p := by
  cases e with
  | push v r =>
      cases hs
      exact h.push hok
  | resume => exact h.resume hs
  | tick =>
      obtain ⟨hrun, hsome⟩ := Option.ite_none_right_eq_some.1 hs
      rw [← Option.some.inj hsome]
      exact h.tick hrun
  | pushFn f | stop err | leave => exact absurd hok id

theorem counts_new : (new : QueuedIterator α φ E).Counts p := ⟨running_new, rfl, rfl, rfl⟩

end

/-- **The pending count.** In every run in which only values are pushed, with the two filters in
agreement, and the consumer goes on, `getPending()` is the number of values that are still to be
presented with the one that is being processed. -/
theorem getPending_eq (protocolFilterFn : α → Bool) (effect : φ → Effect E)
    (es : List (IteratorEvent α φ E)) (it : QueuedIterator α φ E)
    (hrun : run (step protocolFilterFn effect) new es = some it)
    (hok : Meets (step protocolFilterFn effect) (Countable protocolFilterFn) new es) :
    it.PendingExact protocolFilterFn := by
  have hcounts : it.Counts protocolFilterFn :=
    invariant_run_of_meets (fun _ _ _ h hok hs => h.step hok hs) hrun hok counts_new
  have hprocessed : it.processed = it.yielded.length :=
    invariant_run (I := fun it => it.processed = it.yielded.length)
      (fun _ _ _ h hs => processed_step h hs) hrun rfl
  refine ⟨hcounts.getPending, ?_, fun hleft hpresenting => ?_, hprocessed⟩
  · rw [hcounts.getPending]
    exact Int.natCast_nonneg _
  · rw [hcounts.getPending, outstanding, hleft, hpresenting]
    rfl

/-- A protocol value between two values of the user, the first of which is being processed. -/
theorem getPending_eq_protocol :
    ∃ it : QueuedIterator Nat Unit Unit, it.PendingExact (fun v => v ≠ 0) ∧ it.getPending = 2 := by
  let p : Nat → Bool := fun v => v ≠ 0
  let effect : Unit → Effect Unit := fun _ => ⟨none, none⟩
  let es : List (IteratorEvent Nat Unit Unit) :=
    [.push 1 ⟨true, false⟩, .push 0 ⟨true, true⟩, .push 2 ⟨true, false⟩, .resume, .tick]
  have hends : (run (step p effect) new es).any (fun it => it.getPending = 2) = true := by
    decide +kernel
  obtain ⟨it, hrun, hit⟩ := (Option.any_eq_true _ _).1 hends
  exact ⟨it, getPending_eq p effect es it hrun (by decide +kernel), of_decide_eq_true hit⟩

/-- A function in front of a value: once both are consumed, one is still counted. -/
theorem not_pendingExact :
    ¬ ∀ (p : Nat → Bool) (effect : Unit → Effect Unit) (es : List (IteratorEvent Nat Unit Unit))
        (it : QueuedIterator Nat Unit Unit), run (step p effect) new es = some it →
        it.PendingExact p := by
  intro h
  let p : Nat → Bool := fun _ => true
  let effect : Unit → Effect Unit := fun _ => ⟨none, none⟩
  let es : List (IteratorEvent Nat Unit Unit) :=
    [.pushFn (), .push 1 ⟨true, false⟩, .resume, .tick, .tick, .resume, .tick]
  have hends : (run (step p effect) new es).any (fun it =>
      it.getPending = 1 ∧ it.consumer = .waiting ∧ it.yields = []) = true := by
    decide +kernel
  obtain ⟨it, hrun, hit⟩ := (Option.any_eq_true _ _).1 hends
  obtain ⟨hpending, hwaiting, hyields⟩ := of_decide_eq_true hit
  have hzero := (h p effect es it hrun).consumed (by rw [left, hwaiting, hyields]; rfl)
    (by rw [hwaiting]; rfl)
  rw [hpending] at hzero
  cases hzero

end QueuedIterator

end NatsClient.Iterator
