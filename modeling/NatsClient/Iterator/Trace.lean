import NatsClient.Iterator.QueuedIterator

/-!
# What an iterator was given and what it went through

`Traced it items`: the values and functions that were pushed into the iterator and taken by it are
`items`, and the generator went through a first part of them in order; what it presented and what it
ran are the values and the functions of that part. As long as it is not finished, the rest waits in
its batch and in its queue.

Every method keeps the trace or extends it (`Traced.push`, `Traced.pushFn`, `Traced.stop`,
`Traced.next`).
-/

set_option autoImplicit false

namespace NatsClient.Iterator

variable {α φ E : Type}

/-- The generator is finished. -/
def Consumer.isFinished : Consumer α φ E → Bool
  | .finished _ => true
  | .idle | .waiting | .presenting .. | .running _ => false

namespace QueuedIterator

theorem yielded_apply (it : QueuedIterator α φ E) (effect : Effect E) :
    (it.apply effect).yielded = it.yielded := by
  unfold apply stop
  cases effect.stops with
  | none => rfl
  | some err => by_cases hd : it.done = true <;> simp [hd]

theorem called_finish (it : QueuedIterator α φ E) (err : Option E) :
    (it.finish err).called = it.called := by
  show (it.stop none).called = it.called
  unfold stop
  split <;> rfl

theorem called_takeBatch (it : QueuedIterator α φ E) : it.takeBatch.called = it.called := by
  unfold takeBatch
  split
  · exact called_finish it _
  · rfl

/-- The generator went through `processed`, the first part of what the iterator was given. -/
structure Through (protocolFilterFn : α → Bool) (it : QueuedIterator α φ E)
    (processed items : List (Item α φ)) : Prop where
  yielded : accepted protocolFilterFn processed = it.yielded
  called : functions processed = it.called
  initial : processed <+: items
  /-- Until it is finished, the rest waits in the batch and in the queue. -/
  rest : it.consumer.isFinished = false → items = processed ++ it.consumer.batch ++ it.yields
  closed : it.consumer.isFinished = true → it.done = true

/-- The iterator was given the items. -/
def Traced (protocolFilterFn : α → Bool) (it : QueuedIterator α φ E) (items : List (Item α φ)) :
    Prop :=
  ∃ processed, it.Through protocolFilterFn processed items

section

variable {p : α → Bool} {effect : φ → Effect E} {it it' : QueuedIterator α φ E}
  {items : List (Item α φ)}

theorem traced_new : (new : QueuedIterator α φ E).Traced p [] :=
  ⟨[], rfl, rfl, List.prefix_rfl, fun _ => rfl, fun h => by cases h⟩

/-- What is pushed behind the end is dropped. -/
theorem Traced.push (h : it.Traced p items) (v : α) {r : IngestionFilterFnResult}
    (hr : r.ingest = true) :
    (it.push v r).Traced p (if it.done then items else items ++ [.value v]) := by
  obtain ⟨processed, h⟩ := h
  refine ⟨processed, ?_⟩
  by_cases hdone : it.done = true
  · rw [QueuedIterator.push, if_pos hdone, if_pos hdone]
    exact h
  · rw [QueuedIterator.push, if_neg hdone, if_neg hdone, if_pos hr]
    refine ⟨h.yielded, h.called, h.initial.trans (List.prefix_append ..), fun hc => ?_, h.closed⟩
    rw [h.rest hc, List.append_assoc]

theorem Traced.pushFn (h : it.Traced p items) (f : φ) :
    (it.pushFn f).Traced p (if it.done then items else items ++ [.fn f]) := by
  obtain ⟨processed, h⟩ := h
  refine ⟨processed, ?_⟩
  by_cases hdone : it.done = true
  · rw [QueuedIterator.pushFn, if_pos hdone, if_pos hdone]
    exact h
  · rw [QueuedIterator.pushFn, if_neg hdone, if_neg hdone]
    refine ⟨h.yielded, h.called, h.initial.trans (List.prefix_append ..), fun hc => ?_, h.closed⟩
    rw [h.rest hc, List.append_assoc]

theorem Through.stop {processed : List (Item α φ)} (h : it.Through p processed items)
    (err : Option E) : (it.stop err).Through p processed items := by
  unfold QueuedIterator.stop
  split
  · exact h
  · exact ⟨h.yielded, h.called, h.initial, h.rest, fun _ => rfl⟩

theorem Traced.stop (h : it.Traced p items) (err : Option E) : (it.stop err).Traced p items := by
  obtain ⟨processed, h⟩ := h
  exact ⟨processed, h.stop err⟩

/-- The generator ends; what is left is not presented. -/
theorem through_finish {processed : List (Item α φ)} (hyielded : accepted p processed = it.yielded)
    (hcalled : functions processed = it.called) (hinitial : processed <+: items) (err : Option E) :
    (it.finish err).Through p processed items := by
  have hstop : (it.stop none).yielded = it.yielded ∧ (it.stop none).called = it.called ∧
      (it.stop none).done = true := by
    unfold QueuedIterator.stop
    split
    · exact ⟨rfl, rfl, ‹_›⟩
    · exact ⟨rfl, rfl, rfl⟩
  exact ⟨hyielded.trans hstop.1.symm, hcalled.trans hstop.2.1.symm, hinitial, nofun,
    fun _ => hstop.2.2⟩

theorem Through.finish {processed : List (Item α φ)} (h : it.Through p processed items)
    (err : Option E) : (it.finish err).Through p processed items :=
  through_finish h.yielded h.called h.initial err

theorem Through.takeBatch {processed : List (Item α φ)} (h : it.Through p processed items)
    (hc : it.consumer.isFinished = false) (hbatch : it.consumer.batch = []) :
    it.takeBatch.Through p processed items := by
  unfold QueuedIterator.takeBatch
  cases it.err with
  | some e => exact h.finish (some e)
  | none =>
      refine ⟨h.yielded, h.called, h.initial, fun _ => ?_, fun hfinished => ?_⟩
      · rw [h.rest hc, hbatch, List.append_nil]
        exact (List.append_nil _).symm
      · cases hfinished

theorem Traced.resume (h : it.Traced p items) (hresume : it.resume = some it') :
    it'.Traced p items := by
  obtain ⟨processed, h⟩ := h
  refine ⟨processed, ?_⟩
  cases hc : it.consumer with
  | idle =>
      simp only [QueuedIterator.resume, hc, Option.some.injEq] at hresume
      rw [← hresume]
      split
      · refine ⟨h.yielded, h.called, h.initial, fun _ => ?_, fun hfinished => ?_⟩
        · rw [h.rest (by rw [hc]; rfl), hc]
          rfl
        · cases hfinished
      · exact h.takeBatch (by rw [hc]; rfl) (by rw [hc]; rfl)
  | waiting =>
      simp only [QueuedIterator.resume, hc, Option.ite_none_right_eq_some,
        Option.some.injEq] at hresume
      rw [← hresume.2]
      exact h.takeBatch (by rw [hc]; rfl) (by rw [hc]; rfl)
  | presenting v batch =>
      simp only [QueuedIterator.resume, hc, Option.some.injEq] at hresume
      rw [← hresume]
      refine ⟨h.yielded, h.called, h.initial, fun _ => ?_, fun hfinished => ?_⟩
      · rw [h.rest (by rw [hc]; rfl), hc]
        rfl
      · cases hfinished
  | running batch | finished err =>
      simp only [QueuedIterator.resume, hc] at hresume
      cases hresume

/-- A step over one item. -/
theorem Through.advance {processed batch : List (Item α φ)} {item : Item α φ}
    (h : it.Through p processed items) (hc : it.consumer = .running (item :: batch))
    (hyields : it'.yields = it.yields) (hbatch : it'.consumer.batch = batch)
    (hfinished : it'.consumer.isFinished = false)
    (hyielded : it'.yielded = it.yielded ++ accepted p [item])
    (hcalled : it'.called = it.called ++ functions [item]) :
    it'.Through p (processed ++ [item]) items := by
  have hrest : items = processed ++ [item] ++ batch ++ it.yields := by
    rw [h.rest (by rw [hc]; rfl), hc]
    simp [Consumer.batch]
  refine ⟨?_, ?_, ?_, fun _ => ?_, fun hc' => ?_⟩
  · rw [accepted_append, h.yielded, hyielded]
  · rw [functions_append, h.called, hcalled]
  · rw [hrest, List.append_assoc (processed ++ [item])]
    exact List.prefix_append ..
  · rw [hbatch, hyields]
    exact hrest
  · rw [hfinished] at hc'
    cases hc'

theorem Traced.tick (h : it.Traced p items) (hrun : it.consumer.isRunning = true) :
    (it.tick p effect).Traced p items := by
  obtain ⟨processed, h⟩ := h
  cases hc : it.consumer with
  | idle | waiting | presenting v batch | finished err =>
      rw [hc] at hrun
      cases hrun
  | running batch =>
      cases batch with
      | nil =>
          simp only [QueuedIterator.tick, hc]
          split
          · exact ⟨processed, h.finish none⟩
          · split
            · -- the generator waits, with nothing left
              refine ⟨processed, h.yielded, h.called, h.initial, fun _ => ?_, fun hfinished => ?_⟩
              · rw [h.rest (by rw [hc]; rfl), hc]
                rfl
              · cases hfinished
            · exact ⟨processed, h.takeBatch (by rw [hc]; rfl) (by rw [hc]; rfl)⟩
      | cons item batch =>
          -- the item is processed, whether it is yielded, dropped or called
          refine ⟨processed ++ [item], ?_⟩
          cases item with
          | value v =>
              simp only [QueuedIterator.tick, hc]
              split
              · rename_i hv
                refine h.advance hc ?_ ?_ ?_ ?_ ?_
                any_goals rfl
                · simp only [accepted, if_pos hv]
                · simp only [functions, List.append_nil]
              · rename_i hv
                refine h.advance hc ?_ ?_ ?_ ?_ ?_
                any_goals rfl
                · simp only [accepted, if_neg hv, List.append_nil]
                · simp only [functions, List.append_nil]
          | fn f =>
              have happlied : ∀ it' : QueuedIterator α φ E,
                  it' = { it.apply (effect f) with
                    called := it.called ++ [f], consumer := .running batch } →
                  it'.Through p (processed ++ [.fn f]) items := by
                rintro it' rfl
                refine h.advance hc (yields_apply it (effect f)) rfl rfl ?_ rfl
                · show (it.apply (effect f)).yielded = _
                  rw [yielded_apply]
                  simp only [accepted, List.append_nil]
              have hrunning := happlied _ rfl
              simp only [QueuedIterator.tick, hc]
              split
              · rename_i e he
                refine through_finish ?_ ?_ hrunning.initial (some e)
                · exact hrunning.yielded
                · exact hrunning.called
              · split
                · rename_i e he
                  refine through_finish ?_ ?_ hrunning.initial (some e)
                  · exact hrunning.yielded
                  · exact hrunning.called
                · exact hrunning

/-- **The generator goes on in order.** -/
theorem Traced.next (h : it.Traced p items) (hnext : it.next p effect = some it') :
    it'.Traced p items :=
  next_induction (I := fun it => it.Traced p items) (fun _ _ h hresume => h.resume hresume)
    (fun _ h hrun => h.tick hrun) hnext h

/-- The functions an iterator ran are some of those it was given. -/
theorem Traced.called_le (h : it.Traced p items) : it.called <+: functions items := by
  obtain ⟨processed, h⟩ := h
  obtain ⟨rest, hrest⟩ := h.initial
  rw [← hrest, functions_append, ← h.called]
  exact List.prefix_append ..

/-- The values an iterator presented are some of those it was given. -/
theorem Traced.yielded_le (h : it.Traced p items) : it.yielded <+: accepted p items := by
  obtain ⟨processed, h⟩ := h
  obtain ⟨rest, hrest⟩ := h.initial
  rw [← hrest, accepted_append, ← h.yielded]
  exact List.prefix_append ..

/-- The values in front of a function are presented before it runs. -/
theorem Traced.yielded_of_called {f : φ} (h : it.Traced p (items ++ [.fn f]))
    (hitems : functions items = []) (hcalled : it.called ≠ []) : it.yielded = accepted p items := by
  obtain ⟨processed, h⟩ := h
  rcases List.prefix_concat_iff.1 h.initial with hall | ⟨rest, hrest⟩
  · rw [← h.yielded, hall, accepted_append]
    exact List.append_nil _
  · apply absurd _ hcalled
    rw [← hrest, functions_append, h.called] at hitems
    exact (List.append_eq_nil_iff.1 hitems).1

/-- A generator that waits in front of an empty queue went through everything. -/
theorem Traced.of_waiting (h : it.Traced p items) (hc : it.consumer = .waiting)
    (hyields : it.yields = []) : it.yielded = accepted p items ∧ it.called = functions items := by
  obtain ⟨processed, h⟩ := h
  have hitems : items = processed := by
    rw [h.rest (by rw [hc]; rfl), hc, hyields]
    simp [Consumer.batch]
  rw [hitems]
  exact ⟨h.yielded.symm, h.called.symm⟩

end

/-! ## Received messages -/

section

variable {p : α → Bool} {effect : φ → Effect E} {it it' : QueuedIterator α φ E}

theorem consumer_stop (it : QueuedIterator α φ E) (err : Option E) :
    (it.stop err).consumer = it.consumer := by
  unfold QueuedIterator.stop
  split <;> rfl

theorem consumer_push (it : QueuedIterator α φ E) (v : α) (r : IngestionFilterFnResult) :
    (it.push v r).consumer = it.consumer := by
  unfold QueuedIterator.push
  split
  · rfl
  · split <;> rfl

theorem consumer_pushFn (it : QueuedIterator α φ E) (f : φ) :
    (it.pushFn f).consumer = it.consumer := by
  unfold QueuedIterator.pushFn
  split <;> rfl

theorem received_stop (it : QueuedIterator α φ E) (err : Option E) :
    (it.stop err).received = it.received := by
  unfold stop
  split <;> rfl

theorem received_apply (it : QueuedIterator α φ E) (effect : Effect E) :
    (it.apply effect).received = it.received := by
  unfold apply
  split
  · exact received_stop it _
  · rfl

theorem received_push (it : QueuedIterator α φ E) (v : α) (r : IngestionFilterFnResult) :
    (it.push v r).received = it.received := by
  unfold push
  split
  · rfl
  · split <;> rfl

theorem received_pushFn (it : QueuedIterator α φ E) (f : φ) :
    (it.pushFn f).received = it.received := by
  unfold pushFn
  split <;> rfl

theorem received_finish (it : QueuedIterator α φ E) (err : Option E) :
    (it.finish err).received = it.received := received_stop it none

theorem received_takeBatch (it : QueuedIterator α φ E) : it.takeBatch.received = it.received := by
  unfold takeBatch
  split
  · exact received_finish it _
  · rfl

theorem received_tick (it : QueuedIterator α φ E) : (it.tick p effect).received = it.received := by
  cases hc : it.consumer with
  | idle | waiting | presenting v batch | finished err => simp only [tick, hc]
  | running batch =>
      cases batch with
      | nil =>
          simp only [tick, hc]
          split
          · exact received_finish it none
          · split
            · rfl
            · exact received_takeBatch it
      | cons item batch =>
          cases item with
          | value v =>
              simp only [tick, hc]
              split <;> rfl
          | fn f =>
              simp only [tick, hc]
              split
              · rw [received_finish]
                exact received_apply it _
              · split
                · rw [received_finish]
                  exact received_apply it _
                · exact received_apply it _

/-- The generator does not count messages. -/
theorem received_next (hnext : it.next p effect = some it') : it'.received = it.received := by
  refine next_induction (I := fun it₁ => it₁.received = it.received) ?_ ?_ hnext rfl
  · intro it₁ it₂ h hresume
    rw [← h]
    cases hc : it₁.consumer with
    | idle =>
        simp only [resume, hc, Option.some.injEq] at hresume
        rw [← hresume]
        split
        · rfl
        · exact received_takeBatch it₁
    | waiting =>
        simp only [resume, hc, Option.ite_none_right_eq_some, Option.some.injEq] at hresume
        rw [← hresume.2]
        exact received_takeBatch it₁
    | presenting v batch =>
        simp only [resume, hc, Option.some.injEq] at hresume
        rw [← hresume]
    | running batch | finished err =>
        simp only [resume, hc] at hresume
        cases hresume
  · intro it₁ h _
    rw [received_tick]
    exact h

end

/-! ## Before a function was run -/

/-- Nothing stopped the iterator. -/
structure Running (it : QueuedIterator α φ E) : Prop where
  done : it.done = false
  err : it.err = none
  consumer : it.consumer.isFinished = false

section

variable {p : α → Bool} {effect : φ → Effect E} {it it' : QueuedIterator α φ E}

theorem running_new : (new : QueuedIterator α φ E).Running := ⟨rfl, rfl, rfl⟩

theorem Running.push (h : it.Running) (v : α) (r : IngestionFilterFnResult) :
    (it.push v r).Running := by
  unfold QueuedIterator.push
  split
  · exact h
  · split
    · exact ⟨h.done, h.err, h.consumer⟩
    · exact h

theorem Running.pushFn (h : it.Running) (f : φ) : (it.pushFn f).Running := by
  unfold QueuedIterator.pushFn
  split
  · exact h
  · exact ⟨h.done, h.err, h.consumer⟩

theorem Running.takeBatch (h : it.Running) : it.takeBatch.Running := by
  unfold QueuedIterator.takeBatch
  rw [h.err]
  exact ⟨h.done, rfl, rfl⟩

/-- **Only a function ends the generator.** -/
theorem running_next (hnext : it.next p effect = some it')
    (h : it.called = [] → it.Running) : it'.called = [] → it'.Running := by
  refine next_induction (I := fun it => it.called = [] → it.Running) ?_ ?_ hnext h
  · intro it it' h hresume hcalled
    cases hc : it.consumer with
    | idle =>
        simp only [QueuedIterator.resume, hc, Option.some.injEq] at hresume
        rw [← hresume] at hcalled ⊢
        split at hcalled
        · rw [if_pos ‹_›]
          have hit := h hcalled
          exact ⟨hit.done, hit.err, rfl⟩
        · rw [if_neg ‹_›]
          exact (h (called_takeBatch it ▸ hcalled)).takeBatch
    | waiting =>
        simp only [QueuedIterator.resume, hc, Option.ite_none_right_eq_some, Option.some.injEq]
          at hresume
        rw [← hresume.2] at hcalled ⊢
        exact (h (called_takeBatch it ▸ hcalled)).takeBatch
    | presenting v batch =>
        simp only [QueuedIterator.resume, hc, Option.some.injEq] at hresume
        rw [← hresume] at hcalled ⊢
        have hit := h hcalled
        exact ⟨hit.done, hit.err, rfl⟩
    | running batch | finished err =>
        simp only [QueuedIterator.resume, hc] at hresume
        cases hresume
  · intro it h hrun hcalled
    cases hc : it.consumer with
    | idle | waiting | presenting v batch | finished err =>
        rw [hc] at hrun
        cases hrun
    | running batch =>
        cases batch with
        | nil =>
            simp only [QueuedIterator.tick, hc] at hcalled ⊢
            split at hcalled
            · rename_i hdone
              -- an iterator that runs was not stopped
              have hit := h (called_finish it none ▸ hcalled)
              rw [hit.done] at hdone
              cases hdone
            · rw [if_neg ‹_›]
              split at hcalled
              · rw [if_pos ‹_›]
                have hit := h hcalled
                exact ⟨hit.done, hit.err, rfl⟩
              · rw [if_neg ‹_›]
                exact (h (called_takeBatch it ▸ hcalled)).takeBatch
        | cons item batch =>
            cases item with
            | value v =>
                simp only [QueuedIterator.tick, hc] at hcalled ⊢
                split at hcalled
                · rw [if_pos ‹_›]
                  have hit := h hcalled
                  exact ⟨hit.done, hit.err, rfl⟩
                · rw [if_neg ‹_›]
                  have hit := h hcalled
                  exact ⟨hit.done, hit.err, rfl⟩
            | fn f =>
                -- the function that is called now is one
                exfalso
                have hlength := congrArg List.length hcalled
                simp only [QueuedIterator.tick, hc] at hlength
                split at hlength
                · rw [called_finish] at hlength
                  simp at hlength
                · split at hlength
                  · rw [called_finish] at hlength
                    simp at hlength
                  · simp at hlength

end

/-! ## What is left -/

/-- The items that the generator may still come to. -/
def left (it : QueuedIterator α φ E) : List (Item α φ) :=
  if it.consumer.isFinished then [] else it.consumer.batch ++ it.yields

section

variable {p : α → Bool} {effect : φ → Effect E} {it it' : QueuedIterator α φ E}
  {items : List (Item α φ)}

theorem left_stop (err : Option E) : (it.stop err).left = it.left := by
  unfold QueuedIterator.stop
  split <;> rfl

theorem functions_left_push (v : α) (r : IngestionFilterFnResult) :
    functions (it.push v r).left = functions it.left := by
  unfold QueuedIterator.push
  split
  · rfl
  · split
    · unfold left
      simp only
      split
      · rfl
      · rw [← List.append_assoc, functions_append]
        exact List.append_nil _
    · rfl

theorem functions_left_pushFn (h : it.Traced p items) (f : φ) :
    functions (it.pushFn f).left = functions it.left ++ if it.done then [] else [f] := by
  obtain ⟨processed, h⟩ := h
  unfold QueuedIterator.pushFn
  split
  · exact (List.append_nil _).symm
  · rename_i hdone
    have hfinished : it.consumer.isFinished = false := by
      cases hc : it.consumer.isFinished with
      | false => rfl
      | true => exact absurd (h.closed hc) hdone
    simp only [left, hfinished, Bool.false_eq_true, if_false]
    rw [← List.append_assoc, functions_append]
    rfl

/-- The functions that were run, and those that are left. -/
theorem Traced.functions_left (h : it.Traced p items) (hfinished : it.consumer.isFinished = false) :
    functions items = it.called ++ functions it.left := by
  obtain ⟨processed, h⟩ := h
  rw [h.rest hfinished, left, hfinished, List.append_assoc, functions_append, h.called]
  rfl

theorem called_tick (it : QueuedIterator α φ E) : it.called <+: (it.tick p effect).called := by
  cases hc : it.consumer with
  | idle | waiting | presenting v batch | finished err =>
      simp only [tick, hc]
      exact List.prefix_rfl
  | running batch =>
      cases batch with
      | nil =>
          simp only [tick, hc]
          split
          · simp only [called_finish, List.prefix_rfl]
          · split
            · exact List.prefix_rfl
            · simp only [called_takeBatch, List.prefix_rfl]
      | cons item batch =>
          cases item with
          | value v =>
              simp only [tick, hc]
              split <;> exact List.prefix_rfl
          | fn f =>
              simp only [tick, hc]
              split
              · rw [called_finish]
                exact List.prefix_append ..
              · split
                · rw [called_finish]
                  exact List.prefix_append ..
                · exact List.prefix_append ..

theorem called_resume (hresume : it.resume = some it') : it'.called = it.called := by
  cases hc : it.consumer with
  | idle =>
      simp only [resume, hc, Option.some.injEq] at hresume
      rw [← hresume]
      split
      · rfl
      · exact called_takeBatch it
  | waiting =>
      simp only [resume, hc, Option.ite_none_right_eq_some, Option.some.injEq] at hresume
      rw [← hresume.2]
      exact called_takeBatch it
  | presenting v batch =>
      simp only [resume, hc, Option.some.injEq] at hresume
      rw [← hresume]
  | running batch | finished err =>
      simp only [resume, hc] at hresume
      cases hresume

/-- **What the generator runs was left before**, and the rest of it is still left or dropped. -/
theorem Traced.left_next (h : it.Traced p items) (hnext : it.next p effect = some it') :
    ∃ new tail, it'.called = it.called ++ new ∧ functions it.left = new ++ tail ∧
      (functions it'.left).Sublist tail := by
  have hstarted : it.consumer.isFinished = false := by
    cases hc : it.consumer with
    | finished err => simp [QueuedIterator.next, QueuedIterator.resume, hc] at hnext
    | idle | waiting | presenting v batch | running batch => rfl
  have hcalled : it.called <+: it'.called :=
    next_induction (I := fun x => it.called <+: x.called)
      (fun _ _ hx hresume => called_resume hresume ▸ hx) (fun x hx _ => hx.trans (called_tick x))
      hnext List.prefix_rfl
  obtain ⟨new, hnew⟩ := hcalled
  have hbefore := h.functions_left hstarted
  have hafter := h.next hnext
  cases hfinished : it'.consumer.isFinished with
  | true =>
      obtain ⟨tail, htail⟩ := hafter.called_le
      refine ⟨new, tail, hnew.symm, ?_, ?_⟩
      · rw [hbefore, ← hnew, List.append_assoc] at htail
        exact (List.append_cancel_left htail).symm
      · rw [left, if_pos hfinished]
        exact List.nil_sublist _
  | false =>
      refine ⟨new, functions it'.left, hnew.symm, ?_, List.Sublist.refl _⟩
      have htail := hafter.functions_left hfinished
      rw [hbefore, ← hnew, List.append_assoc] at htail
      exact List.append_cancel_left htail

end

end QueuedIterator

end NatsClient.Iterator
