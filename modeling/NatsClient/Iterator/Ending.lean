import NatsClient.Iterator.Trace

/-!
# The end of an iterator

An iterator can be ended by a function that stops it, pushed behind the last value. The generator
runs the function where it comes to it and goes on to the end of its batch. So what is pushed behind
the function is presented after all, if it gets into the same batch; and what is pushed once the
batch was taken is never presented.

`Ends p items it`: the generator is going to present what is left of `items`, and then ends. While
the function waits in `yields`, a push breaks this; no other push does (`Ends.push`).
-/

set_option autoImplicit false

namespace NatsClient.Iterator.QueuedIterator

variable {α φ E : Type}

/-- The items that the generator comes to before it looks at `done`. -/
def ahead (it : QueuedIterator α φ E) : List (Item α φ) :=
  match it.consumer with
  | .idle | .waiting => it.yields
  | .presenting _ batch | .running batch => batch
  | .finished _ => []

/-- Where the function is. -/
inductive Ending (items : List (Item α φ)) (it : QueuedIterator α φ E)
    (processed : List (Item α φ)) : Prop where
  | closed (hdone : it.done = true) (hitems : items = processed ++ it.ahead)
      (hahead : functions it.ahead = [])
  | near (hdone : it.done = false) (hfinished : it.consumer.isFinished = false) (f : φ)
      (front : List (Item α φ)) (hahead : it.ahead = front ++ [.fn f])
      (hitems : items = processed ++ front) (hfront : functions front = [])
  | far (hdone : it.done = false) (hbatch : it.consumer.inBatch = true) (f : φ)
      (front : List (Item α φ)) (hyields : it.yields = front ++ [.fn f])
      (hitems : items = processed ++ it.consumer.batch ++ front)
      (hfunctions : functions it.consumer.batch = []) (hfront : functions front = [])

/-- The generator presents the items and ends. -/
structure Ends (p : α → Bool) (items : List (Item α φ)) (it : QueuedIterator α φ E) : Prop where
  err : it.err = none
  signal : it.consumer.inBatch = false → it.consumer.isFinished = false → it.signal = true
  status : ∃ processed, accepted p processed = it.yielded ∧ Ending items it processed

/-- The function stops the iterator. -/
def stopping : Effect E := ⟨some none, none⟩

section

variable {p : α → Bool} {it it' : QueuedIterator α φ E} {items : List (Item α φ)}

theorem functions_concat_ne (front : List (Item α φ)) (f : φ) :
    functions (front ++ [.fn f]) ≠ [] := by
  rw [functions_append]
  exact List.append_ne_nil_of_right_ne_nil _ (List.cons_ne_nil f [])

theorem ahead_of_inBatch (h : it.consumer.inBatch = true) : it.ahead = it.consumer.batch := by
  cases hc : it.consumer with
  | idle | waiting | finished err =>
      rw [hc] at h
      cases h
  | presenting v batch | running batch => simp only [ahead, hc, Consumer.batch]

theorem ahead_of_not_inBatch (h : it.consumer.inBatch = false)
    (hfinished : it.consumer.isFinished = false) :
    it.ahead = it.yields ∧ it.consumer.batch = [] := by
  cases hc : it.consumer with
  | idle | waiting => exact ⟨by simp only [ahead, hc], rfl⟩
  | presenting v batch | running batch =>
      rw [hc] at h
      cases h
  | finished err =>
      rw [hc] at hfinished
      cases hfinished

/-- The function is pushed behind the values. -/
theorem Traced.ends_pushFn (h : it.Traced p items) (hrunning : it.Running)
    (hitems : functions items = []) (f : φ) : (it.pushFn f).Ends p items := by
  obtain ⟨processed, h⟩ := h
  have hrest := h.rest hrunning.consumer
  rw [hrest, functions_append, functions_append] at hitems
  obtain ⟨hbatch, hyields⟩ := List.append_eq_nil_iff.1 hitems
  rw [QueuedIterator.pushFn, if_neg (by rw [hrunning.done]; exact Bool.false_ne_true)]
  refine ⟨hrunning.err, fun _ _ => rfl, processed, h.yielded, ?_⟩
  cases hin : it.consumer.inBatch with
  | true =>
      exact .far hrunning.done hin f it.yields rfl hrest (List.append_eq_nil_iff.1 hbatch).2 hyields
  | false =>
      obtain ⟨-, hnil⟩ := ahead_of_not_inBatch hin hrunning.consumer
      rw [hnil, List.append_nil] at hrest
      refine .near hrunning.done hrunning.consumer f it.yields ?_ hrest hyields
      refine (ahead_of_not_inBatch ?_ ?_).1
      · exact hin
      · exact hrunning.consumer

/-- The iterator is stopped before the generator took anything. -/
theorem Traced.ends_stop (h : it.Traced p items) (hrunning : it.Running)
    (hitems : functions items = []) (hidle : it.consumer = .idle) :
    (it.stop none).Ends p items := by
  obtain ⟨processed, h⟩ := h
  have hrest := h.rest hrunning.consumer
  rw [hidle] at hrest
  have hitems' : items = processed ++ it.yields := by
    rw [hrest]
    exact congrArg (· ++ it.yields) (List.append_nil _)
  rw [QueuedIterator.stop, if_neg (by rw [hrunning.done]; exact Bool.false_ne_true)]
  refine ⟨rfl, fun _ _ => rfl, processed, h.yielded, ?_⟩
  have hahead : ahead
      { it with err := none, done := true, signal := true, iterClosed := some none } =
      it.yields := by
    simp only [ahead, hidle]
  refine .closed rfl (hahead.symm ▸ hitems') ?_
  rw [hitems', functions_append] at hitems
  rw [hahead]
  exact (List.append_eq_nil_iff.1 hitems).2

/-- **A push behind the end.** -/
theorem Ends.push (h : it.Ends p items) (hyields : functions it.yields = []) (v : α)
    (r : IngestionFilterFnResult) : (it.push v r).Ends p items := by
  obtain ⟨processed, hyielded, hending⟩ := h.status
  have hahead_ne : ∀ (front : List (Item α φ)) (f : φ), it.ahead = front ++ [.fn f] →
      it.consumer.isFinished = false → it.consumer.inBatch = true := by
    intro front f hahead hfinished
    cases hin : it.consumer.inBatch with
    | true => rfl
    | false =>
        rw [(ahead_of_not_inBatch hin hfinished).1] at hahead
        exact absurd (hahead ▸ hyields) (functions_concat_ne front f)
  unfold QueuedIterator.push
  split
  · exact h
  · rename_i hnotdone
    split
    · obtain ⟨hdone, -, -⟩ | ⟨hdone, hfinished, f, front, hahead, hitems, hfront⟩ |
        ⟨-, -, f, front, hmarked, -, -, -⟩ := hending
      · exact absurd hdone hnotdone
      · have hin := hahead_ne front f hahead hfinished
        refine ⟨h.err, fun _ _ => rfl, processed, hyielded,
          .near hdone hfinished f front ?_ hitems hfront⟩
        rw [ahead_of_inBatch hin] at hahead
        refine Eq.trans (ahead_of_inBatch ?_) hahead
        exact hin
      · exact absurd (hmarked ▸ hyields) (functions_concat_ne front f)
    · exact h

theorem functions_yields_push (v : α) (r : IngestionFilterFnResult) :
    functions (it.push v r).yields = functions it.yields := by
  unfold QueuedIterator.push
  split
  · rfl
  · split
    · rw [functions_append]
      exact List.append_nil _
    · rfl

/-- The count of the received messages is no part of it. -/
theorem Ends.received (h : it.Ends p items) (n : Nat) : { it with received := n }.Ends p items := by
  obtain ⟨processed, hyielded, hending⟩ := h.status
  refine ⟨h.err, h.signal, processed, hyielded, ?_⟩
  cases hending with
  | closed hdone hitems hahead => exact .closed hdone hitems hahead
  | near hdone hfinished f front hahead hitems hfront =>
      exact .near hdone hfinished f front hahead hitems hfront
  | far hdone hbatch f front hyields hitems hfunctions hfront =>
      exact .far hdone hbatch f front hyields hitems hfunctions hfront

/-- What is presented, is an initial part of the items. -/
theorem Ends.yielded_initial (h : it.Ends p items) : it.yielded <+: accepted p items := by
  obtain ⟨processed, hyielded, hending⟩ := h.status
  rw [← hyielded]
  obtain ⟨-, hitems, -⟩ | ⟨-, -, f, front, -, hitems, -⟩ | ⟨-, -, f, front, -, hitems, -, -⟩ :=
    hending
  · rw [hitems, accepted_append]
    exact List.prefix_append ..
  · rw [hitems, accepted_append]
    exact List.prefix_append ..
  · rw [hitems, List.append_assoc, accepted_append]
    exact List.prefix_append ..

/-- Where the generator is finished, it presented all items. -/
theorem Ends.yielded_of_finished (h : it.Ends p items) (hfinished : it.consumer.isFinished = true) :
    it.yielded = accepted p items := by
  obtain ⟨processed, hyielded, hending⟩ := h.status
  obtain ⟨-, hitems, -⟩ | ⟨-, hnot, f, front, -, -, -⟩ | ⟨-, hbatch, f, front, -, -, -, -⟩ :=
    hending
  · cases hc : it.consumer with
    | idle | waiting | presenting v batch | running batch =>
        rw [hc] at hfinished
        cases hfinished
    | finished err =>
        simp only [ahead, hc, List.append_nil] at hitems
        rw [hitems, hyielded]
  · rw [hnot] at hfinished
    cases hfinished
  · cases hc : it.consumer with
    | idle | waiting | finished err =>
        rw [hc] at hbatch
        cases hbatch
    | presenting v batch | running batch =>
        rw [hc] at hfinished
        cases hfinished

/-- A generator that cannot go on is finished. -/
theorem Ends.finished {effect : φ → Effect E} (h : it.Ends p items)
    (hrun : it.consumer.isRunning = false) (hnext : it.next p effect = none) :
    it.consumer.isFinished = true := by
  cases hc : it.consumer with
  | idle | presenting v batch => simp [next, resume, hc] at hnext
  | waiting =>
      have hsignal := h.signal (by rw [hc]; rfl) (by rw [hc]; rfl)
      simp [next, resume, hc, hsignal] at hnext
  | running batch =>
      rw [hc] at hrun
      cases hrun
  | finished err => rfl

end

/-! ## The generator goes on -/

section

variable {p : α → Bool} {effect : φ → Effect E} {it it' : QueuedIterator α φ E}
  {items : List (Item α φ)}

/-- The next batch is taken. -/
theorem Ends.takeBatch (h : it.Ends p items) (hin : it.consumer.inBatch = false)
    (hfinished : it.consumer.isFinished = false) : it.takeBatch.Ends p items := by
  obtain ⟨processed, hyielded, hending⟩ := h.status
  have hahead := (ahead_of_not_inBatch hin hfinished).1
  unfold QueuedIterator.takeBatch
  rw [h.err]
  refine ⟨rfl, nofun, processed, hyielded, ?_⟩
  obtain ⟨hdone, hitems, hfunctions⟩ | ⟨hdone, -, f, front, hmarked, hitems, hfront⟩ |
    ⟨-, hbatch, f, front, -, -, -, -⟩ := hending
  · exact .closed hdone (hahead ▸ hitems) (hahead ▸ hfunctions)
  · exact .near hdone rfl f front (hahead ▸ hmarked) hitems hfront
  · rw [hin] at hbatch
    cases hbatch

theorem Ends.resume (h : it.Ends p items) (hresume : it.resume = some it') : it'.Ends p items := by
  cases hc : it.consumer with
  | idle =>
      simp only [QueuedIterator.resume, hc, Option.some.injEq] at hresume
      rw [← hresume]
      split
      · obtain ⟨processed, hyielded, hending⟩ := h.status
        have hsignal := h.signal (by rw [hc]; rfl) (by rw [hc]; rfl)
        refine ⟨h.err, fun _ _ => hsignal, processed, hyielded, ?_⟩
        have hahead : ahead { it with consumer := .waiting } = it.ahead := by simp only [ahead, hc]
        obtain ⟨hdone, hitems, hfunctions⟩ | ⟨hdone, -, f, front, hmarked, hitems, hfront⟩ |
          ⟨-, hbatch, f, front, -, -, -, -⟩ := hending
        · exact .closed hdone (hahead.symm ▸ hitems) (hahead.symm ▸ hfunctions)
        · exact .near hdone rfl f front (hahead.trans hmarked) hitems hfront
        · rw [hc] at hbatch
          cases hbatch
      · exact h.takeBatch (by rw [hc]; rfl) (by rw [hc]; rfl)
  | waiting =>
      simp only [QueuedIterator.resume, hc, Option.ite_none_right_eq_some,
        Option.some.injEq] at hresume
      rw [← hresume.2]
      exact h.takeBatch (by rw [hc]; rfl) (by rw [hc]; rfl)
  | presenting v batch =>
      simp only [QueuedIterator.resume, hc, Option.some.injEq] at hresume
      rw [← hresume]
      obtain ⟨processed, hyielded, hending⟩ := h.status
      refine ⟨h.err, fun hout => (by cases hout), processed, hyielded, ?_⟩
      have hahead : it.ahead = batch := by simp only [ahead, hc]
      obtain ⟨hdone, hitems, hfunctions⟩ | ⟨hdone, -, f, front, hmarked, hitems, hfront⟩ |
        ⟨hdone, -, f, front, hmarked, hitems, hfunctions, hfront⟩ := hending
      · exact .closed hdone (hahead ▸ hitems) (hahead ▸ hfunctions)
      · exact .near hdone rfl f front (hahead ▸ hmarked) hitems hfront
      · rw [hc] at hitems hfunctions
        exact .far hdone rfl f front hmarked hitems hfunctions hfront
  | running batch | finished err =>
      simp only [QueuedIterator.resume, hc] at hresume
      cases hresume

/-- The end of a batch. -/
theorem Ends.endBatch (h : it.Ends p items) (hc : it.consumer = .running []) :
    (it.tick p effect).Ends p items := by
  obtain ⟨processed, hyielded, hending⟩ := h.status
  have hahead : it.ahead = [] := by simp only [ahead, hc]
  simp only [QueuedIterator.tick, hc]
  obtain ⟨hdone, hitems, hfunctions⟩ | ⟨-, -, f, front, hmarked, -, -⟩ |
    ⟨hdone, -, f, front, hmarked, hitems, -, hfront⟩ := hending
  · rw [if_pos hdone, QueuedIterator.finish, QueuedIterator.stop, if_pos hdone]
    rw [hahead] at hitems
    exact ⟨h.err, fun _ hend => (by cases hend), processed, hyielded, .closed hdone hitems rfl⟩
  · rw [hahead] at hmarked
    exact absurd hmarked.symm (List.append_ne_nil_of_right_ne_nil _ (List.cons_ne_nil _ []))
  · have hne : it.yields ≠ [] :=
      hmarked ▸ List.append_ne_nil_of_right_ne_nil _ (List.cons_ne_nil _ [])
    rw [if_neg (by rw [hdone]; exact Bool.false_ne_true), if_neg hne,
      QueuedIterator.takeBatch, h.err]
    refine ⟨rfl, fun hout => (by cases hout), processed, hyielded,
      .near hdone rfl f front hmarked ?_ hfront⟩
    rw [hitems, hc]
    exact congrArg (· ++ front) (List.append_nil _)

/-- A value is presented or filtered. -/
theorem Ends.value {v : α} {batch : List (Item α φ)} (h : it.Ends p items)
    (hc : it.consumer = .running (.value v :: batch)) : (it.tick p effect).Ends p items := by
  obtain ⟨processed, hyielded, hending⟩ := h.status
  have hahead : it.ahead = .value v :: batch := by simp only [ahead, hc]
  have hsplit : ∀ rest : List (Item α φ), processed ++ (.value v :: rest) =
      processed ++ [.value v] ++ rest :=
    fun rest => (List.append_assoc processed [.value v] rest).symm
  -- the same for a value that is presented and one that is not
  have hending' : ∀ it' : QueuedIterator α φ E, it'.done = it.done → it'.yields = it.yields →
      it'.consumer.inBatch = true → it'.consumer.isFinished = false → it'.consumer.batch = batch →
      Ending items it' (processed ++ [.value v]) := by
    intro it' hdone' hyields' hin' hfinished' hbatch'
    have hahead' : it'.ahead = batch := (ahead_of_inBatch hin').trans hbatch'
    obtain ⟨hdone, hitems, hfunctions⟩ | ⟨hdone, -, f, front, hmarked, hitems, hfront⟩ |
      ⟨hdone, -, f, front, hmarked, hitems, hfunctions, hfront⟩ := hending
    · rw [hahead] at hitems hfunctions
      exact .closed (hdone'.trans hdone) (hahead'.symm ▸ hitems.trans (hsplit batch))
        (hahead'.symm ▸ hfunctions)
    · rw [hahead] at hmarked
      cases front with
      | nil => cases hmarked
      | cons item front =>
          obtain ⟨rfl, hrest⟩ := List.cons.inj hmarked
          exact .near (hdone'.trans hdone) hfinished' f front (hahead'.trans hrest)
            (hitems.trans (hsplit front)) hfront
    · rw [hc] at hitems hfunctions
      refine .far (hdone'.trans hdone) hin' f front (hyields'.trans hmarked) ?_
        (hbatch'.symm ▸ hfunctions) hfront
      rw [hbatch', hitems]
      exact congrArg (· ++ front) (hsplit batch)
  simp only [QueuedIterator.tick, hc]
  split
  · refine ⟨h.err, fun hout => (by cases hout), processed ++ [.value v], ?_, ?_⟩
    · rw [accepted_append, hyielded]
      simp only [accepted, if_pos ‹p v = true›]
    · apply hending' <;> rfl
  · refine ⟨h.err, fun hout => (by cases hout), processed ++ [.value v], ?_, ?_⟩
    · rw [accepted_append, hyielded]
      simp only [accepted, if_neg ‹¬ p v = true›, List.append_nil]
    · apply hending' <;> rfl

/-- The function runs: it is the last of its batch. -/
theorem Ends.fn {f : φ} {batch : List (Item α φ)} (h : it.Ends p items)
    (hc : it.consumer = .running (.fn f :: batch)) (hf : effect f = stopping) :
    (it.tick p effect).Ends p items := by
  obtain ⟨processed, hyielded, hending⟩ := h.status
  have hahead : it.ahead = .fn f :: batch := by simp only [ahead, hc]
  obtain ⟨-, -, hfunctions⟩ | ⟨hdone, -, f', front, hmarked, hitems, hfront⟩ |
    ⟨-, -, -, -, -, -, hfunctions, -⟩ := hending
  · rw [hahead] at hfunctions
    cases hfunctions
  · rw [hahead] at hmarked
    cases front with
    | nil =>
        obtain ⟨-, rfl⟩ := List.cons.inj hmarked
        simp only [QueuedIterator.tick, hc, hf, stopping, QueuedIterator.apply, QueuedIterator.stop,
          hdone, Bool.false_eq_true, if_false]
        exact ⟨rfl, fun hout => (by cases hout), processed, hyielded, .closed rfl hitems rfl⟩
    | cons item front =>
        obtain ⟨rfl, -⟩ := List.cons.inj hmarked
        cases hfront
  · rw [hc] at hfunctions
    cases hfunctions

/-- **The generator keeps to the items.** -/
theorem Ends.next (hf : ∀ f, effect f = stopping) (h : it.Ends p items)
    (hnext : it.next p effect = some it') : it'.Ends p items := by
  refine next_induction (I := fun it => it.Ends p items) (fun _ _ h hresume => h.resume hresume) ?_
    hnext h
  intro it h hrun
  cases hc : it.consumer with
  | idle | waiting | presenting v batch | finished err =>
      rw [hc] at hrun
      cases hrun
  | running batch =>
      cases batch with
      | nil => exact h.endBatch hc
      | cons item batch =>
          cases item with
          | value v => exact h.value hc
          | fn f => exact h.fn hc (hf f)

end

end NatsClient.Iterator.QueuedIterator
