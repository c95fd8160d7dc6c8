import NatsClient.Iterator.Keeping

/-!
# An iterator that is stopped too early

What a call of `next` presents (`presented_next`), that it stops nothing by itself (`Calm.next`),
and what a stop does that finds values behind the batch at work: the generator leaves its loop at
the end of this batch, and they are lost for good (`Losing`, `Losing.ne`).
-/

set_option autoImplicit false

namespace NatsClient.Iterator.QueuedIterator

/-! ## What a call presents -/

section

variable {α φ E : Type} {p : α → Bool} {effect : φ → Effect E} {it it' : QueuedIterator α φ E}

/-- Since `values` were presented, the generator presented the value it stands at, or none. -/
def Presented (values : List α) (it : QueuedIterator α φ E) : Prop :=
  match it.consumer with
  | .presenting v _ => it.yielded = values ++ [v]
  | _ => it.yielded = values

theorem done_next (h : it.done = true) (hnext : it.next p effect = some it') : it'.done = true :=
  next_induction (I := fun it => it.done = true) (fun _ _ h hresume => done_resume h hresume)
    (fun _ h _ => done_tick h) hnext h

theorem yielded_stop (it : QueuedIterator α φ E) (err : Option E) :
    (it.stop err).yielded = it.yielded := by
  unfold stop
  split <;> rfl

theorem presented_finish {values : List α} (h : it.yielded = values) (err : Option E) :
    (it.finish err).Presented values :=
  (yielded_stop it none).trans h

theorem presented_takeBatch {values : List α} (h : it.yielded = values) :
    it.takeBatch.Presented values := by
  unfold takeBatch
  split
  · exact presented_finish h _
  · exact h

theorem presented_tick {values : List α} (h : it.yielded = values)
    (hrun : it.consumer.isRunning = true) : (it.tick p effect).Presented values := by
  cases hc : it.consumer with
  | idle | waiting | presenting v batch | finished err =>
      rw [hc] at hrun
      cases hrun
  | running batch =>
      rcases batch with - | ⟨v | f, batch⟩
      · simp only [tick, hc]
        split
        · exact presented_finish h none
        · split
          · exact h
          · exact presented_takeBatch h
      · simp only [tick, hc]
        split
        · exact congrArg (· ++ [v]) h
        · exact h
      · have happlied : (it.apply (effect f)).yielded = values :=
          (yielded_apply it (effect f)).trans h
        simp only [tick, hc]
        split
        · exact @presented_finish _ _ _ { it.apply (effect f) with called := it.called ++ [f] }
            _ happlied _
        · split
          · exact @presented_finish _ _ _ { it.apply (effect f) with called := it.called ++ [f] }
              _ happlied _
          · exact happlied

theorem presented_settle {values : List α} (n : Nat) (h : it.Presented values) :
    (settle p effect n it).Presented values := by
  induction n generalizing it with
  | zero => exact h
  | succ n ih =>
      cases hc : it.consumer with
      | running batch =>
          simp only [settle, hc]
          refine ih (presented_tick ?_ (by rw [hc]; rfl))
          simpa only [Presented, hc] using h
      | idle | waiting | presenting v batch | finished err =>
          simp only [settle, hc]
          exact h

/-- **A call of `next`** presents one value, or none. -/
theorem presented_next (h : it.next p effect = some it') : it'.Presented it.yielded := by
  obtain ⟨it₁, hresume, rfl⟩ := Option.map_eq_some_iff.1 h
  refine presented_settle _ ?_
  cases hc : it.consumer with
  | idle =>
      simp only [resume, hc, Option.some.injEq] at hresume
      rw [← hresume]
      split
      · rfl
      · exact presented_takeBatch rfl
  | waiting =>
      simp only [resume, hc, Option.ite_none_right_eq_some, Option.some.injEq] at hresume
      rw [← hresume.2]
      exact presented_takeBatch rfl
  | presenting v batch =>
      simp only [resume, hc, Option.some.injEq] at hresume
      rw [← hresume]
      rfl
  | running batch | finished err =>
      simp only [resume, hc] at hresume
      cases hresume

end

/-! ## Without errors and functions -/

section

variable {α E : Type} {p : α → Bool} {effect : Empty → Effect E} {it it' : QueuedIterator α Empty E}

/-- Nothing has failed, and the iterator is stopped or not. -/
structure Calm (done : Bool) (it : QueuedIterator α Empty E) : Prop where
  err : it.err = none
  done_eq : it.done = done
  finished : ∀ e, it.consumer = .finished e → e = none
  awake : it.Awake

theorem Calm.self {done : Bool} (h : it.Calm done) : it.Calm it.done := by
  rw [h.done_eq]
  exact h

theorem calm_new : (new : QueuedIterator α Empty E).Calm false :=
  ⟨rfl, rfl, fun e he => (by cases he), awake_new⟩

theorem Calm.push {done : Bool} (h : it.Calm done) (v : α) :
    (it.push v ⟨true, false⟩).Calm done := by
  have hawake := @awake_step _ _ _ (fun _ => true) (fun f : Empty => f.elim) _ _
    (.push v ⟨true, false⟩) h.awake rfl
  unfold QueuedIterator.push at hawake ⊢
  split
  · exact h
  · rename_i hopen
    rw [if_neg hopen] at hawake
    exact ⟨h.err, h.done_eq, h.finished, hawake⟩

theorem Calm.stop {done : Bool} (h : it.Calm done) : (it.stop none).Calm true := by
  have hawake := h.awake.stop none
  unfold QueuedIterator.stop at hawake ⊢
  split
  · rename_i hdone
    exact ⟨h.err, hdone, h.finished, h.awake⟩
  · rename_i hopen
    rw [if_neg hopen] at hawake
    exact ⟨rfl, rfl, h.finished, hawake⟩

theorem Calm.finish {done : Bool} (h : it.Calm done) : (it.finish none).Calm true :=
  ⟨h.stop.err, h.stop.done_eq, fun e he => (by cases he; rfl), h.stop.awake⟩

theorem Calm.takeBatch {done : Bool} (h : it.Calm done) : it.takeBatch.Calm done := by
  have hawake := h.awake.takeBatch
  unfold QueuedIterator.takeBatch at hawake ⊢
  rw [h.err] at hawake ⊢
  exact ⟨rfl, h.done_eq, fun e he => (by cases he), hawake⟩

theorem Calm.resume {done : Bool} (h : it.Calm done) (hresume : it.resume = some it') :
    it'.Calm done := by
  have hawake := awake_resume h.awake hresume
  cases hc : it.consumer with
  | idle =>
      simp only [QueuedIterator.resume, hc, Option.some.injEq] at hresume
      rw [← hresume] at hawake ⊢
      split at hawake
      · rename_i hyields
        rw [if_pos hyields]
        exact ⟨h.err, h.done_eq, fun e he => (by cases he), hawake⟩
      · rename_i hyields
        rw [if_neg hyields]
        exact h.takeBatch
  | waiting =>
      simp only [QueuedIterator.resume, hc, Option.ite_none_right_eq_some,
        Option.some.injEq] at hresume
      rw [← hresume.2]
      exact h.takeBatch
  | presenting v batch =>
      simp only [QueuedIterator.resume, hc, Option.some.injEq] at hresume
      rw [← hresume] at hawake ⊢
      exact ⟨h.err, h.done_eq, fun e he => (by cases he), hawake⟩
  | running batch | finished err =>
      simp only [QueuedIterator.resume, hc] at hresume
      cases hresume

theorem Calm.tick {done : Bool} (h : it.Calm done) : (it.tick p effect).Calm done := by
  have hawake := @awake_tick _ _ _ p effect _ h.awake
  cases hc : it.consumer with
  | idle | waiting | presenting v batch | finished err =>
      simp only [QueuedIterator.tick, hc]
      exact h
  | running batch =>
      rcases batch with - | ⟨v | f, batch⟩
      · simp only [QueuedIterator.tick, hc] at hawake ⊢
        split
        · rename_i hdone
          rw [if_pos hdone, QueuedIterator.finish, QueuedIterator.stop, if_pos hdone] at hawake
          rw [QueuedIterator.finish, QueuedIterator.stop, if_pos hdone]
          exact ⟨h.err, h.done_eq, fun e he => (by cases he; rfl), hawake⟩
        · rename_i hdone
          rw [if_neg hdone] at hawake
          split
          · rename_i hyields
            rw [if_pos hyields] at hawake
            exact ⟨h.err, h.done_eq, fun e he => (by cases he), hawake⟩
          · exact h.takeBatch
      · simp only [QueuedIterator.tick, hc] at hawake ⊢
        split
        · rename_i hv
          rw [if_pos hv] at hawake
          exact ⟨h.err, h.done_eq, fun e he => (by cases he), hawake⟩
        · rename_i hv
          rw [if_neg hv] at hawake
          exact ⟨h.err, h.done_eq, fun e he => (by cases he), hawake⟩
      · exact f.elim

/-- **Going on stops nothing.** -/
theorem Calm.next {done : Bool} (h : it.Calm done) (hnext : it.next p effect = some it') :
    it'.Calm done :=
  next_induction (I := fun it => it.Calm done) (fun _ _ h hresume => h.resume hresume)
    (fun _ h _ => h.tick) hnext h

/-- Where a calm generator cannot go on, it is finished, or nothing stopped it and nothing is
queued. -/
theorem Calm.stuck {done : Bool} (h : it.Calm done) (hrun : it.consumer.isRunning = false)
    (hnext : it.next p effect = none) :
    it.consumer = .finished none ∨ done = false ∧ it.consumer = .waiting ∧ it.yields = [] := by
  cases hc : it.consumer with
  | idle | presenting v batch => simp [QueuedIterator.next, QueuedIterator.resume, hc] at hnext
  | running batch =>
      rw [hc] at hrun
      cases hrun
  | waiting =>
      right
      have hsignal : ¬ it.signal = true := by
        intro hsignal
        simp [QueuedIterator.next, QueuedIterator.resume, hc, hsignal] at hnext
      have hboth := not_or.1 (fun hor => hsignal (h.awake hor))
      exact ⟨h.done_eq ▸ Bool.eq_false_iff.2 hboth.2, rfl, not_not.1 hboth.1⟩
  | finished err => exact .inl (congrArg _ (h.finished err hc))

end

/-! ## What a stop loses -/

section

variable {α E : Type} {p : α → Bool} {effect : Empty → Effect E} {sent : List α}
  {it it' : QueuedIterator α Empty E}

/-- The iterator was stopped in a batch with accepted values behind it. -/
structure Losing (p : α → Bool) (sent : List α) (it : QueuedIterator α Empty E) : Prop where
  done : it.done = true
  consumer : it.consumer.inBatch = true ∨ it.consumer.isFinished = true
  lost : ∃ lost, lost ≠ [] ∧ sent = it.yielded ++ accepted p it.consumer.batch ++ lost

/-- **A stop that is not harmless** loses something. -/
theorem Keeping.losing (h : it.Keeping p sent) (hharm : ¬ it.Harmless p none) :
    (it.stop none).Losing p sent := by
  unfold Harmless at hharm
  push Not at hharm
  obtain ⟨hopen, hbatch, hyields⟩ := hharm
  have hin : it.consumer.inBatch = true := hbatch.resolve_right (by simp)
  have hfinished : it.consumer.isFinished = false := by
    cases hc : it.consumer <;> first | rfl | (rw [hc] at hin; cases hin)
  rw [QueuedIterator.stop, hopen, if_neg Bool.false_ne_true]
  refine ⟨rfl, .inl hin, accepted p it.yields, hyields, ?_⟩
  have hsent := h.sent_eq
  rw [left, hfinished, if_neg Bool.false_ne_true, accepted_append, ← List.append_assoc] at hsent
  exact hsent

theorem Losing.resume (h : it.Losing p sent) (hresume : it.resume = some it') :
    it'.Losing p sent := by
  cases hc : it.consumer with
  | idle | waiting =>
      have hconsumer := h.consumer
      rw [hc] at hconsumer
      rcases hconsumer with hin | hfinished
      · cases hin
      · cases hfinished
  | presenting v batch =>
      simp only [QueuedIterator.resume, hc, Option.some.injEq] at hresume
      rw [← hresume]
      obtain ⟨lost, hne, hsent⟩ := h.lost
      rw [hc] at hsent
      exact ⟨h.done, .inl rfl, lost, hne, hsent⟩
  | running batch | finished err =>
      simp only [QueuedIterator.resume, hc] at hresume
      cases hresume

theorem Losing.tick (h : it.Losing p sent) (hrun : it.consumer.isRunning = true) :
    (it.tick p effect).Losing p sent := by
  cases hc : it.consumer with
  | idle | waiting | presenting v batch | finished err =>
      rw [hc] at hrun
      cases hrun
  | running batch =>
      obtain ⟨lost, hne, hsent⟩ := h.lost
      rw [hc] at hsent
      rcases batch with - | ⟨v | f, batch⟩
      · simp only [QueuedIterator.tick, hc, if_pos h.done]
        rw [finish, QueuedIterator.stop, if_pos h.done]
        exact ⟨h.done, .inr rfl, lost, hne, hsent⟩
      · simp only [QueuedIterator.tick, hc]
        simp only [Consumer.batch, accepted] at hsent
        split
        · rename_i hv
          rw [if_pos hv] at hsent
          exact ⟨h.done, .inl rfl, lost, hne, by simpa [Consumer.batch] using hsent⟩
        · rename_i hv
          rw [if_neg hv] at hsent
          exact ⟨h.done, .inl rfl, lost, hne, hsent⟩
      · exact f.elim

/-- **The generator goes on**, and does not come back to what is lost. -/
theorem Losing.next (h : it.Losing p sent) (hnext : it.next p effect = some it') :
    it'.Losing p sent :=
  next_induction (I := fun it => it.Losing p sent) (fun _ _ h hresume => h.resume hresume)
    (fun _ h hrun => h.tick hrun) hnext h

/-- Where something is lost, not everything is kept. -/
theorem Losing.not_keeping (h : it.Losing p sent) : ¬ it.Keeping p sent := by
  intro hkeep
  obtain ⟨lost, hne, hsent⟩ := h.lost
  have hkept := hkeep.sent_eq
  apply hne
  rcases h.consumer with hin | hfinished
  · have hyields := hkeep.stopped h.done (.inl hin)
    have hopen : it.consumer.isFinished = false := by
      cases hc : it.consumer <;> first | rfl | (rw [hc] at hin; cases hin)
    rw [left, hopen, if_neg Bool.false_ne_true, accepted_append, hyields, List.append_nil] at hkept
    exact List.append_right_eq_self.1 (hsent.symm.trans hkept)
  · rw [left, hfinished, if_pos rfl] at hkept
    rw [List.append_assoc] at hsent
    exact (List.append_eq_nil_iff.1 (List.append_right_eq_self.1
      (hsent.symm.trans (hkept.trans (List.append_nil _))))).2

/-- **Not everything is presented.** -/
theorem Losing.ne (h : it.Losing p sent) : it.yielded ≠ sent := by
  obtain ⟨lost, hne, hsent⟩ := h.lost
  intro heq
  rw [heq, List.append_assoc] at hsent
  exact hne (List.append_eq_nil_iff.1 (List.append_right_eq_self.1 hsent.symm)).2

end

end NatsClient.Iterator.QueuedIterator
