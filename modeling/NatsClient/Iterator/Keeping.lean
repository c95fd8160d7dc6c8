import NatsClient.Iterator.Fifo

/-!
# An iterator that is stopped from outside

An iterator without functions, which is stopped by a call of `stop` at any time. The generator
leaves its loop at the end of the batch at work, and with an error already at the top of it, so what
is in the queue then is lost. `Keeping sent it`: nothing of `sent` is lost. A stop keeps this just
where no accepted value is in the queue, or, without an error, the generator is not in a batch
(`Harmless`).

Where the generator cannot go on, it presented everything (`Keeping.yielded_of_stuck`).
-/

set_option autoImplicit false

namespace NatsClient.Iterator.QueuedIterator

variable {α E : Type}

/-- Everything sent was presented or is still ahead of the generator. -/
structure Keeping (p : α → Bool) (sent : List α) (it : QueuedIterator α Empty E) : Prop where
  sent_eq : sent = it.yielded ++ accepted p it.left
  stopped : it.done = true → it.consumer.inBatch = true ∨ it.err ≠ none → accepted p it.yields = []
  err : it.err ≠ none → it.done = true
  finished : it.consumer.isFinished = true → it.done = true
  awake : it.Awake

/-- A stop loses nothing. -/
def Harmless (p : α → Bool) (err : Option E) (it : QueuedIterator α Empty E) : Prop :=
  it.done = false → it.consumer.inBatch = true ∨ err.isSome = true → accepted p it.yields = []

instance [DecidableEq α] (p : α → Bool) (err : Option E) (it : QueuedIterator α Empty E) :
    Decidable (it.Harmless p err) := inferInstanceAs (Decidable (_ → _ → _))

section

variable {p : α → Bool} {effect : Empty → Effect E} {sent : List α}
    {it it' : QueuedIterator α Empty E}

theorem keeping_new : (new : QueuedIterator α Empty E).Keeping p [] where
  sent_eq := rfl
  stopped := nofun
  err h := absurd rfl h
  finished := nofun
  awake := awake_new

theorem left_push (hdone : it.done = false) (hfinished : it.consumer.isFinished = false) (v : α) :
    (it.push v ⟨true, false⟩).left = it.left ++ [.value v] := by
  rw [QueuedIterator.push, hdone, if_neg Bool.false_ne_true, if_pos rfl]
  simp only [left, hfinished, Bool.false_eq_true, if_false, List.append_assoc]

/-- A value is pushed; one that the protocol filter drops makes no difference. -/
theorem Keeping.push (h : it.Keeping p sent) (v : α) (hopen : p v = true → it.done = false) :
    (it.push v ⟨true, false⟩).Keeping p (sent ++ accepted p [(.value v : Item α Empty)]) := by
  cases hdone : it.done with
  | true =>
      -- only a value that is dropped may come behind the end
      have hv : ¬ p v = true := by
        intro hv
        rw [hopen hv] at hdone
        cases hdone
      rw [QueuedIterator.push, if_pos hdone, accepted, if_neg hv, accepted, List.append_nil]
      exact h
  | false =>
      have hfinished : it.consumer.isFinished = false := by
        cases hc : it.consumer.isFinished with
        | false => rfl
        | true =>
            rw [h.finished hc] at hdone
            cases hdone
      have hleft := left_push hdone hfinished v
      have hawake :=
        @awake_step _ _ _ p (fun f : Empty => f.elim) _ _ (.push v ⟨true, false⟩) h.awake rfl
      refine ⟨?_, ?_, ?_, ?_, hawake⟩
      · have hyielded : (it.push v ⟨true, false⟩).yielded = it.yielded := by
          rw [QueuedIterator.push, hdone, if_neg Bool.false_ne_true, if_pos rfl]
        rw [hleft, hyielded, accepted_append, ← List.append_assoc, ← h.sent_eq]
      all_goals rw [QueuedIterator.push, hdone, if_neg Bool.false_ne_true, if_pos rfl]
      · intro h; cases h
      · exact fun herr => hdone ▸ h.err herr
      · exact fun hc => hdone ▸ h.finished hc

/-- **A stop** that is harmless. -/
theorem Keeping.stop (h : it.Keeping p sent) {err : Option E} (hok : it.Harmless p err) :
    (it.stop err).Keeping p sent := by
  have hawake := h.awake.stop err
  cases hdone : it.done with
  | true =>
      rw [QueuedIterator.stop, if_pos hdone]
      exact h
  | false =>
      rw [QueuedIterator.stop, hdone, if_neg Bool.false_ne_true] at hawake ⊢
      refine ⟨h.sent_eq, fun _ hor => hok hdone ?_, fun _ => rfl, fun _ => rfl, hawake⟩
      exact hor.imp_right Option.isSome_iff_ne_none.2

/-- The count of the received messages is no part of it. -/
theorem Keeping.received (h : it.Keeping p sent) (n : Nat) :
    { it with received := n }.Keeping p sent :=
  ⟨h.sent_eq, h.stopped, h.err, h.finished, h.awake⟩

/-- The generator leaves its loop; nothing is ahead of it. -/
theorem Keeping.finish (h : it.Keeping p sent) (hleft : accepted p it.left = [])
    (hdone : it.done = true) (err : Option E) : (it.finish err).Keeping p sent := by
  have hawake := h.awake.finish err
  rw [QueuedIterator.finish, QueuedIterator.stop, if_pos hdone] at hawake ⊢
  refine ⟨?_, ?_, h.err, fun _ => hdone, hawake⟩
  · have hsent := h.sent_eq
    rw [hleft] at hsent
    exact hsent
  · intro _ hor
    exact h.stopped hdone (hor.imp_left nofun)

theorem Keeping.takeBatch (h : it.Keeping p sent) (hfinished : it.consumer.isFinished = false)
    (hbatch : it.consumer.batch = []) : it.takeBatch.Keeping p sent := by
  have hleft : it.left = it.yields := by
    simp only [left, hfinished, hbatch, Bool.false_eq_true, if_false, List.nil_append]
  have hawake := h.awake.takeBatch
  cases herr : it.err with
  | some e =>
      have hne : it.err ≠ none := by
        rw [herr]
        intro h
        cases h
      have hdone := h.err hne
      have hfinish := h.finish (hleft ▸ h.stopped hdone (Or.inr hne)) hdone (some e)
      rw [QueuedIterator.takeBatch, herr]
      exact hfinish
  | none =>
      unfold QueuedIterator.takeBatch at hawake ⊢
      rw [herr] at hawake ⊢
      refine ⟨?_, fun _ _ => rfl, fun hne => absurd rfl hne, fun hend => (by cases hend), hawake⟩
      have hsent := h.sent_eq
      rw [hleft] at hsent
      rw [hsent]
      simp only [left, Consumer.isFinished, Consumer.batch, Bool.false_eq_true, if_false,
        List.append_nil]

theorem Keeping.resume (h : it.Keeping p sent) (hresume : it.resume = some it') :
    it'.Keeping p sent := by
  have hawake := awake_resume h.awake hresume
  cases hc : it.consumer with
  | idle =>
      simp only [QueuedIterator.resume, hc, Option.some.injEq] at hresume
      rw [← hresume] at hawake ⊢
      split at hawake
      · rename_i hyields
        rw [if_pos hyields]
        refine ⟨?_, fun _ _ => ?_, h.err, fun hend => (by cases hend), hawake⟩
        · have hsent := h.sent_eq
          simp only [left, hc, Consumer.isFinished, Consumer.batch, Bool.false_eq_true,
            if_false] at hsent
          exact hsent
        · show accepted p it.yields = []
          rw [hyields]
          rfl
      · rw [if_neg ‹_›]
        exact h.takeBatch (by rw [hc]; rfl) (by rw [hc]; rfl)
  | waiting =>
      simp only [QueuedIterator.resume, hc, Option.ite_none_right_eq_some,
        Option.some.injEq] at hresume
      rw [← hresume.2]
      exact h.takeBatch (by rw [hc]; rfl) (by rw [hc]; rfl)
  | presenting v batch =>
      simp only [QueuedIterator.resume, hc, Option.some.injEq] at hresume
      rw [← hresume] at hawake ⊢
      refine ⟨?_, fun hdone _ => h.stopped hdone (Or.inl (by rw [hc]; rfl)), h.err,
        fun hend => (by cases hend), hawake⟩
      have hsent := h.sent_eq
      simp only [left, hc, Consumer.isFinished, Consumer.batch, Bool.false_eq_true,
        if_false] at hsent
      exact hsent
  | running batch | finished err =>
      simp only [QueuedIterator.resume, hc] at hresume
      cases hresume

theorem Keeping.tick (h : it.Keeping p sent) (hrun : it.consumer.isRunning = true) :
    (it.tick p effect).Keeping p sent := by
  have hawake : (it.tick p effect).Awake := awake_tick h.awake
  cases hc : it.consumer with
  | idle | waiting | presenting v batch | finished err =>
      rw [hc] at hrun
      cases hrun
  | running batch =>
      have hin : it.consumer.inBatch = true := by
        rw [hc]
        rfl
      have hsent := h.sent_eq
      simp only [left, hc, Consumer.isFinished, Consumer.batch, Bool.false_eq_true,
        if_false] at hsent
      rcases batch with - | ⟨v | f, batch⟩
      · simp only [QueuedIterator.tick, hc] at hawake ⊢
        split at hawake
        · rename_i hdone
          rw [if_pos hdone]
          refine h.finish ?_ hdone none
          -- the queue is lost, but nothing accepted is in it
          simp only [left, hc, Consumer.isFinished, Consumer.batch, Bool.false_eq_true, if_false]
          exact h.stopped hdone (Or.inl hin)
        · rename_i hdone
          rw [if_neg hdone]
          split at hawake
          · rename_i hyields
            rw [if_pos hyields]
            exact ⟨hsent, fun hd => absurd hd hdone, h.err, fun hend => (by cases hend), hawake⟩
          · rw [if_neg ‹_›]
            exact h.takeBatch (by rw [hc]; rfl) (by rw [hc]; rfl)
      · simp only [QueuedIterator.tick, hc] at hawake ⊢
        split at hawake
        · rename_i hv
          rw [if_pos hv]
          refine ⟨?_, fun hdone _ => h.stopped hdone (Or.inl hin), h.err,
            fun hend => (by cases hend), hawake⟩
          rw [hsent]
          simp only [left, Consumer.isFinished, Consumer.batch, Bool.false_eq_true, if_false,
            List.cons_append, accepted, if_pos hv, List.append_assoc, List.nil_append]
        · rename_i hv
          rw [if_neg hv]
          refine ⟨?_, fun hdone _ => h.stopped hdone (Or.inl hin), h.err,
            fun hend => (by cases hend), hawake⟩
          rw [hsent]
          simp only [left, Consumer.isFinished, Consumer.batch, Bool.false_eq_true, if_false,
            List.cons_append, accepted, if_neg hv]
      · exact f.elim

/-- **The generator goes on** and loses nothing. -/
theorem Keeping.next (h : it.Keeping p sent) (hnext : it.next p effect = some it') :
    it'.Keeping p sent :=
  next_induction (I := fun it => it.Keeping p sent) (fun _ _ h hresume => h.resume hresume)
    (fun _ h hrun => h.tick hrun) hnext h

theorem Keeping.yielded_initial (h : it.Keeping p sent) : it.yielded <+: sent := by
  rw [h.sent_eq]
  exact List.prefix_append _ _

/-- **Where the generator cannot go on**, everything was presented. -/
theorem Keeping.yielded_of_stuck (h : it.Keeping p sent) (hrun : it.consumer.isRunning = false)
    (hnext : it.next p effect = none) : it.yielded = sent := by
  have hleft : it.left = [] := by
    cases hc : it.consumer with
    | idle | presenting v batch => simp [QueuedIterator.next, QueuedIterator.resume, hc] at hnext
    | running batch =>
        rw [hc] at hrun
        cases hrun
    | waiting =>
        have hyields : it.yields = [] := by
          by_contra hne
          have hsignal := h.awake (Or.inl hne)
          simp [QueuedIterator.next, QueuedIterator.resume, hc, hsignal] at hnext
        simp only [left, hc, hyields, Consumer.isFinished, Consumer.batch,
          Bool.false_eq_true, if_false, List.append_nil]
    | finished err => simp only [left, hc, Consumer.isFinished, if_true]
  rw [h.sent_eq, hleft]
  exact (List.append_nil _).symm

end

end NatsClient.Iterator.QueuedIterator
