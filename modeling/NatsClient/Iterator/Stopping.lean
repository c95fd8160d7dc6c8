import NatsClient.Iterator.Ending
import NatsClient.Iterator.Fifo

/-!
# An iterator that is stopped by functions

An iterator is given values, and then functions each of which stops it (`Fed`). There may be several
of them: who closes an iterator often does not know who else does. The generator presents all the
values, ends at the first function without an error, and does not come to the others
(`Fed.finished_of_stuck`, `Fed.yielded_of_finished`).

Values that come first are presented whatever is pushed behind them (`Headed`).

`rank` counts what the generator still does by itself; each time it goes on, it gets smaller
(`rank_next`).
-/

set_option autoImplicit false

namespace NatsClient.Iterator

variable {α φ E : Type}

/-- Values, and functions behind them. -/
def fed (vs : List α) (fs : List φ) : List (Item α φ) := vs.map .value ++ fs.map .fn

theorem accepted_values (vs : List α) :
    accepted (fun _ => true) (vs.map Item.value : List (Item α φ)) = vs := by
  induction vs with
  | nil => rfl
  | cons v vs ih => exact congrArg (v :: ·) ih

theorem accepted_fns (p : α → Bool) (fs : List φ) :
    accepted p (fs.map Item.fn : List (Item α φ)) = [] := by
  induction fs with
  | nil => rfl
  | cons f fs ih => exact ih

theorem functions_values (vs : List α) : functions (vs.map Item.value : List (Item α φ)) = [] := by
  induction vs with
  | nil => rfl
  | cons v vs ih => exact ih

theorem functions_fns (fs : List φ) : functions (fs.map Item.fn : List (Item α φ)) = fs := by
  induction fs with
  | nil => rfl
  | cons f fs ih => exact congrArg (f :: ·) ih

theorem mem_functions {f : φ} {items : List (Item α φ)} : f ∈ functions items ↔ .fn f ∈ items := by
  induction items with
  | nil => simp [functions]
  | cons x items ih => cases x <;> simp [functions, ih]

@[simp] theorem accepted_fed (vs : List α) (fs : List φ) :
    accepted (fun _ => true) (fed vs fs) = vs := by
  rw [fed, accepted_append, accepted_values, accepted_fns, List.append_nil]

@[simp] theorem functions_fed (vs : List α) (fs : List φ) : functions (fed vs fs) = fs := by
  rw [fed, functions_append, functions_values, functions_fns, List.nil_append]

theorem fed_concat_value (vs : List α) (v : α) :
    fed vs ([] : List φ) ++ [.value v] = fed (vs ++ [v]) [] := by
  simp [fed]

theorem fed_concat_fn (vs : List α) (fs : List φ) (f : φ) :
    fed vs fs ++ [.fn f] = fed vs (fs ++ [f]) := by
  simp [fed]

namespace QueuedIterator

/-- The iterator was given these values, and then these functions, which stop it; nothing else
does. -/
structure Fed (effect : φ → Effect E) (vs : List α) (fs : List φ) (it : QueuedIterator α φ E) :
    Prop where
  traced : it.Traced (fun _ => true) (fed vs fs)
  stops : ∀ f ∈ fs, effect f = stopping
  err : it.err = none
  running : it.called = [] → it.Running
  stopped : it.called ≠ [] → it.done = true
  finished : ∀ e, it.consumer = .finished e → e = none
  awake : it.Awake

section

variable {effect : φ → Effect E} {it it' : QueuedIterator α φ E} {vs : List α} {fs : List φ}

theorem fed_new : (new : QueuedIterator α φ E).Fed effect [] [] where
  traced := traced_new
  stops := nofun
  err := rfl
  running _ := running_new
  stopped h := absurd rfl h
  finished := nofun
  awake := awake_new

/-- The iterator is stopped once it ran a function. -/
theorem Fed.done_iff (h : it.Fed effect vs fs) : it.done = true ↔ it.called ≠ [] := by
  refine ⟨fun hdone hcalled => ?_, h.stopped⟩
  rw [(h.running hcalled).done] at hdone
  cases hdone

/-- Without functions nothing stops it. -/
theorem Fed.ne_nil_of_done (h : it.Fed effect vs fs) (hdone : it.done = true) : fs ≠ [] := by
  rintro rfl
  have hcalled := h.traced.called_le
  rw [functions_fed] at hcalled
  exact h.done_iff.1 hdone (List.prefix_nil.1 hcalled)

theorem Fed.done_eq_false (h : it.Fed effect vs []) : it.done = false :=
  Bool.eq_false_iff.2 fun hdone => h.ne_nil_of_done hdone rfl

theorem kept_push (it : QueuedIterator α φ E) (v : α) (r : IngestionFilterFnResult) :
    (it.push v r).called = it.called ∧ (it.push v r).done = it.done ∧
      (it.push v r).err = it.err := by
  unfold QueuedIterator.push
  split
  · exact ⟨rfl, rfl, rfl⟩
  · split <;> exact ⟨rfl, rfl, rfl⟩

theorem kept_pushFn (it : QueuedIterator α φ E) (f : φ) :
    (it.pushFn f).called = it.called ∧ (it.pushFn f).done = it.done ∧
      (it.pushFn f).err = it.err := by
  unfold QueuedIterator.pushFn
  split <;> exact ⟨rfl, rfl, rfl⟩

/-- Messages are counted elsewhere. -/
theorem Traced.received {p : α → Bool} {items : List (Item α φ)} (h : it.Traced p items) (n : Nat) :
    { it with received := n }.Traced p items := by
  obtain ⟨processed, hthrough⟩ := h
  exact ⟨processed, hthrough.yielded, hthrough.called, hthrough.initial, hthrough.rest,
    hthrough.closed⟩

theorem Running.received (h : it.Running) (n : Nat) : { it with received := n }.Running :=
  ⟨h.done, h.err, h.consumer⟩

theorem Fed.received (h : it.Fed effect vs fs) (n : Nat) :
    { it with received := n }.Fed effect vs fs :=
  ⟨h.traced.received n, h.stops, h.err, fun hcalled => (h.running hcalled).received n,
    h.stopped, h.finished, h.awake⟩

/-- A value is pushed in front of the functions. -/
theorem Fed.push (h : it.Fed effect vs []) (v : α) :
    (it.push v ⟨true, false⟩).Fed effect (vs ++ [v]) [] := by
  obtain ⟨hcalled, hdone, herr⟩ := kept_push it v ⟨true, false⟩
  have htraced := h.traced.push v (r := ⟨true, false⟩) rfl
  rw [h.done_eq_false, if_neg Bool.false_ne_true, fed_concat_value] at htraced
  refine ⟨htraced, nofun, herr.trans h.err, ?_, ?_, ?_, ?_⟩
  · rw [hcalled]
    exact fun hnone => (h.running hnone).push v _
  · rw [hcalled, hdone]
    exact h.stopped
  · rw [consumer_push]
    exact h.finished
  · exact @awake_step _ _ _ (fun _ => true) effect _ _ (.push v ⟨true, false⟩) h.awake rfl

/-- A function is pushed. -/
theorem Fed.pushFn (h : it.Fed effect vs fs) {f : φ} (hf : effect f = stopping) :
    ∃ fs', fs' ≠ [] ∧ (it.pushFn f).Fed effect vs fs' := by
  cases hopen : it.done with
  | true =>
      -- the iterator was stopped by one of them
      refine ⟨fs, h.ne_nil_of_done hopen, ?_⟩
      rw [QueuedIterator.pushFn, if_pos hopen]
      exact h
  | false =>
      obtain ⟨hcalled, hdone, herr⟩ := kept_pushFn it f
      have htraced := h.traced.pushFn f
      rw [hopen, if_neg Bool.false_ne_true, fed_concat_fn] at htraced
      refine ⟨fs ++ [f], List.append_ne_nil_of_right_ne_nil _ (List.cons_ne_nil f []), htraced, ?_,
        herr.trans h.err, ?_, ?_, ?_, ?_⟩
      · intro g hg
        rcases List.mem_append.1 hg with hg | hg
        · exact h.stops g hg
        · rw [List.mem_singleton.1 hg]
          exact hf
      · rw [hcalled]
        exact fun hnone => (h.running hnone).pushFn f
      · rw [hcalled, hdone]
        exact h.stopped
      · rw [consumer_pushFn]
        exact h.finished
      · exact @awake_step _ _ _ (fun _ => true) effect _ _ (.pushFn f) h.awake rfl

/-! ## The generator goes on -/

theorem Fed.takeBatch (h : it.Fed effect vs fs)
    (htraced : it.takeBatch.Traced (fun _ => true) (fed vs fs)) :
    it.takeBatch.Fed effect vs fs := by
  refine ⟨htraced, h.stops, ?_, ?_, ?_, ?_, h.awake.takeBatch⟩
  · unfold QueuedIterator.takeBatch
    rw [h.err]
  · rw [called_takeBatch]
    exact fun hcalled => (h.running hcalled).takeBatch
  · rw [called_takeBatch]
    exact fun hcalled => done_takeBatch (h.stopped hcalled)
  · unfold QueuedIterator.takeBatch
    rw [h.err]
    nofun

theorem Fed.resume (h : it.Fed effect vs fs) (hresume : it.resume = some it') :
    it'.Fed effect vs fs := by
  have htraced := h.traced.resume hresume
  have hawake := awake_resume h.awake hresume
  cases hc : it.consumer with
  | idle =>
      simp only [QueuedIterator.resume, hc, Option.some.injEq] at hresume
      rw [← hresume] at htraced hawake ⊢
      split at htraced
      · rw [if_pos ‹_›] at hawake ⊢
        refine ⟨htraced, h.stops, h.err, fun hcalled => ?_, h.stopped, by simp, hawake⟩
        exact ⟨(h.running hcalled).done, h.err, rfl⟩
      · rw [if_neg ‹_›]
        exact h.takeBatch htraced
  | waiting =>
      simp only [QueuedIterator.resume, hc, Option.ite_none_right_eq_some,
        Option.some.injEq] at hresume
      rw [← hresume.2] at htraced ⊢
      exact h.takeBatch htraced
  | presenting v batch =>
      simp only [QueuedIterator.resume, hc, Option.some.injEq] at hresume
      rw [← hresume] at htraced hawake ⊢
      refine ⟨htraced, h.stops, h.err, fun hcalled => ?_, h.stopped, by simp, hawake⟩
      exact ⟨(h.running hcalled).done, h.err, rfl⟩
  | running batch | finished err =>
      simp only [QueuedIterator.resume, hc] at hresume
      cases hresume

/-- The functions that are left are among those that were pushed. -/
theorem Fed.mem_of_left (h : it.Fed effect vs fs) {f : φ} (hopen : it.consumer.isFinished = false)
    (hf : .fn f ∈ it.consumer.batch ++ it.yields) : f ∈ fs := by
  obtain ⟨processed, hthrough⟩ := h.traced
  have hfunctions := congrArg functions (hthrough.rest hopen)
  rw [functions_fed, List.append_assoc, functions_append] at hfunctions
  rw [hfunctions]
  exact List.mem_append_right _ (mem_functions.2 hf)

/-- Without functions none is left. -/
theorem Fed.not_mem_left (h : it.Fed effect vs []) (f : φ) :
    .fn f ∉ it.consumer.batch ++ it.yields := by
  intro hf
  obtain ⟨processed, hthrough⟩ := h.traced
  have hopen : it.consumer.isFinished = false := by
    rw [← Bool.not_eq_true]
    intro hfinished
    have hdone := hthrough.closed hfinished
    rw [h.done_eq_false] at hdone
    cases hdone
  cases h.mem_of_left hopen hf

theorem Fed.tick (h : it.Fed effect vs fs) (hrun : it.consumer.isRunning = true) :
    (it.tick (fun _ => true) effect).Fed effect vs fs := by
  have htraced : (it.tick (fun _ => true) effect).Traced (fun _ => true) (fed vs fs) :=
    h.traced.tick hrun
  have hawake : (it.tick (fun _ => true) effect).Awake := awake_tick h.awake
  cases hc : it.consumer with
  | idle | waiting | presenting v batch | finished err =>
      rw [hc] at hrun
      cases hrun
  | running batch =>
      rcases batch with - | ⟨v | f, batch⟩
      · simp only [QueuedIterator.tick, hc] at htraced hawake ⊢
        split at htraced
        · rename_i hdone
          rw [if_pos hdone] at hawake ⊢
          rw [QueuedIterator.finish, QueuedIterator.stop, if_pos hdone] at htraced hawake ⊢
          refine ⟨htraced, h.stops, h.err, fun hcalled => ?_, h.stopped, ?_, hawake⟩
          · exact absurd hcalled (h.done_iff.1 hdone)
          · rintro e ⟨⟩
            rfl
        · rw [if_neg ‹_›] at hawake ⊢
          split at htraced
          · rw [if_pos ‹_›] at hawake ⊢
            refine ⟨htraced, h.stops, h.err, fun hcalled => ?_, h.stopped, by simp, hawake⟩
            exact ⟨(h.running hcalled).done, h.err, rfl⟩
          · rw [if_neg ‹_›]
            exact h.takeBatch htraced
      · simp only [QueuedIterator.tick, hc, if_true] at htraced hawake ⊢
        refine ⟨htraced, h.stops, h.err, fun hcalled => ?_, h.stopped, by simp, hawake⟩
        exact ⟨(h.running hcalled).done, h.err, rfl⟩
      · -- a function: it stops the iterator, and the batch goes on
        have hleft : .fn f ∈ it.consumer.batch ++ it.yields := by
          rw [hc]
          exact List.mem_cons_self
        have hf := h.stops f (h.mem_of_left (by rw [hc]; rfl) hleft)
        have happly : it.apply (effect f) = it.stop none := by
          rw [QueuedIterator.apply, hf]
          rfl
        have herr : (it.stop none).err = none := by
          unfold QueuedIterator.stop
          split
          · exact h.err
          · rfl
        have hthrows : (effect f).throws = none := by
          rw [hf]
          rfl
        simp only [QueuedIterator.tick, hc, happly, hthrows, herr] at htraced hawake ⊢
        refine ⟨htraced, h.stops, rfl, fun hcalled => ?_, fun _ => done_stop it none,
          by simp, hawake⟩
        exact absurd hcalled (List.append_ne_nil_of_right_ne_nil _ (List.cons_ne_nil f []))

/-- **The generator goes on** by the same items. -/
theorem Fed.next (h : it.Fed effect vs fs) (hnext : it.next (fun _ => true) effect = some it') :
    it'.Fed effect vs fs :=
  next_induction (I := fun it => it.Fed effect vs fs) (fun _ _ h hresume => h.resume hresume)
    (fun _ h hrun => h.tick hrun) hnext h

/-! ## What it presents -/

theorem Fed.yielded_initial (h : it.Fed effect vs fs) : it.yielded <+: vs := by
  have hle := h.traced.yielded_le
  rwa [accepted_fed] at hle

/-- Once a function ran, all values were presented. -/
theorem Fed.yielded_of_called (h : it.Fed effect vs fs) (hcalled : it.called ≠ []) :
    it.yielded = vs := by
  obtain ⟨processed, hthrough⟩ := h.traced
  have hinitial : processed <+: vs.map .value ++ fs.map .fn := hthrough.initial
  rcases List.prefix_or_prefix_of_prefix hinitial (List.prefix_append _ _) with hle | ⟨rest, hrest⟩
  · -- only values: no function could have run
    apply absurd _ hcalled
    obtain ⟨rest, hrest⟩ := hle
    have hfunctions := congrArg functions hrest
    rw [functions_append, functions_values, hthrough.called] at hfunctions
    exact (List.append_eq_nil_iff.1 hfunctions).1
  · rw [← hrest] at hinitial
    obtain ⟨tail, htail⟩ := (List.prefix_append_right_inj _).1 hinitial
    have hnone := congrArg (accepted fun _ => true) htail
    rw [accepted_append, accepted_fns] at hnone
    rw [← hthrough.yielded, ← hrest, accepted_append, accepted_values,
      (List.append_eq_nil_iff.1 hnone).1, List.append_nil]

theorem Fed.done_of_finished (h : it.Fed effect vs fs) {err : Option E}
    (hc : it.consumer = .finished err) : it.done = true := by
  obtain ⟨processed, hthrough⟩ := h.traced
  exact hthrough.closed (by rw [hc]; rfl)

/-- **The end.** A finished generator presented all values, and ended without an error. -/
theorem Fed.yielded_of_finished (h : it.Fed effect vs fs) {err : Option E}
    (hc : it.consumer = .finished err) : err = none ∧ it.yielded = vs := by
  exact ⟨h.finished err hc, h.yielded_of_called (h.done_iff.1 (h.done_of_finished hc))⟩

/-- **It does end**: where the generator cannot go on and a function was pushed, it is finished. -/
theorem Fed.finished_of_stuck (h : it.Fed effect vs fs) (hfs : fs ≠ [])
    (hrun : it.consumer.isRunning = false) (hnext : it.next (fun _ => true) effect = none) :
    it.consumer = .finished none := by
  cases hc : it.consumer with
  | idle | presenting v batch => simp [QueuedIterator.next, QueuedIterator.resume, hc] at hnext
  | running batch =>
      rw [hc] at hrun
      cases hrun
  | waiting =>
      have hsignal : it.signal = false := by
        cases hsignal : it.signal with
        | false => rfl
        | true => simp [QueuedIterator.next, QueuedIterator.resume, hc, hsignal] at hnext
      have hnot : ¬ (it.yields ≠ [] ∨ it.done = true) := by
        intro hor
        rw [h.awake hor] at hsignal
        cases hsignal
      obtain ⟨hyields, hdone⟩ := not_or.1 hnot
      -- everything was gone through, so a function was run
      have hcalled := (h.traced.of_waiting hc (not_not.1 hyields)).2
      rw [functions_fed] at hcalled
      exact absurd (h.stopped (hcalled ▸ hfs)) hdone
  | finished err => rw [h.finished err hc]

end

/-! ## What comes first -/

/-- What the iterator was given begins with these values; nothing but functions stops it. -/
structure Headed (vs : List α) (it : QueuedIterator α φ E) : Prop where
  traced : ∃ more, it.Traced (fun _ => true) (vs.map .value ++ more)
  err : it.err = none
  running : it.called = [] → it.Running
  awake : it.Awake

section

variable {effect : φ → Effect E} {it it' : QueuedIterator α φ E} {vs : List α} {fs : List φ}

theorem Fed.headed (h : it.Fed effect vs fs) : it.Headed vs :=
  ⟨⟨_, h.traced⟩, h.err, h.running, h.awake⟩

theorem Headed.received (h : it.Headed vs) (n : Nat) : { it with received := n }.Headed vs := by
  obtain ⟨more, htraced⟩ := h.traced
  exact ⟨⟨more, htraced.received n⟩, h.err, fun hcalled => (h.running hcalled).received n, h.awake⟩

/-- What is pushed comes behind. -/
theorem Headed.push (h : it.Headed vs) (v : α) : (it.push v ⟨true, false⟩).Headed vs := by
  obtain ⟨hcalled, -, herr⟩ := kept_push it v ⟨true, false⟩
  obtain ⟨more, htraced⟩ := h.traced
  refine ⟨?_, herr.trans h.err, ?_, ?_⟩
  · have hpush := htraced.push v (r := ⟨true, false⟩) rfl
    split at hpush
    · exact ⟨more, hpush⟩
    · rw [List.append_assoc] at hpush
      exact ⟨_, hpush⟩
  · rw [hcalled]
    exact fun hnone => (h.running hnone).push v _
  · exact @awake_step _ _ _ (fun _ => true) (fun _ => stopping) _ _
      (.push v ⟨true, false⟩) h.awake rfl

theorem Headed.pushFn (h : it.Headed vs) (f : φ) : (it.pushFn f).Headed vs := by
  obtain ⟨hcalled, -, herr⟩ := kept_pushFn it f
  obtain ⟨more, htraced⟩ := h.traced
  refine ⟨?_, herr.trans h.err, ?_, ?_⟩
  · have hpush := htraced.pushFn f
    split at hpush
    · exact ⟨more, hpush⟩
    · rw [List.append_assoc] at hpush
      exact ⟨_, hpush⟩
  · rw [hcalled]
    exact fun hnone => (h.running hnone).pushFn f
  · exact @awake_step _ _ _ (fun _ => true) (fun _ => stopping) _ _ (.pushFn f) h.awake rfl

theorem err_stop_none (herr : it.err = none) : (it.stop none).err = none := by
  unfold QueuedIterator.stop
  split
  · exact herr
  · rfl

theorem err_takeBatch (herr : it.err = none) : it.takeBatch.err = none := by
  unfold QueuedIterator.takeBatch
  rw [herr]

/-- Functions that stop the iterator set no error. -/
theorem err_next {p : α → Bool} (hstops : ∀ f, effect f = stopping) (herr : it.err = none)
    (hnext : it.next p effect = some it') : it'.err = none := by
  refine next_induction (I := fun it => it.err = none) ?_ ?_ hnext herr
  · intro x x' hx hresume
    cases hc : x.consumer with
    | idle =>
        simp only [QueuedIterator.resume, hc, Option.some.injEq] at hresume
        rw [← hresume]
        split
        · exact hx
        · exact err_takeBatch hx
    | waiting =>
        simp only [QueuedIterator.resume, hc, Option.ite_none_right_eq_some,
          Option.some.injEq] at hresume
        rw [← hresume.2]
        exact err_takeBatch hx
    | presenting v batch =>
        simp only [QueuedIterator.resume, hc, Option.some.injEq] at hresume
        rw [← hresume]
        exact hx
    | running batch | finished err =>
        simp only [QueuedIterator.resume, hc] at hresume
        cases hresume
  · intro x hx hrun
    cases hc : x.consumer with
    | idle | waiting | presenting v batch | finished err =>
        rw [hc] at hrun
        cases hrun
    | running batch =>
        rcases batch with - | ⟨v | f, batch⟩
        · simp only [QueuedIterator.tick, hc]
          split
          · exact err_stop_none hx
          · split
            · exact hx
            · exact err_takeBatch hx
        · simp only [QueuedIterator.tick, hc]
          split <;> exact hx
        · -- a function does nothing but stop the iterator
          have hstop : (x.apply stopping).err = none := err_stop_none hx
          simp only [QueuedIterator.tick, hc, hstops f, stopping] at hstop ⊢
          rw [hstop]

/-- **The generator goes on** by the same items. -/
theorem Headed.next (h : it.Headed vs) (hstops : ∀ f, effect f = stopping)
    (hnext : it.next (fun _ => true) effect = some it') : it'.Headed vs := by
  obtain ⟨more, htraced⟩ := h.traced
  refine ⟨⟨more, htraced.next hnext⟩, err_next hstops h.err hnext, running_next hnext h.running, ?_⟩
  exact next_induction (I := Awake) (fun _ _ hx hresume => awake_resume hx hresume)
    (fun _ hx _ => awake_tick hx) hnext h.awake

/-- **Once a function ran**, the values were presented. -/
theorem Headed.yielded_of_called (h : it.Headed vs) (hcalled : it.called ≠ []) :
    vs <+: it.yielded := by
  obtain ⟨more, processed, hthrough⟩ := h.traced
  rw [← hthrough.yielded]
  rcases List.prefix_or_prefix_of_prefix hthrough.initial (List.prefix_append _ _) with hle | hle
  · -- only values were gone through
    apply absurd _ hcalled
    obtain ⟨rest, hrest⟩ := hle
    have hfunctions := congrArg functions hrest
    rw [functions_append, functions_values, hthrough.called] at hfunctions
    exact (List.append_eq_nil_iff.1 hfunctions).1
  · have hvalues := accepted_prefix (p := fun _ => true) hle
    rwa [accepted_values] at hvalues

theorem Headed.yielded_of_done (h : it.Headed vs) (hdone : it.done = true) : vs <+: it.yielded := by
  refine h.yielded_of_called fun hcalled => ?_
  rw [(h.running hcalled).done] at hdone
  cases hdone

/-- **Where the generator cannot go on**, the values were presented. -/
theorem Headed.yielded_of_stuck (h : it.Headed vs) (hrun : it.consumer.isRunning = false)
    (hnext : it.next (fun _ => true) effect = none) : vs <+: it.yielded := by
  obtain ⟨more, htraced⟩ := h.traced
  cases hc : it.consumer with
  | idle | presenting v batch => simp [QueuedIterator.next, QueuedIterator.resume, hc] at hnext
  | running batch =>
      rw [hc] at hrun
      cases hrun
  | waiting =>
      have hsignal : it.signal = false := by
        cases hsignal : it.signal with
        | false => rfl
        | true => simp [QueuedIterator.next, QueuedIterator.resume, hc, hsignal] at hnext
      have hyields : it.yields = [] := by
        by_contra hne
        rw [h.awake (.inl hne)] at hsignal
        cases hsignal
      rw [(htraced.of_waiting hc hyields).1, accepted_append, accepted_values]
      exact List.prefix_append _ _
  | finished err =>
      obtain ⟨processed, hthrough⟩ := htraced
      exact h.yielded_of_done (hthrough.closed (by rw [hc]; rfl))

end

/-! ## How long it goes on -/

/-- The suspensions that are still ahead of the generator, without a further push. -/
def rank (it : QueuedIterator α φ E) : Nat :=
  match it.consumer with
  | .idle => it.left.length + 2
  | .waiting => it.left.length + it.signal.toNat
  | .presenting _ _ => it.left.length + 1
  | .running _ => it.left.length
  | .finished _ => 0

section

variable {p : α → Bool} {effect : φ → Effect E} {it it' : QueuedIterator α φ E}

theorem rank_of_waiting (hc : it.consumer = .waiting) :
    it.rank = it.yields.length + it.signal.toNat := by
  simp only [rank, left, hc, Consumer.isFinished, Consumer.batch, Bool.false_eq_true, if_false,
    List.nil_append]

theorem rank_of_presenting {v : α} {batch : List (Item α φ)}
    (hc : it.consumer = .presenting v batch) : it.rank = batch.length + it.yields.length + 1 := by
  simp only [rank, left, hc, Consumer.isFinished, Consumer.batch, Bool.false_eq_true, if_false,
    List.length_append]

theorem rank_of_running {batch : List (Item α φ)} (hc : it.consumer = .running batch) :
    it.rank = batch.length + it.yields.length := by
  simp only [rank, left, hc, Consumer.isFinished, Consumer.batch, Bool.false_eq_true, if_false,
    List.length_append]

theorem rank_pushFn (it : QueuedIterator α φ E) (f : φ) : (it.pushFn f).rank ≤ it.rank + 2 := by
  unfold QueuedIterator.pushFn
  split
  · exact Nat.le_add_right _ _
  · have hsignal := it.signal.toNat_le
    cases hc : it.consumer <;> simp [rank, left, hc, Consumer.isFinished, Consumer.batch] <;> omega

theorem rank_takeBatch (it : QueuedIterator α φ E) : it.takeBatch.rank ≤ it.yields.length := by
  unfold QueuedIterator.takeBatch
  split
  · exact Nat.zero_le _
  · rw [rank_of_running rfl]
    exact Nat.le_refl _

theorem rank_resume (hresume : it.resume = some it') : it'.rank < it.rank := by
  have htake := rank_takeBatch it
  have hsignal := it.signal.toNat_le
  cases hc : it.consumer with
  | idle =>
      have hrank : it.rank = it.yields.length + 2 := by
        simp [rank, left, hc, Consumer.isFinished, Consumer.batch]
      simp only [QueuedIterator.resume, hc, Option.some.injEq] at hresume
      rw [← hresume]
      split
      · rw [rank_of_waiting rfl, hrank]
        show it.yields.length + it.signal.toNat < _
        omega
      · omega
  | waiting =>
      simp only [QueuedIterator.resume, hc, Option.ite_none_right_eq_some,
        Option.some.injEq] at hresume
      obtain ⟨hset, rfl⟩ := hresume
      rw [rank_of_waiting hc, hset]
      exact Nat.lt_succ_of_le htake
  | presenting v batch =>
      simp only [QueuedIterator.resume, hc, Option.some.injEq] at hresume
      rw [← hresume, rank_of_running rfl, rank_of_presenting hc]
      exact Nat.lt_succ_self _
  | running batch | finished err =>
      simp only [QueuedIterator.resume, hc] at hresume
      cases hresume

theorem rank_tick (it : QueuedIterator α φ E) : (it.tick p effect).rank ≤ it.rank := by
  have htake := rank_takeBatch it
  cases hc : it.consumer with
  | idle | waiting | presenting v batch | finished err =>
      simp only [QueuedIterator.tick, hc]
      exact Nat.le_refl _
  | running batch =>
      rw [rank_of_running hc]
      rcases batch with - | ⟨v | f, batch⟩
      · simp only [QueuedIterator.tick, hc]
        split
        · exact Nat.zero_le _
        · split
          · rw [rank_of_waiting rfl]
            exact Nat.le_add_left _ _
          · exact Nat.le_trans htake (Nat.le_add_left _ _)
      · simp only [QueuedIterator.tick, hc]
        rw [List.length_cons]
        split
        · rw [rank_of_presenting rfl]
          show batch.length + it.yields.length + 1 ≤ _
          omega
        · rw [rank_of_running rfl]
          show batch.length + it.yields.length ≤ _
          omega
      · have hyields := yields_apply it (effect f)
        simp only [QueuedIterator.tick, hc]
        rw [List.length_cons]
        split
        · exact Nat.zero_le _
        · split
          · exact Nat.zero_le _
          · rw [rank_of_running rfl]
            show batch.length + (it.apply (effect f)).yields.length ≤ _
            rw [hyields]
            omega

/-- **Each time the generator goes on**, less is ahead of it. -/
theorem rank_next (hnext : it.next p effect = some it') : it'.rank < it.rank := by
  have hsettle : ∀ n (x : QueuedIterator α φ E), (settle p effect n x).rank ≤ x.rank := by
    intro n
    induction n with
    | zero => exact fun x => Nat.le_refl _
    | succ n ih =>
        intro x
        cases hc : x.consumer with
        | running batch =>
            simp only [settle, hc]
            exact Nat.le_trans (ih _) (rank_tick x)
        | idle | waiting | presenting v batch | finished err =>
            simp only [settle, hc]
            exact Nat.le_refl _
  obtain ⟨it₁, hresume, rfl⟩ := Option.map_eq_some_iff.1 hnext
  exact Nat.lt_of_le_of_lt (hsettle _ it₁) (rank_resume hresume)

end

end QueuedIterator

end NatsClient.Iterator
