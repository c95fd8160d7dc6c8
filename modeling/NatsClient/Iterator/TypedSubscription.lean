import NatsClient.Connection.Subscription
import NatsClient.Foundation.Run

/-!
# Typed subscriptions

Model of `TypedSubscription` (`typedsub.ts`) used as an iterator: an outer iterator of converted
values over an inner subscription with a callback. The inner subscription closes at once; a
continuation of its `closed` promise then stops the outer iterator (`closedThen`).

A consumer in the middle of a batch leaves the generator at the end of the batch once the iterator
is stopped, and what was pushed in the meantime is in the other array. So values are lost exactly
where the stop finds the consumer in the middle of a batch and ingested values outside of it
(`Kept`); in all other runs every value ingested before the close is presented (`nothingLost`).
-/

set_option autoImplicit false

namespace NatsClient.Iterator

open NatsClient.Foundation NatsClient.Connection

variable {α E : Type}

/-- A typed subscription: the outer iterator, into which no functions are pushed, the inner
subscription, whether the connection's table has it, and which of the two continuations installed by
the constructor have run. `ingested` logs the values ingested before the inner subscription
closed. -/
structure TypedSubscription (α E : Type) where
  iter : QueuedIterator α Empty E
  sub : SubscriptionImpl Unit E
  inTable : Bool
  connectionClosed : Bool
  stopped : Bool
  unsubscribed : Bool
  ingested : List α
deriving DecidableEq

/-- What can happen. A message comes with the result of the adapter and the answer of the ingestion
filter. -/
inductive TypedEvent (α E : Type) where
  | processMsg (err : Option E) (tm : Option α) (r : IngestionFilterFnResult)
  | timeout (err : E)
  | unsubscribe (max : Option Nat)
  | drain
  | drained
  | connectionClose
  | closedThen
  | iterClosedThen
  | next

namespace TypedSubscription

/-- The constructor, the options of the inner subscription being `max` and `timeout`. -/
def new (max : Option Nat) (timeout : Bool) : TypedSubscription α E where
  iter := .new
  sub := .new "" none max true timeout
  inTable := true
  connectionClosed := false
  stopped := false
  unsubscribed := false
  ingested := []

/-- `callback(e, msg)`, `err` and `tm` being what the adapter returns. -/
def callback (t : TypedSubscription α E) (err : Option E) (tm : Option α)
    (r : IngestionFilterFnResult) : TypedSubscription α E :=
  let t := { t with sub := t.sub.cancelTimeout }
  let t :=
    match err with
    -- an error of the adapter ends the iterator
    | some e => { t with iter := t.iter.stop (some e) }
    | none => t
  match tm with
  -- what the adapter gave is pushed all the same
  | some v =>
      { t with
        iter := t.iter.push v r
        ingested :=
          if !t.sub.closed && !t.iter.done && r.ingest then t.ingested ++ [v] else t.ingested }
  | none => t

/-- `subscriptions.cancel(sub)`. -/
def cancel (t : TypedSubscription α E) : TypedSubscription α E :=
  { t with sub := t.sub.close, inTable := false }

/-- `unsubscribe(max)`. -/
def unsubscribe (t : TypedSubscription α E) (max : Option Nat) : TypedSubscription α E :=
  let t := { t with sub := t.sub.unsub max t.connectionClosed }
  if t.sub.isSpent then t.cancel else t

/-- `processMsg` of the protocol handler, the message being for the inner subscription. -/
def processMsg (t : TypedSubscription α E) (err : Option E) (tm : Option α)
    (r : IngestionFilterFnResult) : TypedSubscription α E :=
  let t := { t with sub := t.sub.receive }
  let t := t.callback err tm r
  if t.sub.reachedMax then t.unsubscribe none else t

section

variable (protocolFilterFn : α → Bool)

/-- One event; `none` where it cannot happen. -/
def step (t : TypedSubscription α E) : TypedEvent α E → Option (TypedSubscription α E)
  | .processMsg err tm r => if t.inTable then some (t.processMsg err tm r) else none
  | .timeout err =>
      -- the timer stops the inner subscription and passes the error to the callback
      if t.sub.timer then
        some ({ t with sub := t.sub.stop (some err) }.callback (some err) none ⟨false, false⟩)
      else none
  | .unsubscribe max => some (t.unsubscribe max)
  | .drain =>
      if t.connectionClosed || t.sub.isClosed || t.sub.draining then none
      else some { t with sub := { t.sub with draining := true, max := none } }
  | .drained => if t.sub.draining then some t.cancel else none
  | .connectionClose => some { t with sub := t.sub.close, connectionClosed := true }
  | .closedThen =>
      if t.sub.closed && !t.stopped then
        some { t with iter := t.iter.stop none, stopped := true }
      else none
  | .iterClosedThen =>
      if t.iter.iterClosed.isSome && !t.unsubscribed then
        some { t.unsubscribe none with unsubscribed := true }
      else none
  | .next =>
      match t.iter.next protocolFilterFn (fun f => f.elim) with
      | some iter => some { t with iter := iter }
      | none => none

/-- The values ingested before the inner subscription closed that pass the protocol filter. -/
def wanted (t : TypedSubscription α E) : List α := t.ingested.filter protocolFilterFn

/-- The iterator is parked, or it has ended without an error. -/
def Settled (t : TypedSubscription α E) : Prop :=
  (t.iter.consumer = .waiting ∧ t.iter.signal = false) ∨
    (t.iter.consumer = .finished none ∧ t.iter.err = none)

/-- **Nothing is lost**: once the iterator is parked or has ended, every value ingested before the
close that passes the filter was presented, in order and once. -/
def NothingLost (t : TypedSubscription α E) : Prop :=
  t.Settled → t.wanted protocolFilterFn <+: t.iter.yielded

/-- The condition on a step: where the outer iterator is stopped, and the consumer is in the middle
of a batch, the values ingested before the close were presented or are in that batch. -/
def Kept (t : TypedSubscription α E) : TypedEvent α E → Prop
  | .closedThen =>
      t.iter.consumer.inBatch = true →
        t.wanted protocolFilterFn <+: t.iter.yielded ++ accepted protocolFilterFn
        t.iter.consumer.batch
  | _ => True

instance [DecidableEq α] (t : TypedSubscription α E) :
    (e : TypedEvent α E) → Decidable (t.Kept protocolFilterFn e)
  | .closedThen => inferInstanceAs (Decidable (_ → _))
  | .processMsg .. | .timeout .. | .unsubscribe .. | .drain | .drained | .connectionClose
  | .iterClosedThen | .next => inferInstanceAs (Decidable True)

/-! ## The invariant -/

/-- The invariant of the outer iterator. `wanted` are the values ingested before the close that pass
the filter, and `closed` says whether the inner subscription is closed. -/
structure Keeps (wanted : List α) (closed : Bool) (it : QueuedIterator α Empty E) : Prop where
  /-- An error comes with a stop. -/
  err_done : it.err ≠ none → it.done = true
  /-- Without an error the iterator is stopped only behind the close. -/
  done_closed : it.done = true → it.err = none → closed = true
  /-- A parked consumer is woken for what is in the queue. -/
  woken : it.consumer = .waiting → it.yields ≠ [] → it.signal = true
  /-- What is wanted was presented or is in the queue. -/
  queued : (∀ err, it.consumer ≠ .finished err) →
    wanted <+: it.yielded ++ accepted protocolFilterFn (it.consumer.batch ++ it.yields)
  /-- Before the close there is nothing else in the queue. -/
  exact : (∀ err, it.consumer ≠ .finished err) → it.done = false → closed = false →
    wanted = it.yielded ++ accepted protocolFilterFn (it.consumer.batch ++ it.yields)
  /-- Behind a stop the batch at work is the last one. -/
  last : it.done = true → it.err = none → it.consumer.inBatch = true →
    wanted <+: it.yielded ++ accepted protocolFilterFn it.consumer.batch
  ended : ∀ err, it.consumer = .finished err →
    it.done = true ∧ (it.err = none → wanted <+: it.yielded)

section

variable {protocolFilterFn} {wanted : List α} {closed : Bool} {it it' : QueuedIterator α Empty E}

theorem keeps_new : Keeps protocolFilterFn [] false (.new : QueuedIterator α Empty E) where
  err_done h := absurd rfl h
  done_closed h := by cases h
  woken h := by cases h
  queued _ := List.nil_prefix
  exact _ _ _ := rfl
  last h := by cases h
  ended err h := by cases h

/-- Closing the inner subscription leaves the iterator alone. -/
theorem Keeps.close (h : Keeps protocolFilterFn wanted closed it) :
    Keeps protocolFilterFn wanted true it :=
  ⟨h.err_done, fun _ _ => rfl, h.woken, h.queued, fun _ _ hc => (by cases hc), h.last, h.ended⟩

/-- A value pushed after the close is queued like any other, but it is not wanted. -/
theorem Keeps.push_closed {v : α} {r : IngestionFilterFnResult}
    (h : Keeps protocolFilterFn wanted true it) :
    Keeps protocolFilterFn wanted true (it.push v r) := by
  unfold QueuedIterator.push
  by_cases hd : it.done = true
  · rw [if_pos hd]
    exact h
  · rw [if_neg hd]
    by_cases hr : r.ingest = true
    · rw [if_pos hr]
      refine ⟨h.err_done, h.done_closed, fun _ _ => rfl, fun hc => ?_, fun _ _ hf => (by cases hf),
        h.last, h.ended⟩
      show wanted <+: it.yielded ++
        accepted protocolFilterFn (it.consumer.batch ++ (it.yields ++ [Item.value v]))
      rw [← List.append_assoc, accepted_append, ← List.append_assoc]
      exact (h.queued hc).trans (List.prefix_append _ _)
    · rw [if_neg hr]
      exact h

/-- A value ingested before the close. -/
theorem Keeps.push {v : α} {r : IngestionFilterFnResult}
    (h : Keeps protocolFilterFn wanted false it) (hd : it.done = false) (hr : r.ingest = true) :
    Keeps protocolFilterFn (wanted ++ [v].filter protocolFilterFn) false (it.push v r) := by
  have hnot : ¬ it.done = true := by
    rw [hd]
    decide
  have hvalue : accepted protocolFilterFn [(Item.value v : Item α Empty)] =
      [v].filter protocolFilterFn := by
    by_cases hv : protocolFilterFn v = true
    · rw [accepted, if_pos hv, List.filter_cons_of_pos hv]
      rfl
    · rw [accepted, if_neg hv, List.filter_cons_of_neg hv]
      rfl
  have heq : (∀ err, it.consumer ≠ .finished err) →
      wanted ++ [v].filter protocolFilterFn = it.yielded ++
        accepted protocolFilterFn (it.consumer.batch ++ (it.yields ++ [Item.value v])) := by
    intro hc
    rw [← List.append_assoc, accepted_append, hvalue, ← List.append_assoc, ← h.exact hc hd rfl]
  rw [QueuedIterator.push, if_neg hnot, if_pos hr]
  refine ⟨h.err_done, h.done_closed, fun _ _ => rfl, fun hc => ?_, fun hc _ _ => heq hc,
    fun hd' => absurd hd' hnot, fun err hc => absurd (h.ended err hc).1 hnot⟩
  show _ <+: it.yielded ++ accepted protocolFilterFn (it.consumer.batch ++ (it.yields ++ [_]))
  simp only [← heq hc, List.prefix_rfl]

/-- A stop with an error. -/
theorem Keeps.stop_some {e : E} (h : Keeps protocolFilterFn wanted closed it) :
    Keeps protocolFilterFn wanted closed (it.stop (some e)) := by
  unfold QueuedIterator.stop
  by_cases hd : it.done = true
  · rw [if_pos hd]
    exact h
  · rw [if_neg hd]
    exact ⟨fun _ => rfl, fun _ herr => (by cases herr), fun _ _ => rfl, h.queued,
      fun _ hdone => (by cases hdone), fun _ herr => (by cases herr),
      fun err hc => ⟨rfl, fun herr => (by cases herr)⟩⟩

/-- A stop without an error, behind the close. -/
theorem Keeps.stop_none (h : Keeps protocolFilterFn wanted true it)
    (hbatch : it.consumer.inBatch = true →
      wanted <+: it.yielded ++ accepted protocolFilterFn it.consumer.batch) :
    Keeps protocolFilterFn wanted true (it.stop none) := by
  unfold QueuedIterator.stop
  by_cases hd : it.done = true
  · rw [if_pos hd]
    exact h
  · rw [if_neg hd]
    exact ⟨fun herr => absurd rfl herr, fun _ _ => rfl, fun _ _ => rfl, h.queued,
      fun _ hdone => (by cases hdone), fun _ _ hc => hbatch hc,
      fun err hc => absurd (h.ended err hc).1 hd⟩

/-- The generator takes a batch when it is in front of the outer loop. -/
theorem Keeps.takeBatch (h : Keeps protocolFilterFn wanted closed it)
    (hbatch : it.consumer.batch = []) (hopen : ∀ err, it.consumer ≠ .finished err) :
    Keeps protocolFilterFn wanted closed it.takeBatch := by
  have hqueued := h.queued hopen
  rw [hbatch, List.nil_append] at hqueued
  unfold QueuedIterator.takeBatch
  cases herr : it.err with
  | some e =>
      have hd : it.done = true := h.err_done (by rw [herr]; exact Option.some_ne_none e)
      have hsame : it.finish (some e) = { it with consumer := .finished (some e) } := by
        rw [QueuedIterator.finish, QueuedIterator.stop, if_pos hd]
      simp only [hsame]
      exact ⟨h.err_done, h.done_closed, fun hc => (by cases hc), fun hc => absurd rfl (hc _),
        fun hc => absurd rfl (hc _), fun _ _ hc => (by cases hc),
        fun err _ => ⟨hd, fun hnone => (by rw [herr] at hnone; cases hnone)⟩⟩
  | none =>
      refine ⟨fun hne => absurd rfl hne, fun hd _ => h.done_closed hd herr, fun hc => (by cases hc),
        fun _ => ?_, fun _ hd hc => ?_, fun _ _ _ => hqueued, fun err hc => (by cases hc)⟩
      · show wanted <+: it.yielded ++ accepted protocolFilterFn (it.yields ++ [])
        rw [List.append_nil]
        exact hqueued
      · have hexact := h.exact hopen hd hc
        rw [hbatch, List.nil_append] at hexact
        show wanted = it.yielded ++ accepted protocolFilterFn (it.yields ++ [])
        rw [List.append_nil]
        exact hexact

/-- The generator leaves a suspension. -/
theorem Keeps.resume (h : Keeps protocolFilterFn wanted closed it) (hres : it.resume = some it') :
    Keeps protocolFilterFn wanted closed it' := by
  cases hc : it.consumer with
  | idle =>
      simp only [QueuedIterator.resume, hc, Option.some.injEq] at hres
      rw [← hres]
      by_cases hy : it.yields = []
      · rw [if_pos hy]
        have hopen : ∀ err, it.consumer ≠ .finished err := by
          intro err hf
          rw [hc] at hf
          cases hf
        have hqueued := h.queued hopen
        have hexact := h.exact hopen
        rw [hc] at hqueued hexact
        exact ⟨h.err_done, h.done_closed, fun _ hne => absurd hy hne, fun _ => hqueued,
          fun _ => hexact, fun _ _ hb => (by cases hb), fun err hf => (by cases hf)⟩
      · rw [if_neg hy]
        exact h.takeBatch (by rw [hc]; rfl) (by rw [hc]; intro err hf; cases hf)
  | waiting =>
      by_cases hs : it.signal = true
      · simp only [QueuedIterator.resume, hc, if_pos hs, Option.some.injEq] at hres
        rw [← hres]
        exact h.takeBatch (by rw [hc]; rfl) (by rw [hc]; intro err hf; cases hf)
      · simp only [QueuedIterator.resume, hc, if_neg hs] at hres
        cases hres
  | presenting v batch =>
      simp only [QueuedIterator.resume, hc, Option.some.injEq] at hres
      rw [← hres]
      -- the value that was presented is in what was yielded already
      have hopen : ∀ err, it.consumer ≠ .finished err := by
        intro err hf
        rw [hc] at hf
        cases hf
      have hqueued := h.queued hopen
      have hexact := h.exact hopen
      have hlast := h.last
      rw [hc] at hqueued hexact hlast
      exact ⟨h.err_done, h.done_closed, fun hw => (by cases hw), fun _ => hqueued, fun _ => hexact,
        hlast, fun err hf => (by cases hf)⟩
  | running batch =>
      simp only [QueuedIterator.resume, hc] at hres
      cases hres
  | finished err =>
      simp only [QueuedIterator.resume, hc] at hres
      cases hres

/-- One step of the running generator. -/
theorem Keeps.tick {effect : Empty → Effect E} (h : Keeps protocolFilterFn wanted closed it)
    (hrun : it.consumer.isRunning = true) :
    Keeps protocolFilterFn wanted closed (it.tick protocolFilterFn effect) := by
  cases hc : it.consumer with
  | idle | waiting | presenting v batch | finished err =>
      rw [hc] at hrun
      cases hrun
  | running batch =>
      have hopen : ∀ err, it.consumer ≠ .finished err := by
        intro err hf
        rw [hc] at hf
        cases hf
      have hqueued := h.queued hopen
      have hexact := h.exact hopen
      have hlast := h.last
      rw [hc] at hqueued hexact hlast
      cases batch with
      | nil =>
          by_cases hd : it.done = true
          · -- the generator ends, and everything wanted was in the last batch
            have hsame : it.finish none = { it with consumer := .finished none } := by
              rw [QueuedIterator.finish, QueuedIterator.stop, if_pos hd]
            simp only [QueuedIterator.tick, hc, if_pos hd, hsame]
            refine ⟨h.err_done, h.done_closed, fun hw => (by cases hw), fun hf => absurd rfl (hf _),
              fun hf => absurd rfl (hf _), fun _ _ hb => (by cases hb), fun err _ =>
              ⟨hd, fun hn => ?_⟩⟩
            have hall := hlast hd hn rfl
            simpa only [Consumer.batch, accepted, List.append_nil] using hall
          · by_cases hy : it.yields = []
            · simp only [QueuedIterator.tick, hc, if_neg hd, if_pos hy]
              exact ⟨h.err_done, h.done_closed, fun _ hne => absurd hy hne, fun _ => hqueued,
                fun _ => hexact, fun hd' => absurd hd' hd, fun err hf => (by cases hf)⟩
            · simp only [QueuedIterator.tick, hc, if_neg hd, if_neg hy]
              exact h.takeBatch (by rw [hc]; rfl) hopen
      | cons item batch =>
          cases item with
          | fn f => exact f.elim
          | value v =>
              by_cases hv : protocolFilterFn v = true
              · -- a value moves from the front of the batch to what was yielded
                have hpresent : ∀ items : List (Item α Empty), it.yielded ++
                    accepted protocolFilterFn (.value v :: items) =
                    it.yielded ++ [v] ++ accepted protocolFilterFn items := by
                  intro items
                  rw [accepted, if_pos hv, List.append_assoc]
                  rfl
                simp only [QueuedIterator.tick, hc, if_pos hv]
                refine ⟨h.err_done, h.done_closed, fun hw => (by cases hw), fun _ => ?_,
                  fun _ hd hcl => ?_, fun hd hn _ => ?_, fun err hf => (by cases hf)⟩
                · show wanted <+: it.yielded ++ [v] ++ accepted protocolFilterFn
                      (batch ++ it.yields)
                  rw [← hpresent]
                  exact hqueued
                · show wanted = it.yielded ++ [v] ++ accepted protocolFilterFn (batch ++ it.yields)
                  rw [← hpresent]
                  exact hexact hd hcl
                · show wanted <+: it.yielded ++ [v] ++ accepted protocolFilterFn batch
                  rw [← hpresent]
                  exact hlast hd hn rfl
              · -- a value that is filtered out is not wanted
                have hskip : ∀ items : List (Item α Empty),
                    accepted protocolFilterFn (.value v :: items) =
                    accepted protocolFilterFn items := by
                  intro items
                  rw [accepted, if_neg hv]
                simp only [QueuedIterator.tick, hc, if_neg hv]
                refine ⟨h.err_done, h.done_closed, fun hw => (by cases hw), fun _ => ?_,
                  fun _ hd hcl => ?_, fun hd hn _ => ?_, fun err hf => (by cases hf)⟩
                · show wanted <+: it.yielded ++ accepted protocolFilterFn (batch ++ it.yields)
                  rw [← hskip]
                  exact hqueued
                · show wanted = it.yielded ++ accepted protocolFilterFn (batch ++ it.yields)
                  rw [← hskip]
                  exact hexact hd hcl
                · show wanted <+: it.yielded ++ accepted protocolFilterFn batch
                  rw [← hskip]
                  exact hlast hd hn rfl

/-- The consumer runs from one suspension to the next. -/
theorem Keeps.next {effect : Empty → Effect E} (h : Keeps protocolFilterFn wanted closed it)
    (hnext : it.next protocolFilterFn effect = some it') :
    Keeps protocolFilterFn wanted closed it' :=
  QueuedIterator.next_induction (I := Keeps protocolFilterFn wanted closed)
    (fun _ _ hk hres => hk.resume hres) (fun _ hk hrun => hk.tick hrun) hnext h

end

/-- The invariant of a typed subscription between two events. -/
structure Inv (t : TypedSubscription α E) : Prop where
  keeps : Keeps protocolFilterFn (t.wanted protocolFilterFn) t.sub.closed t.iter
  suspended : t.iter.consumer.isRunning = false

section

variable {protocolFilterFn} {t t' : TypedSubscription α E}

theorem inv_new (max : Option Nat) (timeout : Bool) :
    Inv protocolFilterFn (new max timeout : TypedSubscription α E) :=
  ⟨keeps_new, rfl⟩

/-- A step that concerns the inner subscription only: at most it closes. -/
theorem Inv.of_sub (h : Inv protocolFilterFn t) (hiter : t'.iter = t.iter)
    (hing : t'.ingested = t.ingested)
    (hclosed : t'.sub.closed = t.sub.closed ∨ t'.sub.closed = true) : Inv protocolFilterFn t' := by
  have hwanted : t'.wanted protocolFilterFn = t.wanted protocolFilterFn := by
    rw [wanted, wanted, hing]
  refine ⟨?_, by rw [hiter]; exact h.suspended⟩
  rw [hwanted, hiter]
  rcases hclosed with hclosed | hclosed
  · rw [hclosed]
    exact h.keeps
  · rw [hclosed]
    exact h.keeps.close

theorem closed_close (s : SubscriptionImpl Unit E) :
    s.close.closed = s.closed ∨ s.close.closed = true := by
  unfold SubscriptionImpl.close
  by_cases hd : s.isClosed = true
  · rw [if_pos hd]
    exact Or.inl rfl
  · rw [if_neg hd]
    by_cases hn : s.noIterator = true
    · rw [if_pos hn]
      exact Or.inr rfl
    · rw [if_neg hn]
      exact Or.inl rfl

theorem Inv.unsubscribe (h : Inv protocolFilterFn t) (max : Option Nat) :
    Inv protocolFilterFn (t.unsubscribe max) := by
  have hunsub : (t.sub.unsub max t.connectionClosed).closed = t.sub.closed := by
    unfold SubscriptionImpl.unsub
    by_cases hc : t.connectionClosed = true
    · rw [if_pos hc]
    · rw [if_neg hc]
  unfold TypedSubscription.unsubscribe
  by_cases hs : (t.sub.unsub max t.connectionClosed).isSpent = true
  · simp only [if_pos hs]
    refine h.of_sub rfl rfl ?_
    show (t.sub.unsub max t.connectionClosed).close.closed = _ ∨ _
    rw [← hunsub]
    exact closed_close _
  · simp only [if_neg hs]
    exact h.of_sub rfl rfl (Or.inl hunsub)

theorem isRunning_push (it : QueuedIterator α Empty E) (v : α) (r : IngestionFilterFnResult) :
    (it.push v r).consumer = it.consumer := by
  unfold QueuedIterator.push
  by_cases hd : it.done = true <;> by_cases hr : r.ingest = true <;> simp [hd, hr]

theorem isRunning_stop (it : QueuedIterator α Empty E) (err : Option E) :
    (it.stop err).consumer = it.consumer := by
  unfold QueuedIterator.stop
  by_cases hd : it.done = true <;> simp [hd]

/-- The callback of the inner subscription: an error stops the iterator, a value is pushed. -/
theorem Inv.callback (h : Inv protocolFilterFn t) (err : Option E) (tm : Option α)
    (r : IngestionFilterFnResult) : Inv protocolFilterFn (t.callback err tm r) := by
  have herr : ∀ t : TypedSubscription α E, Inv protocolFilterFn t → Inv protocolFilterFn
      (match err with
        | some e => { t with iter := t.iter.stop (some e) }
        | none => t) := by
    intro t h
    cases err with
    | none => exact h
    | some e => exact ⟨h.keeps.stop_some, by rw [isRunning_stop]; exact h.suspended⟩
  have htm : ∀ t : TypedSubscription α E, Inv protocolFilterFn t → Inv protocolFilterFn
      (match tm with
        | some v =>
            { t with
              iter := t.iter.push v r
              ingested :=
                if !t.sub.closed && !t.iter.done && r.ingest then t.ingested ++ [v]
                else t.ingested }
        | none => t) := by
    intro t h
    cases tm with
    | none => exact h
    | some v =>
        refine ⟨?_, by rw [isRunning_push]; exact h.suspended⟩
        have hkeeps := h.keeps
        cases hc : t.sub.closed with
        | true =>
            rw [hc] at hkeeps
            simpa [wanted, hc] using hkeeps.push_closed
        | false =>
            rw [hc] at hkeeps
            by_cases hd : t.iter.done = true
            · simpa [wanted, hc, hd, QueuedIterator.push] using hkeeps
            · by_cases hr : r.ingest = true
              · have hopen : t.iter.done = false := by simpa using hd
                simpa [wanted, hc, hopen, hr] using hkeeps.push hopen hr
              · simpa [wanted, hc, hd, hr, QueuedIterator.push] using hkeeps
  exact htm _ (herr _ (h.of_sub rfl rfl (Or.inl rfl)))

theorem Inv.processMsg (h : Inv protocolFilterFn t) (err : Option E) (tm : Option α)
    (r : IngestionFilterFnResult) : Inv protocolFilterFn (t.processMsg err tm r) := by
  have hreceived : Inv protocolFilterFn { t with sub := t.sub.receive } :=
    h.of_sub rfl rfl (Or.inl rfl)
  have hcallback := hreceived.callback err tm r
  unfold TypedSubscription.processMsg
  by_cases hm : ({ t with sub := t.sub.receive }.callback err tm r).sub.reachedMax = true
  · simp only [if_pos hm]
    exact hcallback.unsubscribe none
  · simp only [if_neg hm]
    exact hcallback

/-- **One event.** -/
theorem inv_step {e : TypedEvent α E} (h : Inv protocolFilterFn t)
    (hkept : t.Kept protocolFilterFn e) (hstep : t.step protocolFilterFn e = some t') :
    Inv protocolFilterFn t' := by
  cases e with
  | processMsg err tm r =>
      by_cases hin : t.inTable = true
      · simp only [step, if_pos hin, Option.some.injEq] at hstep
        rw [← hstep]
        exact h.processMsg err tm r
      · simp only [step, if_neg hin] at hstep
        cases hstep
  | timeout err =>
      by_cases ht : t.sub.timer = true
      · simp only [step, if_pos ht, Option.some.injEq] at hstep
        rw [← hstep]
        -- `stop` of the subscription leaves its iterator alone
        have hstop : Inv protocolFilterFn { t with sub := t.sub.stop (some err) } :=
          h.of_sub rfl rfl (Or.inl rfl)
        exact hstop.callback (some err) none _
      · simp only [step, if_neg ht] at hstep
        cases hstep
  | unsubscribe max =>
      simp only [step, Option.some.injEq] at hstep
      rw [← hstep]
      exact h.unsubscribe max
  | drain =>
      by_cases hr : (t.connectionClosed || t.sub.isClosed || t.sub.draining) = true
      · simp only [step, if_pos hr] at hstep
        cases hstep
      · simp only [step, if_neg hr, Option.some.injEq] at hstep
        rw [← hstep]
        exact h.of_sub rfl rfl (Or.inl rfl)
  | drained =>
      by_cases hd : t.sub.draining = true
      · simp only [step, if_pos hd, Option.some.injEq] at hstep
        rw [← hstep]
        exact h.of_sub rfl rfl (closed_close t.sub)
      · simp only [step, if_neg hd] at hstep
        cases hstep
  | connectionClose =>
      simp only [step, Option.some.injEq] at hstep
      rw [← hstep]
      exact h.of_sub rfl rfl (closed_close t.sub)
  | closedThen =>
      by_cases hc : (t.sub.closed && !t.stopped) = true
      · simp only [step, if_pos hc, Option.some.injEq] at hstep
        rw [← hstep]
        -- the continuation of `closed` stops the iterator: the condition wants an empty queue
        have hclosed : t.sub.closed = true := by
          simp only [Bool.and_eq_true] at hc
          exact hc.1
        have hkeeps := h.keeps
        rw [hclosed] at hkeeps
        refine ⟨?_, by rw [isRunning_stop]; exact h.suspended⟩
        show Keeps protocolFilterFn (t.wanted protocolFilterFn) t.sub.closed _
        rw [hclosed]
        exact hkeeps.stop_none hkept
      · simp only [step, if_neg hc] at hstep
        cases hstep
  | iterClosedThen =>
      by_cases hc : (t.iter.iterClosed.isSome && !t.unsubscribed) = true
      · simp only [step, if_pos hc, Option.some.injEq] at hstep
        rw [← hstep]
        exact (h.unsubscribe none).of_sub rfl rfl (Or.inl rfl)
      · simp only [step, if_neg hc] at hstep
        cases hstep
  | next =>
      cases hnext : t.iter.next protocolFilterFn (fun f => f.elim) with
      | none =>
          simp only [step, hnext] at hstep
          cases hstep
      | some it =>
          simp only [step, hnext, Option.some.injEq] at hstep
          rw [← hstep]
          exact ⟨h.keeps.next hnext, QueuedIterator.isRunning_next hnext⟩

/-- Where the invariant holds, nothing is lost. -/
theorem Inv.nothingLost (h : Inv protocolFilterFn t) : t.NothingLost protocolFilterFn := by
  rintro (⟨hwait, hsignal⟩ | ⟨hfin, herr⟩)
  · have hempty : t.iter.yields = [] := by
      by_contra hne
      rw [h.keeps.woken hwait hne] at hsignal
      cases hsignal
    have hqueued := h.keeps.queued (by rw [hwait]; intro err hf; cases hf)
    rw [hwait, hempty] at hqueued
    simpa only [Consumer.batch, List.append_nil, accepted] using hqueued
  · exact (h.keeps.ended none hfin).2 herr

end

end

/-- **A typed subscription loses nothing in the runs whose stops find all that was ingested before
the close presented or in the batch at work.** -/
theorem nothingLost_of_kept (p : α → Bool) (max : Option Nat) (timeout : Bool)
    (es : List (TypedEvent α E)) {t : TypedSubscription α E}
    (hrun : run (step p) (new max timeout) es = some t)
    (hkept : Meets (step p) (Kept p) (new max timeout) es) : t.NothingLost p := by
  have hinv : Inv p t := invariant_run_of_meets (I := Inv p)
    (fun _ _ _ h hk hstep => inv_step h hk hstep) hrun hkept (inv_new max timeout)
  exact hinv.nothingLost

/-- Two messages ingested while the consumer is parked, then a drain. -/
theorem nothingLost_of_kept_drain :
    ∃ t, run (step fun _ : Nat => true) (new none false : TypedSubscription Nat Unit)
        [.next, .processMsg none (some 1) ⟨true, false⟩, .processMsg none (some 2) ⟨true, false⟩,
          .next, .drain, .drained, .closedThen, .next, .next] = some t ∧
      t.NothingLost (fun _ => true) :=
  ⟨_, rfl, nothingLost_of_kept (fun _ => true) none false
    [.next, .processMsg none (some 1) ⟨true, false⟩, .processMsg none (some 2) ⟨true, false⟩, .next,
      .drain, .drained, .closedThen, .next, .next] rfl (by decide)⟩

/-- The second of two messages reaches the maximum and closes the inner subscription while the
consumer works on the first one: it is never presented. -/
theorem not_nothingLost :
    ¬ ∀ (max : Option Nat) (timeout : Bool) (es : List (TypedEvent Nat Unit))
      (t : TypedSubscription Nat Unit),
      run (step fun _ => true) (new max timeout) es = some t → t.NothingLost fun _ => true := by
  intro h
  have hlost := h (some 2) false [.next, .processMsg none (some 1) ⟨true, false⟩, .next,
    .processMsg none (some 2) ⟨true, false⟩, .closedThen, .next] _ rfl (Or.inr ⟨rfl, rfl⟩)
  revert hlost
  decide

end TypedSubscription

end NatsClient.Iterator
