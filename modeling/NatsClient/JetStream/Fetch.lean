import NatsClient.Connection.Subscription
import NatsClient.Foundation.Run
import NatsClient.Iterator.Keeping
import NatsClient.Iterator.Pending
import NatsClient.Iterator.Stopping

/-!
# Fetching a batch

Model of `JetStreamClientImpl.fetch` (`jsclient.ts`): the subscription of its inbox, whose `max` is
the batch, the iterator that gets what comes in, the function called behind each message that was
presented, the timer of the expiry, and the continuation of `closed`. The heartbeats come in time,
so their monitor does nothing.

Everything that comes in counts for the `max` of the subscription, heartbeats too; and the iterator
is stopped at once where the subscription is closed, a status comes in, or the last message was
presented, also while messages are in its queue. In the runs in which neither takes anything away
(`Fits`) every message is yielded (`fetch_complete`).
-/

set_option autoImplicit false

namespace NatsClient.JetStream

open NatsClient.Connection NatsClient.Foundation NatsClient.Iterator

variable {α E : Type}

/-- The options of a pull that `fetch` goes by itself; the others are for the server. No expiry and
no `max_bytes` is `0`. -/
structure PullOptions where
  batch : Option Nat
  expires : Nat
  maxBytes : Nat

/-- What is pushed into the iterator. -/
inductive FetchMsg (α : Type) where
  | user (v : α)
  | heartbeat
deriving DecidableEq, Repr

/-- The protocol filter: no heartbeats. -/
def FetchMsg.passes : FetchMsg α → Bool
  | .user _ => true
  | .heartbeat => false

/-- The variables of a call of `fetch`, and its subscription. `expiring` says whether the timer
runs, and `stopped` that the continuation of `closed` ran. `sent` logs the messages that the server
sent; behind the `final` status it sends nothing, nor does it once it has answered the drain
(`unsubscribed`). -/
structure Fetch (α E : Type) where
  wants : Nat
  maxBytes : Nat
  timer : Bool
  expiring : Bool
  received : Nat
  receivedBytes : Nat
  sub : SubscriptionImpl Unit E
  inTable : Bool
  unsubscribed : Bool
  stopped : Bool
  iter : QueuedIterator (FetchMsg α) Empty E
  sent : List α
  final : Bool
deriving DecidableEq

/-- What can happen: a message of the server, or a status, with the error that is not hidden from
the user. -/
inductive FetchEvent (α E : Type) where
  | message (m : FetchMsg α)
  | status (err : Option E)
  | expire
  | drained
  | closedThen
  | next
deriving DecidableEq

namespace Fetch

/-- `fetch(stream, durable, opts)`. -/
def new (opts : PullOptions) : Fetch α E where
  wants := (opts.batch.filter (· ≠ 0)).getD 1
  maxBytes := opts.maxBytes
  timer := opts.expires ≠ 0
  expiring := opts.expires ≠ 0
  received := 0
  receivedBytes := 0
  sub := .new "" none opts.batch true false
  inTable := true
  unsubscribed := false
  stopped := false
  iter := .new
  sent := []
  final := false

/-- `subscriptions.cancel(sub)`. -/
def cancel (f : Fetch α E) : Fetch α E := { f with sub := f.sub.close, inTable := false }

/-- `sub.unsubscribe()`; without a maximum the subscription is cancelled. -/
def unsubscribe (f : Fetch α E) : Fetch α E := { f with sub := f.sub.unsub none false }.cancel

/-- `processMsg` of the protocol handler, with what the callback does. -/
def processMsg (f : Fetch α E) (callback : Fetch α E → Fetch α E) : Fetch α E :=
  if f.inTable then
    let f := callback { f with sub := f.sub.receive }
    if f.sub.reachedMax then f.unsubscribe else f
  else f

/-- The callback on a message. -/
def ingest (m : FetchMsg α) (f : Fetch α E) : Fetch α E :=
  { f with iter := { f.iter with received := f.iter.received + 1 }.push m ⟨true, false⟩ }

/-- The callback on an error. -/
def fail (err : Option E) (f : Fetch α E) : Fetch α E :=
  { f with timer := false, expiring := false, iter := f.iter.stop err }

section

variable (size pending : α → Nat)

/-- The message is counted. -/
def count (v : α) (f : Fetch α E) : Fetch α E :=
  { f with
    receivedBytes := if 0 < f.maxBytes then f.receivedBytes + size v else f.receivedBytes
    received := f.received + 1 }

/-- Whether it is the last one. -/
def isLast (v : α) (f : Fetch α E) : Bool :=
  -- otherwise the expiration will close it
  !(f.timer && pending v = 0) &&
    (f.iter.getPending = 1 && pending v = 0 || f.wants = f.received ||
      0 < f.maxBytes && f.maxBytes ≤ f.receivedBytes)

/-- `dispatchedFn(m)`, which runs before the generator goes on. -/
def dispatched (f : Fetch α E) : Fetch α E :=
  match f.iter.consumer with
  | .presenting (.user v) _ =>
      let f := f.count size v
      if f.isLast pending v then { f with iter := f.iter.stop none } else f
  | _ => f

/-- One event; `none` where it cannot happen. -/
def step (f : Fetch α E) : FetchEvent α E → Option (Fetch α E)
  | .message (.user v) =>
      -- the server answers one pull: at most `wants` messages, and nothing behind the final status
      if f.final || f.unsubscribed || f.wants ≤ f.sent.length then none
      else some { f.processMsg (ingest (.user v)) with sent := f.sent ++ [v] }
  | .message .heartbeat =>
      if f.final || f.unsubscribed then none else some (f.processMsg (ingest .heartbeat))
  | .status err =>
      if f.final || f.unsubscribed then none
      else some { f.processMsg (fail err) with final := true }
  | .expire =>
      if f.expiring then
        -- the catch of the timer, which drains the inbox
        let f := { f with expiring := false }
        if f.sub.isClosed then some f
        else some { f with sub := { f.sub.unsub none false with draining := true }, timer := false }
      else none
  | .drained =>
      if f.sub.draining && !f.unsubscribed then some { f.cancel with unsubscribed := true }
      else none
  | .closedThen =>
      if f.sub.closed && !f.stopped then
        some { f with timer := false, expiring := false, stopped := true, iter := f.iter.stop none }
      else none
  | .next =>
      -- `dispatchedFn` of what was yielded runs as the generator goes on
      let f := f.dispatched size pending
      (f.iter.next FetchMsg.passes fun e => e.elim).map fun it => { f with iter := it }

/-- Every message that was sent is yielded: where the user cannot go on, all were; and going on
takes an end. Heartbeats never use up the quota: the inbox is given up for the expiry, the final
status or the last message of the batch. -/
structure Complete (f : Fetch α E) : Prop where
  initial : f.iter.yielded <+: f.sent.map .user
  complete : f.step size pending .next = none → f.iter.yielded = f.sent.map .user
  goesOn : ∀ f', f.step size pending .next = some f' → f'.iter.rank < f.iter.rank
  quota : f.inTable = false → f.unsubscribed = true ∨ f.final = true ∨ f.sent.length = f.wants

/-- The next one that comes in is the last one for the subscription. -/
def fills (f : Fetch α E) : Bool := f.inTable && f.sub.receive.reachedMax

/-- The condition on a step. What fills the subscription is the last message of the batch, and no
heartbeat; no message comes in behind the end of the iterator; and where the iterator is stopped, no
message is in its queue behind a batch at work, and with an error none at all. -/
def Fits (f : Fetch α E) : FetchEvent α E → Prop
  | .message (.user _) => f.iter.done = false ∧ (f.fills = true → f.sent.length + 1 = f.wants)
  | .message .heartbeat => f.fills = false
  | .status err => f.inTable = true → f.iter.Harmless FetchMsg.passes err
  | .expire | .drained => True
  | .closedThen => f.iter.Harmless FetchMsg.passes none
  | .next =>
      match f.iter.consumer with
      | .presenting (.user v) _ =>
          (f.count size v).isLast pending v = true → f.iter.Harmless FetchMsg.passes none
      | _ => True

instance [DecidableEq α] (f : Fetch α E) : (e : FetchEvent α E) → Decidable (f.Fits size pending e)
  | .message (.user _) => inferInstanceAs (Decidable (_ ∧ (_ → _)))
  | .message .heartbeat => inferInstanceAs (Decidable (_ = _))
  | .status _ => inferInstanceAs (Decidable (_ → _))
  | .expire | .drained => isTrue trivial
  | .closedThen => inferInstanceAs (Decidable (QueuedIterator.Harmless _ _ _))
  | .next =>
      match hc : f.iter.consumer with
      | .presenting (.user v) _ =>
          decidable_of_iff ((f.count size v).isLast pending v = true →
            f.iter.Harmless FetchMsg.passes none) (by simp only [Fits, hc])
      | .presenting .heartbeat _ | .idle | .waiting | .running _ | .finished _ =>
          isTrue (by simp only [Fits, hc])

end

/-! ## The invariant -/

/-- Nothing is lost, and the inbox is given up for one of its reasons. -/
structure Kept (f : Fetch α E) : Prop where
  keeping : f.iter.Keeping FetchMsg.passes (f.sent.map .user)
  suspended : f.iter.consumer.isRunning = false
  quota : f.inTable = false → f.unsubscribed = true ∨ f.final = true ∨ f.sent.length = f.wants

section

variable {size pending : α → Nat} {f f' : Fetch α E} {e : FetchEvent α E}

theorem kept_new (opts : PullOptions) : (new opts : Fetch α E).Kept where
  keeping := QueuedIterator.keeping_new
  suspended := rfl
  quota := nofun

theorem suspended_push (h : f.iter.consumer.isRunning = false) (m : FetchMsg α) :
    (f.ingest m).iter.consumer.isRunning = false := by
  rw [ingest, QueuedIterator.consumer_push]
  exact h

theorem suspended_stop {it : QueuedIterator (FetchMsg α) Empty E}
    (h : it.consumer.isRunning = false) (err : Option E) :
    (it.stop err).consumer.isRunning = false := by
  rw [QueuedIterator.consumer_stop]
  exact h

/-- What comes in for the subscription: the callback, and its end where it is filled. -/
theorem processMsg_eq (callback : Fetch α E → Fetch α E) (hsub : ∀ f, (callback f).sub = f.sub) :
    f.processMsg callback =
      if f.inTable = true then
        if f.fills = true then (callback { f with sub := f.sub.receive }).unsubscribe
        else callback { f with sub := f.sub.receive }
      else f := by
  unfold processMsg fills
  cases f.inTable with
  | false => rfl
  | true => simp only [if_true, hsub, Bool.true_and]

/-- **A message** is pushed. -/
theorem Kept.user (h : f.Kept) {v : α}
    (hopen : (f.final || f.unsubscribed || f.wants ≤ f.sent.length) = false)
    (hok : f.Fits size pending (.message (.user v))) :
    ({ f.processMsg (ingest (.user v)) with sent := f.sent ++ [v] } : Fetch α E).Kept := by
  obtain ⟨hdone, hfills⟩ := hok
  simp only [Bool.or_eq_false_iff, decide_eq_false_iff_not, Nat.not_le] at hopen
  obtain ⟨⟨hfinal, hsubscribed⟩, hmissing⟩ := hopen
  -- none of the reasons to give the inbox up is there
  have hin : f.inTable = true := by
    cases hin : f.inTable with
    | true => rfl
    | false =>
        rcases h.quota hin with hreason | hreason | hreason
        · rw [hsubscribed] at hreason
          cases hreason
        · rw [hfinal] at hreason
          cases hreason
        · omega
  have hkeeping := (h.keeping.received (f.iter.received + 1)).push (.user v) (fun _ => hdone)
  have haccepted : accepted FetchMsg.passes [(.value (.user v) : Item (FetchMsg α) Empty)] =
      [.user v] := rfl
  rw [haccepted] at hkeeping
  have hsent : (f.sent ++ [v]).map FetchMsg.user = f.sent.map .user ++ [.user v] := List.map_append
  rw [processMsg_eq (ingest (.user v)) fun _ => rfl, if_pos hin]
  split
  · refine ⟨hsent ▸ hkeeping, suspended_push h.suspended (.user v), fun _ => Or.inr (Or.inr ?_)⟩
    exact List.length_append.trans (hfills ‹_›)
  · refine ⟨hsent ▸ hkeeping, suspended_push h.suspended (.user v), fun hout => ?_⟩
    have hout : f.inTable = false := hout
    rw [hin] at hout
    cases hout

/-- **A heartbeat.** -/
theorem Kept.heartbeat (h : f.Kept) (hok : f.Fits size pending (.message .heartbeat)) :
    (f.processMsg (ingest .heartbeat)).Kept := by
  have hkeeping := (h.keeping.received (f.iter.received + 1)).push .heartbeat nofun
  have haccepted : accepted FetchMsg.passes [(.value .heartbeat : Item (FetchMsg α) Empty)] = [] :=
    rfl
  rw [haccepted, List.append_nil] at hkeeping
  have hroom : ¬ f.fills = true := Bool.eq_false_iff.1 hok
  rw [processMsg_eq (ingest .heartbeat) fun _ => rfl, if_neg hroom]
  split
  · exact ⟨hkeeping, suspended_push h.suspended .heartbeat, h.quota⟩
  · exact h

/-- **A status.** -/
theorem Kept.status (h : f.Kept) {err : Option E} (hok : f.Fits size pending (.status err)) :
    ({ f.processMsg (fail err) with final := true } : Fetch α E).Kept := by
  rw [processMsg_eq (fail err) fun _ => rfl]
  split
  · have hkeeping := h.keeping.stop (hok ‹_›)
    split <;> exact ⟨hkeeping, suspended_stop h.suspended err, fun _ => Or.inr (Or.inl rfl)⟩
  · exact ⟨h.keeping, h.suspended, fun _ => Or.inr (Or.inl rfl)⟩

/-- What runs behind a message that was presented. -/
theorem Kept.dispatched (h : f.Kept) (hok : f.Fits size pending .next) :
    (f.dispatched size pending).Kept := by
  unfold Fetch.dispatched
  simp only [Fits] at hok
  split
  · rename_i v batch hc
    rw [hc] at hok
    simp only at hok ⊢
    split
    · exact ⟨h.keeping.stop (hok ‹_›), suspended_stop h.suspended none, h.quota⟩
    · exact ⟨h.keeping, h.suspended, h.quota⟩
  · exact h

/-- **One event.** -/
theorem kept_step (h : f.Kept) (hok : f.Fits size pending e)
    (hstep : step size pending f e = some f') : f'.Kept := by
  cases e with
  | message m =>
      cases m with
      | user v =>
          obtain ⟨hopen, hsome⟩ := Option.ite_none_left_eq_some.1 hstep
          rw [← Option.some.inj hsome]
          exact h.user (Bool.eq_false_iff.2 hopen) hok
      | heartbeat =>
          obtain ⟨-, hsome⟩ := Option.ite_none_left_eq_some.1 hstep
          rw [← Option.some.inj hsome]
          exact h.heartbeat hok
  | status err =>
      obtain ⟨-, hsome⟩ := Option.ite_none_left_eq_some.1 hstep
      rw [← Option.some.inj hsome]
      exact h.status hok
  | expire =>
      obtain ⟨-, hsome⟩ := Option.ite_none_right_eq_some.1 hstep
      simp only at hsome
      split at hsome
      · rw [← Option.some.inj hsome]
        exact ⟨h.keeping, h.suspended, h.quota⟩
      · rw [← Option.some.inj hsome]
        exact ⟨h.keeping, h.suspended, h.quota⟩
  | drained =>
      obtain ⟨-, hsome⟩ := Option.ite_none_right_eq_some.1 hstep
      rw [← Option.some.inj hsome]
      exact ⟨h.keeping, h.suspended, fun _ => Or.inl rfl⟩
  | closedThen =>
      obtain ⟨-, hsome⟩ := Option.ite_none_right_eq_some.1 hstep
      rw [← Option.some.inj hsome]
      exact ⟨h.keeping.stop hok, suspended_stop h.suspended none, h.quota⟩
  | next =>
      have hdispatched := h.dispatched hok
      obtain ⟨it, hnext, rfl⟩ := Option.map_eq_some_iff.1 hstep
      exact ⟨hdispatched.keeping.next hnext, QueuedIterator.isRunning_next hnext, hdispatched.quota⟩

/-! ## What the user gets -/

/-- A generator that is at a value is still there when the iterator is stopped. -/
theorem rank_stop {it : QueuedIterator (FetchMsg α) Empty E} {m : FetchMsg α}
    {batch : List (Item (FetchMsg α) Empty)} (hc : it.consumer = .presenting m batch)
    (err : Option E) : (it.stop err).rank = it.rank := by
  unfold QueuedIterator.stop
  split
  · rfl
  · refine Eq.trans (QueuedIterator.rank_of_presenting (v := m) ?_)
      (QueuedIterator.rank_of_presenting hc).symm
    exact hc

/-- What runs behind a message leaves the generator where it is. -/
theorem iter_dispatched (f : Fetch α E) : (f.dispatched size pending).iter = f.iter ∨
    ∃ m batch, f.iter.consumer = .presenting m batch ∧
      (f.dispatched size pending).iter = f.iter.stop none := by
  unfold Fetch.dispatched
  split
  · rename_i v batch hc
    simp only
    split
    · exact Or.inr ⟨_, _, hc, rfl⟩
    · exact Or.inl rfl
  · exact Or.inl rfl

/-- **Nothing lost** is what the user sees. -/
theorem Kept.complete (h : f.Kept) : f.Complete size pending := by
  refine ⟨h.keeping.yielded_initial, fun hstuck => ?_, fun f' hstep => ?_, h.quota⟩
  · have hnext := Option.map_eq_none_iff.1 hstuck
    rcases iter_dispatched f with hsame | ⟨m, batch, hc, hstop⟩
    · rw [hsame] at hnext
      exact h.keeping.yielded_of_stuck h.suspended hnext
    · -- a generator at a value can go on
      exfalso
      rw [hstop] at hnext
      have hc' : (f.iter.stop none).consumer = .presenting m batch := by
        rw [QueuedIterator.consumer_stop]
        exact hc
      simp only [QueuedIterator.next, QueuedIterator.resume, hc', Option.map_some] at hnext
      cases hnext
  · obtain ⟨it, hnext, rfl⟩ := Option.map_eq_some_iff.1 hstep
    have hlt := QueuedIterator.rank_next hnext
    rcases iter_dispatched f with hsame | ⟨m, batch, hc, hstop⟩
    · rw [hsame] at hlt
      exact hlt
    · rw [hstop, rank_stop hc] at hlt
      exact hlt

/-- **A fetch is complete** in the runs in which no heartbeat fills the subscription, and the
iterator is stopped only where no message is in its queue. -/
theorem fetch_complete (size pending : α → Nat) (opts : PullOptions) (f : Fetch α E)
    (es : List (FetchEvent α E)) (hrun : run (step size pending) (new opts) es = some f)
    (hok : Meets (step size pending) (Fits size pending) (new opts) es) :
    f.Complete size pending := by
  have hkept : f.Kept :=
    invariant_run_of_meets (fun _ _ _ h hok hstep => kept_step h hok hstep) hrun hok (kept_new opts)
  exact hkept.complete

end

/-- A batch of two, with a heartbeat behind the first message that leaves room; the status comes in
when the user is through. -/
theorem fetch_complete_heartbeat :
    ∃ f : Fetch Nat Unit, run (step (fun _ => 1) (fun _ => 4)) (new ⟨some 3, 1000, 0⟩)
        [.message (.user 7), .next, .message .heartbeat, .next, .expire, .message (.user 8),
          .next, .next, .status none, .next] = some f ∧
      f.iter.consumer = .finished none ∧ f.iter.yielded = [.user 7, .user 8] := by
  let es : List (FetchEvent Nat Unit) :=
    [.message (.user 7), .next, .message .heartbeat, .next, .expire, .message (.user 8),
      .next, .next, .status none, .next]
  have hends : (run (step (fun _ => 1) (fun _ => 4)) (new ⟨some 3, 1000, 0⟩) es).any (fun f =>
      f.iter.consumer = .finished none ∧ f.sent = [7, 8] ∧
        (f.step (fun _ => 1) (fun _ => 4) .next).isNone) = true := by
    decide +kernel
  obtain ⟨f, hrun, hf⟩ := (Option.any_eq_true _ _).1 hends
  obtain ⟨hfinished, hsent, hstuck⟩ := of_decide_eq_true hf
  have hcomplete :=
    fetch_complete (fun _ => 1) (fun _ => 4) ⟨some 3, 1000, 0⟩ f es hrun (by decide +kernel)
  refine ⟨f, hrun, hfinished, ?_⟩
  rw [hcomplete.complete (Option.isNone_iff_eq_none.1 hstuck), hsent]
  rfl

/-- A heartbeat in front of the only message of a batch of one takes its place. -/
theorem not_fetch_complete :
    ¬ ∀ (size pending : Nat → Nat) (opts : PullOptions) (f : Fetch Nat Unit) (es : List
      (FetchEvent Nat Unit)), run (step size pending) (new opts) es = some f →
      f.Complete size pending := by
  intro h
  let es : List (FetchEvent Nat Unit) :=
    [.next, .message .heartbeat, .message (.user 7), .closedThen, .next]
  have hends : (run (step (fun _ => 1) (fun _ => 4)) (new ⟨some 1, 1000, 0⟩) es).any (fun f =>
      f.iter.yielded = [] ∧ f.sent = [7] ∧
      (f.step (fun _ => 1) (fun _ => 4) .next).isNone) = true := by
    decide +kernel
  obtain ⟨f, hrun, hf⟩ := (Option.any_eq_true _ _).1 hends
  obtain ⟨hyielded, hsent, hstuck⟩ := of_decide_eq_true hf
  have hcomplete := (h (fun _ => 1) (fun _ => 4) ⟨some 1, 1000, 0⟩ f es hrun).complete
    (Option.isNone_iff_eq_none.1 hstuck)
  rw [hyielded, hsent] at hcomplete
  cases hcomplete

end Fetch

end NatsClient.JetStream
