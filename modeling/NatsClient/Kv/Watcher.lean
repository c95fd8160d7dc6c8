import NatsClient.Foundation.Run
import NatsClient.Iterator.Trace
import NatsClient.JetStream.DeliverPolicy
import NatsClient.Kv.Bucket

/-!
# Watching a bucket

What `watch` and `history` (`kv.ts`) have in common: an ordered consumer feeds a callback, which
pushes the entries into the iterator that the user gets, and a function `fn` that marks the end of
what was there at the start. The code behind `subscribe` reads the pending count of the create
response and calls `fn` itself if nothing is to come.

Other clients may publish, and messages may be removed, between any two steps. `fn` is what the user
gave (`watch`) or the stop of the iterator (`history`); its `Effect` is a parameter, and so is the
callback. An `undefined` that is pushed is the value `none`.

`initial`, `delivered` and `position` are logs: what the consumer selected when it was created, what
it delivered since, and how many entries were pushed in front of `fn`.
-/

set_option autoImplicit false

namespace NatsClient.Kv

open NatsClient.Foundation NatsClient.JetStream NatsClient.Iterator

/-- The stream and its consumer, and the variables of `watch` or `history`. `last` is the number of
messages that the create response reported, once it is on its way. -/
structure Watcher (E : Type) where
  stream : Stream
  feed : Feed Body
  last : Option Nat
  subscribed : Bool
  count : Nat
  fn : Bool
  qi : QueuedIterator (Option KvEntry) Unit E
  notified : Nat
  initial : List Msg
  delivered : List Msg
  position : Option Nat

/-- What can happen. -/
inductive WatchEvent where
  | deliver
  | created
  | subscribed
  | next
  | publish (p : Publication Body) (time : Nat)
  | remove (seq : Nat)
  | purge (filter : Text) (keep : Nat)
deriving DecidableEq, Repr

/-- The entry of a delivered message; with `headers_only` its payload was left out. -/
def Bucket.entryOf (b : Bucket) (headersOnly : Bool) (jm : Msg) : KvEntry :=
  b.jmToEntry (if headersOnly then { jm with body := { jm.body with data := [] } } else jm)

/-- A consumer with several filters. An empty list is left out of its configuration, and it takes
every subject. -/
def matchesAny (filters : List Text) (subject : Text) : Bool :=
  filters.isEmpty || filters.any fun filter => subjectMatches filter subject

namespace Watcher

variable {E : Type}

/-- The request for the consumer is on its way, and the consumer exists. -/
def new (stream : Stream) (policy : DeliverPolicy) (filters : List Text) (fn : Bool) : Watcher E :=
  let feed := Feed.create stream policy (matchesAny filters)
  { stream := stream
    feed := feed
    last := none
    subscribed := false
    count := 0
    fn := fn
    qi := .new
    notified := 0
    initial := feed.pending stream
    delivered := []
    position := none }

/-- `qi.push(e)` and `qi.received++`. -/
def receive (w : Watcher E) (e : KvEntry) : Watcher E :=
  let qi := w.qi.push (some e) ⟨true, false⟩
  { w with qi := { qi with received := qi.received + 1 } }

/-- `qi.push(fn)` and `fn = undefined`. -/
def pushFn (w : Watcher E) : Watcher E :=
  { w with qi := w.qi.pushFn (), fn := false, position := some w.qi.received }

/-- `qi.push(undefined)`. -/
def pushUndefined (w : Watcher E) : Watcher E := { w with qi := w.qi.push none ⟨true, false⟩ }

/-- `fn()` within its `try`, and `fn = undefined`. -/
def callFn (effect : Effect E) (w : Watcher E) : Watcher E :=
  let qi := w.qi.apply effect
  { w with
    qi :=
      match effect.throws with
      | some e => qi.stop (some e)
      | none => qi
    fn := false
    notified := w.notified + 1
    position := some w.qi.received }

/-- The code behind the `await` of `subscribe`. -/
def afterSubscribe (effect : Effect E) (w : Watcher E) (expect : Nat) : Watcher E :=
  let w := { w with subscribed := true }
  if w.fn then
    if expect = 0 ∨ expect ≤ w.qi.received then w.callFn effect else { w with count := expect }
  else w

/-- The consumer delivers a message. -/
def delivering (w : Watcher E) (m : Msg) : Watcher E :=
  { w with feed := w.feed.deliver m, delivered := w.delivered ++ [m] }

section

variable (callback : Watcher E → Msg → Nat → Watcher E) (effect : Effect E)

/-- One event; `none` where it cannot happen. -/
def step (w : Watcher E) : WatchEvent → Option (Watcher E)
  | .deliver =>
      match w.feed.pending w.stream with
      | [] => none
      | m :: rest => some (callback (w.delivering m) m rest.length)
  | .created =>
      match w.last with
      | none => some { w with last := some ((w.feed.pending w.stream).length + w.feed.consumerSeq) }
      | some _ => none
  | .subscribed =>
      match w.last, w.subscribed with
      | some expect, false => some (w.afterSubscribe effect expect)
      | _, _ => none
  | .next =>
      -- the user has the iterator once the call returned
      if w.subscribed then
        (w.qi.next (fun _ => true) fun _ => effect).map fun qi => { w with qi := qi }
      else none
  | .publish p time => some { w with stream := w.stream.append p time }
  | .remove seq => some { w with stream := w.stream.remove seq }
  | .purge filter keep => some { w with stream := w.stream.purge filter keep }

end

section

variable {w : Watcher E} {items : List (Item (Option KvEntry) Unit)}

@[simp] theorem received_receive (e : KvEntry) : (w.receive e).qi.received = w.qi.received + 1 :=
  congrArg (· + 1) (QueuedIterator.received_push w.qi _ _)

theorem running_receive (h : w.qi.Running) (e : KvEntry) : (w.receive e).qi.Running :=
  have hpush := h.push (some e) ⟨true, false⟩
  ⟨hpush.done, hpush.err, hpush.consumer⟩

/-- An entry goes into an iterator that nothing has stopped. -/
theorem traced_receive (h : w.qi.Traced (fun _ => true) items) (hdone : w.qi.done = false)
    (e : KvEntry) : (w.receive e).qi.Traced (fun _ => true) (items ++ [.value (some e)]) := by
  have hpush := h.push (some e) (r := ⟨true, false⟩) rfl
  rw [hdone, if_neg Bool.false_ne_true] at hpush
  obtain ⟨processed, hthrough⟩ := hpush
  exact ⟨processed, hthrough.yielded, hthrough.called, hthrough.initial, hthrough.rest,
    hthrough.closed⟩

theorem traced_pushFn (h : w.qi.Traced (fun _ => true) items) (hdone : w.qi.done = false) :
    w.pushFn.qi.Traced (fun _ => true) (items ++ [.fn ()]) := by
  have hpush := h.pushFn ()
  rw [hdone, if_neg Bool.false_ne_true] at hpush
  exact hpush

end

/-- How often `fn` was called. -/
def invoked (w : Watcher E) : Nat := w.notified + w.qi.called.length

/-- The event is one of the consumer or of the user. -/
def Quiet (_ : Watcher E) : WatchEvent → Prop
  | .deliver | .created | .subscribed | .next => True
  | .publish .. | .remove _ | .purge .. => False

instance (w : Watcher E) : (e : WatchEvent) → Decidable (w.Quiet e)
  | .deliver | .created | .subscribed | .next => isTrue trivial
  | .publish .. | .remove _ | .purge .. => isFalse id

/-- Everything was delivered, the call returned, and the user took all there is. -/
def Drained (w : Watcher E) : Prop :=
  w.feed.pending w.stream = [] ∧ w.subscribed = true ∧
    (w.qi.consumer.isFinished = true ∨ w.qi.consumer = .waiting ∧ w.qi.yields = [])

end Watcher

end NatsClient.Kv
