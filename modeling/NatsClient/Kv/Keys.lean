import NatsClient.Iterator.Losing
import NatsClient.Iterator.Stopping
import NatsClient.JetStream.Upstream
import NatsClient.Kv.Watcher

/-!
# Listing the keys of a bucket

Model of `keys` (`kv.ts`). A consumer that starts at the last message of every subject feeds an
iterator `sub`; a loop over it pushes the keys of the messages that are no markers into the iterator
that the user gets, and unsubscribes behind the first message with nothing pending. When the loop
ends, the iterator of the user is stopped. Where the create response says that nothing is pending,
the code behind `subscribe` unsubscribes at once.

Other clients may publish, and messages may be removed, between any two steps. Messages are on their
way for some time (`wire`); those that come in behind the end of the subscription are dropped.
`pushed` is a log of the keys.

* `keys_complete`: what a listing beside writers says;
* `keys_exact`: when a listing without writers has all keys.
-/

set_option autoImplicit false

namespace NatsClient.Kv

open NatsClient.Foundation NatsClient.JetStream NatsClient.Iterator

/-- The stream and its consumer, the variables of `keys`, and its two iterators. `numPending` is
that of the create response; a message is on its way with the number of those behind it. -/
structure Keys (E : Type) where
  source : Upstream Body
  numPending : Option Nat
  subscribed : Bool
  wire : List (Msg × Nat)
  sub : QueuedIterator (Msg × Nat) Empty E
  closed : Bool
  keys : QueuedIterator Text Empty E
  pushed : List Text

/-- What can happen. `close` is the continuation of `sub.closed`, which stops the iterator; `read`
is a round of the loop over it, and `stop` is what stands behind the loop. -/
inductive KeysEvent where
  | server (e : UpstreamEvent Body)
  | created
  | subscribed
  | arrive
  | close
  | read
  | stop
  | next
deriving DecidableEq, Repr

/-- Another client writes, or the stream drops something. -/
def KeysEvent.isWrite : KeysEvent → Bool
  | .server e => e.isWrite
  | _ => false

/-- A message that is no marker. -/
def Body.live (b : Body) : Bool := b.operation ≠ some .DEL && b.operation ≠ some .PURGE

/-- The key of a subject. -/
def Bucket.keyOf (b : Bucket) (subject : Text) : Text := b.decodeKey (subject.drop b.prefixLen)

/-- The iterators run no functions. -/
def silent {E : Type} : Empty → Effect E := fun f => f.elim

namespace Keys

variable {E : Type}

/-- The request for the consumer is on its way, and the consumer exists. -/
def new (stream : Stream) (filters : List Text) : Keys E where
  source := .create stream (matchesAny filters)
  numPending := none
  subscribed := false
  wire := []
  sub := .new
  closed := false
  keys := .new
  pushed := []

section

variable (b : Bucket)

/-- `keys(k)` up to the `await` of `subscribe`. -/
def start (ks : List Text) (stream : Stream) : Except Text (Keys E) := do
  let filters ← ks.mapM b.filterFor
  return .new stream filters

/-- The body of the loop. -/
def body (l : Keys E) (x : Msg × Nat) : Keys E :=
  let key := b.keyOf x.1.subject
  let l :=
    if x.1.body.live then
      { l with keys := l.keys.push key ⟨true, false⟩, pushed := l.pushed ++ [key] } else l
  if x.2 = 0 then { l with closed := true } else l

/-- A round of the loop: the next message, or none. -/
def round (l : Keys E) (sub : QueuedIterator (Msg × Nat) Empty E) : Keys E :=
  match sub.consumer with
  | .presenting x _ => body b { l with sub } x
  | _ => { l with sub }

/-- One event; `none` where it cannot happen. -/
def step (l : Keys E) : KeysEvent → Option (Keys E)
  | .server e =>
      (l.source.step e).map fun source => { l with source, wire := l.wire ++ l.source.out e }
  | .created =>
      match l.numPending with
      | none => some { l with numPending := some l.source.pending.length }
      | some _ => none
  | .subscribed =>
      match l.numPending, l.subscribed with
      -- nothing was pending as the consumer was created
      | some n, false => some { l with subscribed := true, closed := l.closed || n = 0 }
      | _, _ => none
  | .arrive =>
      match l.wire with
      | [] => none
      | x :: wire =>
          -- nothing is pushed behind `unsubscribe()`
          some { l with wire, sub := if l.closed then l.sub else l.sub.push x ⟨true, false⟩ }
  | .close => if l.closed && !l.sub.done then some { l with sub := l.sub.stop none } else none
  | .read => if l.subscribed then (l.sub.next (fun _ => true) silent).map (l.round b) else none
  | .stop =>
      match l.sub.consumer with
      | .finished err => if l.keys.done then none else some { l with keys := l.keys.stop err }
      | _ => none
  | .next =>
      if l.subscribed then (l.keys.next (fun _ => true) silent).map fun keys =>
        { l with keys } else none

end

section

variable {b : Bucket} {l l' : Keys E} {e : KeysEvent} {x : Msg × Nat}

theorem body_eq (l : Keys E) (x : Msg × Nat) :
    body b l x =
      { l with
        keys := if x.1.body.live then l.keys.push (b.keyOf x.1.subject) ⟨true, false⟩ else l.keys
        pushed := l.pushed ++ if x.1.body.live then [b.keyOf x.1.subject] else []
        closed := l.closed || x.2 = 0 } := by
  unfold body
  by_cases hlive : x.1.body.live = true
  · by_cases hzero : x.2 = 0
    · simp [hlive, hzero]
    · simp [hlive, hzero]
  · by_cases hzero : x.2 = 0
    · simp [hlive, hzero]
    · simp [hlive, hzero]

/-- **What one event does.** -/
inductive Step (b : Bucket) (l : Keys E) : KeysEvent → Keys E → Prop where
  | server (e : UpstreamEvent Body) (source : Upstream Body)
      (hsource : l.source.step e = some source) :
      Step b l (.server e) { l with source, wire := l.wire ++ l.source.out e }
  | created (hnone : l.numPending = none) :
      Step b l .created { l with numPending := some l.source.pending.length }
  | subscribed (n : Nat) (hn : l.numPending = some n) (hsub : l.subscribed = false) :
      Step b l .subscribed { l with subscribed := true, closed := l.closed || n = 0 }
  | arrive (x : Msg × Nat) (wire : List (Msg × Nat)) (hwire : l.wire = x :: wire)
      (hopen : l.closed = false) :
      Step b l .arrive { l with wire, sub := l.sub.push x ⟨true, false⟩ }
  | drop (x : Msg × Nat) (wire : List (Msg × Nat)) (hwire : l.wire = x :: wire)
      (hclosed : l.closed = true) :
      Step b l .arrive { l with wire }
  | close (hclosed : l.closed = true) (hopen : l.sub.done = false) :
      Step b l .close { l with sub := l.sub.stop none }
  | present (sub : QueuedIterator (Msg × Nat) Empty E) (x : Msg × Nat) (hsub : l.subscribed = true)
      (hnext : l.sub.next (fun _ => true) silent = some sub)
      (hyielded : sub.yielded = l.sub.yielded ++ [x]) :
      Step b l .read (body b { l with sub } x)
  | turn (sub : QueuedIterator (Msg × Nat) Empty E) (hsub : l.subscribed = true)
      (hnext : l.sub.next (fun _ => true) silent = some sub)
      (hyielded : sub.yielded = l.sub.yielded) :
      Step b l .read { l with sub }
  | stop (err : Option E) (hfinished : l.sub.consumer = .finished err)
      (hopen : l.keys.done = false) :
      Step b l .stop { l with keys := l.keys.stop err }
  | next (keys : QueuedIterator Text Empty E) (hsub : l.subscribed = true)
      (hnext : l.keys.next (fun _ => true) silent = some keys) : Step b l .next { l with keys }

theorem step_round {sub : QueuedIterator (Msg × Nat) Empty E} (hsub : l.subscribed = true)
    (hnext : l.sub.next (fun _ => true) silent = some sub) : Step b l .read (l.round b sub) := by
  have hpresented := QueuedIterator.presented_next hnext
  unfold QueuedIterator.Presented at hpresented
  unfold round
  cases hc : sub.consumer with
  | presenting x batch =>
      rw [hc] at hpresented
      exact .present sub x hsub hnext hpresented
  | idle | waiting | running batch | finished err =>
      rw [hc] at hpresented
      exact .turn sub hsub hnext hpresented

theorem step_of_eq (h : step b l e = some l') : Step b l e l' := by
  cases e with
  | server e =>
      obtain ⟨source, hsource, heq⟩ := Option.map_eq_some_iff.1 h
      exact heq ▸ .server e source hsource
  | created =>
      cases hnum : l.numPending with
      | none =>
          simp only [step, hnum, Option.some.injEq] at h
          exact h ▸ .created hnum
      | some n =>
          simp only [step, hnum] at h
          cases h
  | subscribed =>
      cases hnum : l.numPending with
      | none =>
          simp only [step, hnum] at h
          cases h
      | some n =>
          cases hsub : l.subscribed with
          | true =>
              simp only [step, hnum, hsub] at h
              cases h
          | false =>
              have hstep := @Step.subscribed _ b l n hnum hsub
              simp only [step, hnum, hsub, Option.some.injEq] at h hstep
              exact h ▸ hstep
  | arrive =>
      cases hwire : l.wire with
      | nil =>
          simp only [step, hwire] at h
          cases h
      | cons x wire =>
          simp only [step, hwire, Option.some.injEq] at h
          -- behind the close, what comes in is not for the subscription any more
          by_cases hclosed : l.closed = true
          · rw [if_pos hclosed] at h
            exact h ▸ .drop x wire hwire hclosed
          · rw [if_neg hclosed] at h
            exact h ▸ .arrive x wire hwire (Bool.eq_false_iff.2 hclosed)
  | close =>
      obtain ⟨hboth, heq⟩ := Option.ite_none_right_eq_some.1 h
      rw [Bool.and_eq_true, Bool.not_eq_true'] at hboth
      exact Option.some.inj heq ▸ .close hboth.1 hboth.2
  | read =>
      obtain ⟨hsub, hmap⟩ := Option.ite_none_right_eq_some.1 h
      obtain ⟨sub, hnext, heq⟩ := Option.map_eq_some_iff.1 hmap
      exact heq ▸ step_round hsub hnext
  | stop =>
      cases hc : l.sub.consumer with
      | finished err =>
          simp only [step, hc] at h
          obtain ⟨hopen, heq⟩ := Option.ite_none_left_eq_some.1 h
          exact Option.some.inj heq ▸ .stop err hc (Bool.eq_false_iff.2 hopen)
      | idle | waiting | presenting x batch | running batch =>
          simp only [step, hc] at h
          cases h
  | next =>
      obtain ⟨hsub, hmap⟩ := Option.ite_none_right_eq_some.1 h
      obtain ⟨keys, hnext, heq⟩ := Option.map_eq_some_iff.1 hmap
      exact heq ▸ .next keys hsub hnext

/-! ## The loop -/

/-- What the loop and the iterators keep. -/
structure Loop (b : Bucket) (l : Keys E) : Prop where
  arrived : ∃ arrived, l.sub.Traced (fun _ => true) (arrived.map .value) ∧
    arrived <+: l.source.sent ∧ (l.closed = false → l.source.sent = arrived ++ l.wire)
  calm : l.sub.Calm l.sub.done
  waits : l.sub.consumer.isRunning = false
  pushed : l.pushed = (l.sub.yielded.filter fun x => x.1.body.live).map fun x => b.keyOf x.1.subject
  subscribed : l.subscribed = true → l.numPending ≠ none
  closed : l.closed = true ↔
    (∃ x ∈ l.sub.yielded, x.2 = 0) ∨ l.subscribed = true ∧ l.numPending = some 0
  done : l.sub.done = true → l.closed = true
  ended : l.keys.done = true → l.sub.consumer.isFinished = true
  keysCalm : l.keys.Calm l.keys.done
  keysWaits : l.keys.consumer.isRunning = false
  keys : l.keys.Keeping (fun _ => true) l.pushed ∨ l.keys.Losing (fun _ => true) l.pushed

theorem loop_new (stream : Stream) (filters : List Text) :
    Loop b (new stream filters : Keys E) where
  arrived := ⟨[], QueuedIterator.traced_new, List.nil_prefix, fun _ => rfl⟩
  calm := QueuedIterator.calm_new
  waits := rfl
  pushed := rfl
  subscribed hsub := by cases hsub
  closed := by simp [new, QueuedIterator.new]
  done hdone := by cases hdone
  ended hdone := by cases hdone
  keysCalm := QueuedIterator.calm_new
  keysWaits := rfl
  keys := .inl QueuedIterator.keeping_new

/-- An iterator that is open has all keys. -/
theorem Loop.keeping_of_open (h : Loop b l) (hopen : l.keys.done = false) :
    l.keys.Keeping (fun _ => true) l.pushed := by
  refine h.keys.resolve_right fun hlosing => ?_
  cases hopen.symm.trans hlosing.done

/-- While the loop runs, the iterator of the user is open. -/
theorem Loop.isOpen {sub : QueuedIterator (Msg × Nat) Empty E} (h : Loop b l)
    (hnext : l.sub.next (fun _ => true) silent = some sub) : l.keys.done = false := by
  apply Bool.eq_false_iff.2
  intro hdone
  have hfinished := h.ended hdone
  cases hc : l.sub.consumer with
  | finished err => simp [QueuedIterator.next, QueuedIterator.resume, hc] at hnext
  | idle | waiting | presenting x batch | running batch =>
      rw [hc] at hfinished
      cases hfinished

theorem isOpen_body (hopen : l.keys.done = false) : (body b l x).keys.done = false := by
  rw [body_eq]
  show (if x.1.body.live then l.keys.push (b.keyOf x.1.subject) ⟨true, false⟩ else l.keys).done =
      false
  split
  · rw [QueuedIterator.push, hopen, if_neg Bool.false_ne_true, if_pos rfl]
  · exact hopen

/-- A round behind which the loop goes on. -/
theorem Loop.turn {sub : QueuedIterator (Msg × Nat) Empty E} (h : Loop b l)
    (hnext : l.sub.next (fun _ => true) silent = some sub)
    (hyielded : sub.yielded = l.sub.yielded) : Loop b { l with sub } := by
  obtain ⟨arrived, htraced, hsent, hwire⟩ := h.arrived
  have hcalm := h.calm.next hnext
  have hopen := h.isOpen hnext
  exact
    { arrived := ⟨arrived, htraced.next hnext, hsent, hwire⟩
      calm := hcalm.self
      waits := QueuedIterator.isRunning_next hnext
      pushed := by
        show l.pushed = (sub.yielded.filter _).map _
        rw [hyielded]
        exact h.pushed
      subscribed := h.subscribed
      closed := by
        show l.closed = true ↔ (∃ x ∈ sub.yielded, x.2 = 0) ∨ _
        rw [hyielded]
        exact h.closed
      done := fun hdone => h.done (hcalm.done_eq ▸ hdone)
      ended := fun hdone => by
        rw [show l.keys.done = true from hdone] at hopen
        cases hopen
      keysCalm := h.keysCalm
      keysWaits := h.keysWaits
      keys := .inl (h.keeping_of_open hopen) }

/-- The body of the loop. -/
theorem Loop.present {sub : QueuedIterator (Msg × Nat) Empty E} (h : Loop b l)
    (hnext : l.sub.next (fun _ => true) silent = some sub)
    (hyielded : sub.yielded = l.sub.yielded ++ [x]) : Loop b (body b { l with sub } x) := by
  obtain ⟨arrived, htraced, hsent, hwire⟩ := h.arrived
  have hcalm := h.calm.next hnext
  have hopen := h.isOpen hnext
  rw [body_eq]
  exact
    { arrived :=
        ⟨arrived, htraced.next hnext, hsent,
          fun hclosed => hwire (Bool.or_eq_false_iff.1 hclosed).1⟩
      calm := hcalm.self
      waits := QueuedIterator.isRunning_next hnext
      pushed := by
        show l.pushed ++ _ = (sub.yielded.filter _).map _
        -- a marker is read, and not pushed
        rw [hyielded, List.filter_append, List.map_append, ← h.pushed]
        by_cases hlive : x.1.body.live = true
        · simp [hlive]
        · simp [hlive]
      subscribed := h.subscribed
      closed := by
        show (l.closed || decide (x.2 = 0)) = true ↔ (∃ x ∈ sub.yielded, x.2 = 0) ∨ _
        -- the message with nothing pending behind it is the last
        rw [hyielded, Bool.or_eq_true, decide_eq_true_eq, h.closed]
        simp only [List.mem_append, List.mem_singleton, or_and_right, exists_or, exists_eq_left]
        exact or_right_comm
      done := fun hdone => Bool.or_eq_true_iff.2 (.inl (h.done (hcalm.done_eq ▸ hdone)))
      ended := fun hdone => by
        rw [← body_eq, isOpen_body (l := { l with sub }) hopen] at hdone
        cases hdone
      keysCalm := by
        show (if x.1.body.live then l.keys.push (b.keyOf x.1.subject) ⟨true, false⟩
          else l.keys).Calm _
        split
        · exact (h.keysCalm.push (b.keyOf x.1.subject)).self
        · exact h.keysCalm
      keysWaits := by
        show (if x.1.body.live then l.keys.push (b.keyOf x.1.subject) ⟨true, false⟩
          else l.keys).consumer.isRunning = false
        split
        · rw [QueuedIterator.consumer_push]
          exact h.keysWaits
        · exact h.keysWaits
      keys := by
        left
        show (if x.1.body.live then l.keys.push (b.keyOf x.1.subject) ⟨true, false⟩
          else l.keys).Keeping _ (l.pushed ++ _)
        split
        · exact (h.keeping_of_open hopen).push _ fun _ => hopen
        · rw [List.append_nil]
          exact h.keeping_of_open hopen }

/-- A message comes in. -/
theorem Loop.arrive {wire : List (Msg × Nat)} (h : Loop b l) (hwires : l.wire = x :: wire)
    (hclosed : l.closed = false) : Loop b { l with wire, sub := l.sub.push x ⟨true, false⟩ } := by
  obtain ⟨arrived, htraced, -, hwire⟩ := h.arrived
  have hsent := hwire hclosed
  rw [hwires, List.append_cons] at hsent
  have hopen : l.sub.done = false := by
    apply Bool.eq_false_iff.2
    intro hdone
    -- the iterator is stopped by the close only
    rw [h.done hdone] at hclosed
    cases hclosed
  have hpush := htraced.push x (r := ⟨true, false⟩) rfl
  have hcalm := h.calm.push x
  rw [hopen, if_neg Bool.false_ne_true] at hpush
  have hyielded : (l.sub.push x ⟨true, false⟩).yielded = l.sub.yielded := by
    rw [QueuedIterator.push, hopen, if_neg Bool.false_ne_true, if_pos rfl]
  exact
    { arrived :=
        ⟨arrived ++ [x],
          by rw [List.map_append]; exact hpush, hsent ▸ List.prefix_append _ _, fun _ => hsent⟩
      calm := hcalm.self
      waits := by
        show (l.sub.push x ⟨true, false⟩).consumer.isRunning = false
        rw [QueuedIterator.consumer_push]
        exact h.waits
      pushed := by
        show l.pushed = ((l.sub.push x ⟨true, false⟩).yielded.filter _).map _
        rw [hyielded]
        exact h.pushed
      subscribed := h.subscribed
      closed := by
        show l.closed = true ↔ (∃ y ∈ (l.sub.push x ⟨true, false⟩).yielded, y.2 = 0) ∨ _
        rw [hyielded]
        exact h.closed
      done := fun hdone => h.done (hcalm.done_eq ▸ hdone)
      ended := fun hdone => by
        show (l.sub.push x ⟨true, false⟩).consumer.isFinished = true
        rw [QueuedIterator.consumer_push]
        exact h.ended hdone
      keysCalm := h.keysCalm
      keysWaits := h.keysWaits
      keys := h.keys }

/-- The subscription is closed. -/
theorem Loop.close (h : Loop b l) (hclosed : l.closed = true) :
    Loop b { l with sub := l.sub.stop none } := by
  obtain ⟨arrived, htraced, hsent, hwire⟩ := h.arrived
  have hyielded := QueuedIterator.yielded_stop l.sub none
  exact
    { arrived := ⟨arrived, htraced.stop none, hsent, hwire⟩
      calm := h.calm.stop.self
      waits := by
        show (l.sub.stop none).consumer.isRunning = false
        rw [QueuedIterator.consumer_stop]
        exact h.waits
      pushed := by
        show l.pushed = ((l.sub.stop none).yielded.filter _).map _
        rw [hyielded]
        exact h.pushed
      subscribed := h.subscribed
      closed := by
        show l.closed = true ↔ (∃ y ∈ (l.sub.stop none).yielded, y.2 = 0) ∨ _
        rw [hyielded]
        exact h.closed
      done := fun _ => hclosed
      ended := fun hdone => by
        show (l.sub.stop none).consumer.isFinished = true
        rw [QueuedIterator.consumer_stop]
        exact h.ended hdone
      keysCalm := h.keysCalm
      keysWaits := h.keysWaits
      keys := h.keys }

/-- The loop is over. -/
theorem Loop.stop {err : Option E} (h : Loop b l) (hfinished : l.sub.consumer = .finished err)
    (hopen : l.keys.done = false) :
    Loop b { l with keys := l.keys.stop err } ∧
      ((l.keys.stop err).Keeping (fun _ => true) l.pushed ↔
        l.keys.Harmless (fun _ => true) none) := by
  cases h.calm.finished err hfinished
  have hkeys := h.keeping_of_open hopen
  refine ⟨?_, ?_, hkeys.stop⟩
  · refine { h with
      ended := fun _ => ?_, keysCalm := h.keysCalm.stop.self, keysWaits := ?_, keys := ?_ }
    · show l.sub.consumer.isFinished = true
      rw [hfinished]
      rfl
    · show (l.keys.stop none).consumer.isRunning = false
      rw [QueuedIterator.consumer_stop]
      exact h.keysWaits
    · by_cases hharm : l.keys.Harmless (fun _ => true) none
      · exact .inl (hkeys.stop hharm)
      · exact .inr (hkeys.losing hharm)
  · intro hkept
    by_contra hharm
    exact (hkeys.losing hharm).not_keeping hkept

/-- **What one event keeps of the loop.** -/
theorem Loop.step (h : Loop b l) (hstep : Step b l e l') : Loop b l' := by
  cases hstep with
  | server e source hsource =>
      obtain ⟨arrived, htraced, hsent, hwire⟩ := h.arrived
      have hout := Upstream.sent_step hsource
      refine { h with arrived := ⟨arrived, htraced, ?_, fun hclosed => ?_⟩ }
      · exact hsent.trans (hout ▸ List.prefix_append _ _)
      · -- what the server sends goes on the wire
        rw [hout, hwire hclosed, List.append_assoc]
  | created hnone =>
      have hsub : ¬ l.subscribed = true := fun hsub => h.subscribed hsub hnone
      refine { h with subscribed := fun hsub' => absurd hsub' hsub, closed := ?_ }
      refine h.closed.trans (or_congr_right (iff_of_false ?_ ?_))
      · exact fun hboth => hsub hboth.1
      · exact fun hboth => hsub hboth.1
  | subscribed n hn hsub =>
      obtain ⟨arrived, htraced, hsent, hwire⟩ := h.arrived
      refine
        { h with
          arrived :=
            ⟨arrived, htraced, hsent, fun hclosed => hwire (Bool.or_eq_false_iff.1 hclosed).1⟩
          subscribed := fun _ hnone => by rw [show l.numPending = none from hnone] at hn; cases hn
          closed := ?_
          done := fun hdone => Bool.or_eq_true_iff.2 (.inl (h.done hdone)) }
      show (l.closed || decide (n = 0)) = true ↔ (∃ x ∈ l.sub.yielded, x.2 = 0) ∨ true = true ∧
          l.numPending = some 0
      -- a consumer with nothing pending closes the subscription at once
      rw [Bool.or_eq_true, h.closed, hsub, hn, decide_eq_true_eq]
      simp
  | arrive x wire hwires hopen => exact h.arrive hwires hopen
  | drop x wire hwires hclosed =>
      obtain ⟨arrived, htraced, hsent, -⟩ := h.arrived
      refine { h with arrived := ⟨arrived, htraced, hsent, fun hopen => ?_⟩ }
      -- what is dropped came in behind the close
      cases hclosed.symm.trans hopen
  | close hclosed hopen => exact h.close hclosed
  | present sub x hsub hnext hyielded => exact h.present hnext hyielded
  | turn sub hsub hnext hyielded => exact h.turn hnext hyielded
  | stop err hfinished hopen => exact (h.stop hfinished hopen).1
  | next keys hsub hnext =>
      have hcalm := h.keysCalm.next hnext
      exact
        { h with
          ended := fun hdone => h.ended (hcalm.done_eq ▸ hdone)
          keysCalm := hcalm.self
          keysWaits := QueuedIterator.isRunning_next hnext
          keys := h.keys.imp (fun hkeep => hkeep.next hnext) fun hlosing => hlosing.next hnext }

/-! ## The conditions -/

/-- The event leaves the last message of the subject, or puts one there that is no marker. -/
def Spares (subject : Text) (l : Keys E) : KeysEvent → Prop
  | .server e => l.source.Spares Body.live subject e
  | _ => True

/-- No key is lost where the iterator is stopped. -/
def Harmless (l : Keys E) : KeysEvent → Prop
  | .stop => l.keys.Harmless (fun _ => true) none
  | _ => True

/-- The create response is made in front of the first delivery. -/
def Answered (l : Keys E) (e : KeysEvent) : Prop := e = .created → l.source.sent = []

/-- And nobody writes. -/
def Quiet (l : Keys E) (e : KeysEvent) : Prop := e.isWrite = false ∧ l.Answered e

instance (subject : Text) (l : Keys E) : (e : KeysEvent) → Decidable (l.Spares subject e)
  | .server e => inferInstanceAs (Decidable (l.source.Spares Body.live subject e))
  | .created | .subscribed | .arrive | .close | .read | .stop | .next => isTrue trivial

instance (l : Keys E) : (e : KeysEvent) → Decidable (l.Harmless e)
  | .stop => inferInstanceAs (Decidable (l.keys.Harmless (fun _ => true) none))
  | .server _ | .created | .subscribed | .arrive | .close | .read | .next => isTrue trivial

instance (l : Keys E) (e : KeysEvent) : Decidable (l.Answered e) :=
  inferInstanceAs (Decidable (_ → _))

instance (l : Keys E) (e : KeysEvent) : Decidable (l.Quiet e) := inferInstanceAs (Decidable (_ ∧ _))

/-! ## What the loop saw -/

/-- What is presented was delivered. -/
theorem Loop.yielded_le (h : Loop b l) : l.sub.yielded <+: l.source.sent := by
  obtain ⟨arrived, htraced, hsent, -⟩ := h.arrived
  have hle := htraced.yielded_le
  rw [accepted_values] at hle
  exact hle.trans hsent

theorem Loop.mem_pushed {key : Text} (h : Loop b l) :
    key ∈ l.pushed ↔ ∃ x ∈ l.sub.yielded, x.1.body.live = true ∧ b.keyOf x.1.subject = key := by
  rw [h.pushed]
  simp only [List.mem_map, List.mem_filter, and_assoc]

/-- Keys are presented in the order in which the loop pushes them. -/
theorem Loop.keys_le (h : Loop b l) : l.keys.yielded <+: l.pushed := by
  rcases h.keys with hkeep | hlosing
  · exact hkeep.yielded_initial
  · obtain ⟨lost, -, hsent⟩ := hlosing.lost
    rw [hsent, List.append_assoc]
    exact List.prefix_append _ _

/-- A loop that is over read up to a message with nothing behind it, or there was none. -/
theorem Loop.read_zero (h : Loop b l) (hfinished : l.sub.consumer.isFinished = true) :
    (∃ x ∈ l.sub.yielded, x.2 = 0) ∨ l.numPending = some 0 := by
  obtain ⟨arrived, ⟨processed, hthrough⟩, -, -⟩ := h.arrived
  exact (h.closed.1 (h.done (hthrough.closed hfinished))).imp_right And.right

section

variable {stream : Stream} {filters : List Text} {subject : Text} {ms : List Msg}

/-- The subject is not passed over. -/
structure Covers (stream : Stream) (filters : List Text) (subject : Text) (l : Keys E) : Prop where
  source : l.source.Covers stream (matchesAny filters) Body.live subject
  numPending : l.numPending ≠ some 0

/-- **What one event keeps of a subject that it spares.** -/
theorem Covers.step (h : l.Covers stream filters subject) (hspares : l.Spares subject e)
    (hanswered : l.Answered e) (hstep : Step b l e l') : l'.Covers stream filters subject := by
  cases hstep with
  | server e source hsource =>
      exact { h with source := h.source.step hspares (Upstream.step_of_eq hsource) }
  | created hnone =>
      refine { h with numPending := fun hzero => ?_ }
      -- the message is still to come, so the response counts it
      rcases h.source.ahead with ⟨x, hx, -⟩ | ⟨m, -, -, hm⟩
      · rw [hanswered rfl] at hx
        cases hx
      · rw [List.length_eq_zero_iff.1 (Option.some.inj hzero)] at hm
        cases hm
  | subscribed | arrive | drop | close | turn | stop | next => exact { h with }
  | present sub x =>
      rw [body_eq]
      exact { h with }

theorem Covers.mem_pushed (h : l.Covers stream filters subject) (hloop : Loop b l)
    (hfinished : l.sub.consumer.isFinished = true) : b.keyOf subject ∈ l.pushed := by
  have hzero := (hloop.read_zero hfinished).resolve_right h.numPending
  obtain ⟨y, hy, hsubject, hlive⟩ := h.source.seen hloop.yielded_le hzero
  exact hloop.mem_pushed.2 ⟨y, hy, hlive, hsubject ▸ rfl⟩

theorem sound_step {occurs : UpstreamEvent Body → Prop}
    (h : l.source.Sound stream (matchesAny filters) occurs) (he : ∀ e', e = .server e' → occurs e')
    (hstep : Step b l e l') : l'.source.Sound stream (matchesAny filters) occurs := by
  cases hstep with
  | server e source hsource => exact h.step (he e rfl) (Upstream.step_of_eq hsource)
  | created | subscribed | arrive | drop | close | turn | stop | next => exact h
  | present sub x =>
      rw [body_eq]
      exact h

/-- What the runs without writers keep. -/
structure Counted (ms : List Msg) (l : Keys E) : Prop where
  source : l.source.Counted ms
  numPending : ∀ n ∈ l.numPending, n = ms.length

theorem Counted.step (h : l.Counted ms) (hquiet : l.Quiet e) (hstep : Step b l e l') :
    l'.Counted ms := by
  cases hstep with
  | server e source hsource =>
      exact { h with source := h.source.step hquiet.1 (Upstream.step_of_eq hsource) }
  | created hnone =>
      refine { h with numPending := fun n hn => ?_ }
      cases Option.some.inj hn
      rw [h.source.pending_eq (hquiet.2 rfl)]
  | subscribed | arrive | drop | close | turn | stop | next => exact { h with }
  | present sub x =>
      rw [body_eq]
      exact { h with }

/-- **A loop that is over** saw everything. -/
theorem Counted.pushed_of_finished (h : l.Counted ms) (hloop : Loop b l)
    (hfinished : l.sub.consumer.isFinished = true) :
    l.pushed = (ms.filter fun m => m.body.live).map fun m => b.keyOf m.subject := by
  have hpre : l.sub.yielded <+: Upstream.numbered ms := hloop.yielded_le.trans h.source.sent_le
  have hall : l.sub.yielded = Upstream.numbered ms := by
    rcases hloop.read_zero hfinished with hzero | hnone
    · exact Upstream.eq_of_zero hpre hzero
    · rw [List.length_eq_zero_iff.1 (h.numPending 0 hnone).symm] at hpre ⊢
      exact List.prefix_nil.1 hpre
  rw [hloop.pushed, hall]
  conv_rhs => rw [← Upstream.map_numbered ms]
  rw [List.filter_map, List.map_map]
  rfl

/-- **Where nothing can happen**, the loop is over. -/
theorem Counted.finished (h : l.Counted ms) (hloop : Loop b l)
    (hstuck : ∀ e : KeysEvent, e.isWrite = false → Keys.step b l e = none) :
    l.sub.consumer.isFinished = true ∧ l.keys.done = true ∧
      l.keys.next (fun _ => true) silent = none := by
  have hpending : l.source.pending = [] := by
    cases hp : l.source.pending with
    | nil => rfl
    | cons m rest =>
        have hnone := hstuck (.server .deliver) rfl
        simp only [Keys.step, Upstream.step, hp, Option.map_some] at hnone
        cases hnone
  have hwire : l.wire = [] := by
    cases hw : l.wire with
    | nil => rfl
    | cons x wire =>
        have hnone := hstuck .arrive rfl
        simp only [Keys.step, hw] at hnone
        cases hnone
  obtain ⟨n, hn⟩ : ∃ n, l.numPending = some n := by
    cases hnum : l.numPending with
    | some n => exact ⟨n, rfl⟩
    | none =>
        have hnone := hstuck .created rfl
        simp only [Keys.step, hnum] at hnone
        cases hnone
  have hsub : l.subscribed = true := by
    cases hs : l.subscribed with
    | true => rfl
    | false =>
        have hnone := hstuck .subscribed rfl
        simp only [Keys.step, hn, hs] at hnone
        cases hnone
  have hread := hstuck .read rfl
  have hnext := hstuck .next rfl
  simp only [Keys.step, if_pos hsub, Option.map_eq_none_iff] at hread hnext
  have hover : l.sub.consumer = .finished none := by
    refine (hloop.calm.stuck hloop.waits hread).resolve_right fun hstill => ?_
    obtain ⟨hopen, hwaiting, hyields⟩ := hstill
    obtain ⟨arrived, htraced, -, hsent⟩ := hloop.arrived
    have hyielded := (htraced.of_waiting hwaiting hyields).1
    rw [accepted_values] at hyielded
    have hnotclosed : ¬ l.closed = true := by
      intro hclosed
      have hnone := hstuck .close rfl
      simp only [Keys.step, hclosed, hopen, Bool.not_false, Bool.and_self, if_true] at hnone
      cases hnone
    apply hnotclosed
    -- everything was presented, and the last message has nothing behind it
    have hall := h.source.sent_eq hpending
    rw [hsent (Bool.eq_false_iff.2 hnotclosed), hwire, List.append_nil, ← hyielded] at hall
    refine hloop.closed.2 ?_
    by_cases hnil : ms = []
    · rw [hnil] at h
      exact .inr ⟨hsub, by rw [hn, h.numPending n hn]; rfl⟩
    · exact .inl (hall ▸ Upstream.exists_zero hnil)
  refine ⟨by rw [hover]; rfl, ?_, hnext⟩
  cases hdone : l.keys.done with
  | true => rfl
  | false =>
      have hnone := hstuck .stop rfl
      simp only [Keys.step, hover, hdone] at hnone
      cases hnone

end

/-- The iterator keeps what it was given just where the stop loses nothing. -/
theorem keeping_step (hloop : Loop b l) (hstep : Step b l e l') :
    l'.keys.Keeping (fun _ => true) l'.pushed ↔ l.keys.Keeping (fun _ => true) l.pushed ∧
      l.Harmless e := by
  cases hstep with
  | server | created | subscribed | arrive | drop | close | turn =>
      exact (and_iff_left trivial).symm
  | present sub x hsub hnext hyielded =>
      have hopen := hloop.isOpen hnext
      have hopen' : (body b { l with sub } x).keys.done = false :=
        isOpen_body (l := { l with sub }) hopen
      have hkeys := (hloop.present hnext hyielded).keeping_of_open hopen'
      exact iff_of_true hkeys ⟨hloop.keeping_of_open hopen, trivial⟩
  | stop err hfinished hopen =>
      exact (hloop.stop hfinished hopen).2.trans (and_iff_right (hloop.keeping_of_open hopen)).symm
  | next keys hsub hnext =>
      refine Iff.trans ⟨fun hkept => ?_, fun hkeep => hkeep.next hnext⟩ (and_iff_left trivial).symm
      refine hloop.keys.resolve_right fun hlosing => ?_
      exact (hlosing.next hnext).not_keeping hkept

/-- **No key is lost in just those runs** whose stops lose none. -/
theorem keeping_run {es : List KeysEvent} (hrun : run (step b) l es = some l') (hloop : Loop b l) :
    l'.keys.Keeping (fun _ => true) l'.pushed ↔
      l.keys.Keeping (fun _ => true) l.pushed ∧ Meets (step b) Harmless l es :=
  iff_meets (I := fun l => Loop b l) (C := fun l => l.keys.Keeping (fun _ => true) l.pushed)
    (fun _ _ _ h hstep => h.step (step_of_eq hstep))
    (fun _ _ _ h hstep => keeping_step h (step_of_eq hstep)) hrun hloop

/-- Where the iterator cannot go on, it presented everything just where it kept everything. -/
theorem Loop.yielded_iff (h : Loop b l) (hnext : l.keys.next (fun _ => true) silent = none) :
    l.keys.yielded = l.pushed ↔ l.keys.Keeping (fun _ => true) l.pushed := by
  constructor
  · intro hall
    exact h.keys.resolve_right fun hlosing => hlosing.ne hall
  · intro hkeep
    exact hkeep.yielded_of_stuck h.keysWaits hnext

/-! ## What is listed -/

variable {ks filters : List Text} {stream : Stream} {s : Keys E} {es : List KeysEvent}

/-- The key, taken as a filter, matches the subject. -/
def asksFor (b : Bucket) (subject k : Text) : Bool :=
  match b.filterFor k with
  | .ok filter => subjectMatches filter subject
  | .error _ => false

/-- One of the keys matches the subject; no keys ask for all subjects. -/
def matched (b : Bucket) (ks : List Text) (subject : Text) : Bool :=
  ks.isEmpty || ks.any (asksFor b subject)

/-- The filters match what their keys do, and there are as many. -/
theorem any_filters_eq (h : ks.mapM b.filterFor = .ok filters) (subject : Text) :
    filters.isEmpty = ks.isEmpty ∧
      (filters.any fun filter => subjectMatches filter subject) = ks.any (asksFor b subject) := by
  induction ks generalizing filters with
  | nil =>
      cases h
      exact ⟨rfl, rfl⟩
  | cons k ks ih =>
      rw [List.mapM_cons] at h
      cases hk : b.filterFor k with
      | error message =>
          rw [hk] at h
          cases h
      | ok filter =>
          cases hks : ks.mapM b.filterFor with
          | error message =>
              rw [hk, hks] at h
              cases h
          | ok rest =>
              rw [hk, hks] at h
              cases h
              refine ⟨rfl, ?_⟩
              simp only [List.any_cons, asksFor, hk]
              exact congrArg _ (ih hks).2

theorem matched_eq (h : ks.mapM b.filterFor = .ok filters) (subject : Text) :
    matchesAny filters subject = matched b ks subject := by
  obtain ⟨hempty, hany⟩ := any_filters_eq h subject
  rw [matchesAny, matched, hempty, hany]

theorem start_eq (h : start b ks stream = .ok s) :
    ∃ filters, ks.mapM b.filterFor = .ok filters ∧ s = new stream filters := by
  unfold start at h
  cases hfilters : ks.mapM b.filterFor with
  | error message =>
      rw [hfilters] at h
      cases h
  | ok filters =>
      rw [hfilters] at h
      cases h
      exact ⟨filters, rfl, rfl⟩

/-- The subject is one that the call asks for, and its last message is no marker. -/
def Present (b : Bucket) (ks : List Text) (stream : Stream) (subject : Text) : Prop :=
  matched b ks subject = true ∧ ∃ m, stream.lastFor subject = some m ∧ m.body.live = true

/-- One of the events puts a message that is no marker on a subject that the call asks for. -/
def PutBy (b : Bucket) (ks : List Text) (es : List KeysEvent) (subject : Text) : Prop :=
  matched b ks subject = true ∧
    ∃ p time, KeysEvent.server (.publish p time) ∈ es ∧ p.subject = subject ∧ p.body.live = true

/-- **Listing keys beside writers.** Only keys are listed that were there at the start, or that
somebody put meanwhile. When the listing ends, every key is listed that was there at the start and
was spared: it may have been put again, but it was neither deleted nor purged nor dropped. This
takes a create response in front of the first delivery, and a stop of the iterator that loses
nothing. -/
theorem keys_complete (b : Bucket) (ks : List Text) (stream : Stream) (s l : Keys E)
    (es : List KeysEvent) (hstart : start b ks stream = .ok s) (hrun : run (step b) s es = some l) :
    (∀ key ∈ l.keys.yielded, ∃ subject, b.keyOf subject = key ∧
        (Present b ks stream subject ∨ PutBy b ks es subject)) ∧
      (Meets (step b) Answered s es → Meets (step b) Harmless s es →
        l.keys.consumer = .finished none →
        ∀ subject, Present b ks stream subject → Meets (step b) (Spares subject) s es →
          b.keyOf subject ∈ l.keys.yielded) := by
  obtain ⟨filters, hfilters, rfl⟩ := start_eq hstart
  have hloop : Loop b l :=
    invariant_run (fun _ _ _ h hstep => h.step (step_of_eq hstep)) hrun (loop_new stream filters)
  refine ⟨fun key hkey => ?_, fun hanswered hharmless hend subject hpresent hspared => ?_⟩
  · -- a key that is listed was read, and so was delivered
    let occurs := fun e => KeysEvent.server e ∈ es
    have hsound : l.source.Sound stream (matchesAny filters) occurs := by
      refine invariant_run_of_forall
        (I := fun l => l.source.Sound stream (matchesAny filters) occurs)
        (fun _ _ _ h he hstep => ?_) hrun (fun e he => (he : e ∈ es)) (Upstream.sound_create occurs)
      refine sound_step h (fun e' heq => ?_) (step_of_eq hstep)
      rw [heq] at he
      exact he
    obtain ⟨x, hx, hlive, rfl⟩ := hloop.mem_pushed.1 (hloop.keys_le.subset hkey)
    obtain ⟨hmatch, horigin⟩ := hsound.sent x (hloop.yielded_le.subset hx)
    rw [matched_eq hfilters] at hmatch
    refine ⟨x.1.subject, rfl, horigin.imp (fun hlast => ⟨hmatch, x.1, hlast, hlive⟩) ?_⟩
    rintro ⟨p, time, he, hsubject, hbody⟩
    exact ⟨hmatch, p, time, he, hsubject, hbody ▸ hlive⟩
  · -- a key that is spared is delivered, and so is pushed
    obtain ⟨hmatch, m, hlast, hlive⟩ := hpresent
    have hsubject := (StreamState.lastFor_mem hlast).2
    rw [← matched_eq hfilters, ← hsubject] at hmatch
    rw [← hsubject] at hlast hspared ⊢
    have hcovers : l.Covers stream filters m.subject :=
      invariant_run_of_meets (fun _ _ _ h hok hstep => h.step hok.1 hok.2 (step_of_eq hstep)) hrun
        (hspared.and hanswered) ⟨Upstream.covers_create hlast hmatch hlive, nofun⟩
    have hkept : l.keys.Keeping (fun _ => true) l.pushed :=
      (keeping_run hrun (loop_new stream filters)).2 ⟨QueuedIterator.keeping_new, hharmless⟩
    have hnext : l.keys.next (fun _ => true) silent = none := by
      simp only [QueuedIterator.next, QueuedIterator.resume, hend, Option.map_none]
    rw [(hloop.yielded_iff hnext).2 hkept]
    refine hcovers.mem_pushed hloop (hloop.ended ?_)
    exact hkept.finished (by rw [hend]; rfl)

/-- The keys of the subjects that the call asks for, in the order of their last messages. -/
def listed (b : Bucket) (ks : List Text) (stream : Stream) : List Text :=
  ((stream.msgs.filter fun m => stream.lastFor m.subject = some m && matched b ks m.subject).filter
    fun m => m.body.live).map fun m => b.keyOf m.subject

/-- **Listing keys without writers.** When nothing can happen any more, the listing is over. The
user got a first part of the keys, in the order of their last messages, and all of them exactly if
the stop of the iterator found none behind the batch at work. -/
theorem keys_exact (b : Bucket) (ks : List Text) (stream : Stream) (s l : Keys E)
    (es : List KeysEvent) (hstart : start b ks stream = .ok s) (hrun : run (step b) s es = some l)
    (hquiet : Meets (step b) Quiet s es)
    (hstuck : ∀ e : KeysEvent, e.isWrite = false → step b l e = none) :
    l.keys.consumer = .finished none ∧ l.keys.yielded <+: listed b ks stream ∧
      (l.keys.yielded = listed b ks stream ↔ Meets (step b) Harmless s es) := by
  obtain ⟨filters, hfilters, rfl⟩ := start_eq hstart
  have hloop : Loop b l :=
    invariant_run (fun _ _ _ h hstep => h.step (step_of_eq hstep)) hrun (loop_new stream filters)
  have hcounted : l.Counted (Upstream.create stream (matchesAny filters)).pending :=
    invariant_run_of_meets (fun _ _ _ h hok hstep => h.step hok (step_of_eq hstep)) hrun hquiet
      ⟨Upstream.counted_create, nofun⟩
  obtain ⟨hfinished, hdone, hnext⟩ := hcounted.finished hloop hstuck
  have hall : l.pushed = listed b ks stream := by
    rw [hcounted.pushed_of_finished hloop hfinished, Upstream.selected_eq, listed]
    simp only [matched_eq hfilters]
  refine ⟨?_, hall ▸ hloop.keys_le, ?_⟩
  · refine (hloop.keysCalm.stuck hloop.keysWaits hnext).resolve_right fun hopen => ?_
    cases hdone.symm.trans hopen.1
  · rw [← hall, hloop.yielded_iff hnext, keeping_run hrun (loop_new stream filters)]
    exact and_iff_right QueuedIterator.keeping_new

/-- A bucket with the keys `a` and `c`. -/
def twoKeys : Stream :=
  ((StreamState.empty 1 Nat.one_pos).append ⟨"$KV.b.a".toList, ⟨[1], none⟩, false, none⟩ 0).append
    ⟨"$KV.b.c".toList, ⟨[1], none⟩, false, none⟩ 1

/-- The key `a` is put again while it is listed. -/
theorem keys_complete_put :
    let b : Bucket := .plain noopCodec
    ∃ l : Keys Unit, b.keyOf "$KV.b.a".toList ∈ l.keys.yielded ∧ l.keys.yielded.length = 3 := by
  intro b
  let s : Keys Unit := new twoKeys [b.fullKeyName ['>']]
  let es : List KeysEvent :=
    [.created, .server .deliver, .server (.publish ⟨"$KV.b.a".toList, ⟨[2], none⟩, false, none⟩ 2),
      .server .deliver, .server .deliver, .subscribed, .arrive, .arrive, .arrive, .read, .read,
      .read, .close, .read, .stop, .next, .next, .next, .next]
  have hends : (run (step b) s es).any (fun l =>
      l.keys.consumer = .finished none ∧ l.keys.yielded.length = 3) = true := by
    decide +kernel
  obtain ⟨l, hrun, hl⟩ := (Option.any_eq_true _ _).1 hends
  obtain ⟨hend, hlength⟩ := of_decide_eq_true hl
  have hcomplete :=
    (keys_complete b [['>']] twoKeys s l es rfl hrun).2 (by decide +kernel) (by decide +kernel) hend
    "$KV.b.a".toList
  refine ⟨l, hcomplete ⟨by decide +kernel, ⟨"$KV.b.a".toList, 1, 0, ⟨[1], none⟩⟩, ?_⟩
    (by decide +kernel), hlength⟩
  decide +kernel

/-- The user stands at `a` when the loop ends, and `c` is lost. -/
theorem keys_exact_lost :
    let b : Bucket := .plain noopCodec
    ∃ l : Keys Unit, l.keys.yielded = ["a".toList] ∧ l.keys.yielded <+: listed b [['>']] twoKeys ∧
      l.keys.yielded ≠ listed b [['>']] twoKeys := by
  intro b
  let s : Keys Unit := new twoKeys [b.fullKeyName ['>']]
  let es : List KeysEvent :=
    [.created, .server .deliver, .server .deliver, .subscribed, .arrive, .arrive, .read, .next,
      .read, .close, .read, .stop, .next]
  have hends : (run (step b) s es).any (fun l => l.keys.yielded = ["a".toList] ∧
      [KeysEvent.server .deliver, .created, .subscribed, .arrive, .close, .read, .stop, .next].all
        (fun e => (step b l e).isNone) = true) = true := by
    decide +kernel
  obtain ⟨l, hrun, hl⟩ := (Option.any_eq_true _ _).1 hends
  obtain ⟨hyielded, hnone⟩ := of_decide_eq_true hl
  have hstuck : ∀ e : KeysEvent, e.isWrite = false → step b l e = none := by
    intro e he
    refine Option.isNone_iff_eq_none.1 (List.all_eq_true.1 hnone e ?_)
    cases e with
    | server e =>
        cases e with
        | deliver => decide
        | publish | remove | purge => cases he
    | _ => decide
  obtain ⟨-, hpre, hiff⟩ := keys_exact b [['>']] twoKeys s l es rfl hrun (by decide +kernel) hstuck
  have hlossy : ¬ Meets (step b) Harmless s es := by decide +kernel
  exact ⟨l, hyielded, hpre, fun hall => hlossy (hiff.1 hall)⟩

end

end Keys

end NatsClient.Kv
