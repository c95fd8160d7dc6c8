import NatsClient.Connection.Link
import NatsClient.Connection.Subscription

/-!
# The protocol handler

Model of `ProtocolHandler` and `Subscriptions` (`protocol.ts`): the table of subscriptions over the
link, and what `subscribe`, `unsubscribe`, `resub`, `drain` of a subscription, `processMsg` and
`_close` do to both.

A subscription is an object that the user keeps when it left the table, so the handler has all
objects ever made (`objs`), and the table maps sids to their numbers. `drains` holds the
continuations of `SubscriptionImpl.drain` that have not run. A callback may call back into the
handler; the calls it makes come with the message (`Call`).
-/

set_option autoImplicit false

namespace NatsClient.Connection

open NatsClient.Foundation NatsClient.Iterator

/-- The options of a subscription that the handler reads. -/
structure SubscriptionOptions where
  subject : String
  queue : Option String
  max : Option Nat
  callback : Bool
  timeout : Bool
deriving DecidableEq, Repr

/-- What a user, or a callback, can call. -/
inductive Call where
  | subscribe (opts : SubscriptionOptions)
  | unsubscribe (o : Nat) (max : Option Nat)
  | drain (o : Nat)
  | resub (o : Nat) (subject : String)
  | publish (proto : String) (payload : List UInt8)
  | flush
  | reconnect
  | close
deriving DecidableEq, Repr

namespace SubscriptionImpl

variable {μ E : Type}

/-- The queue group of the SUB: an empty name is none. -/
def group (s : SubscriptionImpl μ E) : Option String := s.queue.filter (· ≠ "")

/-- The SUB of a subscription. -/
def subCommand (s : SubscriptionImpl μ E) : Command := .sub s.subject s.group s.sid

/-- The limit of the UNSUB: `0` is none. -/
def limitOf (max : Option Nat) : Option Nat := max.filter (· ≠ 0)

/-- `callback(null, msg)` of a subscription with an iterator. -/
def push (s : SubscriptionImpl μ E) (v : μ) : SubscriptionImpl μ E :=
  { s.cancelTimeout with iter := s.iter.push v ⟨true, false⟩ }

/-- The consumer of the iterator runs to its next suspension; the close function resolves
`closed`. -/
def next (s : SubscriptionImpl μ E) : Option (SubscriptionImpl μ E) :=
  match s.iter.next (fun _ => true) closeEffect with
  | some it => some { s with iter := it, closed := s.closed || !it.called.isEmpty }
  | none => none

/-- The user leaves the loop over the iterator. -/
def leave (s : SubscriptionImpl μ E) : SubscriptionImpl μ E := { s with iter := s.iter.finish none }

end SubscriptionImpl

/-- The fields of `ProtocolHandler` and of its `Subscriptions`. `subs` is the `Map`, in the order of
insertion. -/
structure ProtocolHandler (μ E : Type) where
  link : Link
  objs : List (SubscriptionImpl μ E)
  subs : List (Nat × Nat)
  sidCounter : Nat
  drains : List (Nat × Nat)

namespace ProtocolHandler

variable {μ E : Type}

/-- The constructor. -/
def new (pendingLimit maxOut : Nat) : ProtocolHandler μ E :=
  ⟨.new pendingLimit maxOut, [], [], 0, []⟩

/-- `subs.delete(sid)`. -/
def delete (subs : List (Nat × Nat)) (sid : Nat) : List (Nat × Nat) :=
  subs.filter fun x => x.1 ≠ sid

/-- `subscriptions.get(sid)`. -/
def get (h : ProtocolHandler μ E) (sid : Nat) : Option Nat := h.subs.lookup sid

/-- Object `o` gets new fields. -/
def setObj (h : ProtocolHandler μ E) (o : Nat) (s : SubscriptionImpl μ E) : ProtocolHandler μ E :=
  { h with objs := h.objs.set o s }

/-- `sendCommand(..)`. -/
def sendCommand (h : ProtocolHandler μ E) (c : Command) : ProtocolHandler μ E :=
  { h with link := h.link.sendCommand c }

/-- `subscriptions.cancel(s)`, `s` being object `o`. -/
def cancel (h : ProtocolHandler μ E) (o : Nat) (s : SubscriptionImpl μ E) : ProtocolHandler μ E :=
  { h.setObj o s.close with subs := delete h.subs s.sid }

/-- `unsub(s, max)`. -/
def unsub (h : ProtocolHandler μ E) (o : Nat) (s : SubscriptionImpl μ E) (max : Option Nat) :
    ProtocolHandler μ E :=
  if h.link.closed then h
  else
    (h.sendCommand (.unsub s.sid (SubscriptionImpl.limitOf max))).setObj o (s.unsub max false)

/-- `unsubscribe(s, max)`. -/
def unsubscribe (h : ProtocolHandler μ E) (o : Nat) (max : Option Nat) : ProtocolHandler μ E :=
  match h.objs[o]? with
  | none => h
  | some s =>
      let h' := h.unsub o s max
      let s' := s.unsub max h.link.closed
      if s'.isSpent then h'.cancel o s' else h'

/-- `subscribe(s)` of a new subscription. -/
def subscribe (h : ProtocolHandler μ E) (opts : SubscriptionOptions) : ProtocolHandler μ E :=
  let sid := h.sidCounter + 1
  let o := h.objs.length
  let s := { SubscriptionImpl.new opts.subject opts.queue opts.max opts.callback opts.timeout with
    sid := sid }
  let h :=
    { h with sidCounter := sid, objs := h.objs ++ [s], subs := h.subs ++ [(sid, o)] }.sendCommand
      s.subCommand
  match SubscriptionImpl.limitOf opts.max with
  | some max => h.unsubscribe o (some max)
  | none => h

/-- `resub(s, subject)`. -/
def resub (h : ProtocolHandler μ E) (o : Nat) (subject : String) : ProtocolHandler μ E :=
  match h.objs[o]? with
  | none => h
  | some s =>
      if h.link.closed then h
      else
        let sid := h.sidCounter + 1
        let s' := { s.unsub none false with subject := subject, sid := sid }
        { (h.unsub o s none).setObj o s' with
          sidCounter := sid
          subs := delete h.subs s.sid ++ [(sid, o)] }.sendCommand s'.subCommand

/-- `drain()` of a subscription. -/
def drainSub (h : ProtocolHandler μ E) (o : Nat) : ProtocolHandler μ E :=
  match h.objs[o]? with
  | none => h
  | some s =>
      if h.link.closed || s.isClosed || s.draining then h
      else
        let s' := { s with draining := true }
        let h' := (h.setObj o s').unsub o s' none
        { h' with
          link := h'.link.flush
          drains := h'.drains ++ [(o, h'.link.deferreds.created)] }

/-- The continuation of a drain, whatever became of its flush. -/
def drained (h : ProtocolHandler μ E) (o d : Nat) : ProtocolHandler μ E :=
  match h.objs[o]? with
  | none => h
  | some s => { h.cancel o s with drains := h.drains.erase (o, d) }

/-- `subscriptions.close()`. -/
def closeSubscriptions (h : ProtocolHandler μ E) : ProtocolHandler μ E :=
  { h with objs := h.subs.foldl (fun objs x => objs.modify x.2 SubscriptionImpl.close) h.objs }

/-- The objects of the table are closed one after the other, and stay in it. -/
theorem closeSubscriptions_induction {P : ProtocolHandler μ E → Prop} (h : ProtocolHandler μ E)
    (hstart : P h)
    (hclose : ∀ (h : ProtocolHandler μ E) (o : Nat) (s : SubscriptionImpl μ E),
      h.objs[o]? = some s → P h → P (h.setObj o s.close)) : P h.closeSubscriptions := by
  have hfold : ∀ (subs : List (Nat × Nat)) (h : ProtocolHandler μ E), P h →
      P { h with
        objs := subs.foldl (fun objs x => objs.modify x.2 SubscriptionImpl.close) h.objs } := by
    intro subs
    induction subs with
    | nil => exact fun h hp => hp
    | cons x subs ih =>
        intro h hp
        cases hs : h.objs[x.2]? with
        | none =>
            rw [List.foldl_cons, List.modify_eq_self (List.getElem?_eq_none_iff.1 hs)]
            exact ih h hp
        | some s =>
            have hmodify : h.objs.modify x.2 SubscriptionImpl.close = h.objs.set x.2 s.close := by
              rw [List.modify_eq_set_getElem?, hs]
              rfl
            rw [List.foldl_cons, hmodify]
            exact ih (h.setObj x.2 s.close) (hclose h x.2 s hs hp)
  exact hfold h.subs h hstart

/-- The link changes; where it closes, `_close` closes the subscriptions too. -/
def setLink (h : ProtocolHandler μ E) (link : Link) : ProtocolHandler μ E :=
  if link.closed && !h.link.closed then { h.closeSubscriptions with link := link }
  else { h with link := link }

theorem link_setLink (h : ProtocolHandler μ E) (l : Link) : (h.setLink l).link = l := by
  rw [setLink]
  split <;> rfl

theorem setLink_of_closed {h : ProtocolHandler μ E} {l : Link}
    (hclosed : l.closed = h.link.closed) : h.setLink l = { h with link := l } := by
  rw [setLink, hclosed]
  cases h.link.closed <;> rfl

/-- A call. -/
def call (h : ProtocolHandler μ E) : Call → ProtocolHandler μ E
  | .subscribe opts => h.subscribe opts
  | .unsubscribe o max => h.unsubscribe o max
  | .drain o => h.drainSub o
  | .resub o subject => h.resub o subject
  | .publish proto payload => h.sendCommand (.pub proto payload)
  | .flush => { h with link := h.link.flush }
  | .reconnect => if h.link.connected then { h with link := h.link.disconnect } else h
  | .close => h.setLink h.link.close

/-- Calls in order. -/
def calls (h : ProtocolHandler μ E) (cs : List Call) : ProtocolHandler μ E := cs.foldl call h

/-- `callback(null, msg)` of object `o`: that of a user makes calls, that of an iterator pushes. -/
def dispatch (h : ProtocolHandler μ E) (o : Nat) (s : SubscriptionImpl μ E) (v : μ)
    (cs : List Call) : ProtocolHandler μ E :=
  if s.noIterator then h.calls cs else h.setObj o (s.push v)

/-- The end of `processMsg`: a subscription that got all it wants is unsubscribed. -/
def checkMax (h : ProtocolHandler μ E) (o : Nat) : ProtocolHandler μ E :=
  match h.objs[o]? with
  | none => h
  | some s => if s.reachedMax then h.unsubscribe o none else h

/-- `processMsg(msg, data)`. -/
def processMsg (h : ProtocolHandler μ E) (sid : Nat) (v : μ) (cs : List Call) :
    ProtocolHandler μ E :=
  match h.get sid with
  | none => h
  | some o =>
      match h.objs[o]? with
      | none => h
      | some s => ((h.setObj o s.receive).dispatch o s.receive v cs).checkMax o

/-- What the timer of object `o` does when it fires. -/
def timeout (h : ProtocolHandler μ E) (o : Nat) (s : SubscriptionImpl μ E) (err : E)
    (cs : List Call) : ProtocolHandler μ E :=
  let h := h.setObj o { s.stop (some err) with timer := false }
  if s.noIterator then h.calls cs else h

/-- The SUBs of `sendSubscriptions()`. -/
def subCommands (h : ProtocolHandler μ E) : List Command :=
  h.subs.filterMap fun x => (h.objs[x.2]?).map SubscriptionImpl.subCommand

/-- What can happen to the handler. -/
inductive Event (μ E : Type) where
  | call (c : Call)
  | drained (o d : Nat)
  | message (sid : Nat) (v : μ) (cs : List Call)
  | timeout (o : Nat) (err : E) (cs : List Call)
  | next (o : Nat)
  | stop (o : Nat) (err : Option E)
  | leave (o : Nat)
  | dialDone
  | link (e : Link.Event)

/-- The events of the link that are not calls: those of its timers, its transport and its
microtasks. -/
def isInternal : Link.Event → Bool
  | .command _ | .flush | .dialDone _ | .close => false
  | _ => true

/-- One event; `none` where it cannot happen. Continuations of settled promises are microtasks, so
they run before a handshake can complete. -/
def step (h : ProtocolHandler μ E) : Event μ E → Option (ProtocolHandler μ E)
  | .call c => some (h.call c)
  | .drained o d =>
      -- the flush of a drain is settled, either way
      if (o, d) ∈ h.drains ∧ h.link.outcome d ≠ none then some (h.drained o d) else none
  | .message sid v cs => some (h.processMsg sid v cs)
  | .timeout o err cs =>
      match h.objs[o]? with
      | some s => if s.timer then some (h.timeout o s err cs) else none
      | none => none
  | .next o =>
      match h.objs[o]? with
      | some s => (s.next).map (h.setObj o)
      | none => none
  | .stop o err =>
      match h.objs[o]? with
      | some s => some (h.setObj o (s.stop err))
      | none => none
  | .leave o =>
      match h.objs[o]? with
      | some s => if s.iter.consumer.inBatch then some (h.setObj o s.leave) else none
      | none => none
  | .dialDone =>
      if ∀ x ∈ h.drains, h.link.outcome x.2 = none then
        (h.link.step (.dialDone h.subCommands)).map fun link => { h with link := link }
      else none
  | .link e => if isInternal e then (h.link.step e).map h.setLink else none

/-- What a step can be. -/
inductive Step : ProtocolHandler μ E → Event μ E → ProtocolHandler μ E → Prop
  | call {h : ProtocolHandler μ E} (c : Call) : Step h (.call c) (h.call c)
  | drained {h : ProtocolHandler μ E} (o d : Nat) (waits : (o, d) ∈ h.drains)
      (settled : h.link.outcome d ≠ none) : Step h (.drained o d) (h.drained o d)
  | message {h : ProtocolHandler μ E} (sid : Nat) (v : μ) (cs : List Call) :
      Step h (.message sid v cs) (h.processMsg sid v cs)
  | timeout {h : ProtocolHandler μ E} (o : Nat) (s : SubscriptionImpl μ E) (err : E)
      (cs : List Call) (found : h.objs[o]? = some s) (timer : s.timer = true) :
      Step h (.timeout o err cs) (h.timeout o s err cs)
  | next {h : ProtocolHandler μ E} (o : Nat) (s s' : SubscriptionImpl μ E)
      (found : h.objs[o]? = some s) (next : s.next = some s') : Step h (.next o) (h.setObj o s')
  | stop {h : ProtocolHandler μ E} (o : Nat) (s : SubscriptionImpl μ E) (err : Option E)
      (found : h.objs[o]? = some s) : Step h (.stop o err) (h.setObj o (s.stop err))
  | leave {h : ProtocolHandler μ E} (o : Nat) (s : SubscriptionImpl μ E)
      (found : h.objs[o]? = some s) (inBatch : s.iter.consumer.inBatch = true) :
      Step h (.leave o) (h.setObj o s.leave)
  | dialDone {h : ProtocolHandler μ E} (l : Link)
      (drained : ∀ x ∈ h.drains, h.link.outcome x.2 = none)
      (link : h.link.step (.dialDone h.subCommands) = some l) :
      Step h .dialDone { h with link := l }
  | link {h : ProtocolHandler μ E} (e : Link.Event) (l : Link) (internal : isInternal e = true)
      (link : h.link.step e = some l) : Step h (.link e) (h.setLink l)

theorem step_of_eq {h h' : ProtocolHandler μ E} {e : Event μ E} (hstep : h.step e = some h') :
    Step h e h' := by
  cases e with
  | call c =>
      cases hstep
      exact .call c
  | drained o d =>
      obtain ⟨⟨hwaits, hsettled⟩, heq⟩ := Option.ite_none_right_eq_some.1 hstep
      cases heq
      exact .drained o d hwaits hsettled
  | message sid v cs =>
      cases hstep
      exact .message sid v cs
  | timeout o err cs =>
      simp only [step] at hstep
      -- only an object that exists has a timer
      split at hstep
      · next s hs =>
        obtain ⟨htimer, heq⟩ := Option.ite_none_right_eq_some.1 hstep
        cases heq
        exact .timeout o s err cs hs htimer
      · cases hstep
  | next o =>
      simp only [step] at hstep
      split at hstep
      · next s hs =>
        obtain ⟨s', hnext, rfl⟩ := Option.map_eq_some_iff.1 hstep
        exact .next o s s' hs hnext
      · cases hstep
  | stop o err =>
      simp only [step] at hstep
      split at hstep
      · next s hs =>
        cases hstep
        exact .stop o s err hs
      · cases hstep
  | leave o =>
      simp only [step] at hstep
      split at hstep
      · next s hs =>
        obtain ⟨hinBatch, heq⟩ := Option.ite_none_right_eq_some.1 hstep
        cases heq
        exact .leave o s hs hinBatch
      · cases hstep
  | dialDone =>
      obtain ⟨hdrained, hdial⟩ := Option.ite_none_right_eq_some.1 hstep
      obtain ⟨l, hlink, rfl⟩ := Option.map_eq_some_iff.1 hdial
      exact .dialDone l hdrained hlink
  | link e =>
      obtain ⟨hinternal, hmap⟩ := Option.ite_none_right_eq_some.1 hstep
      obtain ⟨l, hlink, rfl⟩ := Option.map_eq_some_iff.1 hmap
      exact .link e l hinternal hlink

end ProtocolHandler

end NatsClient.Connection
