import NatsClient.Connection.Permissions
import NatsClient.Connection.Publishing
import NatsClient.Iterator.QueuedIterator

/-!
# Requests

Model of `request` and `requestMany` (`nats.ts`) with and without the mux subscription, on the
connection they are called on: the table of subscriptions, the requests of the mux subscription
(`muxsubscription.ts`, `request.ts`), the timers, and what is published. The order of the calls and
where exceptions are caught are those of the source.

The four ways publish at places of their own.

* `modes_agree_iff`: a request publishes the same either way. `requestMany` does not: without the
  mux subscription it leaves the headers out.
* `contained_iff`: where the publish throws, the ways over the mux subscription take back what they
  registered and report the error. The others throw themselves, with their subscription in the
  table.
-/

set_option autoImplicit false

namespace NatsClient.Connection

open NatsClient.Iterator NatsClient.Wire

/-- `RequestStrategy`. -/
inductive RequestStrategy where
  | timer
  | count
  | jitterTimer
  | sentinelMsg
deriving DecidableEq, Repr

/-- `RequestOptions`; a reply that is not given is the empty one. -/
structure RequestOptions where
  timeout : Option Rat
  headers : Option Headers
  noMux : Bool
  reply : String

/-- `RequestManyOptions`. -/
structure RequestManyOptions where
  strategy : Option RequestStrategy
  maxWait : Option Rat
  headers : Option Headers
  maxMessages : Option Int
  noMux : Bool
  jitter : Option Nat

/-- What the calls fail with. The timeout and the reply are invalid options, and `clearTimers` is a
`ReferenceError`. -/
inductive RequestFailure where
  | connectionClosed
  | connectionDraining
  | badSubject
  | timeout
  | replyWithMux
  | publish (e : PublishFailure)
  | clearTimers
deriving DecidableEq, Repr

/-- The error codes. -/
def RequestFailure.code : RequestFailure → Option String
  | .connectionClosed => some "CONNECTION_CLOSED"
  | .connectionDraining => some "CONNECTION_DRAINING"
  | .badSubject => some "BAD_SUBJECT"
  | .timeout | .replyWithMux => some "INVALID_OPTION"
  | .publish e => e.code
  | .clearTimers => none

/-- The functions that `requestMany` pushes into its iterator. -/
inductive IterFn where
  | stop (err : Option RequestFailure)
  | fails (err : RequestFailure)
deriving DecidableEq, Repr

/-- What they do. -/
def IterFn.effect : IterFn → Effect RequestFailure
  | .stop err => ⟨some err, none⟩
  | .fails err => ⟨none, some err⟩

/-- What a call returns: a promise that is rejected, one that waits for the reply, or one of an
iterator. -/
inductive Returned (α : Type) where
  | rejected (err : RequestFailure)
  | pending
  | iterator (it : QueuedIterator α IterFn RequestFailure)

/-- A message as it is published. -/
structure Message where
  subject : String
  reply : String
  payload : Bytes
  headers : Option MsgHdrs

/-- What a responder sees of it, but for the reply. -/
def Message.content (m : Message) : String × Bytes × Option MsgHdrs :=
  (m.subject, m.payload, m.headers)

/-- The message of a publish. -/
def messageOf (subject : String) (data : Data) (options : PublishArgs) : Option Message :=
  match data.toPayload, options.toOptions with
  | some p, some opts => some ⟨subject, opts.reply, p.data, opts.headers⟩
  | _, _ => none

/-- The fields of `NatsConnectionImpl` and of its `ProtocolHandler` that the calls use. Nuids and
timers are numbered; `timers` are those that run. `lost` are the subscriptions that will reject a
promise which was never returned, and `published` logs the messages. -/
structure NatsConnectionImpl (μ E : Type) where
  conn : Connected μ E
  info : Option ServerInfo
  outBytes : Nat
  outMsgs : Nat
  draining : Bool
  noMorePublishing : Bool
  inboxPrefix : String
  baseInbox : String
  nuids : Nat
  timers : List Nat
  timerIds : Nat
  lost : List Nat
  published : List Message
  reqs_lt : ∀ r ∈ conn.reqs, r.1 < nuids
  timers_lt : ∀ t ∈ timers, t < timerIds

/-- A call on a connection. -/
abbrev Requesting (μ E α : Type) := EStateM RequestFailure (NatsConnectionImpl μ E) α

variable {μ E α : Type}

theorem Connected.reqs_initMux (c : Connected μ E) (inbox : String) :
    (c.initMux inbox).reqs = c.reqs := by
  unfold initMux
  cases c.mux <;> rfl

theorem Connected.reqs_request (c : Connected μ E) (token : Nat) (subject inbox : String) :
    (c.request token subject inbox).reqs = c.reqs ++ [(token, subject)] := by
  show (c.initMux inbox).reqs ++ _ = _
  rw [reqs_initMux]

namespace NatsConnectionImpl

theorem reqs_lt_request (c : NatsConnectionImpl μ E) (token : Nat) (subject : String) :
    ∀ r ∈ (c.conn.request token subject c.baseInbox).reqs, r.1 < max c.nuids (token + 1) := by
  intro r hr
  rw [Connected.reqs_request] at hr
  rcases List.mem_append.1 hr with hr | hr
  · exact Nat.lt_of_lt_of_le (c.reqs_lt r hr) (Nat.le_max_left _ _)
  · rw [List.mem_singleton.1 hr]
    exact Nat.lt_of_lt_of_le (Nat.lt_succ_self _) (Nat.le_max_right _ _)

/-- `isClosed()`. -/
def isClosed (c : NatsConnectionImpl μ E) : Bool := c.conn.handler.link.closed

/-- `_check(subject, sub, pub)`: what it throws. -/
def check (c : NatsConnectionImpl μ E) (subject : String) (sub pub : Bool) :
    Option RequestFailure :=
  if c.isClosed then some .connectionClosed
  else if sub && c.draining then some .connectionDraining
  else if pub && c.noMorePublishing then some .connectionDraining
  else if subject = "" then some .badSubject
  else none

/-- `_check(subject, sub, pub)`. -/
def _check (subject : String) (sub pub : Bool) : Requesting μ E Unit := do
  match (← get).check subject sub pub with
  | some err => throw err
  | none => pure ()

/-- What a call throws is caught. -/
def caught (x : Requesting μ E Unit) : Requesting μ E (Option RequestFailure) := fun c =>
  match x.run c with
  | .ok _ c' => .ok none c'
  | .error err c' => .ok (some err) c'

/-- A nuid is drawn. -/
def draw (c : NatsConnectionImpl μ E) : NatsConnectionImpl μ E :=
  { c with nuids := c.nuids + 1, reqs_lt := fun r hr => Nat.lt_succ_of_lt (c.reqs_lt r hr) }

/-- A timer is started. -/
def startTimer (c : NatsConnectionImpl μ E) : NatsConnectionImpl μ E :=
  { c with
    timers := c.timers ++ [c.timerIds]
    timerIds := c.timerIds + 1
    timers_lt := by
      intro t ht
      rcases List.mem_append.1 ht with ht | ht
      · exact Nat.lt_succ_of_lt (c.timers_lt t ht)
      · rw [List.mem_singleton.1 ht]
        exact Nat.lt_succ_self _ }

/-- A timer is stopped. -/
def stopTimer (timer : Nat) (c : NatsConnectionImpl μ E) : NatsConnectionImpl μ E :=
  { c with
    timers := c.timers.filter (· ≠ timer)
    timers_lt := fun t ht => c.timers_lt t (List.mem_filter.1 ht).1 }

/-- The connection gets its mux subscription, if it has none. -/
def withMux (inbox : String) (c : NatsConnectionImpl μ E) : NatsConnectionImpl μ E :=
  { c with
    baseInbox := inbox ++ "."
    conn := c.conn.initMux (inbox ++ ".")
    reqs_lt := fun r hr => c.reqs_lt r (c.conn.reqs_initMux _ ▸ hr) }

/-- `add(r)` of the mux subscription, which there is. -/
def add (token : Nat) (subject : String) (c : NatsConnectionImpl μ E) : NatsConnectionImpl μ E :=
  { c with
    conn := c.conn.request token subject c.baseInbox
    -- the token was drawn before
    nuids := max c.nuids (token + 1)
    reqs_lt := c.reqs_lt_request token subject }

/-- `cancel(r)` of the mux subscription. -/
def remove (token : Nat) (c : NatsConnectionImpl μ E) : NatsConnectionImpl μ E :=
  { c with
    conn := { c.conn with reqs := c.conn.reqs.filter (·.1 ≠ token) }
    reqs_lt := fun r hr => c.reqs_lt r (List.mem_filter.1 hr).1 }

/-- The number of `nuid.next()`. -/
def nextNuid : Requesting μ E Nat := modifyGet fun c => (c.nuids, c.draw)

/-- `setTimeout(..)`. -/
def setTimeout : Requesting μ E Nat := modifyGet fun c => (c.timerIds, c.startTimer)

section

variable (nuid : Nat → String)

/-- The inbox of `createInbox(prefix)`. -/
def inboxOf (c : NatsConnectionImpl μ E) : String :=
  (if c.inboxPrefix = "" then "_INBOX" else c.inboxPrefix) ++ "." ++ nuid c.nuids

/-- `createInbox(prefix)`. -/
def createInbox : Requesting μ E String := modifyGet fun c => (c.inboxOf nuid, c.draw)

/-- `initMux()`. -/
def initMux : Requesting μ E Unit := do
  if (← get).conn.mux.isNone then
    let inbox ← createInbox nuid
    modify (withMux inbox)

/-- `request(r)` of the protocol handler. -/
def protocolRequest (token : Nat) (subject : String) : Requesting μ E Unit := do
  initMux nuid
  modify (add token subject)

end

/-- `cancel()` of a request of the mux subscription. -/
def cancel (token timer : Nat) : Requesting μ E Unit := do
  modify (stopTimer timer)
  modify (remove token)

/-- A request has a subscription of its own, which gets the `requestSubject`. -/
def withSub (opts : SubscriptionOptions) (requestSubject : String) (c : NatsConnectionImpl μ E) :
    NatsConnectionImpl μ E :=
  { c with conn := c.conn.requestNoMux opts requestSubject, reqs_lt := c.reqs_lt }

/-- `subscribe(subject, opts)`, with the `requestSubject`; the result is the number of the
object. -/
def subscribe (opts : SubscriptionOptions) (requestSubject : String) : Requesting μ E Nat := do
  _check opts.subject true false
  modifyGet fun c => (c.conn.handler.objs.length, c.withSub opts requestSubject)

/-- `outBytes` and `outMsgs` are counted up. -/
def count (len : Nat) (c : NatsConnectionImpl μ E) : NatsConnectionImpl μ E :=
  { c with outBytes := c.outBytes + len, outMsgs := c.outMsgs + 1 }

/-- `sendCommand(proto, ...payloads)`. -/
def sendCommand (proto : String) (payloads : List Bytes) (c : NatsConnectionImpl μ E) :
    NatsConnectionImpl μ E :=
  { c with
    conn := { c.conn with handler := c.conn.handler.sendCommand (.pub proto payloads.flatten) }
    reqs_lt := c.reqs_lt }

/-- The protocol handler publishes. -/
def port : Port (NatsConnectionImpl μ E) := ⟨info, count, sendCommand⟩

/-- `publish(subject, data, options)` of the protocol handler. -/
def protocolPublish (subject : String) (data : Data) (options : PublishArgs) :
    Requesting μ E Unit := do
  EStateM.adaptExcept RequestFailure.publish (Connection.publish port subject data options)
  modify fun c => { c with published := c.published ++ (messageOf subject data options).toList }

/-- `publish(subject, data, options)`. -/
def publish (subject : String) (data : Data) (options : PublishArgs) : Requesting μ E Unit := do
  _check subject false true
  protocolPublish subject data options

/-- The value of a timeout: `opts.timeout || 1000`. -/
def timeoutOf (timeout : Option Rat) : Rat := (timeout.filter (· ≠ 0)).getD 1000

/-- The promise of a subscription is not returned yet. -/
def keep (o : Nat) : Requesting μ E Unit := modify fun c => { c with lost := c.lost ++ [o] }

/-- It is returned. -/
def handOver (o : Nat) : Requesting μ E Unit :=
  modify fun c => { c with lost := c.lost.filter (· ≠ o) }

section

variable (nuid : Nat → String)

/-- `request(subject, data, opts)`. -/
def request (subject : String) (data : Data) (opts : RequestOptions) :
    Requesting μ E (Returned α) := do
  match (← get).check subject true true with
  | some err => return .rejected err
  | none =>
      if timeoutOf opts.timeout < 1 then return .rejected .timeout
      else if !opts.noMux && opts.reply ≠ "" then return .rejected .replyWithMux
      else if opts.noMux then
        let inbox ← (if opts.reply ≠ "" then pure opts.reply else createInbox nuid)
        let o ← subscribe ⟨inbox, none, some 1, true, true⟩ subject
        keep o
        protocolPublish subject data ⟨inbox, opts.headers⟩
        handOver o
        return .pending
      else
        let token ← nextNuid
        let timer ← setTimeout
        protocolRequest nuid token subject
        match ← caught (publish subject data ⟨(← get).baseInbox ++ nuid token, opts.headers⟩) with
        | some err =>
            cancel token timer
            return .rejected err
        | none => return .pending

/-- `requestMany(subject, data, opts)`. -/
def requestMany (subject : String) (data : Data) (opts : RequestManyOptions) :
    Requesting μ E (Returned α) := do
  match (← get).check subject true true with
  | some err => return .rejected err
  | none =>
      if timeoutOf opts.maxWait < 1 then return .rejected .timeout
      else if opts.noMux then
        let inbox ← createInbox nuid
        let _ ← subscribe ⟨inbox, none, none, true, false⟩ subject
        match ← caught (publish subject data ⟨inbox, none⟩) with
        -- the error is pushed, but `cancel` calls `clearTimers` in front of its declaration
        | some _ => throw .clearTimers
        | none =>
            let _ ← setTimeout
            return .iterator .new
      else
        let token ← nextNuid
        let timer ← setTimeout
        protocolRequest nuid token subject
        match ← caught (publish subject data ⟨(← get).baseInbox ++ nuid token, opts.headers⟩) with
        | some err =>
            cancel token timer
            return .iterator (QueuedIterator.new.pushFn (.stop (some err)))
        | none => return .iterator .new

end

/-! ## What stays of a call -/

/-- The promise or the iterator that was returned reports the error: the first thing that a consumer
of the iterator gets is the error, whatever is pushed behind. -/
def Reports (err : RequestFailure) : Returned α → Prop
  | .rejected err' => err' = err
  | .pending => False
  | .iterator it => ∀ items, ∃ it',
      ({ it with yields := it.yields ++ items } : QueuedIterator α IterFn RequestFailure).next
        (fun _ => true) IterFn.effect = some it' ∧ it'.consumer = .finished (some err)

/-- The subscriptions whose own timer runs. -/
def subTimers (c : NatsConnectionImpl μ E) : List Nat :=
  (List.range c.conn.handler.objs.length).filter fun o => (c.conn.handler.objs[o]?).any (·.timer)

/-- The tables and the timers are as they were, and no promise is left to be rejected. -/
structure LeavesNothing (c c' : NatsConnectionImpl μ E) : Prop where
  subs : c'.conn.handler.subs = c.conn.handler.subs
  reqs : c'.conn.reqs = c.conn.reqs
  timers : c'.timers = c.timers
  subTimers : c'.subTimers = c.subTimers
  lost : c'.lost = c.lost

/-- The continuation of what was returned cancels the request once more: that of the rejected
promise, and that of the end of the iterator. -/
def continued (c c' : NatsConnectionImpl μ E) : NatsConnectionImpl μ E :=
  (c'.stopTimer c.timerIds).remove c.nuids

/-- A call that fails is contained: it does not throw, what it returns reports the error, and
nothing is left of it. -/
def Contained (c : NatsConnectionImpl μ E) (err : RequestFailure) :
    EStateM.Result RequestFailure (NatsConnectionImpl μ E) (Returned α) → Prop
  | .ok returned c' => Reports err returned ∧ LeavesNothing c c' ∧ LeavesNothing c (c.continued c')
  | .error _ _ => False

/-- The messages that a call publishes. -/
def publishedBy (x : Requesting μ E (Returned α)) (c : NatsConnectionImpl μ E) : List Message :=
  match x.run c with
  | .ok _ c' | .error _ c' => c'.published.drop c.published.length

end NatsConnectionImpl

/-- One of the calls. -/
inductive RequestCall where
  | request (opts : RequestOptions)
  | requestMany (opts : RequestManyOptions)

namespace RequestCall

/-- `noMux`. -/
def noMux : RequestCall → Bool
  | .request opts => opts.noMux
  | .requestMany opts => opts.noMux

/-- The headers that are published. -/
def headers : RequestCall → Option Headers
  | .request opts => opts.headers
  | .requestMany opts => if opts.noMux then none else opts.headers

/-- The options are valid. -/
def valid : RequestCall → Bool
  | .request opts =>
      1 ≤ NatsConnectionImpl.timeoutOf opts.timeout && (opts.noMux || opts.reply = "")
  | .requestMany opts => 1 ≤ NatsConnectionImpl.timeoutOf opts.maxWait

/-- The call. -/
def call (nuid : Nat → String) (subject : String) (data : Data) :
    RequestCall → Requesting μ E (Returned α)
  | .request opts => NatsConnectionImpl.request nuid subject data opts
  | .requestMany opts => NatsConnectionImpl.requestMany nuid subject data opts

end RequestCall

/-! ## The parts of a call -/

theorem Link.closed_sendCommand (s : Link) (c : Command) : (s.sendCommand c).closed = s.closed := by
  unfold sendCommand
  simp only
  split
  · rfl
  · split
    · exact closed_flushPending _
    · rfl

/-- The mux subscription is made once. -/
theorem Connected.initMux_initMux (c : Connected μ E) (inbox inbox' : String) :
    (c.initMux inbox).initMux inbox' = c.initMux inbox := by
  cases hmux : c.mux <;> simp only [initMux, hmux]

theorem Connected.initMux_of_isSome {c : Connected μ E} (h : c.mux.isSome = true) (inbox : String) :
    c.initMux inbox = c := by
  obtain ⟨o, ho⟩ := Option.isSome_iff_exists.1 h
  rw [initMux, ho]

/-- A new mux subscription is in the table. -/
theorem Connected.subs_initMux {c : Connected μ E} (h : c.mux = none) (inbox : String) :
    (c.initMux inbox).handler.subs =
      c.handler.subs ++ [(c.handler.sidCounter + 1, c.handler.objs.length)] := by
  rw [initMux, h]
  rfl

namespace ProtocolHandler

theorem closed_unsubscribe (h : ProtocolHandler μ E) (o : Nat) (max : Option Nat) :
    (h.unsubscribe o max).link.closed = h.link.closed := by
  have hunsub : ∀ s : SubscriptionImpl μ E, (h.unsub o s max).link.closed = h.link.closed := by
    intro s
    rw [unsub]
    split
    · rfl
    · exact Link.closed_sendCommand _ _
  unfold unsubscribe
  cases h.objs[o]? with
  | none => rfl
  | some s =>
      simp only
      split <;> exact hunsub s

theorem closed_subscribe (h : ProtocolHandler μ E) (opts : SubscriptionOptions) :
    (h.subscribe opts).link.closed = h.link.closed := by
  unfold subscribe
  simp only
  split
  · rw [closed_unsubscribe]
    exact Link.closed_sendCommand _ _
  · exact Link.closed_sendCommand _ _

end ProtocolHandler

/-- A removal of a new key takes nothing off. -/
theorem filter_of_lt {β : Type} {key : β → Nat} {l : List β} {n : Nat} (h : ∀ y ∈ l, key y < n) :
    l.filter (key · ≠ n) = l := by
  apply List.filter_eq_self.2
  intro y hy
  exact decide_eq_true (Nat.ne_of_lt (h y hy))

/-- What is added under a new key is all that a removal of the key takes off. -/
theorem filter_concat_of_lt {β : Type} {key : β → Nat} {l : List β} {x : β}
    (h : ∀ y ∈ l, key y < key x) : (l ++ [x]).filter (key · ≠ key x) = l := by
  rw [List.filter_append, filter_of_lt h, List.filter_singleton]
  simp

theorem refusal_reply (info : Option ServerInfo) (data : Data) (reply reply' : String)
    (headers : Option Headers) :
    refusal info data ⟨reply, headers⟩ = refusal info data ⟨reply', headers⟩ := by
  rcases headers with - | h | - <;> rfl

namespace NatsConnectionImpl

variable {nuid : Nat → String} {c c' : NatsConnectionImpl μ E} {subject : String} {data : Data}
  {options : PublishArgs} {e : PublishFailure}

/-- When `_check` passes. -/
theorem check_eq_none_iff {sub pub : Bool} : c.check subject sub pub = none ↔
    c.isClosed = false ∧ (sub = true → c.draining = false) ∧
      (pub = true → c.noMorePublishing = false) ∧ subject ≠ "" := by
  unfold check
  grind

/-- What passes for both passes for each. -/
theorem check_of_both {subject' : String} {sub pub : Bool} (h : c.check subject true true = none)
    (hclosed : c'.isClosed = c.isClosed) (hdraining : c'.draining = c.draining)
    (hpublishing : c'.noMorePublishing = c.noMorePublishing) (hsubject : subject' ≠ "") :
    c'.check subject' sub pub = none := by
  obtain ⟨hc, hd, hp, -⟩ := check_eq_none_iff.1 h
  apply check_eq_none_iff.2
  exact ⟨hclosed.trans hc, fun _ => hdraining.trans (hd rfl), fun _ => hpublishing.trans (hp rfl),
    hsubject⟩

theorem run_check {sub pub : Bool} (h : c.check subject sub pub = none) :
    (_check subject sub pub : Requesting μ E Unit).run c = .ok () c := by
  simp only [_check, EStateM.run_bind, EStateM.run_get, h]
  rfl

theorem run_protocolPublish_refused (h : refusal c.info data options = some e) :
    (protocolPublish subject data options).run c = .error (.publish e) c := by
  rw [protocolPublish, EStateM.run_bind, run_adaptExcept, publish_refused h]

/-- A publish that is not refused is logged, and sent. -/
theorem run_protocolPublish_accepted (h : refusal c.info data options = none) :
    ∃ p opts proto payloads m c', data.toPayload = some p ∧ options.toOptions = some opts ∧
      Wire.publish c.info subject p opts = .ok (proto, payloads) ∧
      messageOf subject data options = some m ∧
      (protocolPublish subject data options).run c = .ok () c' ∧
      c' = { sendCommand proto payloads (count (totalLength p opts) c) with
        published := c.published ++ [m] } := by
  obtain ⟨p, opts, proto, payloads, hp, hopts, hpublish, hrun⟩ :=
    @publish_accepted _ port subject _ _ _ h
  have hm : messageOf subject data options = some ⟨subject, opts.reply, p.data, opts.headers⟩ := by
    rw [messageOf, hp, hopts]
  refine ⟨p, opts, proto, payloads, _, _, hp, hopts, hpublish, hm, ?_, rfl⟩
  rw [protocolPublish, EStateM.run_bind, run_adaptExcept, hrun, hm]
  rfl

theorem run_caught (x : Requesting μ E Unit) (c : NatsConnectionImpl μ E) :
    (caught x).run c =
      match x.run c with
      | EStateM.Result.ok _ c' => EStateM.Result.ok none c'
      | EStateM.Result.error err c' => EStateM.Result.ok (some err) c' := rfl

/-- The exception of a publish is caught. -/
theorem run_caught_refused (hcheck : c.check subject false true = none)
    (h : refusal c.info data options = some e) :
    (caught (publish subject data options)).run c = .ok (some (.publish e)) c := by
  rw [run_caught, publish, EStateM.run_bind, run_check hcheck]
  simp only [run_protocolPublish_refused h]

/-- A publish without an exception changes what is published and sent, and nothing else. -/
theorem run_caught_accepted (hcheck : c.check subject false true = none)
    (h : refusal c.info data options = none) :
    ∃ c', (caught (publish subject data options)).run c = .ok none c' ∧
      c'.published = c.published ++ (messageOf subject data options).toList := by
  obtain ⟨p, opts, proto, payloads, m, c', -, -, -, hm, hrun, hc'⟩ :=
    @run_protocolPublish_accepted _ _ _ subject _ _ h
  refine ⟨c', ?_, ?_⟩
  · rw [run_caught, publish, EStateM.run_bind, run_check hcheck]
    simp only [hrun]
  · rw [hc', hm]
    rfl

/-- The connection behind `initMux()`. -/
def muxed (nuid : Nat → String) (c : NatsConnectionImpl μ E) : NatsConnectionImpl μ E :=
  if c.conn.mux.isNone then c.draw.withMux (c.inboxOf nuid) else c

theorem run_initMux (nuid : Nat → String) (c : NatsConnectionImpl μ E) :
    (initMux nuid).run c = .ok () (c.muxed nuid) := by
  simp only [initMux, muxed, EStateM.run_bind, EStateM.run_get]
  split <;> rfl

/-- A request that is registered with the mux subscription, and has a timer. -/
def registered (nuid : Nat → String) (subject : String) (c : NatsConnectionImpl μ E) :
    NatsConnectionImpl μ E :=
  (c.draw.startTimer.muxed nuid).add c.nuids subject

theorem run_register {β : Type} (nuid : Nat → String) (subject : String)
    (k : Nat → Nat → Requesting μ E β) (c : NatsConnectionImpl μ E) :
    (do
      let token ← nextNuid
      let timer ← setTimeout
      protocolRequest nuid token subject
      k token timer).run c = (k c.nuids c.timerIds).run (c.registered nuid subject) := by
  have hrun : (protocolRequest nuid c.nuids subject).run c.draw.startTimer =
      .ok () (c.registered nuid subject) := by
    rw [protocolRequest, EStateM.run_bind, run_initMux]
    rfl
  show (protocolRequest nuid c.nuids subject >>= fun _ => k c.nuids c.timerIds).run
      c.draw.startTimer = _
  rw [EStateM.run_bind, hrun]

/-- What is registered. -/
theorem registered_eq (nuid : Nat → String) (subject : String) (c : NatsConnectionImpl μ E) :
    ∃ inbox, (c.registered nuid subject).conn.handler = (c.withMux inbox).conn.handler ∧
      (c.registered nuid subject).conn.reqs = c.conn.reqs ++ [(c.nuids, subject)] := by
  refine ⟨c.draw.startTimer.inboxOf nuid, ?_⟩
  unfold registered muxed
  split
  · refine ⟨?_, ?_⟩
    · show ((c.conn.initMux _).initMux _).handler = _
      rw [Connected.initMux_initMux]
      rfl
    · show ((c.conn.initMux _).request _ _ _).reqs = _
      rw [Connected.reqs_request, Connected.reqs_initMux]
  · rename_i hmux
    have hsome : c.conn.mux.isSome = true := by
      cases hc : c.conn.mux with
      | none => exact absurd (congrArg Option.isNone hc) hmux
      | some o => rfl
    refine ⟨?_, ?_⟩
    · show (c.conn.initMux _).handler = (c.conn.initMux _).handler
      rw [Connected.initMux_of_isSome hsome, Connected.initMux_of_isSome hsome]
    · exact Connected.reqs_request _ _ _ _

/-- What is not. -/
theorem kept_registered (nuid : Nat → String) (subject : String) (c : NatsConnectionImpl μ E) :
    (c.registered nuid subject).timers = c.timers ++ [c.timerIds] ∧
      (c.registered nuid subject).info = c.info ∧
      (c.registered nuid subject).draining = c.draining ∧
      (c.registered nuid subject).noMorePublishing = c.noMorePublishing ∧
      (c.registered nuid subject).lost = c.lost ∧
      (c.registered nuid subject).published = c.published ∧
      (c.registered nuid subject).isClosed = c.isClosed := by
  have hclosed : ∀ inbox, (c.conn.initMux inbox).handler.link.closed = c.isClosed := by
    intro inbox
    cases hmux : c.conn.mux with
    | none =>
        rw [Connected.initMux, hmux]
        exact ProtocolHandler.closed_subscribe _ _
    | some o =>
        rw [Connected.initMux, hmux]
        rfl
  obtain ⟨inbox, hhandler, -⟩ := registered_eq nuid subject c
  have hlink : (c.registered nuid subject).isClosed = c.isClosed := by
    unfold isClosed
    rw [hhandler]
    exact hclosed _
  refine ⟨?_, ?_, ?_, ?_, ?_, ?_, hlink⟩ <;>
    · unfold registered muxed
      split <;> rfl

/-- A request that is registered and cancelled leaves nothing but the mux subscription. -/
theorem leavesNothing_cancelled (nuid : Nat → String) (subject : String)
    (c : NatsConnectionImpl μ E) :
    ∃ inbox, LeavesNothing (c.withMux inbox)
      (((c.registered nuid subject).stopTimer c.timerIds).remove c.nuids) := by
  obtain ⟨inbox, hhandler, hreqs⟩ := registered_eq nuid subject c
  obtain ⟨htimers, -, -, -, hlost, -⟩ := kept_registered nuid subject c
  refine ⟨inbox, ?_, ?_, ?_, ?_, hlost⟩
  · exact congrArg ProtocolHandler.subs hhandler
  · show (c.registered nuid subject).conn.reqs.filter _ = (c.conn.initMux _).reqs
    rw [hreqs, Connected.reqs_initMux]
    exact @filter_concat_of_lt _ Prod.fst _ (c.nuids, subject) c.reqs_lt
  · show (c.registered nuid subject).timers.filter _ = c.timers
    rw [htimers]
    exact @filter_concat_of_lt _ id _ c.timerIds c.timers_lt
  · have hsame : (((c.registered nuid subject).stopTimer c.timerIds).remove c.nuids).conn.handler =
        (c.withMux inbox).conn.handler := hhandler
    rw [subTimers, hsame, subTimers]

/-! ## The ways over the mux subscription -/

/-- What both calls do there; they differ in what they return. -/
def overMux (nuid : Nat → String) (subject : String) (data : Data) (headers : Option Headers)
    (failed : RequestFailure → Returned α) (done : Returned α) : Requesting μ E (Returned α) := do
  let token ← nextNuid
  let timer ← setTimeout
  protocolRequest nuid token subject
  match ← caught (publish subject data ⟨(← get).baseInbox ++ nuid token, headers⟩) with
  | some err =>
      cancel token timer
      return failed err
  | none => return done

section

variable {headers : Option Headers} {failed : RequestFailure → Returned α} {done : Returned α}

theorem check_registered (h : c.check subject true true = none) :
    (c.registered nuid subject).check subject false true = none := by
  obtain ⟨-, -, hdraining, hpublishing, -, -, hclosed⟩ := kept_registered nuid subject c
  exact check_of_both h hclosed hdraining hpublishing (check_eq_none_iff.1 h).2.2.2

theorem run_overMux_refused (hcheck : c.check subject true true = none)
    (h : refusal c.info data ⟨"", headers⟩ = some e) :
    (overMux nuid subject data headers failed done).run c =
      .ok (failed (.publish e))
      (((c.registered nuid subject).stopTimer c.timerIds).remove c.nuids) := by
  obtain ⟨-, hinfo, -⟩ := kept_registered nuid subject c
  rw [overMux, run_register]
  rw [← hinfo, refusal_reply _ _ _ ((c.registered nuid subject).baseInbox ++ nuid c.nuids)] at h
  simp only [EStateM.run_bind, EStateM.run_get, run_caught_refused (check_registered hcheck) h]
  rfl

theorem run_overMux_accepted (hcheck : c.check subject true true = none)
    (h : refusal c.info data ⟨"", headers⟩ = none) :
    ∃ reply c', (overMux nuid subject data headers failed done).run c = .ok done c' ∧
      c'.published = c.published ++ (messageOf subject data ⟨reply, headers⟩).toList := by
  obtain ⟨-, hinfo, -, -, -, hpublished, -⟩ := kept_registered nuid subject c
  rw [← hinfo, refusal_reply _ _ _ ((c.registered nuid subject).baseInbox ++ nuid c.nuids)] at h
  obtain ⟨c', hrun, hc'⟩ := run_caught_accepted (check_registered hcheck) h
  refine ⟨_, c', ?_, hpublished ▸ hc'⟩
  rw [overMux, run_register]
  simp only [EStateM.run_bind, EStateM.run_get, hrun]
  rfl

/-- Over the mux subscription a request is one of these. -/
theorem request_overMux {opts : RequestOptions} (hcheck : c.check subject true true = none)
    (htimeout : 1 ≤ timeoutOf opts.timeout) (hreply : opts.reply = "") (hmux : opts.noMux = false) :
    (request nuid subject data opts : Requesting μ E (Returned α)).run c =
      (overMux nuid subject data opts.headers .rejected .pending).run c := by
  have hlong : ¬ timeoutOf opts.timeout < 1 := Rat.not_lt.2 htimeout
  simp only [request, EStateM.run_bind, EStateM.run_get, hcheck]
  rw [if_neg hlong, if_neg (by simp [hreply]), if_neg (by simp [hmux]), overMux]

theorem requestMany_overMux {opts : RequestManyOptions} (hcheck : c.check subject true true = none)
    (htimeout : 1 ≤ timeoutOf opts.maxWait) (hmux : opts.noMux = false) :
    (requestMany nuid subject data opts : Requesting μ E (Returned α)).run c =
      (overMux nuid subject data opts.headers
        (fun err => .iterator (QueuedIterator.new.pushFn (.stop (some err))))
        (.iterator .new)).run c := by
  have hlong : ¬ timeoutOf opts.maxWait < 1 := Rat.not_lt.2 htimeout
  simp only [requestMany, EStateM.run_bind, EStateM.run_get, hcheck]
  rw [if_neg hlong, if_neg (by simp [hmux]), overMux]

end

/-! ## The ways with a subscription of their own -/

theorem inboxOf_ne (nuid : Nat → String) (c : NatsConnectionImpl μ E) : c.inboxOf nuid ≠ "" := by
  intro h
  have hchars := congrArg String.toList h
  simp [inboxOf] at hchars

theorem run_subscribe (opts : SubscriptionOptions) (h : c.check opts.subject true false = none) :
    (subscribe opts subject).run c = .ok c.conn.handler.objs.length (c.withSub opts subject) := by
  rw [subscribe, EStateM.run_bind, run_check h]
  rfl

theorem isClosed_withSub (opts : SubscriptionOptions) (subject : String)
    (c : NatsConnectionImpl μ E) : (c.withSub opts subject).isClosed = c.isClosed :=
  ProtocolHandler.closed_subscribe _ _

/-- The subscription of a request is there before the publish, and so is the promise. -/
theorem request_noMux {opts : RequestOptions} (hcheck : c.check subject true true = none)
    (htimeout : 1 ≤ timeoutOf opts.timeout) (hmux : opts.noMux = true) :
    ∃ inbox o c', c'.info = c.info ∧ c'.published = c.published ∧
      (request nuid subject data opts : Requesting μ E (Returned α)).run c =
        (protocolPublish subject data ⟨inbox, opts.headers⟩ >>= fun _ => handOver o >>= fun _ =>
          pure .pending : Requesting μ E (Returned α)).run c' := by
  have hlong : ¬ timeoutOf opts.timeout < 1 := Rat.not_lt.2 htimeout
  obtain ⟨inbox, c₁, hinbox, hne, hc₁⟩ : ∃ inbox c₁,
      (if opts.reply ≠ "" then pure opts.reply else createInbox nuid : Requesting μ E
        String).run c =
        .ok inbox c₁ ∧ inbox ≠ "" ∧ (c₁ = c ∨ c₁ = c.draw) := by
    split
    · exact ⟨_, _, rfl, ‹_›, Or.inl rfl⟩
    · exact ⟨_, _, rfl, inboxOf_ne nuid c, Or.inr rfl⟩
  have hsub : c₁.check inbox true false = none := by
    rcases hc₁ with rfl | rfl <;> exact check_of_both hcheck rfl rfl rfl hne
  refine ⟨inbox, c₁.conn.handler.objs.length,
    { c₁.withSub ⟨inbox, none, some 1, true, true⟩ subject with
      lost := c₁.lost ++ [c₁.conn.handler.objs.length] }, ?_, ?_, ?_⟩
  · rcases hc₁ with rfl | rfl <;> rfl
  · rcases hc₁ with rfl | rfl <;> rfl
  · have hrun : (subscribe ⟨inbox, none, some 1, true, true⟩ subject : Requesting μ E Nat).run c₁ =
        .ok c₁.conn.handler.objs.length (c₁.withSub ⟨inbox, none, some 1, true, true⟩ subject) :=
      run_subscribe _ hsub
    simp only [request, EStateM.run_bind, EStateM.run_get, hcheck]
    rw [if_neg hlong, if_neg (by simp [hmux]), if_pos hmux, EStateM.run_bind, hinbox]
    simp only [EStateM.run_bind, hrun]
    rfl

theorem requestMany_noMux {opts : RequestManyOptions} (hcheck : c.check subject true true = none)
    (htimeout : 1 ≤ timeoutOf opts.maxWait) (hmux : opts.noMux = true) :
    ∃ inbox c', c'.info = c.info ∧ c'.published = c.published ∧ c'.check subject false true = none ∧
      (requestMany nuid subject data opts : Requesting μ E (Returned α)).run c =
        (caught (publish subject data ⟨inbox, none⟩) >>= fun refused =>
          match refused with
          | some _ => throw .clearTimers
          | none =>
          setTimeout >>= fun _ => pure (.iterator .new) : Requesting μ E (Returned α)).run c' := by
  have hlong : ¬ timeoutOf opts.maxWait < 1 := Rat.not_lt.2 htimeout
  have hsub : c.draw.check (c.inboxOf nuid) true false = none :=
    check_of_both hcheck rfl rfl rfl (inboxOf_ne nuid c)
  refine ⟨c.inboxOf nuid, c.draw.withSub ⟨c.inboxOf nuid, none, none, true, false⟩ subject, rfl,
    rfl, ?_, ?_⟩
  · exact check_of_both hcheck (isClosed_withSub _ _ _) rfl rfl (check_eq_none_iff.1 hcheck).2.2.2
  · have hinbox : (createInbox nuid : Requesting μ E String).run c = .ok (c.inboxOf nuid) c.draw :=
      rfl
    have hrun :
        (subscribe ⟨c.inboxOf nuid, none, none, true, false⟩ subject : Requesting μ E Nat).run
        c.draw = .ok c.draw.conn.handler.objs.length
          (c.draw.withSub ⟨c.inboxOf nuid, none, none, true, false⟩ subject) :=
      run_subscribe _ hsub
    simp only [requestMany, EStateM.run_bind, EStateM.run_get, hcheck]
    rw [if_neg hlong, if_pos hmux, EStateM.run_bind, hinbox]
    simp only [EStateM.run_bind, hrun]

/-! ## What is published -/

/-- The messages of a publish. -/
def sends (info : Option ServerInfo) (subject : String) (data : Data) (options : PublishArgs) :
    List Message :=
  if refusal info data options = none then (messageOf subject data options).toList else []

/-- But for the reply they are the same. -/
theorem content_sends (info : Option ServerInfo) (subject : String) (data : Data)
    (reply reply' : String) (headers : Option Headers) :
      (sends info subject data ⟨reply, headers⟩).map Message.content =
        (sends info subject data ⟨reply', headers⟩).map Message.content := by
  unfold sends
  rw [refusal_reply info data reply reply' headers]
  split
  · unfold messageOf
    cases data.toPayload with
    | none => rfl
    | some p => rcases headers with - | h | - <;> rfl
  · rfl

theorem publishedBy_ok {x : Requesting μ E (Returned α)} {r : Returned α} {ms : List Message}
    (h : x.run c = .ok r c') (hc' : c'.published = c.published ++ ms) : publishedBy x c = ms := by
  rw [publishedBy, h]
  simp only
  rw [hc', List.drop_left]

theorem publishedBy_error {x : Requesting μ E (Returned α)} {err : RequestFailure}
    (h : x.run c = .error err c') (hc' : c'.published = c.published) : publishedBy x c = [] := by
  rw [publishedBy, h]
  simp only
  rw [hc', List.drop_length]

theorem publishedBy_rejected {x : Requesting μ E (Returned α)} {r : Returned α}
    (h : x.run c = .ok r c) : publishedBy x c = [] :=
  publishedBy_ok h (List.append_nil _).symm

theorem publishedBy_overMux {headers : Option Headers} {failed : RequestFailure → Returned α}
    {done : Returned α} (hcheck : c.check subject true true = none) :
    ∃ reply, publishedBy (overMux nuid subject data headers failed done) c =
      sends c.info subject data ⟨reply, headers⟩ := by
  cases h : refusal c.info data ⟨"", headers⟩ with
  | some e =>
      refine ⟨"", ?_⟩
      rw [sends, if_neg (by rw [h]; nofun)]
      refine publishedBy_ok (run_overMux_refused hcheck h) ?_
      obtain ⟨-, -, -, -, -, hpublished, -⟩ := kept_registered nuid subject c
      rw [List.append_nil]
      exact hpublished
  | none =>
      obtain ⟨reply, c', hrun, hc'⟩ := @run_overMux_accepted _ _ _ nuid _ _ _ _ failed done hcheck h
      refine ⟨reply, ?_⟩
      rw [sends, if_pos (by rw [refusal_reply _ _ _ "", h])]
      exact publishedBy_ok hrun hc'

/-- What a request publishes. -/
theorem publishedBy_request {opts : RequestOptions} (hcheck : c.check subject true true = none)
    (htimeout : 1 ≤ timeoutOf opts.timeout) (hreply : opts.reply = "") :
    ∃ reply, publishedBy (request nuid subject data opts : Requesting μ E (Returned α)) c =
      sends c.info subject data ⟨reply, opts.headers⟩ := by
  cases hmux : opts.noMux with
  | false =>
      obtain ⟨reply, hpublished⟩ :=
        @publishedBy_overMux _ _ _ nuid c _ data opts.headers .rejected .pending hcheck
      refine ⟨reply, hpublished ▸ ?_⟩
      rw [publishedBy, publishedBy, request_overMux hcheck htimeout hreply hmux]
  | true =>
      obtain ⟨inbox, o, c₁, hinfo, hpublished, hrun⟩ :=
        @request_noMux μ E α nuid c subject data opts hcheck htimeout hmux
      refine ⟨inbox, ?_⟩
      rw [← hinfo, sends]
      cases h : refusal c₁.info data ⟨inbox, opts.headers⟩ with
      | some e =>
          rw [EStateM.run_bind, run_protocolPublish_refused h] at hrun
          exact publishedBy_error hrun hpublished
      | none =>
          obtain ⟨p, args, proto, payloads, m, c', -, -, -, hm, hpublish, hc'⟩ :=
            @run_protocolPublish_accepted _ _ _ subject _ _ h
          rw [EStateM.run_bind, hpublish] at hrun
          refine publishedBy_ok hrun ?_
          show c'.published = _
          rw [hc', hm, ← hpublished]
          rfl

/-- What `requestMany` publishes. -/
theorem publishedBy_requestMany {opts : RequestManyOptions}
    (hcheck : c.check subject true true = none) (htimeout : 1 ≤ timeoutOf opts.maxWait) :
    ∃ reply, publishedBy (requestMany nuid subject data opts : Requesting μ E (Returned α)) c =
      sends c.info subject data ⟨reply, if opts.noMux then none else opts.headers⟩ := by
  cases hmux : opts.noMux with
  | false =>
      obtain ⟨reply, hpublished⟩ := @publishedBy_overMux _ _ α nuid c _ data opts.headers
        (fun err => .iterator (QueuedIterator.new.pushFn (.stop (some err))))
        (.iterator .new) hcheck
      refine ⟨reply, hpublished ▸ ?_⟩
      rw [publishedBy, publishedBy, requestMany_overMux hcheck htimeout hmux]
  | true =>
      obtain ⟨inbox, c₁, hinfo, hpublished, hcheck₁, hrun⟩ :=
        @requestMany_noMux μ E α nuid c subject data opts hcheck htimeout hmux
      refine ⟨inbox, ?_⟩
      rw [← hinfo, sends, if_pos rfl]
      cases h : refusal c₁.info data ⟨inbox, none⟩ with
      | some e =>
          rw [EStateM.run_bind, run_caught_refused hcheck₁ h] at hrun
          exact publishedBy_error hrun hpublished
      | none =>
          obtain ⟨c', hpublish, hc'⟩ := run_caught_accepted hcheck₁ h
          rw [EStateM.run_bind, hpublish] at hrun
          refine publishedBy_ok hrun ?_
          show c'.published = _
          rw [hc', ← hpublished]
          rfl

/-- A call that is rejected by its checks publishes nothing. -/
theorem publishedBy_request_rejected {opts : RequestOptions}
    (h : c.check subject true true ≠ none ∨ timeoutOf opts.timeout < 1) :
    publishedBy (request nuid subject data opts : Requesting μ E (Returned α)) c = [] := by
  cases hcheck : c.check subject true true with
  | some err =>
      refine publishedBy_rejected (r := .rejected err) ?_
      simp only [request, EStateM.run_bind, EStateM.run_get, hcheck]
      rfl
  | none =>
      refine publishedBy_rejected (r := .rejected .timeout) ?_
      simp only [request, EStateM.run_bind, EStateM.run_get, hcheck]
      rw [if_pos (h.resolve_left (fun hne => hne hcheck))]
      rfl

theorem publishedBy_requestMany_rejected {opts : RequestManyOptions}
    (h : c.check subject true true ≠ none ∨ timeoutOf opts.maxWait < 1) :
    publishedBy (requestMany nuid subject data opts : Requesting μ E (Returned α)) c = [] := by
  cases hcheck : c.check subject true true with
  | some err =>
      refine publishedBy_rejected (r := .rejected err) ?_
      simp only [requestMany, EStateM.run_bind, EStateM.run_get, hcheck]
      rfl
  | none =>
      refine publishedBy_rejected (r := .rejected .timeout) ?_
      simp only [requestMany, EStateM.run_bind, EStateM.run_get, hcheck]
      rw [if_pos (h.resolve_left (fun hne => hne hcheck))]
      rfl

/-- Headers do not help a payload that is refused. -/
theorem refusal_headers {info : Option ServerInfo} {data : Data} (hs : Headers)
    (h : refusal info data ⟨"", none⟩ ≠ none) : refusal info data ⟨"", some hs⟩ ≠ none := by
  unfold refusal at h ⊢
  cases hp : data.toPayload with
  | none => simp
  | some p =>
      simp only [hp, Option.isSome_none, Bool.false_and, Bool.false_eq_true, if_false,
        PublishArgs.toOptions] at h
      have hbig : (info.any fun i => i.maxPayload < totalLength p ⟨"", none⟩) = true := by
        by_contra hsmall
        rw [if_neg hsmall] at h
        exact h rfl
      simp only
      split
      · nofun
      · cases hs with
        | other => nofun
        | hdrs hdr =>
            obtain ⟨i, hi, hlt⟩ := (Option.any_eq_true _ _).1 hbig
            have hlonger : i.maxPayload < totalLength p ⟨"", some hdr⟩ :=
              Nat.lt_of_lt_of_le (of_decide_eq_true hlt) (Nat.le_add_right p.data.length _)
            subst hi
            simp only [PublishArgs.toOptions, Option.any_some, decide_eq_true hlonger]
            nofun

/-- When headers make no difference: there are none, or the payload is refused anyway. -/
theorem content_sends_iff (info : Option ServerInfo) (subject : String) (data : Data)
    (reply reply' : String) (headers : Option Headers) :
    (sends info subject data ⟨reply, none⟩).map Message.content =
        (sends info subject data ⟨reply', headers⟩).map Message.content ↔
      headers = none ∨ refusal info data ⟨"", none⟩ ≠ none := by
  rw [content_sends info subject data reply "" none,
    content_sends info subject data reply' "" headers]
  cases headers with
  | none => exact ⟨fun _ => Or.inl rfl, fun _ => rfl⟩
  | some hs =>
      by_cases h : refusal info data ⟨"", none⟩ = none
      · obtain ⟨p, hp⟩ : ∃ p, data.toPayload = some p := by
          cases hp : data.toPayload with
          | none =>
              rw [refusal, hp] at h
              cases h
          | some p => exact ⟨p, rfl⟩
        have hsub : sends info subject data ⟨"", none⟩ = [⟨subject, "", p.data, none⟩] := by
          rw [sends, if_pos h, messageOf, hp]
          rfl
        refine ⟨fun heq => ?_, fun hor => ?_⟩
        · -- the message without headers is published, so the other would have to be without them
          rw [hsub, sends] at heq
          split at heq
          · rw [messageOf, hp] at heq
            cases hs <;> cases heq
          · cases heq
        · rcases hor with hor | hor
          · cases hor
          · exact absurd h hor
      · refine ⟨fun _ => Or.inr h, fun _ => ?_⟩
        rw [sends, sends, if_neg h, if_neg (refusal_headers hs h)]

/-- **The modes of a request** publish the same, but for the reply. Those of `requestMany` do so
exactly if nothing is published either way, or there are no headers. -/
theorem modes_agree_iff (nuid : Nat → String) (c : NatsConnectionImpl μ E) (subject : String)
    (data : Data) :
    (∀ timeout headers,
      (publishedBy (request nuid subject data ⟨timeout, headers, true, ""⟩ : Requesting μ E
        (Returned α)) c).map Message.content =
      (publishedBy (request nuid subject data ⟨timeout, headers, false, ""⟩ : Requesting μ E
        (Returned α)) c).map Message.content) ∧
    ∀ opts : RequestManyOptions,
      ((publishedBy (requestMany nuid subject data { opts with noMux := true } :
          Requesting μ E (Returned α)) c).map Message.content =
        (publishedBy (requestMany nuid subject data { opts with noMux := false } :
          Requesting μ E (Returned α)) c).map Message.content ↔
      (c.check subject true true ≠ none ∨ timeoutOf opts.maxWait < 1) ∨
        opts.headers = none ∨ refusal c.info data ⟨"", none⟩ ≠ none) := by
  refine ⟨fun timeout headers => ?_, fun opts => ?_⟩
  · -- a `request` passes the headers on in both modes
    by_cases hrejected : c.check subject true true ≠ none ∨ timeoutOf timeout < 1
    · rw [@publishedBy_request_rejected _ _ α nuid _ _ data ⟨timeout, headers, true, ""⟩ hrejected,
        @publishedBy_request_rejected _ _ α nuid _ _ data ⟨timeout, headers, false, ""⟩ hrejected]
    · obtain ⟨hcheck, htimeout⟩ := not_or.1 hrejected
      have hcheck := not_not.1 hcheck
      have htimeout := Rat.not_lt.1 htimeout
      obtain ⟨reply, hsub⟩ := @publishedBy_request _ _ α nuid _ _ data
        ⟨timeout, headers, true, ""⟩ hcheck htimeout rfl
      obtain ⟨reply', hmux⟩ := @publishedBy_request _ _ α nuid _ _ data
        ⟨timeout, headers, false, ""⟩ hcheck htimeout rfl
      rw [hsub, hmux]
      exact content_sends _ _ _ _ _ _
  · -- a `requestMany` does in one of them
    by_cases hrejected : c.check subject true true ≠ none ∨ timeoutOf opts.maxWait < 1
    · rw [@publishedBy_requestMany_rejected _ _ α nuid _ _ data { opts with noMux := true }
        hrejected, @publishedBy_requestMany_rejected _ _ α nuid _ _ data
        { opts with noMux := false } hrejected]
      exact ⟨fun _ => Or.inl hrejected, fun _ => rfl⟩
    · obtain ⟨hcheck, htimeout⟩ := not_or.1 hrejected
      have hcheck := not_not.1 hcheck
      have htimeout := Rat.not_lt.1 htimeout
      obtain ⟨reply, hsub⟩ := @publishedBy_requestMany _ _ α nuid _ _ data
        { opts with noMux := true } hcheck htimeout
      obtain ⟨reply', hmux⟩ := @publishedBy_requestMany _ _ α nuid _ _ data
        { opts with noMux := false } hcheck htimeout
      rw [hsub, hmux]
      simp only [if_true, Bool.false_eq_true, if_false]
      rw [content_sends_iff]
      exact ⟨Or.inr, fun hor => hor.resolve_left hrejected⟩

/-- A connection on which nothing was done yet. -/
def fresh (info : Option ServerInfo) (pendingLimit maxOut : Nat) : NatsConnectionImpl μ E where
  conn := .new pendingLimit maxOut
  info := info
  outBytes := 0
  outMsgs := 0
  draining := false
  noMorePublishing := false
  inboxPrefix := ""
  baseInbox := ""
  nuids := 0
  timers := []
  timerIds := 0
  lost := []
  published := []
  reqs_lt := fun _ hr => absurd hr List.not_mem_nil
  timers_lt := fun _ ht => absurd ht List.not_mem_nil

/-- With headers `requestMany` publishes something else without the mux subscription. -/
theorem not_modes_agree :
    ¬ ∀ (nuid : Nat → String) (c : NatsConnectionImpl Unit Unit) (subject : String) (data : Data)
        (opts : RequestManyOptions),
      (publishedBy (requestMany nuid subject data { opts with noMux := true } :
          Requesting Unit Unit (Returned Unit)) c).map Message.content =
        (publishedBy (requestMany nuid subject data { opts with noMux := false } :
          Requesting Unit Unit (Returned Unit)) c).map Message.content := by
  intro h
  let headers : Headers := .hdrs (@MsgHdrs.build .common [.set "K" "v" .exact])
  have heq := congrArg (List.map fun x : String × Bytes × Option MsgHdrs => x.2.2.isSome)
    (h toString (fresh (some ⟨true, 1024⟩) 1024 2) "a" (.payload (.text "p"))
      ⟨none, none, some headers, none, false, none⟩)
  exact absurd heq (by decide +kernel)

/-! ## A call that fails -/

/-- The function that `cancel(err)` pushes reports the error. -/
theorem reports_stop (err : RequestFailure) :
    Reports err (.iterator (QueuedIterator.new.pushFn (.stop (some err))) : Returned α) :=
  fun _ => ⟨_, rfl, rfl⟩

/-- A mux subscription that is new stays in the table. -/
theorem isSome_of_leavesNothing {inbox : String} (h : LeavesNothing (c.withMux inbox) c')
    (h' : LeavesNothing c c') : c.conn.mux.isSome = true := by
  cases hmux : c.conn.mux with
  | some o => rfl
  | none =>
      have hsubs : c.conn.handler.subs = (c.conn.initMux (inbox ++ ".")).handler.subs :=
        h'.subs.symm.trans h.subs
      rw [Connected.subs_initMux hmux] at hsubs
      have hlength := congrArg List.length hsubs
      rw [List.length_append, List.length_singleton] at hlength
      omega

/-- One that there was is no difference. -/
theorem leavesNothing_of_isSome {inbox : String} (h : LeavesNothing (c.withMux inbox) c')
    (hmux : c.conn.mux.isSome = true) : LeavesNothing c c' := by
  have hconn : (c.withMux inbox).conn = c.conn := Connected.initMux_of_isSome hmux _
  refine ⟨?_, ?_, h.timers, ?_, h.lost⟩
  · rw [h.subs, hconn]
  · rw [h.reqs, hconn]
  · rw [h.subTimers, subTimers, hconn, subTimers]

/-- Cancelling once more makes no difference. -/
theorem LeavesNothing.continued (h : LeavesNothing c c') : LeavesNothing c (c.continued c') := by
  refine ⟨h.subs, ?_, ?_, h.subTimers, h.lost⟩
  · show c'.conn.reqs.filter _ = c.conn.reqs
    rw [h.reqs]
    exact filter_of_lt c.reqs_lt
  · show c'.timers.filter _ = c.timers
    rw [h.timers]
    exact @filter_of_lt _ id _ _ c.timers_lt

/-- Over the mux subscription a call that fails is contained, up to the mux subscription itself. -/
theorem contained_overMux {call : RequestCall} (hcheck : c.check subject true true = none)
    (hvalid : call.valid = true) (hrefused : refusal c.info data ⟨"", call.headers⟩ = some e)
    (hmux : call.noMux = false) :
    ∃ r c' inbox, (call.call nuid subject data : Requesting μ E (Returned α)).run c = .ok r c' ∧
      Reports (.publish e) r ∧ LeavesNothing (c.withMux inbox) c' := by
  obtain ⟨inbox, hleaves⟩ := leavesNothing_cancelled nuid subject c
  cases call with
  | request opts =>
      obtain ⟨htimeout, hreply⟩ := Bool.and_eq_true_iff.1 hvalid
      have hreply : opts.reply = "" := by
        have hmux : opts.noMux = false := hmux
        rw [hmux, Bool.false_or] at hreply
        exact of_decide_eq_true hreply
      refine ⟨.rejected (.publish e), _, inbox, ?_, rfl, hleaves⟩
      refine (request_overMux hcheck (of_decide_eq_true htimeout) hreply hmux).trans ?_
      exact run_overMux_refused hcheck hrefused
  | requestMany opts =>
      have hheaders : (if opts.noMux = true then none else opts.headers) = opts.headers := by
        rw [show opts.noMux = false from hmux]
        rfl
      refine ⟨_, _, inbox, ?_, reports_stop (.publish e), hleaves⟩
      refine (requestMany_overMux hcheck (of_decide_eq_true hvalid) hmux).trans ?_
      exact run_overMux_refused hcheck (hheaders ▸ hrefused)

/-- With a subscription of its own a call that fails throws. -/
theorem throws_noMux {call : RequestCall} (hcheck : c.check subject true true = none)
    (hvalid : call.valid = true) (hrefused : refusal c.info data ⟨"", call.headers⟩ = some e)
    (hmux : call.noMux = true) :
    ∃ err c', (call.call nuid subject data : Requesting μ E (Returned α)).run c =
      .error err c' := by
  cases call with
  | request opts =>
      obtain ⟨htimeout, -⟩ := Bool.and_eq_true_iff.1 hvalid
      obtain ⟨inbox, o, c₁, hinfo, -, hrun⟩ :=
        @request_noMux μ E α nuid c subject data opts hcheck (of_decide_eq_true htimeout) hmux
      have hrefused : refusal c.info data ⟨"", opts.headers⟩ = some e := hrefused
      refine ⟨.publish e, c₁, hrun.trans ?_⟩
      rw [refusal_reply _ _ _ inbox, ← hinfo] at hrefused
      rw [EStateM.run_bind, run_protocolPublish_refused hrefused]
  | requestMany opts =>
      have hheaders : (if opts.noMux = true then none else opts.headers) = none := if_pos hmux
      obtain ⟨inbox, c₁, hinfo, -, hcheck₁, hrun⟩ :=
        @requestMany_noMux μ E α nuid c subject data opts hcheck (of_decide_eq_true hvalid) hmux
      have hrefused : refusal c.info data ⟨"", none⟩ = some e := hheaders ▸ hrefused
      refine ⟨.clearTimers, c₁, hrun.trans ?_⟩
      rw [refusal_reply _ _ _ inbox, ← hinfo] at hrefused
      rw [EStateM.run_bind, run_caught_refused hcheck₁ hrefused]
      rfl

/-- **A call that fails is contained** exactly if it goes over the mux subscription, and this was
there before. The first call over the mux subscription leaves it behind, and nothing else. -/
theorem contained_iff (nuid : Nat → String) (c : NatsConnectionImpl μ E) (subject : String)
    (data : Data) (call : RequestCall) (e : PublishFailure)
    (hcheck : c.check subject true true = none) (hvalid : call.valid = true)
    (hrefused : refusal c.info data ⟨"", call.headers⟩ = some e) :
    (Contained c (.publish e) ((call.call nuid subject data : Requesting μ E (Returned α)).run c) ↔
      call.noMux = false ∧ c.conn.mux.isSome = true) ∧
    (call.noMux = false → ∃ inbox,
      Contained (c.withMux inbox) (.publish e)
        ((call.call nuid subject data : Requesting μ E (Returned α)).run c)) := by
  cases hmux : call.noMux with
  | true =>
      obtain ⟨err, c', hrun⟩ :=
        @throws_noMux μ E α nuid c subject data e call hcheck hvalid hrefused hmux
      rw [hrun]
      exact ⟨⟨False.elim, fun h => nomatch h.1⟩, nofun⟩
  | false =>
      obtain ⟨r, c', inbox, hrun, hreports, hleaves⟩ :=
        @contained_overMux μ E α nuid c subject data e call hcheck hvalid hrefused hmux
      rw [hrun]
      refine ⟨⟨fun h => ⟨rfl, ?_⟩, fun h => ?_⟩,
        fun _ => ⟨inbox, hreports, hleaves, hleaves.continued⟩⟩
      · exact isSome_of_leavesNothing hleaves h.2.1
      · have hnothing := leavesNothing_of_isSome hleaves h.2
        exact ⟨hreports, hnothing, hnothing.continued⟩

/-- A payload that is too long, with the mux subscription in place. -/
theorem contained_iff_tooLong :
    let c : NatsConnectionImpl Unit Unit := (fresh (some ⟨true, 2⟩) 1024 2).withMux "_INBOX.M"
    let e : PublishFailure := .refused .maxPayloadExceeded
    Contained c (.publish e) ((RequestCall.call toString "a" (.payload (.text "long"))
      (.requestMany ⟨none, none, none, none, false, none⟩) : Requesting Unit Unit
      (Returned Unit)).run c) := by
  intro c e
  refine (contained_iff toString c "a" (.payload (.text "long"))
    (.requestMany ⟨none, none, none, none, false, none⟩) e ?_ ?_ ?_).1.2 ?_
  · decide +kernel
  · decide +kernel
  · decide +kernel
  · decide +kernel

/-- A request with `noMux` whose payload is too long throws. -/
theorem not_contained :
    ¬ ∀ (nuid : Nat → String) (c : NatsConnectionImpl Unit Unit) (subject : String) (data : Data)
        (call : RequestCall) (e : PublishFailure), c.check subject true true = none →
      call.valid = true → refusal c.info data ⟨"", call.headers⟩ = some e →
      Contained c (.publish e)
      ((call.call nuid subject data : Requesting Unit Unit (Returned Unit)).run c) := by
  intro h
  let c : NatsConnectionImpl Unit Unit := (fresh (some ⟨true, 2⟩) 1024 2).withMux "_INBOX.M"
  let call : RequestCall := .request ⟨none, none, true, ""⟩
  have hcontained := h toString c "a" (.payload (.text "long")) call (.refused .maxPayloadExceeded)
    (by decide +kernel) (by decide +kernel) (by decide +kernel)
  have hthrows : (match (call.call toString "a" (.payload (.text "long")) :
      Requesting Unit Unit (Returned Unit)).run c with
    | EStateM.Result.ok _ _ => false
    | EStateM.Result.error _ _ => true) = true := by
    decide +kernel
  cases hrun : (call.call toString "a" (.payload (.text "long")) :
      Requesting Unit Unit (Returned Unit)).run c with
  | ok r c' =>
      rw [hrun] at hthrows
      cases hthrows
  | error err c' =>
      rw [hrun] at hcontained
      exact hcontained

end NatsConnectionImpl

end NatsClient.Connection
