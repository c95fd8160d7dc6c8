import NatsClient.Connection.MuxSubscription

/-!
# A connection and what is called on it

Model of a connection (`nats.ts`) over its `ProtocolHandler` (`protocol.ts`): subscriptions,
requests with and without the mux subscription, flushes, drains of subscriptions and of the
connection, and the close. The callback of a subscription is that of a user, who makes calls in it,
the dispatcher of the mux subscription, or that of a request with `noMux`. A call that the
connection refuses does nothing.

`drain()` of the connection waits for the drains of its subscriptions, then for a flush, and then
for the close. What it waits for may be rejected, and it resolves then too (`drainThen`).
-/

set_option autoImplicit false

namespace NatsClient.Connection.Operations

open NatsClient.Foundation

/-- A protocol handler whose messages and errors are those of requests. -/
abbrev Handler := ProtocolHandler Mux.Msg Mux.RequestError

/-- A subscription of such a handler. -/
abbrev Sub := SubscriptionImpl Mux.Msg Mux.RequestError

/-- A `request` with `noMux`: its subscription (an object), whether its promise was returned, and
what it was settled with. -/
structure NoMuxRequest where
  sub : Nat
  returned : Bool
  settled : Option Mux.Outcome
deriving DecidableEq, Repr

/-- Where the promise of `drain()` is: not called, waiting for the drains of some subscriptions
(objects), for the deferred of its flush, or for the close, about to be caught, or resolved. -/
inductive DrainState where
  | idle
  | subs (os : List Nat)
  | flush (d : Nat)
  | close
  | failed
  | resolved
deriving DecidableEq, Repr

/-- The connection: the handler, the mux subscription with the objects that have its dispatcher as
their callback, the `requestSubject` of the objects that have one, the requests with `noMux`, the
deferreds of the flushes that were called, and the drain. -/
structure Client where
  handler : Handler
  mux : Mux.MuxSubscription
  muxSubs : List Nat
  requestSubjects : List (Nat × String)
  noMux : List NoMuxRequest
  flushes : List Nat
  draining : Bool
  noMorePublishing : Bool
  drain : DrainState

/-- What a user, or a callback, can call. A request comes with its `PUB`, which is missing where the
publish throws; `reply` is the inbox where it is given. -/
inductive Operation where
  | handler (c : Call)
  | request (q : Mux.NewRequest) (proto : String) (payload : List UInt8)
  | requestNoMux (subject : String) (reply : Option String) (pub : Option (String × List UInt8))
  | requestManyNoMux (subject : String) (pub : Option (String × List UInt8))
  | drain
deriving DecidableEq, Repr

/-- What can happen: a call, a message, a permission error, a timer of a subscription or of a
request, a request that is cancelled by what waits for it, the continuation of the drain, and the
events of the handler that are none of these. -/
inductive Event where
  | call (op : Operation)
  | message (sid : Nat) (m : Mux.Msg) (ops : List Operation)
  | error (ctx : PermissionContext) (ops : List Operation)
  | timeout (o : Nat) (ops : List Operation)
  | requestTimer (i : Nat)
  | requestCancel (i : Nat) (err : Option Mux.RequestError)
  | drainThen
  | handler (e : ProtocolHandler.Event Mux.Msg Mux.RequestError)

namespace Client

/-- A new connection. -/
def new (pendingLimit maxOut : Nat) : Client where
  handler := .new pendingLimit maxOut
  mux := .new
  muxSubs := []
  requestSubjects := []
  noMux := []
  flushes := []
  draining := false
  noMorePublishing := false
  drain := .idle

/-- The handler changes; where it closes, `_close` closes the mux subscription too. -/
def setHandler (c : Client) (h : Handler) : Client :=
  if h.link.closed && !c.handler.link.closed then { c with handler := h, mux := c.mux.close }
  else { c with handler := h }

/-- `flush()`. -/
def flush (c : Client) : Client :=
  { c with
    handler := { c.handler with link := c.handler.link.flush }
    flushes := c.flushes ++ [c.handler.link.deferreds.created] }

/-- The `PUB` of a request. -/
def publish (c : Client) (pub : Option (String × List UInt8)) : Client :=
  match pub with
  | some (proto, payload) => { c with handler := c.handler.sendCommand (.pub proto payload) }
  | none => c

/-- A subscription with a `requestSubject`. -/
def subscribe (c : Client) (opts : SubscriptionOptions) (subject : String) : Client :=
  { c with
    handler := c.handler.subscribe opts
    requestSubjects := c.requestSubjects ++ [(c.handler.objs.length, subject)] }

/-- The promise of the request whose subscription is object `o` is settled. -/
def settle (c : Client) (o : Nat) (x : Mux.Outcome) : Client :=
  { c with
    noMux :=
      c.noMux.map fun r => if r.sub = o then { r with settled := some (r.settled.getD x) } else r }

/-- The object has the callback of a request with `noMux`. -/
def isNoMux (c : Client) (o : Nat) : Bool := c.noMux.any fun r => r.sub = o

/-- The calls that are refused: everything but the methods of a subscription on a closed connection,
what subscribes on one that drains, and what publishes at the end of the drain. -/
def refuses (c : Client) : Operation → Bool
  | .handler (.unsubscribe _ _) | .handler (.drain _) | .handler .close => false
  | .handler .flush => c.handler.link.closed
  | .handler (.publish _ _) => c.handler.link.closed || c.noMorePublishing
  | .handler (.subscribe _) | .handler (.resub _ _) | .handler .reconnect | .drain =>
      c.handler.link.closed || c.draining
  | .request _ _ _ | .requestNoMux _ _ _ | .requestManyNoMux _ _ =>
      c.handler.link.closed || c.draining || c.noMorePublishing

/-- `_close()`, up to where it waits for the transport. -/
def close (c : Client) : Client := c.setHandler (c.handler.call .close)

/-- `drain()`: the drain of a subscription that is closed is rejected. -/
def drainAll (c : Client) : Client :=
  let os := c.handler.subs.map Prod.snd
  { c with
    draining := true
    handler := os.foldl ProtocolHandler.drainSub c.handler
    drain := if os.any fun o => (c.handler.objs[o]?).any (·.isClosed) then .failed else .subs os }

/-- The continuations of the drain: behind the drains of the subscriptions, the flush and the close,
and the one that catches. `none` where it waits. -/
def drainThen (c : Client) : Option Client :=
  match c.drain with
  | .idle | .resolved => none
  | .subs os =>
      -- `Promise.all` waits for the drains of all
      if os.any fun o => c.handler.drains.any fun x => x.1 = o then none
      else
        some { c with
          noMorePublishing := true
          handler := { c.handler with link := c.handler.link.flush }
          drain := .flush c.handler.link.deferreds.created }
  | .flush d =>
      match c.handler.link.outcome d with
      | some .resolved => some { c.close with drain := .close }
      | some .rejected => some { c with drain := .failed }
      | none => none
  -- the catch swallows what is thrown
  | .close | .failed => some { c with drain := .resolved }

section

variable (nuid : Nat → String) (inboxPrefix : String)

/-- `request(subject, data, opts)`, which makes the mux subscription if there is none; that gets its
callback when it is made. -/
def request (c : Client) (q : Mux.NewRequest) (proto : String) (payload : List UInt8) : Client :=
  let mux := c.mux.request nuid inboxPrefix q
  let made :=
    match c.mux.mux with
    | some _ => c
    | none =>
        { c with
          handler := c.handler.subscribe ⟨mux.mux.getD "", none, none, false, false⟩
          muxSubs := c.muxSubs ++ [c.handler.objs.length] }
  { made with mux := mux }.publish (if q.thrown.isNone then some (proto, payload) else none)

/-- `createInbox(prefix)`. -/
def createInbox (c : Client) : String × Client :=
  ((if inboxPrefix = "" then "_INBOX" else inboxPrefix) ++ "." ++ nuid c.mux.nuids,
    { c with mux := { c.mux with nuids := c.mux.nuids + 1 } })

/-- `request(subject, data, opts)` with `noMux`. -/
def requestNoMux (c : Client) (subject : String) (reply : Option String)
    (pub : Option (String × List UInt8)) : Client :=
  let (inbox, c) :=
    match reply with
    | some inbox => (inbox, c)
    | none => c.createInbox nuid inboxPrefix
  let o := c.handler.objs.length
  let c := (c.subscribe ⟨inbox, none, some 1, true, true⟩ subject).publish pub
  { c with noMux := c.noMux ++ [⟨o, pub.isSome, none⟩] }

/-- `requestMany(subject, data, opts)` with `noMux`; what its callback does are the calls it
makes. -/
def requestManyNoMux (c : Client) (subject : String) (pub : Option (String × List UInt8)) :
    Client :=
  let (inbox, c) := c.createInbox nuid inboxPrefix
  (c.subscribe ⟨inbox, none, none, true, false⟩ subject).publish pub

/-- A call. -/
def call (c : Client) (op : Operation) : Client :=
  if c.refuses op then c
  else
    match op with
    | .drain => c.drainAll
    | .handler .flush => c.flush
    | .handler call => c.setHandler (c.handler.call call)
    | .request q proto payload => c.request nuid inboxPrefix q proto payload
    | .requestNoMux subject reply pub => c.requestNoMux nuid inboxPrefix subject reply pub
    | .requestManyNoMux subject pub => c.requestManyNoMux nuid inboxPrefix subject pub

/-- Calls one after the other. -/
def calls (c : Client) (ops : List Operation) : Client := ops.foldl (call nuid inboxPrefix) c

/-- `callback(null, msg)` of object `o`: the dispatcher, the callback of a request, that of a user,
or that of an iterator. -/
def callback (c : Client) (o : Nat) (s : Sub) (m : Mux.Msg)
    (ops : List Operation) : Client :=
  if o ∈ c.muxSubs then { c with mux := c.mux.dispatcher m }
  else if c.isNoMux o then
    c.settle o (match Mux.isRequestError m with | some err => .error err | none => .reply m)
  else if s.noIterator then c.calls nuid inboxPrefix ops
  else { c with handler := c.handler.setObj o (s.push m) }

/-- `callback(err, {})` of object `o`; the dispatcher finds no token in the message. -/
def callbackError (c : Client) (o : Nat) (s : Sub)
    (err : Mux.RequestError) (ops : List Operation) : Client :=
  if o ∈ c.muxSubs then c
  else if c.isNoMux o then { c with handler := c.handler.unsubscribe o none }.settle o (.error err)
  else if s.noIterator then c.calls nuid inboxPrefix ops
  else { c with handler := c.handler.setObj o (s.cancelTimeout.stop (some err)) }

/-- `processMsg(msg, data)`. -/
def processMsg (c : Client) (sid : Nat) (m : Mux.Msg) (ops : List Operation) : Client :=
  match c.handler.get sid with
  | none => c
  | some o =>
      match c.handler.objs[o]? with
      | none => c
      | some s =>
          let c := { c with handler := c.handler.setObj o s.receive }.callback nuid inboxPrefix
            o s.receive m ops
          { c with handler := c.handler.checkMax o }

/-- What `subscriptions.handleError(err)` finds. -/
def named (c : Client) (ctx : PermissionContext) : Option (Nat × Nat) :=
  match ctx.operation with
  | .subscription => c.handler.findBy ctx.subject ctx.queue
  | .publish => c.handler.findSub fun o _ => c.requestSubjects.lookup o = some ctx.subject

/-- `subscriptions.handleError(err)`. -/
def handleError (c : Client) (ctx : PermissionContext) (ops : List Operation) : Client :=
  match c.named ctx with
  | none => c
  | some (_, o) =>
      match c.handler.objs[o]? with
      | none => c
      | some s =>
          let c := c.callbackError nuid inboxPrefix o s (.permissions ctx) ops
          match c.handler.objs[o]? with
          | some s => { c with handler := c.handler.cancel o s }
          | none => c

/-- `processError(m)` of a permission error. -/
def processError (c : Client) (ctx : PermissionContext) (ops : List Operation) : Client :=
  let isMuxPermissionError : Bool := c.mux.mux = some ctx.subject
  let c := c.handleError nuid inboxPrefix ctx ops
  let mux := c.mux.handleError isMuxPermissionError ctx
  { c with mux := if isMuxPermissionError then { mux with mux := none } else mux }

/-- What the timer of object `o` does when it fires. -/
def timeout (c : Client) (o : Nat) (s : Sub)
    (ops : List Operation) : Client :=
  let c := { c with handler := c.handler.setObj o { s.stop (some .timeout) with timer := false } }
  if s.noIterator then c.callbackError nuid inboxPrefix o s .timeout ops else c

/-- The events of the handler that are not calls, messages and timers. -/
def isInner : ProtocolHandler.Event Mux.Msg Mux.RequestError → Bool
  | .call _ | .message _ _ _ | .timeout _ _ _ => false
  | _ => true

/-- One event; `none` where it cannot happen. -/
def step (c : Client) : Event → Option Client
  | .call op => some (c.call nuid inboxPrefix op)
  | .message sid m ops => some (c.processMsg nuid inboxPrefix sid m ops)
  | .error ctx ops => some (c.processError nuid inboxPrefix ctx ops)
  | .timeout o ops =>
      match c.handler.objs[o]? with
      | some s => if s.timer then some (c.timeout nuid inboxPrefix o s ops) else none
      | none => none
  | .requestTimer i => (c.mux.step nuid inboxPrefix (.timer i)).map fun mux => { c with mux := mux }
  | .requestCancel i err => some { c with mux := c.mux.cancel i err }
  | .drainThen => c.drainThen
  | .handler e => if isInner e then (c.handler.step e).map c.setHandler else none

end

end Client

end NatsClient.Connection.Operations
