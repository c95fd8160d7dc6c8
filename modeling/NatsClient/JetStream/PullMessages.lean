import NatsClient.Foundation.Run
import NatsClient.Iterator.Trace

/-!
# The messages of a pull consumer

Model of `PullConsumerMessagesImpl` (`consumer.ts`), the machinery of `consume` and of `fetch`:
`parseOptions`, the callback of its subscription, `pull`, `pullOptions`, `resetPending`, `_push` and
`stop`. Beside it stand the server, which holds pull requests and answers each with at most its
batch, and what is on its way from there.

With an iterator, what `pull` publishes is a function that waits in the queue until the user gets
there; with a callback it runs at once. A message is known by its size. An ordered consumer puts a
handler into this class; that part is left out.

`generation` is a log: how often the pending counts were reset. What the server has and sends
carries the generation of the pull it belongs to. `sent` are the requests that were published, and
`delivered` the messages that a callback was handed.
-/

set_option autoImplicit false

namespace NatsClient.JetStream

open NatsClient.Iterator

/-- `PullConsumerOptions`, with `0` for what is not given. -/
structure PullConsumerOptions where
  maxMessages : Nat
  maxBytes : Nat
  expires : Nat
  idleHeartbeat : Rat
  thresholdMessages : Nat
  thresholdBytes : Nat
deriving DecidableEq, Repr

/-- `Math.round(n * .75) || 1`. -/
def threeQuarters (n : Nat) : Nat := if (3 * n + 2) / 4 = 0 then 1 else (3 * n + 2) / 4

/-- `parseOptions(opts, refilling)`. -/
def parseOptions (opts : PullConsumerOptions) (refilling : Bool) :
    Except String PullConsumerOptions :=
  if opts.maxMessages ≠ 0 ∧ opts.maxBytes ≠ 0 then
    .error "only specify one of max_messages or max_bytes"
  else
    -- also where only bytes were given: the server needs a number of messages
    let maxMessages := if opts.maxMessages = 0 then 100 else opts.maxMessages
    let expires := if opts.expires = 0 then 30000 else opts.expires
    if expires < 1000 then .error "expires should be at least 1000ms"
    else
      let idleHeartbeat : Rat := if opts.idleHeartbeat = 0 then expires / 2 else opts.idleHeartbeat
      .ok
        { maxMessages := maxMessages
          maxBytes := opts.maxBytes
          expires := expires
          idleHeartbeat := if 30000 < idleHeartbeat then 30000 else idleHeartbeat
          thresholdMessages :=
            if refilling && opts.thresholdMessages = 0 then threeQuarters maxMessages
            else opts.thresholdMessages
          thresholdBytes :=
            if refilling && opts.thresholdBytes = 0 then threeQuarters opts.maxBytes
            else opts.thresholdBytes }

/-- `PullOptions` of a request; times are in nanoseconds. -/
structure PullRequest where
  batch : Int
  maxBytes : Int
  idleHeartbeat : Rat
  expires : Rat
  generation : Nat
deriving DecidableEq, Repr

/-- The functions that `_push` is given: the one of `pull`, the one that calls `stop()`, and the one
that `stop(err)` pushes. -/
inductive PullFn where
  | publish (p : PullRequest)
  | stop
  | finish (err : Option String)
deriving DecidableEq, Repr

/-- What a function does to the iterator. -/
def PullFn.effect : PullFn → Effect String
  | .finish err => ⟨some err, none⟩
  | .publish _ | .stop => ⟨none, none⟩

/-- The request that a function publishes. -/
def PullFn.request : PullFn → Option PullRequest
  | .publish p => some p
  | .stop | .finish _ => none

/-- `pending`. -/
structure Pending where
  msgs : Int
  bytes : Int
  requests : Int
deriving DecidableEq, Repr

/-- A pull request on the server: how much of it is left; `maxBytes` is `0` where it has no
limit. -/
structure HeldPull where
  batch : Nat
  maxBytes : Nat
  generation : Nat
deriving DecidableEq, Repr

/-- What the server sends to the inbox: a heartbeat, a message, or a status with the counts of its
`Nats-Pending-Messages` and `Nats-Pending-Bytes`, which are `0` where it has none. -/
inductive Inbound where
  | heartbeat
  | message (size generation : Nat)
  | status (code : Nat) (description : String) (msgsLeft bytesLeft generation : Nat)
deriving DecidableEq, Repr

/-- The fields of `PullConsumerMessagesImpl`, and the server. `stopping` says that `stop` has
unsubscribed; `resets` and `delays` are the runs of `resetPendingWithInfo` that await an info or the
end of a delay. -/
structure PullConsumerMessages where
  opts : PullConsumerOptions
  refilling : Bool
  callback : Bool
  bind : Bool
  abortOnMissingResource : Bool
  pending : Pending
  inBackOff : Bool
  stopping : Bool
  received : Nat
  qi : QueuedIterator Nat PullFn String
  delivered : List Nat
  resets : Nat
  delays : Nat
  generation : Nat
  sent : List PullRequest
  held : List HeldPull
  wire : List Inbound

/-- How `consumer.info()` ends. -/
inductive InfoResult where
  | found
  | streamNotFound
  | consumerNotFound
  | failed
deriving DecidableEq, Repr

/-- What can happen: the server answers a pull, ends or forgets it, sends a status of its own or a
heartbeat; something gets lost or arrives (a callback may throw, or close the messages); heartbeats
are missed, or the connection comes back; an info is answered, or a delay ends; the user goes on;
the messages are closed, the subscription is drained or rejected. -/
inductive PullMessagesEvent where
  | answer (k size : Nat)
  | expire (k code : Nat) (description : String)
  | forget (k : Nat)
  | status (code : Nat) (description : String)
  | heartbeat
  | lose (k : Nat)
  | receive (stops : Option (Option String))
  | heartbeatsMissed
  | reconnect
  | info (r : InfoResult)
  | delayed (connectionClosed : Bool)
  | next
  | close
  | drained
  | rejected (err : String)
deriving DecidableEq, Repr

namespace PullConsumerMessages

/-- The server takes a request. -/
def publish (c : PullConsumerMessages) (p : PullRequest) : PullConsumerMessages :=
  { c with
    sent := c.sent ++ [p]
    held :=
      if 0 < p.batch then c.held ++ [⟨p.batch.toNat, p.maxBytes.toNat, p.generation⟩] else c.held }

/-- `stop(err)`. -/
def stop (c : PullConsumerMessages) (err : Option String) : PullConsumerMessages :=
  if c.qi.done then c
  else
    { c with
      stopping := true
      qi := if c.callback then c.qi.stop err else c.qi.pushFn (.finish err) }

/-- A function runs. -/
def runFn (c : PullConsumerMessages) (f : PullFn) : PullConsumerMessages :=
  match f with
  | .publish p => c.publish p
  | .stop => c.stop none
  | .finish err => { c with qi := c.qi.stop err }

/-- `_push` of a function. -/
def pushFn (c : PullConsumerMessages) (f : PullFn) : PullConsumerMessages :=
  if c.callback then c.runFn f else { c with qi := c.qi.pushFn f }

/-- `_push` of a message; the callback may throw, or close the messages. -/
def pushMsg (c : PullConsumerMessages) (size : Nat) (stops : Option (Option String)) :
    PullConsumerMessages :=
  if c.callback then
    let c := { c with delivered := c.delivered ++ [size] }
    match stops with
    | some err => c.stop err
    | none => c
  else { c with qi := c.qi.push size ⟨true, false⟩ }

/-- `pullOptions()`. -/
def pullOptions (c : PullConsumerMessages) : PullRequest where
  batch := c.opts.maxMessages - c.pending.msgs
  maxBytes := c.opts.maxBytes - c.pending.bytes
  idleHeartbeat := c.opts.idleHeartbeat * 1000000
  expires := c.opts.expires * 1000000
  generation := c.generation

/-- `pull(opts)`. -/
def pull (c : PullConsumerMessages) (p : PullRequest) : PullConsumerMessages :=
  { c with
    pending :=
      ⟨c.pending.msgs + p.batch, c.pending.bytes + p.maxBytes, c.pending.requests + 1⟩ }.pushFn
      (.publish p)

/-- The pending counts are reset, and a new pull is made. -/
def repull (c : PullConsumerMessages) : PullConsumerMessages :=
  let c := { c with pending := ⟨0, 0, 0⟩, generation := c.generation + 1 }
  c.pull c.pullOptions

/-- The top of the loop in `resetPendingWithInfo()`. -/
def awaitInfo (c : PullConsumerMessages) : PullConsumerMessages :=
  if c.qi.done then c else { c with resets := c.resets + 1 }

/-- `resetPending()`. -/
def resetPending (c : PullConsumerMessages) : PullConsumerMessages :=
  if c.bind then c.repull else if c.inBackOff then c else c.awaitInfo

/-- The error path of `resetPendingWithInfo()`. -/
def infoFailed (c : PullConsumerMessages) (missing : Option String) : PullConsumerMessages :=
  match missing with
  | some err =>
      if !c.refilling || c.abortOnMissingResource then c.stop (some err)
      else { c with inBackOff := true, delays := c.delays + 1 }
  | none => { c with inBackOff := true, delays := c.delays + 1 }

/-- An info is answered. -/
def infoDone (c : PullConsumerMessages) : InfoResult → PullConsumerMessages
  | .found => { c with inBackOff := false }.repull
  | .streamNotFound => c.infoFailed (some "stream not found")
  | .consumerNotFound => c.infoFailed (some "consumer not found")
  | .failed => c.infoFailed none

/-- The test for another pull. -/
def refills (c : PullConsumerMessages) : Bool :=
  (c.opts.maxMessages ≠ 0 && c.pending.msgs ≤ c.opts.thresholdMessages) ||
    (c.opts.maxBytes ≠ 0 && c.pending.bytes ≤ c.opts.thresholdBytes)

/-- The end of the callback. -/
def settle (c : PullConsumerMessages) : PullConsumerMessages :=
  let c :=
    if c.pending.msgs = 0 ∧ c.pending.bytes = 0 then
      { c with pending := { c.pending with requests := 0 } }
    else c
  if c.refilling then if c.refills then c.pull c.pullOptions else c
  else if c.pending.requests = 0 then c.pushFn .stop
  else c

/-- A status without counts. -/
def processStatus (c : PullConsumerMessages) (code : Nat) (description : String) :
    PullConsumerMessages :=
  if code = 400 then c.stop (some description)
  else if code = 409 ∧ description = "consumer deleted" then
    if !c.refilling || c.abortOnMissingResource then c.stop (some description) else c.settle
  else if code = 503 then
    if !c.refilling || c.abortOnMissingResource then c.stop (some "no responders") else c.settle
  else c.settle

/-- The callback of the subscription. -/
def process (c : PullConsumerMessages) (i : Inbound) (stops : Option (Option String)) :
    PullConsumerMessages :=
  match i with
  | .heartbeat => c
  | .status code description msgsLeft bytesLeft _ =>
      -- a pull that ended gives back what it did not use
      if 0 < msgsLeft ∨ 0 < bytesLeft then
        { c with
          pending :=
            ⟨c.pending.msgs - msgsLeft, c.pending.bytes - bytesLeft, c.pending.requests - 1⟩
              }.settle
      else c.processStatus code description
  | .message size _ =>
      let c := c.pushMsg size stops
      { c with
        received := c.received + 1
        pending :=
          { c.pending with
            msgs := if c.pending.msgs ≠ 0 then c.pending.msgs - 1 else c.pending.msgs
            bytes :=
              if c.pending.bytes ≠ 0 then c.pending.bytes - size else c.pending.bytes } }.settle

/-- The constructor, and `start()`. -/
def new (opts : PullConsumerOptions) (refilling callback bind abortOnMissingResource : Bool) :
    Except String PullConsumerMessages :=
  match parseOptions opts refilling with
  | .error message => .error message
  | .ok opts =>
      let c : PullConsumerMessages :=
        { opts := opts
          refilling := refilling
          callback := callback
          bind := bind
          abortOnMissingResource := abortOnMissingResource
          pending := ⟨0, 0, 0⟩
          inBackOff := false
          stopping := false
          received := 0
          qi := .new
          delivered := []
          resets := 0
          delays := 0
          generation := 0
          sent := []
          held := []
          wire := [] }
      .ok (c.pull c.pullOptions)

/-- The server sends a message for a pull it holds. -/
def answer (c : PullConsumerMessages) (k : Nat) (p : HeldPull) (size : Nat) :
    PullConsumerMessages :=
  let left : HeldPull := ⟨p.batch - 1, p.maxBytes - size, p.generation⟩
  { c with
    held :=
      -- a pull ends with its batch or with its bytes
      if left.batch = 0 ∨ p.maxBytes ≠ 0 ∧ left.maxBytes = 0 then c.held.eraseIdx k
      else c.held.set k left
    wire := c.wire ++ [.message size p.generation] }

/-- One event; `none` where it cannot happen. -/
def step (c : PullConsumerMessages) : PullMessagesEvent → Option PullConsumerMessages
  | .answer k size =>
      -- the server sends no more bytes than the pull still takes
      match c.held[k]? with
      | some p =>
          if 0 < size ∧ (p.maxBytes ≠ 0 → size ≤ p.maxBytes) then some (c.answer k p size) else none
      | none => none
  | .expire k code description =>
      match c.held[k]? with
      | some p =>
          -- the codes whose status has the counts of the pull that ends
          if code = 404 ∨ code = 408 ∨ code = 409 then
            some { c with
              held := c.held.eraseIdx k
              wire := c.wire ++ [.status code description p.batch p.maxBytes p.generation] }
          else none
      | none => none
  | .forget k => some { c with held := c.held.eraseIdx k }
  | .status code description =>
      some { c with wire := c.wire ++ [.status code description 0 0 c.generation] }
  | .heartbeat => some { c with wire := c.wire ++ [.heartbeat] }
  | .lose k => some { c with wire := c.wire.eraseIdx k }
  | .receive stops =>
      match c.wire with
      | [] => none
      | i :: rest =>
          let c := { c with wire := rest }
          -- a consumer that stops has no subscription any more
          some (if c.stopping then c else c.process i stops)
  | .heartbeatsMissed => if c.stopping then none else some c.resetPending
  | .reconnect => if c.stopping then none else some c.resetPending
  | .info r => if 0 < c.resets then some ({ c with resets := c.resets - 1 }.infoDone r) else none
  | .delayed connectionClosed =>
      if 0 < c.delays then
        let c := { c with delays := c.delays - 1 }
        some (if connectionClosed then c else c.awaitInfo)
      else none
  | .next =>
      -- with a callback nobody iterates
      if c.callback then none
      else
        (c.qi.next (fun _ => true) PullFn.effect).map fun qi =>
          (qi.called.drop c.qi.called.length).foldl runFn { c with qi := qi }
  | .close => some (c.stop none)
  | .drained => some (c.pushFn .stop)
  | .rejected err => some (c.stop (some err))

/-- The messages that the user was handed. -/
def handed (c : PullConsumerMessages) : List Nat := if c.callback then c.delivered else c.qi.yielded

/-- The pulls that wait in the queue to be published. -/
def queued (c : PullConsumerMessages) : List PullRequest :=
  (functions c.qi.left).filterMap PullFn.request

end PullConsumerMessages

end NatsClient.JetStream
