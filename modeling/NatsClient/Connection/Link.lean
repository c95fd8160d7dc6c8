import NatsClient.Foundation.Deferred
import NatsClient.Foundation.Run
import Mathlib.Algebra.GroupWithZero.Nat

/-!
# The link to the server

Model of the part of `ProtocolHandler` (`protocol.ts`) that writes to the transport and pairs the
PONGs it reads with promises: `sendCommand`, `flush`, `flushPending`, `prepare` and
`resetOutbound`, `processInfo`, `processPong`, `processPing`, what `dial` does when it succeeds and
when it fails, the closed notification, and the heartbeats (`heartbeats.ts`).

PING bytes take two ways to the transport. The one of the handshake is sent when the first INFO of a
connection arrives; those of flushes go through `outbound`, which keeps them until the connection is
up. Their deferreds are in one array, `pongs`. A PING frame of the model carries the number of the
deferred it was queued with, which is not on the wire.

A transport that is closed drops what it is given. It is the current one until the next `prepare`,
and a dial starts only behind a closed transport (`Controlled.between_done`), so frames come from
the current transport only.
-/

set_option autoImplicit false

namespace NatsClient.Connection

open NatsClient.Foundation

/-- The commands that go through `sendCommand`. -/
inductive Command where
  | sub (subject : String) (queue : Option String) (sid : Nat)
  | unsub (sid : Nat) (max : Option Nat)
  | pub (proto : String) (payload : List UInt8)
deriving DecidableEq, Repr

/-- A frame handed to the transport. -/
inductive Frame where
  | connect (options : String)
  | ping (d : Nat)
  | pong
  | command (c : Command)
deriving DecidableEq, Repr

/-- The protocol line of a command. -/
def Command.line : Command → String
  | .sub subject (some queue) sid => s!"SUB {subject} {queue} {sid}\r\n"
  | .sub subject none sid => s!"SUB {subject} {sid}\r\n"
  | .unsub sid (some max) => s!"UNSUB {sid} {max}\r\n"
  | .unsub sid none => s!"UNSUB {sid}\r\n"
  | .pub proto _ => proto

/-- The number of bytes of a command, with those of its payloads. -/
def Command.size : Command → Nat
  | .pub proto payload => proto.utf8ByteSize + payload.length
  | c => c.line.utf8ByteSize

/-- The number of bytes of a frame. -/
def Frame.size : Frame → Nat
  | .connect options => s!"CONNECT {options}\r\n".utf8ByteSize
  | .ping _ => "PING\r\n".utf8ByteSize
  | .pong => "PONG\r\n".utf8ByteSize
  | .command c => c.size

/-- The deferreds of the PINGs among some frames. -/
def pings : List Frame → List Nat
  | [] => []
  | .ping d :: frames => d :: pings frames
  | .connect _ :: frames | .pong :: frames | .command _ :: frames => pings frames

/-- A transport: the frames it took, whether it is done, and whether its closed notification is
still to come. -/
structure Transport where
  sent : List Frame
  done : Bool
  notifies : Bool
deriving DecidableEq, Repr

namespace Transport

/-- Before the first dial there is no transport, and nothing can be sent. -/
def missing : Transport := ⟨[], true, false⟩

/-- `newTransport()`. -/
def new : Transport := ⟨[], false, false⟩

/-- `send(frame)`, for each of some frames. -/
def send (t : Transport) (frames : List Frame) : Transport :=
  if t.done then t else { t with sent := t.sent ++ frames }

/-- `_closed(err, internal)`; the end of the reader and `disconnect()` are internal. -/
def close (t : Transport) (isInternal : Bool) : Transport :=
  if t.done then t else { t with done := true, notifies := isInternal }

@[simp] theorem sent_close (t : Transport) (isInternal : Bool) :
    (t.close isInternal).sent = t.sent := by
  unfold close
  by_cases hd : t.done = true
  · rw [if_pos hd]
  · rw [if_neg hd]

@[simp] theorem done_close (t : Transport) (isInternal : Bool) :
    (t.close isInternal).done = true := by
  unfold close
  by_cases hd : t.done = true
  · rw [if_pos hd]
    exact hd
  · rw [if_neg hd]

theorem send_of_done {t : Transport} (h : t.done = true) (frames : List Frame) :
    t.send frames = t := by
  rw [send, if_pos h]

theorem send_of_open {t : Transport} (h : ¬ t.done = true) (frames : List Frame) :
    t.send frames = { t with sent := t.sent ++ frames } := by
  rw [send, if_neg h]

@[simp] theorem done_send (t : Transport) (frames : List Frame) :
    (t.send frames).done = t.done := by
  unfold send
  by_cases hd : t.done = true
  · rw [if_pos hd]
  · rw [if_neg hd]

@[simp] theorem notifies_send (t : Transport) (frames : List Frame) :
    (t.send frames).notifies = t.notifies := by
  unfold send
  by_cases hd : t.done = true
  · rw [if_pos hd]
  · rw [if_neg hd]

end Transport

/-- `Heartbeat`: whether its timer is set, the pings it waits for, and those whose continuations
have not run yet. -/
structure Heartbeat where
  timer : Bool
  maxOut : Nat
  pendings : List Nat
  waiting : List Nat
deriving DecidableEq, Repr

/-- Where the dial loop is: not running, in front of a dial, or in one. -/
inductive DialLoop where
  | idle
  | between
  | dialing
deriving DecidableEq, Repr

/-- The fields of `ProtocolHandler` that the link uses. `handshake` is the deferred `prepare`
returned last, `connectError` says whether `connectError` is set, and `flushTasks` counts the
microtasks `sendCommand` queued. Of the current connection `queued` logs the frames filled into
`outbound` since it was reset and `matched` what each PONG was matched with. -/
structure Link where
  connected : Bool
  infoReceived : Bool
  closed : Bool
  outbound : List Frame
  pongs : List Nat
  transport : Transport
  connectError : Bool
  pendingLimit : Nat
  heartbeats : Heartbeat
  deferreds : Deferreds
  handshake : Option Nat
  loop : DialLoop
  flushTasks : Nat
  connection : Nat
  queued : List Frame
  matched : List (Option Nat)

namespace Link

/-- The constructor; `connect` then starts the dial loop. -/
def new (pendingLimit maxOut : Nat) : Link where
  connected := false
  infoReceived := false
  closed := false
  outbound := []
  pongs := []
  transport := .missing
  connectError := false
  pendingLimit := pendingLimit
  heartbeats := ⟨false, maxOut, [], []⟩
  deferreds := .empty
  handshake := none
  loop := .between
  flushTasks := 0
  connection := 0
  queued := []
  matched := []

/-- What became of a deferred. -/
def outcome (s : Link) (d : Nat) : Option Outcome := s.deferreds.outcome d

/-- A deferred is settled. -/
def settle (s : Link) (d : Nat) (o : Outcome) : Link :=
  { s with deferreds := s.deferreds.settle d o }

/-- `outbound.size()`. -/
def size (s : Link) : Nat := (s.outbound.map Frame.size).sum

/-- `transport.send(..)`. -/
def send (s : Link) (frames : List Frame) : Link := { s with transport := s.transport.send frames }

/-- `outbound.fill(..)`. -/
def fill (s : Link) (f : Frame) : Link :=
  { s with outbound := s.outbound ++ [f], queued := s.queued ++ [f] }

/-- `flushPending()`. -/
def flushPending (s : Link) : Link :=
  if s.infoReceived && s.connected then
    if s.size ≠ 0 then { s.send s.outbound with outbound := [] } else s
  else s

/-- `sendCommand(cmd, ...payloads)`. -/
def sendCommand (s : Link) (c : Command) : Link :=
  let filled := s.fill (.command c)
  if s.outbound = [] then { filled with flushTasks := filled.flushTasks + 1 }
  else if filled.pendingLimit ≤ filled.size then filled.flushPending
  else filled

/-- `flush(p)`, with a new deferred. -/
def flush (s : Link) : Link :=
  let d := s.deferreds.created
  ({ s with deferreds := s.deferreds.create, pongs := s.pongs ++ [d] }.fill (.ping d)).flushPending

/-- `resetOutbound()`. -/
def resetOutbound (s : Link) : Link :=
  { s with
    outbound := []
    queued := []
    pongs := []
    deferreds := s.deferreds.settleAll s.pongs .rejected
    infoReceived := false }

/-- `prepare()`: the outbound buffer is reset, and a handshake and a transport are made. -/
def prepare (s : Link) : Link :=
  let reset := s.resetOutbound
  let pong := reset.deferreds.created
  { reset with
    deferreds := reset.deferreds.create
    pongs := pong :: reset.pongs
    handshake := some pong
    connectError := true
    transport := .new
    connection := s.connection + 1
    matched := [] }

/-- `connectError(err)`, where it is set: the handshake is rejected. -/
def failConnect (s : Link) : Link :=
  match s.handshake with
  | some pong => if s.connectError then s.settle pong .rejected else s
  | none => s

/-- `Heartbeat._reset()`. -/
def heartbeatReset (s : Link) : Link :=
  { s with
    deferreds := s.deferreds.settleAll s.heartbeats.pendings .resolved
    heartbeats := { s.heartbeats with pendings := [] } }

/-- `transport.disconnect()`. -/
def disconnect (s : Link) : Link := { s with transport := s.transport.close true }

/-- `Heartbeat.cancel()`. -/
def heartbeatCancel (s : Link) : Link :=
  { s with heartbeats := { s.heartbeats with timer := false } }.heartbeatReset

/-- What the heartbeat timer does: a connection with too many unanswered pings is stale. -/
def heartbeatTimer (s : Link) : Link :=
  if s.heartbeats.pendings.length = s.heartbeats.maxOut then s.heartbeatCancel.disconnect
  else
    let ping := s.deferreds.created
    { s.flush with
      heartbeats := { s.heartbeats with
        pendings := s.heartbeats.pendings ++ [ping]
        waiting := s.heartbeats.waiting ++ [ping] } }

/-- The continuations of the flush of a heartbeat. -/
def heartbeatThen (s : Link) (ping : Nat) (o : Outcome) : Link :=
  let s := { s with heartbeats := { s.heartbeats with waiting := s.heartbeats.waiting.erase ping } }
  match o with
  | .resolved => s.heartbeatReset
  | .rejected => s.heartbeatCancel

/-- What `_close(err)` does to the link. -/
def close (s : Link) : Link :=
  if s.closed then s
  else
    let s := s.heartbeatCancel.failConnect
    { s with connectError := false, closed := true, transport := s.transport.close false }

/-- `processInfo(m)`: the first INFO of a connection is answered by the handshake. `options` are
those of CONNECT; they are missing when the authenticator throws. -/
def processInfo (s : Link) (options : Option String) : Link :=
  if s.infoReceived then s
  else
    match options with
    | some options =>
        { s with infoReceived := true }.send (.connect options :: s.handshake.toList.map .ping)
    | none => { s with infoReceived := true }.close

/-- `processPing()`. -/
def processPing (s : Link) : Link := s.send [.pong]

/-- `processPong()`. -/
def processPong (s : Link) : Link :=
  match s.pongs with
  | [] => { s with matched := s.matched ++ [none] }
  | cb :: pongs =>
      { s.settle cb .resolved with pongs := pongs, matched := s.matched ++ [some cb] }

/-- The rest of `dial` behind the handshake; `subs` are the subscriptions of the table. -/
def dialDone (s : Link) (subs : List Command) : Link :=
  let s := { s with connected := true, connectError := false, loop := .idle }
  let s := (s.send (subs.map .command)).flushPending.heartbeatReset
  { s with heartbeats := { s.heartbeats with timer := true } }

/-- A dial fails, because the transport could not connect or for another reason. -/
def dialFailed (s : Link) (connectFailed : Bool) : Link :=
  let s :=
    match s.handshake with
    | some pong => if connectFailed then s.settle pong .rejected else s
    | none => s
  { s with transport := s.transport.close false, loop := .between }

/-- The closed notification of the transport, with the option `reconnect`. -/
def closedNotification (s : Link) (reconnect : Bool) : Link :=
  let s := { s with connected := false, transport := { s.transport with notifies := false } }
  if s.closed then s
  else if reconnect then { s with loop := if s.loop = .idle then .between else s.loop }
  else s.close

/-- The dial loop gives up. -/
def giveUp (s : Link) : Link := { s with loop := .idle }.close

/-- What can happen. -/
inductive Event where
  | command (c : Command)
  | flush
  | flushTask
  | heartbeatTimer
  | heartbeatThen (ping : Nat)
  | prepare
  | info (options : Option String)
  | ping
  | pong
  | dialDone (subs : List Command)
  | dialFailed (connectFailed : Bool)
  | disconnect
  | closedNotification (reconnect : Bool)
  | giveUp
  | close
deriving DecidableEq, Repr

/-- One event; `none` where it cannot happen. The server answers each PING it is sent with one
PONG. -/
def step (s : Link) : Event → Option Link
  | .command c => some (s.sendCommand c)
  | .flush => some s.flush
  | .flushTask =>
      if 0 < s.flushTasks then some { s.flushPending with flushTasks := s.flushTasks - 1 } else none
  | .heartbeatTimer => if s.heartbeats.timer then some s.heartbeatTimer else none
  | .heartbeatThen ping =>
      -- the continuation of a PING runs when that is settled
      match s.outcome ping with
      | some o => if ping ∈ s.heartbeats.waiting then some (s.heartbeatThen ping o) else none
      | none => none
  | .prepare => if s.loop = .between then some { s.prepare with loop := .dialing } else none
  | .info options => if s.handshake.isSome then some (s.processInfo options) else none
  | .ping => some s.processPing
  | .pong => if s.matched.length < (pings s.transport.sent).length then some s.processPong else none
  | .dialDone subs =>
      -- a dial is done with the PONG of its handshake
      match s.handshake with
      | some pong =>
          if s.loop = .dialing ∧ s.outcome pong = some .resolved then some (s.dialDone subs)
          else none
      | none => none
  | .dialFailed connectFailed =>
      if s.loop = .dialing then some (s.dialFailed connectFailed) else none
  | .disconnect => some s.disconnect
  | .closedNotification reconnect =>
      if s.transport.notifies then some (s.closedNotification reconnect) else none
  | .giveUp => if s.loop = .between then some s.giveUp else none
  | .close => some s.close

/-- What a step can be. -/
inductive Step : Link → Event → Link → Prop
  | command {s : Link} (c : Command) : Step s (.command c) (s.sendCommand c)
  | flush {s : Link} : Step s .flush s.flush
  | flushTask {s : Link} (scheduled : 0 < s.flushTasks) :
      Step s .flushTask { s.flushPending with flushTasks := s.flushTasks - 1 }
  | heartbeatTimer {s : Link} (timer : s.heartbeats.timer = true) :
      Step s .heartbeatTimer s.heartbeatTimer
  | heartbeatThen {s : Link} (ping : Nat) (o : Outcome) (settled : s.outcome ping = some o)
      (waiting : ping ∈ s.heartbeats.waiting) :
      Step s (.heartbeatThen ping) (s.heartbeatThen ping o)
  | prepare {s : Link} (between : s.loop = .between) :
      Step s .prepare { s.prepare with loop := .dialing }
  | info {s : Link} (options : Option String) (handshake : s.handshake.isSome = true) :
      Step s (.info options) (s.processInfo options)
  | ping {s : Link} : Step s .ping s.processPing
  | pong {s : Link} (owed : s.matched.length < (pings s.transport.sent).length) :
      Step s .pong s.processPong
  | dialDone {s : Link} (subs : List Command) (pong : Nat) (handshake : s.handshake = some pong)
      (dialing : s.loop = .dialing) (resolved : s.outcome pong = some .resolved) :
      Step s (.dialDone subs) (s.dialDone subs)
  | dialFailed {s : Link} (connectFailed : Bool) (dialing : s.loop = .dialing) :
      Step s (.dialFailed connectFailed) (s.dialFailed connectFailed)
  | disconnect {s : Link} : Step s .disconnect s.disconnect
  | closedNotification {s : Link} (reconnect : Bool) (notifies : s.transport.notifies = true) :
      Step s (.closedNotification reconnect) (s.closedNotification reconnect)
  | giveUp {s : Link} (between : s.loop = .between) : Step s .giveUp s.giveUp
  | close {s : Link} : Step s .close s.close

theorem step_of_eq {s s' : Link} {e : Event} (hstep : s.step e = some s') : Step s e s' := by
  cases e with
  | command c =>
      cases hstep
      exact .command c
  | flush =>
      cases hstep
      exact .flush
  | flushTask =>
      obtain ⟨hscheduled, heq⟩ := Option.ite_none_right_eq_some.1 hstep
      cases heq
      exact .flushTask hscheduled
  | heartbeatTimer =>
      obtain ⟨htimer, heq⟩ := Option.ite_none_right_eq_some.1 hstep
      cases heq
      exact .heartbeatTimer htimer
  | heartbeatThen ping =>
      simp only [step] at hstep
      split at hstep
      · next o ho =>
        obtain ⟨hwaiting, heq⟩ := Option.ite_none_right_eq_some.1 hstep
        cases heq
        exact .heartbeatThen ping o ho hwaiting
      · cases hstep
  | prepare =>
      obtain ⟨hbetween, heq⟩ := Option.ite_none_right_eq_some.1 hstep
      cases heq
      exact .prepare hbetween
  | info options =>
      obtain ⟨hhandshake, heq⟩ := Option.ite_none_right_eq_some.1 hstep
      cases heq
      exact .info options hhandshake
  | ping =>
      cases hstep
      exact .ping
  | pong =>
      obtain ⟨howed, heq⟩ := Option.ite_none_right_eq_some.1 hstep
      cases heq
      exact .pong howed
  | dialDone subs =>
      simp only [step] at hstep
      split at hstep
      · next pong hpong =>
        obtain ⟨⟨hdialing, hresolved⟩, heq⟩ := Option.ite_none_right_eq_some.1 hstep
        cases heq
        exact .dialDone subs pong hpong hdialing hresolved
      · cases hstep
  | dialFailed connectFailed =>
      obtain ⟨hdialing, heq⟩ := Option.ite_none_right_eq_some.1 hstep
      cases heq
      exact .dialFailed connectFailed hdialing
  | disconnect =>
      cases hstep
      exact .disconnect
  | closedNotification reconnect =>
      obtain ⟨hnotifies, heq⟩ := Option.ite_none_right_eq_some.1 hstep
      cases heq
      exact .closedNotification reconnect hnotifies
  | giveUp =>
      obtain ⟨hbetween, heq⟩ := Option.ite_none_right_eq_some.1 hstep
      cases heq
      exact .giveUp hbetween
  | close =>
      cases hstep
      exact .close

end Link

end NatsClient.Connection
