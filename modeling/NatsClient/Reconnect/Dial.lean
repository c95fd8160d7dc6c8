import NatsClient.Foundation.Run
import NatsClient.Reconnect.Errors
import NatsClient.Reconnect.Servers

/-!
# The dial loop

Model of `connect`, `dialLoop`, `dodialLoop`, `_doDial`, `dial`, `disconnected`, `processError`,
`processInfo` and `_close` of `ProtocolHandler` (`protocol.ts`), as far as they decide which server
is tried and when the client gives up.

A step runs the code between two `await`s. `Dialer` has what the loop decides on, `Client` adds the
transport and the promises. An event says what the environment did: what the clock and the delay
handler returned, how many addresses a host resolved to, what the server sent, that a connection
was lost. Events of one transport may come in any order.

`journal` and `clock` are not fields of the code. The journal lists, last first, what an observer of
the client sees; the clock is the earliest that the next reading of `Date.now()` can be.

* `effect_of_step`: what a step does to the dialer.
-/

set_option autoImplicit false

namespace NatsClient.Reconnect

open NatsClient.Foundation

/-- The options that the loop and the error handlers read. -/
structure ConnectionOptions where
  reconnect : Bool
  waitOnFirstConnect : Bool
  maxReconnectAttempts : Option Int
  ignoreAuthErrorAbort : Option Bool
  ignoreClusterUpdates : Bool
deriving DecidableEq, Repr

/-- `defaultOptions`. -/
def defaultOptions : ConnectionOptions := ⟨true, false, some 10, some false, false⟩

/-- The pong that a dial waits for. -/
inductive Pong where
  | pending
  | resolved
  | rejected (reason : Option Reason)
deriving DecidableEq, Repr

/-- Where `dodialLoop` stands: not running, at the head of the `while`, in `delay`, in `resolve`, or
in the `dial` of an address with `alts` addresses to go. -/
inductive DialLoop where
  | idle
  | pass
  | waiting
  | resolving (srv : Nat)
  | dialing (srv alts : Nat)
deriving DecidableEq, Repr

/-- The server that is being tried. -/
def DialLoop.server : DialLoop → Option Nat
  | resolving srv => some srv
  | dialing srv _ => some srv
  | _ => none

/-- What an observer sees. `abort` is the assignment of `abortReconnect`. -/
inductive Entry where
  | tried (srv : Nat)
  | failed (srv : Nat) (err : Option Reason)
  | connected (srv : Nat)
  | error (code : ErrorCode)
  | abort
  | gaveUp (err : Reason)
deriving DecidableEq, Repr

/-- What the dial loop decides on. `loopError` is the `lastError` that is local to the loop. -/
structure Dialer where
  servers : Servers
  server : Option Nat
  connectedOnce : Bool
  abortReconnect : Bool
  lastError : Option NatsError
  loop : DialLoop
  loopError : Option Reason
  journal : List Entry
  clock : Int

structure Transport where
  done : Bool
  closeError : Option Reason
deriving DecidableEq, Repr

/-- The handler. `connectError` is whether the field is set; `notifications` counts the transports
that ended by themselves and whose `closed()` has not called back; `waiters` are the calls of
`disconnected` that wait for the loop. -/
structure Client extends Dialer where
  connected : Bool
  infoReceived : Bool
  closed : Bool
  closedWith : Option Reason
  connectError : Bool
  pong : Pong
  transport : Option Transport
  notifications : Nat
  waiters : Nat

/-- What can happen. `fail` is a transport that does not connect, or the timer of the dial; `settle`
runs `dial` on from the settled pong; `lost` is the end of the reader loop, or a call of
`disconnect`; `notify` is the callback on `closed()`. An `info` has urls that `hostPort` takes: one
it throws on leaves the pool as it is and ends the loop over the transport, so that neither this
INFO nor what the server sends behind it is an event. -/
inductive Event where
  | pass (wait now later : Int)
  | wake
  | resolved (alts : Nat)
  | resolveFailed (err : Reason)
  | fail (err : Reason)
  | settle
  | error (text : String)
  | pong
  | info (urls : List String) (blown : Option Reason)
  | lost (err : Option Reason)
  | notify
  | close
deriving DecidableEq, Repr

namespace Dialer

def new (hostPort : String → String) (listens : List String) : Dialer :=
  ⟨.new hostPort listens, none, false, false, none, .pass, none, [], 0⟩

/-- `throw` in `dodialLoop`: with the error of the loop, else the last one of the server, else a
refused connection. -/
def thrown (d : Dialer) : Reason :=
  (d.loopError.or (d.lastError.map .nats)).getD (.nats connectionRefused)

def selectServer (d : Dialer) : Option Nat × Dialer :=
  let (srv, servers) := d.servers.selectServer
  (srv, { d with servers, server := srv.or d.server })

/-- The loop ends with an error. -/
def giveUp (d : Dialer) : Dialer :=
  { d with loop := .idle, journal := .gaveUp d.thrown :: d.journal }

/-- The pool at the head of the `while`: that of a closed client is cleared. -/
def pool (d : Dialer) (closed : Bool) : Servers := if closed then d.servers.clear else d.servers

/-- A pass that found a server: its dial starts, or the loop waits. -/
def tryServer (d : Dialer) (srv : Nat) (wait now later : Int) : Dialer :=
  let last := (d.servers.impl srv).lastConnect
  if last = 0 ∨ last + wait ≤ now then
    { d with
      servers := d.servers.modify srv (·.dialedAt later)
      loop := .resolving srv
      journal := .tried srv :: d.journal
      clock := later }
  else { d with loop := .waiting, clock := now + min wait (last + wait - now) }

/-- One pass of the `while`, up to its first `await`. -/
def pass (d : Dialer) (closed : Bool) (wait now later : Int) : Dialer :=
  let (srv, d) := { d with servers := d.pool closed }.selectServer
  match srv with
  | none => d.giveUp
  | some srv => if d.abortReconnect then d.giveUp else d.tryServer srv wait now later

/-- The test of the attempts of a server against `maxReconnectAttempts`. -/
def limitReached (options : ConnectionOptions) (reconnects : Nat) : Bool :=
  let mra := options.maxReconnectAttempts.getD 0
  mra ≠ -1 && mra ≤ reconnects

/-- The pool behind a failed dial: the two rules that remove the current server. -/
def afterFailure (options : ConnectionOptions) (connectedOnce : Bool) (servers : Servers)
    (srv : Nat) : Servers :=
  let servers := if connectedOnce then servers else servers.removeCurrentServer
  let servers := servers.modify srv ServerImpl.failedOnce
  if limitReached options (servers.impl srv).reconnects then servers.removeCurrentServer
  else servers

/-- The `catch` of `dodialLoop`: before the first connection it may go on without a rule. -/
def catchFailure (options : ConnectionOptions) (d : Dialer) (srv : Nat) (err : Option Reason) :
    Dialer :=
  { d with
    servers := if !d.connectedOnce && options.waitOnFirstConnect then d.servers
      else afterFailure options d.connectedOnce d.servers srv
    loop := .pass
    loopError := err
    journal := .failed srv err :: d.journal }

/-- The end of a `dial` that connected, and of the loop. -/
def dialed (d : Dialer) (srv : Nat) : Dialer :=
  { d with
    servers :=
      match d.server with
      | some i => d.servers.modify i ServerImpl.connected
      | none => d.servers
    connectedOnce := true
    loop := .idle
    journal := .connected srv :: d.journal }

/-- What a call of `disconnected` does when the loop it waits for connected. -/
def cleanUp (d : Dialer) : Dialer :=
  if d.lastError.any fun e => e.code = .AuthenticationExpired then { d with lastError := none }
  else d

/-- The test of `handleAuthError`. -/
def aborts (options : ConnectionOptions) (d : Dialer) (err : NatsError) : Bool :=
  d.lastError.any (fun last => err.code = last.code) && options.ignoreAuthErrorAbort = some false

/-- What `handleAuthError` decides. -/
def authError (options : ConnectionOptions) (d : Dialer) (err : NatsError) : Dialer :=
  if d.aborts options err then { d with abortReconnect := true, journal := .abort :: d.journal }
  else d

/-- What `handleError` records. -/
def record (d : Dialer) (err : NatsError) : Dialer :=
  if err.code.isPermissionError then d else { d with lastError := some err }

/-- What `processError` does to the dialer. -/
def processError (options : ConnectionOptions) (d : Dialer) (err : NatsError) : Dialer :=
  let d := { d with journal := .error err.code :: d.journal }
  (if err.code.isAuthError then d.authError options err else d).record err

end Dialer

namespace Client

/-- A client in `connect`. -/
def new (hostPort : String → String) (listens : List String) : Client :=
  { Dialer.new hostPort listens with
    connected := false, infoReceived := false, closed := false, closedWith := none
    connectError := false, pong := .pending, transport := none, notifications := 0, waiters := 0 }

def rejectPong (c : Client) (reason : Option Reason) : Client :=
  if c.pong = .pending then { c with pong := .rejected reason } else c

/-- `transport.close(err)`: it does not notify. -/
def closeTransport (c : Client) (err : Option Reason) : Client :=
  match c.transport with
  | some t => if t.done then c else { c with transport := some ⟨true, err⟩ }
  | none => c

/-- The transport ends by itself, or by `transport.disconnect()`. -/
def lost (c : Client) (err : Option Reason) : Client :=
  match c.transport with
  | some t =>
      if t.done then c
      else { c with transport := some ⟨true, err⟩, notifications := c.notifications + 1 }
  | none => c

def disconnect (c : Client) : Client := c.lost none

/-- `_close(err)`. -/
def close (c : Client) (err : Option Reason) : Client :=
  if c.closed then c
  else
    let c := if c.connectError then { c.rejectPong err with connectError := false } else c
    { c with closed := true, closedWith := err }.closeTransport err

/-- `prepare`, and the start of `transport.connect`. -/
def prepare (c : Client) : Client :=
  { c with infoReceived := false, pong := .pending, connectError := true
           transport := some ⟨false, none⟩ }

/-- The calls of `disconnected` that waited for a loop that threw close the client. -/
def failWaiters (c : Client) (err : Reason) : Client :=
  if c.waiters = 0 then c else { c with waiters := 0 }.close (some err)

/-- A pass of the `while`. -/
def pass (c : Client) (wait now later : Int) : Client :=
  let d := c.toDialer.pass c.closed wait now later
  let next : Client := { c with toDialer := d }
  if d.loop = .idle then next.failWaiters d.thrown else next

/-- `dial` and `_doDial` return, and the loop with them. -/
def dialDone (c : Client) (srv : Nat) : Client :=
  let d := c.toDialer.dialed srv
  { c with
    toDialer := if c.waiters = 0 then d else d.cleanUp
    connected := true, connectError := false, waiters := 0 }

/-- The `catch` of `dodialLoop`. -/
def catchFailure (options : ConnectionOptions) (c : Client) (srv : Nat) (err : Option Reason) :
    Client :=
  { c with toDialer := c.toDialer.catchFailure options srv err }

/-- `_doDial` from a failed address on. -/
def dialFailed (options : ConnectionOptions) (c : Client) (srv alts : Nat)
    (err : Option Reason) : Client :=
  match alts with
  | n + 1 => { (c.closeTransport err).prepare with loop := .dialing srv n }
  | 0 => (c.closeTransport err).catchFailure options srv err

/-- `_doDial` from the resolved addresses on: without any it throws `null`. -/
def resolved (options : ConnectionOptions) (c : Client) (srv alts : Nat) : Client :=
  match alts with
  | n + 1 => { c.prepare with loop := .dialing srv n }
  | 0 => c.catchFailure options srv none

/-- `disconnected(err)`. -/
def disconnected (options : ConnectionOptions) (c : Client) (err : Option Reason) : Client :=
  if options.reconnect then
    if c.loop = .idle then { c with loop := .pass, loopError := none, waiters := c.waiters + 1 }
    else { c with waiters := c.waiters + 1 }
  else c.close err

/-- The callback on `closed()`. -/
def closedNotification (options : ConnectionOptions) (c : Client) : Client :=
  let c := { c with connected := false, notifications := c.notifications - 1 }
  if c.closed then c
  else
    let closeError := c.transport.bind Transport.closeError
    c.disconnected options (closeError.or (c.lastError.map .nats))

/-- `processError`. -/
def processError (options : ConnectionOptions) (c : Client) (text : String) : Client :=
  let err := toError text
  let next : Client := { c with toDialer := c.toDialer.processError options err }
  if err.code.isAuthError then
    if next.connectError then next.rejectPong (some (.nats err)) else next.disconnect
  else next

def processPong (c : Client) : Client :=
  if c.pong = .pending then { c with pong := .resolved } else c

/-- What `processInfo` does with the first INFO of a transport. `blown` is what the authenticator
throws while the CONNECT is made. -/
def sendConnect (c : Client) (blown : Option Reason) : Client :=
  if c.infoReceived then c
  else
    match blown with
    | some err => { c with infoReceived := true }.close (some err)
    | none => { c with infoReceived := true }

/-- `processInfo`. -/
def processInfo (hostPort : String → String) (options : ConnectionOptions) (c : Client)
    (urls : List String) (blown : Option Reason) : Client :=
  (if options.ignoreClusterUpdates then c
    else { c with servers := (c.servers.update hostPort urls).1 }).sendConnect blown

/-- One event; `none` where it cannot happen. -/
def step (hostPort : String → String) (options : ConnectionOptions) (c : Client) :
    Event → Option Client
  | .pass wait now later => if c.loop = .pass then some (c.pass wait now later) else none
  | .wake => if c.loop = .waiting then some { c with loop := .pass } else none
  | .resolved alts =>
      match c.loop with
      | .resolving srv => some (c.resolved options srv alts)
      | _ => none
  | .resolveFailed err =>
      match c.loop with
      | .resolving srv => some (c.catchFailure options srv (some err))
      | _ => none
  | .fail err =>
      match c.loop with
      | .dialing _ _ => some (c.rejectPong (some err))
      | _ => none
  | .settle =>
      match c.loop, c.pong with
      | .dialing srv _, .resolved => some (c.dialDone srv)
      | .dialing srv alts, .rejected err => some (c.dialFailed options srv alts err)
      | _, _ => none
  | .error text => if c.transport.isSome then some (c.processError options text) else none
  | .pong => if c.transport.isSome then some c.processPong else none
  | .info urls blown =>
      if c.transport.isSome then some (c.processInfo hostPort options urls blown) else none
  | .lost err => if c.transport.isSome then some (c.lost err) else none
  | .notify => if c.notifications = 0 then none else some (c.closedNotification options)
  -- a user has the connection when it connected
  | .close => if c.connectedOnce then some (c.close none) else none

end Client

/-! ## What a step does to the dialer -/

namespace Client

variable {hostPort : String → String} {options : ConnectionOptions} {c c' : Client}

@[simp] theorem rejectPong_toDialer (c : Client) (reason : Option Reason) :
    (c.rejectPong reason).toDialer = c.toDialer := by
  rw [rejectPong]
  split <;> rfl

@[simp] theorem closeTransport_toDialer (c : Client) (err : Option Reason) :
    (c.closeTransport err).toDialer = c.toDialer := by
  rw [closeTransport]
  split
  · split <;> rfl
  · rfl

@[simp] theorem lost_toDialer (c : Client) (err : Option Reason) :
    (c.lost err).toDialer = c.toDialer := by
  rw [lost]
  split
  · split <;> rfl
  · rfl

@[simp] theorem close_toDialer (c : Client) (err : Option Reason) :
    (c.close err).toDialer = c.toDialer := by
  rw [close]
  split
  · rfl
  · rw [closeTransport_toDialer]
    show (ite _ _ _ : Client).toDialer = _
    split
    · exact rejectPong_toDialer c err
    · rfl

@[simp] theorem prepare_toDialer (c : Client) : c.prepare.toDialer = c.toDialer := rfl

@[simp] theorem failWaiters_toDialer (c : Client) (err : Reason) :
    (c.failWaiters err).toDialer = c.toDialer := by
  rw [failWaiters]
  split
  · rfl
  · exact close_toDialer _ _

@[simp] theorem pass_toDialer (c : Client) (wait now later : Int) :
    (c.pass wait now later).toDialer = c.toDialer.pass c.closed wait now later := by
  rw [pass]
  split
  · exact failWaiters_toDialer _ _
  · rfl

@[simp] theorem processError_toDialer (options : ConnectionOptions) (c : Client) (text : String) :
    (c.processError options text).toDialer = c.toDialer.processError options (toError text) := by
  rw [processError]
  split
  · split
    · exact rejectPong_toDialer _ _
    · exact lost_toDialer _ _
  · rfl

@[simp] theorem processPong_toDialer (c : Client) : c.processPong.toDialer = c.toDialer := by
  rw [processPong]
  split <;> rfl

@[simp] theorem sendConnect_toDialer (c : Client) (blown : Option Reason) :
    (c.sendConnect blown).toDialer = c.toDialer := by
  cases blown with
  | none =>
      rw [sendConnect]
      split <;> rfl
  | some err =>
      rw [sendConnect]
      split
      · rfl
      · exact close_toDialer _ _

theorem processInfo_toDialer (hostPort : String → String) (options : ConnectionOptions) (c : Client)
    (urls : List String) (blown : Option Reason) :
    (c.processInfo hostPort options urls blown).toDialer =
      if options.ignoreClusterUpdates then c.toDialer
      else { c.toDialer with servers := (c.servers.update hostPort urls).1 } := by
  rw [processInfo, sendConnect_toDialer]
  split <;> rfl

end Client

/-- What an event does to the dialer, in a client that is closed or not. -/
inductive Effect (hostPort : String → String) (options : ConnectionOptions) (closed : Bool)
    (d : Dialer) : Event → Dialer → Prop where
  | rest (e : Event) (hpass : ∀ wait now later, e ≠ .pass wait now later)
      (herror : ∀ text, e ≠ .error text) : Effect hostPort options closed d e d
  | moved (e : Event) (loop : DialLoop) (hserver : loop.server = d.loop.server)
      (hfrom : d.loop ≠ .pass ∧ d.loop ≠ .idle) (hto : loop ≠ .idle)
      (hpass : ∀ wait now later, e ≠ .pass wait now later) (herror : ∀ text, e ≠ .error text) :
      Effect hostPort options closed d e { d with loop }
  | outage (hloop : d.loop = .idle) :
      Effect hostPort options closed d .notify { d with loop := .pass, loopError := none }
  | update (urls : List String) (blown : Option Reason)
      (hupdates : options.ignoreClusterUpdates = false) :
      Effect hostPort options closed d (.info urls blown)
        { d with servers := (d.servers.update hostPort urls).1 }
  | error (text : String) :
      Effect hostPort options closed d (.error text) (d.processError options (toError text))
  | pass (wait now later : Int) (hloop : d.loop = .pass) :
      Effect hostPort options closed d (.pass wait now later) (d.pass closed wait now later)
  | failed (e : Event) (srv : Nat) (err : Option Reason) (hloop : d.loop.server = some srv)
      (herr : err = none → e = .resolved 0 ∨ e = .settle)
      (hpass : ∀ wait now later, e ≠ .pass wait now later) (herror : ∀ text, e ≠ .error text) :
      Effect hostPort options closed d e (d.catchFailure options srv err)
  | connected (srv alts : Nat) (hloop : d.loop = .dialing srv alts) :
      Effect hostPort options closed d .settle (d.dialed srv)
  | reconnected (srv alts : Nat) (hloop : d.loop = .dialing srv alts) :
      Effect hostPort options closed d .settle (d.dialed srv).cleanUp

namespace Client

variable {hostPort : String → String} {options : ConnectionOptions} {c c' : Client} {e : Event}

/-- **What a step does to the dialer.** -/
theorem effect_of_step (h : c.step hostPort options e = some c') :
    Effect hostPort options c.closed c.toDialer e c'.toDialer := by
  cases e with
  | pass wait now later =>
      obtain ⟨hloop, ⟨⟩⟩ := Option.ite_none_right_eq_some.1 h
      rw [pass_toDialer]
      exact .pass wait now later hloop
  | wake =>
      obtain ⟨hloop, ⟨⟩⟩ := Option.ite_none_right_eq_some.1 h
      refine .moved .wake .pass ?_ ?_ nofun nofun nofun
      · rw [hloop]
        rfl
      · rw [hloop]
        exact ⟨nofun, nofun⟩
  | resolved alts =>
      rw [step] at h
      split at h
      case h_1 srv hloop =>
        cases h
        cases alts with
        | zero =>
            -- a name with no address fails without an error
            exact .failed (.resolved 0) srv none (by rw [hloop]; rfl)
              (fun _ => .inl rfl) nofun nofun
        | succ n =>
            refine .moved (.resolved (n + 1)) (.dialing srv n) ?_ ?_ nofun nofun nofun
            · rw [hloop]
              rfl
            · rw [hloop]
              exact ⟨nofun, nofun⟩
      case h_2 => cases h
  | resolveFailed err =>
      rw [step] at h
      split at h
      case h_1 srv hloop =>
        cases h
        exact .failed (.resolveFailed err) srv (some err) (by rw [hloop]; rfl) nofun nofun nofun
      case h_2 => cases h
  | fail err =>
      rw [step] at h
      split at h
      · cases h
        rw [rejectPong_toDialer]
        exact .rest (.fail err) nofun nofun
      · cases h
  | settle =>
      rw [step] at h
      split at h
      case h_1 srv alts hloop hpong =>
        cases h
        show Effect _ _ _ _ _ (ite _ _ _)
        split
        · -- the first connection, or one after an outage
          exact .connected srv alts hloop
        · exact .reconnected srv alts hloop
      case h_2 srv alts err hloop hpong =>
        cases h
        cases alts with
        | zero =>
            -- the last address of the server has failed
            show Effect _ _ _ _ _ ((c.closeTransport err).toDialer.catchFailure options srv err)
            rw [closeTransport_toDialer]
            exact .failed .settle srv err (by rw [hloop]; rfl) (fun _ => .inr rfl) nofun nofun
        | succ n =>
            -- the next address is dialed
            show Effect _ _ _ _ _ { (c.closeTransport err).toDialer with loop := .dialing srv n }
            rw [closeTransport_toDialer]
            refine .moved .settle (.dialing srv n) ?_ ?_ nofun nofun nofun
            · rw [hloop]
              rfl
            · rw [hloop]
              exact ⟨nofun, nofun⟩
      case h_3 => cases h
  | error text =>
      obtain ⟨-, ⟨⟩⟩ := Option.ite_none_right_eq_some.1 h
      rw [processError_toDialer]
      exact .error text
  | pong =>
      obtain ⟨-, ⟨⟩⟩ := Option.ite_none_right_eq_some.1 h
      rw [processPong_toDialer]
      exact .rest .pong nofun nofun
  | info urls blown =>
      obtain ⟨-, ⟨⟩⟩ := Option.ite_none_right_eq_some.1 h
      rw [processInfo_toDialer]
      split
      case isTrue => exact .rest (.info urls blown) nofun nofun
      case isFalse hupdates => exact .update urls blown (Bool.eq_false_iff.2 hupdates)
  | lost err =>
      obtain ⟨-, ⟨⟩⟩ := Option.ite_none_right_eq_some.1 h
      rw [lost_toDialer]
      exact .rest (.lost err) nofun nofun
  | notify =>
      obtain ⟨-, ⟨⟩⟩ := Option.ite_none_left_eq_some.1 h
      rw [closedNotification]
      split
      · exact .rest .notify nofun nofun
      · rw [disconnected]
        split
        · split
          -- a client that reconnects starts a loop, if none is going on
          case isTrue hloop => exact .outage hloop
          case isFalse => exact .rest .notify nofun nofun
        · rw [close_toDialer]
          exact .rest .notify nofun nofun
  | close =>
      obtain ⟨-, ⟨⟩⟩ := Option.ite_none_right_eq_some.1 h
      rw [close_toDialer]
      exact .rest .close nofun nofun

end Client

end NatsClient.Reconnect
