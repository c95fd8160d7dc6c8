import NatsClient.Connection.Transports
import NatsClient.Wire.Relay

/-!
# The reader loop of a connection

Model of the loop that `dial` (`protocol.ts`) starts over a transport (`deno_transport.ts`): it
takes the chunks that the transport yields and gives them to the parser, which pushes its events to
the protocol handler (`push`). What the calls of a user's callback are, and whether it throws, comes
with the chunk (`Reaction`); so does what becomes of an INFO, whose text is not modelled.

An exception, whether of the parser or of what an event is pushed to, leaves the loop. The
transport's generator is returned then, and it has nothing to clean up: the transport stays open.

* `attended_step`: where no exception is raised while the connection is live, a connection that is
  up, or will be when its dial goes on, has a loop that reads;
* `reader_attends`: in all runs of that kind (`contained`) the loop over the transport of a
  connection that is up reads, or the transport is closed and that is going to be handled.
-/

set_option autoImplicit false

namespace NatsClient.Connection

open NatsClient.Foundation NatsClient.Wire

namespace Operations

/-! ## What a frame does -/

/-- What user code does when an event is pushed: the calls of a callback and what it throws behind
them; and for an INFO, the options of CONNECT, or what is thrown where it cannot be processed. -/
structure Reaction where
  ops : List Operation
  options : Option String
  thrown : Option String
deriving DecidableEq, Repr

/-- Without a callback. -/
def Reaction.quiet : Reaction := ⟨[], none, none⟩

/-- What the exception says that reading the headers of a message throws, if it does. -/
def badHeaders [Engine] (m : MsgImpl) : Option String :=
  match m.headers with
  | some (.error e) => some e.message
  | _ => none

/-- What the callbacks of requests read of a message. -/
def msgOf [Engine] (m : MsgImpl) : Mux.Msg where
  subject := m.subject
  data := m.data
  code :=
    match m.headers with
    | some (.ok h) => some h.code
    | _ => none

section

variable [Engine]

namespace Client

/-- What `callback(null, msg)` of object `o` throws. The dispatcher reads the headers where it finds
a request, and the callback of a request with `noMux` where there is no data. -/
def callbackThrows (c : Client) (o : Nat) (s : Sub) (m : MsgImpl) (r : Reaction) : Option String :=
  if o ∈ c.muxSubs then
    match c.mux.getToken (msgOf m) with
    | some token => if token ≠ "" ∧ (c.mux.reqs.get token).isSome then badHeaders m else none
    | none => none
  else if c.isNoMux o then if m.data = [] then badHeaders m else none
  else if s.noIterator then r.thrown
  else none

/-- What `processMsg(msg, data)` throws. -/
def msgThrows (c : Client) (m : MsgImpl) (r : Reaction) : Option String :=
  match c.handler.get m.msg.sid.toNat with
  | none => none
  | some o =>
      match c.handler.objs[o]? with
      | none => none
      | some s => c.callbackThrows o s m r

/-- What `processError(m)` throws: of the callbacks that get an error only that of a user does. -/
def errorThrows (c : Client) (ctx : PermissionContext) (r : Reaction) : Option String :=
  match c.named ctx with
  | none => none
  | some (_, o) =>
      match c.handler.objs[o]? with
      | none => none
      | some s =>
          if o ∉ c.muxSubs ∧ c.isNoMux o = false ∧ s.noIterator = true then r.thrown else none

/-- The link changes. -/
def setLink (c : Client) (l : Link) : Client := c.setHandler (c.handler.setLink l)

/-- `handleAuthError(err)`. -/
def handleAuthError (c : Client) : Client :=
  c.setLink
    (if c.handler.link.connectError then c.handler.link.failConnect else c.handler.link.disconnect)

section

variable (nuid : Nat → String) (inboxPrefix : String)

/-- An event up to where the callback throws: its calls have been made. -/
def interrupted (c : Client) (e : Event) : Client :=
  (c.callsOf e).1.calls nuid inboxPrefix (c.callsOf e).2

/-- `processMsg(msg, data)`, and what it throws. -/
def receive (c : Client) (m : MsgImpl) (r : Reaction) : Client × Option Exn :=
  match c.msgThrows m r with
  | some err =>
      (c.interrupted nuid inboxPrefix (.message m.msg.sid.toNat (msgOf m) r.ops),
        some (.handler err))
  | none => (c.processMsg nuid inboxPrefix m.msg.sid.toNat (msgOf m) r.ops, none)

/-- `processError(m)`, and what it throws. -/
def receiveError (c : Client) (data : Bytes) (r : Reaction) : Client × Option Exn :=
  match PermissionText.toError (decode data) with
  | (_, some ctx) =>
      match c.errorThrows ctx r with
      | some err => (c.interrupted nuid inboxPrefix (.error ctx r.ops), some (.handler err))
      | none => (c.processError nuid inboxPrefix ctx r.ops, none)
  | (err, none) => (if err.code.isAuthError then c.handleAuthError else c, none)

/-- `push(e)`, and what it throws. -/
def pushEvent (c : Client) (e : ParserEvent) (r : Reaction) : Client × Option Exn :=
  match e.kind with
  | .msg =>
      match MsgImpl.ofEvent e with
      | some m => c.receive nuid inboxPrefix m r
      | none => (c, none)
  | .ok => (c, none)
  | .err => c.receiveError nuid inboxPrefix (e.data.getD []) r
  | .ping => (c.setLink c.handler.link.processPing, none)
  | .pong => (c.setLink c.handler.link.processPong, none)
  | .info =>
      match r.thrown with
      -- it is no JSON, or has no version
      | some err => (c, some (.handler err))
      | none => (c.setLink (c.handler.link.processInfo r.options), none)

/-- The handler as the dispatcher of the parser, with what is left of the reactions. -/
def dispatcher : Dispatcher (Client × List Reaction) where
  push s e :=
    let pushed := s.1.pushEvent nuid inboxPrefix e (s.2.headD .quiet)
    ((pushed.1, s.2.tail), pushed.2)

end

end Client

/-! ## The reader -/

/-- Where the loop over the current transport is: not started, reading, at the end of the transport,
or left by an exception. -/
inductive ReaderLoop where
  | absent
  | reading
  | ended
  | failed
deriving DecidableEq, Repr

/-- A connection with its parser and the loop over its transport. -/
structure Reader where
  client : Client
  parser : Parser
  loop : ReaderLoop

/-- What can happen: an event of the connection that no frame makes, the transport of a dial is
connected, it yields a chunk, or it has no more of them. -/
inductive ReaderEvent where
  | client (e : Event)
  | connected
  | chunk (buf : Bytes) (rs : List Reaction)
  | eof

/-- The events that frames make. -/
def Event.isFrame : Event → Bool
  | .message _ _ _ | .error _ _ | .handler (.link (.info _)) | .handler (.link
      .ping) | .handler (.link .pong) =>
      true
  | _ => false

/-- The start of a dial. -/
def Event.isPrepare : Event → Bool
  | .handler (.link .prepare) => true
  | _ => false

namespace Reader

/-- A new connection. -/
def new (pendingLimit maxOut : Nat) : Reader := ⟨.new pendingLimit maxOut, .new, .absent⟩

/-- The link of the connection. -/
def link (r : Reader) : Link := r.client.handler.link

section

variable (nuid : Nat → String) (inboxPrefix : String)

/-- The parser works a chunk off. -/
def parsed (r : Reader) (buf : Bytes) (rs : List Reaction) : Parsed (Client × List Reaction) :=
  parse (Client.dispatcher nuid inboxPrefix) r.parser (r.client, rs) buf

/-- One event; `none` where it cannot happen. A dial has a new transport and a new parser; the loop
starts when the transport is connected. -/
def step (r : Reader) : ReaderEvent → Option Reader
  | .client e =>
      -- the frames come in chunks only
      if e.isFrame then none
      else
        (r.client.step nuid inboxPrefix e).map fun c =>
          if e.isPrepare then ⟨c, .new, .absent⟩ else { r with client := c }
  | .connected =>
      if r.loop = .absent ∧ r.link.loop = .dialing then some { r with loop := .reading } else none
  | .chunk buf rs =>
      if r.loop = .reading then
        match r.parsed nuid inboxPrefix buf rs with
        | .ok p s => some ⟨s.1, p, .reading⟩
        -- `console.log("reader closed", err)`
        | .throw p s _ => some ⟨s.1, p, .failed⟩
      else none
  | .eof =>
      if r.loop = .reading then
        some { r with client := r.client.setLink r.link.disconnect, loop := .ended }
      else none

/-- Where an exception leaves the loop the connection is not live at that moment; and a dial does
not go on over a transport that is closed, with nothing left to handle that. -/
def contained (r : Reader) : ReaderEvent → Bool
  | .chunk buf rs =>
      match r.parsed nuid inboxPrefix buf rs with
      | .ok _ _ => true
      | .throw _ s _ => !s.1.handler.link.live
  | .client (.handler .dialDone) => !r.link.transport.done || r.link.handles
  | _ => true

end

/-- A connection that is up has a loop that reads from an open transport, or its transport is closed
and that is going to be handled. -/
def Served (r : Reader) : Prop :=
  r.link.connected = true →
    r.loop = .reading ∧ r.link.transport.done = false ∨ r.link.transport.done = true ∧
    r.link.handles = true

/-- A connection that is up, or will be when its dial goes on, has a loop that reads. -/
structure Attended (r : Reader) : Prop where
  regular : r.link.Regular
  reading : r.loop ≠ .reading → r.link.live = false

end Reader

end

/-! ## What a frame keeps -/

namespace Client

variable {nuid : Nat → String} {inboxPrefix : String} {c c' : Client} {l : Link} {e : Link.Event}

theorem handler_setHandler (c : Client) (h : Handler) : (c.setHandler h).handler = h := by
  rw [setHandler]
  split <;> rfl

theorem link_setLink (c : Client) (l : Link) : (c.setLink l).handler.link = l := by
  rw [setLink, handler_setHandler, ProtocolHandler.link_setLink]

theorem regular_setLink (hl : l.Regular) : (c.setLink l).handler.link.Regular := by
  rw [link_setLink]
  exact hl

/-- What functions of the handler do without a dial. -/
theorem regular_of_follows (hs : c.handler.link.Regular)
    (hf : Follows nuid inboxPrefix (fun _ => False) c c') :
    c'.handler.link.Regular := hf.handler.link.regular hs

/-- An event of the handler. -/
theorem step_handler {e : ProtocolHandler.Event Mux.Msg Mux.RequestError}
    (hstep : c.step nuid inboxPrefix (.handler e) = some c') :
    c.handler.step e = some c'.handler := by
  obtain ⟨-, hhandler⟩ := Option.ite_none_right_eq_some.1 hstep
  obtain ⟨h, hh, rfl⟩ := Option.map_eq_some_iff.1 hhandler
  rw [handler_setHandler]
  exact hh

/-- An event of the link. -/
theorem step_link (hstep : c.step nuid inboxPrefix (.handler (.link e)) = some c') :
    ProtocolHandler.isInternal e = true ∧ c.handler.link.step e = some c'.handler.link := by
  have hhandler := step_handler hstep
  generalize c'.handler = h at hhandler ⊢
  cases ProtocolHandler.step_of_eq hhandler with
  | link e l hinternal hl => exact ⟨hinternal, by rw [hl, ProtocolHandler.link_setLink]⟩

/-- The end of a dial. -/
theorem step_dialDone (hstep : c.step nuid inboxPrefix (.handler .dialDone) = some c') :
    ∃ subs, c.handler.link.step (.dialDone subs) = some c'.handler.link := by
  have hhandler := step_handler hstep
  generalize c'.handler = h at hhandler ⊢
  cases ProtocolHandler.step_of_eq hhandler with
  | dialDone l _ hl => exact ⟨c.handler.subCommands, hl⟩

/-- **The other events** run the link without a dial. -/
theorem runs_of_step {e : Event} (hframe : e.isFrame = false) (hprepare : e.isPrepare = false)
    (hdone : e ≠ .handler .dialDone) (hstep : c.step nuid inboxPrefix e = some c') :
    c.handler.link.Runs (fun _ => False) c'.handler.link := by
  obtain ⟨es, hes, hdials⟩ := (follows_step hstep).handler.link
  refine ⟨es, hes, fun l hmem hl => ?_⟩
  obtain ⟨e', rfl, hdrives⟩ := hdials l hmem hl
  rcases hdrives with rfl | ⟨rfl, -⟩
  · have hinternal := (step_link hstep).1
    cases l with
    | prepare => cases hprepare
    | pong => cases hframe
    | dialDone subs => cases hinternal
    | _ => cases hl
  · exact hdone rfl

/-- The calls of a callback that throws. -/
theorem regular_interrupted (hs : c.handler.link.Regular) (e : Event) :
    (c.interrupted nuid inboxPrefix e).handler.link.Regular := by
  have hfront : (c.callsOf e).1.handler.link = c.handler.link := by
    unfold callsOf
    repeat' split
    all_goals rfl
  rw [← hfront] at hs
  exact regular_of_follows hs (follows_calls _ _)

theorem regular_handleAuthError (hs : c.handler.link.Regular) :
    c.handleAuthError.handler.link.Regular := by
  rw [handleAuthError]
  split
  · exact regular_setLink (hs.keeps (Link.evolves_failConnect _) (Link.keeps_failConnect _))
  · exact regular_setLink (hs.keeps (Link.evolves_closeTransport _ true) (Link.keeps_disconnect _))

theorem regular_receiveError (hs : c.handler.link.Regular) (data : Bytes) (r : Reaction) :
    (c.receiveError nuid inboxPrefix data r).1.handler.link.Regular := by
  rw [receiveError]
  split
  · split
    · exact regular_interrupted hs _
    · exact regular_of_follows hs (follows_processError c _ _)
  · split
    · exact regular_handleAuthError hs
    · exact hs

variable [Engine]

theorem regular_receive (hs : c.handler.link.Regular) (m : MsgImpl) (r : Reaction) :
    (c.receive nuid inboxPrefix m r).1.handler.link.Regular := by
  rw [receive]
  split
  · exact regular_interrupted hs _
  · exact regular_of_follows hs (follows_processMsg c _ _ _)

/-- **A frame**, whether it throws or not. -/
theorem regular_pushEvent (hs : c.handler.link.Regular) (e : ParserEvent) (r : Reaction) :
    (c.pushEvent nuid inboxPrefix e r).1.handler.link.Regular := by
  rw [pushEvent]
  split
  · split
    · exact regular_receive hs _ r
    · exact hs
  · exact hs
  · exact regular_receiveError hs _ r
  · exact regular_setLink (hs.keeps (Link.evolves_send _ _) (Link.keeps_send _ _))
  · exact regular_setLink hs.processPong
  · split
    · exact hs
    · exact regular_setLink (hs.keeps (Link.evolves_processInfo _ _) (Link.keeps_processInfo _ _))

end Client

/-! ## Who reads -/

namespace Reader

section

variable {nuid : Nat → String} {inboxPrefix : String} {r r' : Reader}

theorem regular_new (pendingLimit maxOut : Nat) : (new pendingLimit maxOut).link.Regular :=
  ⟨Link.owned_new pendingLimit maxOut, Link.controlled_new pendingLimit maxOut, fun h => by cases h⟩

theorem attended_new (pendingLimit maxOut : Nat) : (new pendingLimit maxOut).Attended :=
  ⟨regular_new pendingLimit maxOut, fun _ => rfl⟩

theorem eq_prepare {e : Event} (h : e.isPrepare = true) : e = .handler (.link .prepare) := by
  unfold Event.isPrepare at h
  split at h
  · rfl
  · cases h

/-- An event of the connection keeps the reader where the link comes up in no other way. -/
theorem Attended.client (hs : r.Attended) {c : Client} (hregular : c.handler.link.Regular)
    (hlive : r.link.live = false → c.handler.link.live = false) :
    ({ r with client := c } : Reader).Attended :=
  ⟨hregular, fun h => hlive (hs.reading h)⟩

theorem Attended.served (hs : r.Attended) : r.Served := by
  intro hup
  cases hdone : r.link.transport.done with
  | true => exact .inr ⟨rfl, hs.regular.handled hup hdone⟩
  | false =>
      refine .inl ⟨?_, rfl⟩
      by_contra hreading
      have hlive := hs.reading hreading
      rw [Link.live, hdone, hup] at hlive
      cases hlive

variable [Engine]

/-- A chunk, whether it throws or not. -/
theorem regular_parsed (hs : r.link.Regular) (buf : Bytes) (rs : List Reaction) :
    (r.parsed nuid inboxPrefix buf rs).pushed.1.handler.link.Regular :=
  parse_invariant (I := fun s : Client × List Reaction => s.1.handler.link.Regular)
    (fun _ e hs => Client.regular_pushEvent hs e _) r.parser buf hs

/-- **One event** that meets the condition. -/
theorem attended_step {e : ReaderEvent} (hs : r.Attended)
    (hok : r.contained nuid inboxPrefix e = true) (hstep : r.step nuid inboxPrefix e = some r') :
    r'.Attended := by
  cases e with
  | client e =>
      obtain ⟨hframe, hevent⟩ := Option.ite_none_left_eq_some.1 hstep
      obtain ⟨c, hc, rfl⟩ := Option.map_eq_some_iff.1 hevent
      by_cases hprepare : e.isPrepare = true
      · rw [if_pos hprepare]
        obtain rfl := eq_prepare hprepare
        -- a dial gets a transport of its own
        obtain ⟨hregular, hlive⟩ := hs.regular.prepare (Client.step_link hc).2
        exact ⟨hregular, fun _ => hlive⟩
      · rw [if_neg hprepare]
        by_cases hdone : e = .handler .dialDone
        · subst hdone
          obtain ⟨subs, hsubs⟩ := Client.step_dialDone hc
          -- a transport that closed before the dial returned is still to be handled
          have hhandles : r.link.transport.done = true → r.link.handles = true := by
            have hopen : (!r.link.transport.done || r.link.handles) = true := hok
            intro hshut
            rwa [hshut] at hopen
          obtain ⟨hregular, hlive⟩ := hs.regular.dialDone hsubs hhandles
          exact hs.client hregular hlive
        · have hruns :=
            Client.runs_of_step (Bool.eq_false_iff.2 hframe) (Bool.eq_false_iff.2 hprepare) hdone hc
          exact hs.client (hruns.regular hs.regular) (hruns.live hs.regular)
  | connected =>
      obtain ⟨-, hreading⟩ := Option.ite_none_right_eq_some.1 hstep
      cases hreading
      exact ⟨hs.regular, fun h => absurd rfl h⟩
  | chunk buf rs =>
      have hregular : (r.parsed nuid inboxPrefix buf rs).pushed.1.handler.link.Regular :=
        regular_parsed hs.regular buf rs
      obtain ⟨-, hchunk⟩ := Option.ite_none_right_eq_some.1 hstep
      rw [contained] at hok
      split at hchunk
      · next p s hparsed =>
        rw [hparsed] at hregular
        cases hchunk
        -- the loop goes on to read
        exact ⟨hregular, fun h => absurd rfl h⟩
      · next p s exn hparsed =>
        rw [hparsed] at hregular hok
        cases hchunk
        -- the loop ends with the error, which the condition lets happen on a dead link only
        have hlive : s.1.handler.link.live = false := by simpa using hok
        exact ⟨hregular, fun _ => hlive⟩
  | eof =>
      obtain ⟨-, heof⟩ := Option.ite_none_right_eq_some.1 hstep
      cases heof
      -- the end of the stream closes the transport
      have hregular : r.link.disconnect.Regular :=
        hs.regular.keeps (Link.evolves_closeTransport _ true) (Link.keeps_disconnect _)
      refine ⟨Client.regular_setLink hregular, fun _ => ?_⟩
      show (r.client.setLink r.link.disconnect).handler.link.live = false
      rw [Client.link_setLink]
      exact Link.live_eq_false.2 (.inl (Transport.done_close _ _))

/-- **A connection that is up has a reader**, in all runs in which no exception leaves the loop
while the connection is live: the loop over its transport reads, or the transport is closed and that
is going to be handled. Where an exception has left the loop, the transport is closed, or the
connection is down and its handshake was not answered. -/
theorem reader_attends {es : List ReaderEvent} {pendingLimit maxOut : Nat}
    (hrun : run (step nuid inboxPrefix) (new pendingLimit maxOut) es = some r)
    (hok : Meets (step nuid inboxPrefix) (fun r e => r.contained nuid inboxPrefix e = true)
      (new pendingLimit maxOut) es) :
    r.Served ∧ (r.loop = .failed →
      r.link.transport.done = true ∨ r.link.connected = false ∧ r.link.answered = false) := by
  have hs : r.Attended :=
    invariant_run_of_meets (I := Attended)
      (fun _ _ _ hs hok hstep => attended_step hs hok hstep) hrun hok
      (attended_new pendingLimit maxOut)
  refine ⟨hs.served, fun hfailed => Link.live_eq_false.1 (hs.reading ?_)⟩
  rw [hfailed]
  decide

end

/-- A connection comes up. -/
def connect : List ReaderEvent :=
  [.client (.handler (.link .prepare)), .connected,
    .chunk (encode "INFO \x7b\"version\":\"2.10.0\"\x7d\r\n") [⟨[], some "\x7b\x7d", none⟩],
    .chunk (encode "PONG\r\n") [], .client (.handler .dialDone)]

/-- A callback gets two messages, closes the connection, and throws. -/
def closing : List ReaderEvent :=
  connect ++ [.client (.call (.handler (.subscribe ⟨"a", none, none, true, false⟩))),
    .chunk (encode "MSG a 1 0\r\n\r\nMSG a 1 0\r\n\r\n")
      [.quiet, ⟨[.handler .close], none, some "thrown by the callback"⟩]]

theorem reader_attends_closing :
    letI : Engine := .common
    ∃ r, run (step Mux.MuxSubscription.letters "") (new 32768 2) closing = some r ∧
      r.loop = .failed ∧ r.Served ∧
      (r.link.transport.done = true ∨ r.link.connected = false ∧ r.link.answered = false) := by
  let _ : Engine := .common
  have hends : (run (step Mux.MuxSubscription.letters "") (new 32768 2) closing).any (fun r =>
      decide (r.loop = .failed)) = true := by decide +kernel
  obtain ⟨r, hrun, hr⟩ := (Option.any_eq_true _ _).1 hends
  have hfailed : r.loop = .failed := of_decide_eq_true hr
  obtain ⟨hserved, hdown⟩ := reader_attends hrun (by decide +kernel)
  exact ⟨r, hrun, hfailed, hserved, hdown hfailed⟩

/-- A callback throws. -/
def throwing : List ReaderEvent :=
  connect ++ [.client (.call (.handler (.subscribe ⟨"a", none, none, true, false⟩))),
    .chunk (encode "MSG a 1 0\r\n\r\n") [⟨[], none, some "thrown by the callback"⟩]]

/-- The connection is up, its transport is open, and nothing reads from it: a callback threw, or the
parser did at a byte that begins no frame. -/
theorem not_reader_attends :
    letI : Engine := .common
    (∃ r, run (step Mux.MuxSubscription.letters "") (new 32768 2) throwing = some r ∧ ¬ r.Served) ∧
      ∃ r, run (step Mux.MuxSubscription.letters "") (new 32768 2)
        (connect ++ [.chunk (encode "x") []]) = some r ∧ ¬ r.Served := by
  let _ : Engine := .common
  have hnot : ∀ r : Reader, r.link.connected = true ∧ r.link.transport.done = false ∧
      r.loop = .failed → ¬ r.Served := by
    rintro r ⟨hup, hdone, hloop⟩ hserved
    rcases hserved hup with ⟨hreading, -⟩ | ⟨hshut, -⟩
    · rw [hloop] at hreading
      cases hreading
    · rw [hdone] at hshut
      cases hshut
  have hthrowing : (run (step Mux.MuxSubscription.letters "") (new 32768 2) throwing).any (fun r =>
      decide (r.link.connected = true ∧ r.link.transport.done = false ∧ r.loop = .failed)) =
      true := by
    decide +kernel
  have hbyte : (run (step Mux.MuxSubscription.letters "") (new 32768 2)
      (connect ++ [.chunk (encode "x") []])).any (fun r =>
      decide (r.link.connected = true ∧ r.link.transport.done = false ∧ r.loop = .failed)) =
      true := by
    decide +kernel
  obtain ⟨r, hrun, hr⟩ := (Option.any_eq_true _ _).1 hthrowing
  obtain ⟨r', hrun', hr'⟩ := (Option.any_eq_true _ _).1 hbyte
  exact ⟨⟨r, hrun, hnot r (of_decide_eq_true hr)⟩, r', hrun', hnot r' (of_decide_eq_true hr')⟩

end Reader

end Operations

end NatsClient.Connection
