import NatsClient.Connection.Pairing
import NatsClient.Wire.DataBuffer
import NatsClient.Wire.Publish

/-!
# The bytes of the outbound buffer

The link writes frames; its buffer holds bytes. `Output` is the link with its `DataBuffer`: the
functions of `protocol.ts` that fill and drain `outbound` decide on the arrays and bytes it holds,
and the writes given to the transport since the last reset are logged.

* `Agrees`: the buffer holds the bytes of the frames the link has in it, and every write is made of
  whole frames;
* `Link.flushTask_pending`: while the connection is up, a buffer with frames has a microtask that
  will flush it;
* `output_ordered`: over every run, what the buffer gave the transport are the queued frames in
  their order, each whole and once, and what it still holds are the rest.
-/

set_option autoImplicit false

namespace NatsClient.Connection

open NatsClient.Foundation NatsClient.Wire

/-- The bytes of a command. -/
def Command.bytes : Command → Bytes
  | .pub proto payload => encode proto ++ payload
  | c => encode c.line

/-- The bytes of a frame. -/
def Frame.bytes : Frame → Bytes
  | .connect options => encode s!"CONNECT {options}\r\n"
  | .ping _ => encode "PING\r\n"
  | .pong => encode "PONG\r\n"
  | .command c => c.bytes

/-- One `transport.send`: whether the buffer was drained for it, and its bytes. -/
structure Write where
  buffered : Bool
  bytes : Bytes
deriving DecidableEq, Repr

/-- The link and the bytes it has to write. `written` logs the writes since `outbound` was reset. -/
structure Output where
  link : Link
  outbound : DataBuffer
  flushTasks : Nat
  written : List Write

namespace Output

/-- The constructor. -/
def new (pendingLimit maxOut : Nat) : Output := ⟨.new pendingLimit maxOut, .empty, 0, []⟩

/-- `transport.send(bytes)` past the buffer. -/
def send (o : Output) (bytes : Bytes) : Output :=
  { o with written := o.written ++ [⟨false, bytes⟩] }

/-- `flushPending()`. -/
def flushPending (o : Output) : Output :=
  if o.link.infoReceived && o.link.connected then
    if o.outbound.size ≠ 0 then
      { o with
        outbound := (o.outbound.drain none).2
        written := o.written ++ [⟨true, (o.outbound.drain none).1⟩] }
    else o
  else o

/-- `sendCommand(cmd, ...payloads)`. -/
def sendCommand (o : Output) (cmd : String) (payloads : List Bytes) : Output :=
  let filled := { o with outbound := o.outbound.fill (encode cmd) payloads }
  if o.outbound.length = 0 then { filled with flushTasks := filled.flushTasks + 1 }
  else if filled.link.pendingLimit ≤ filled.outbound.size then filled.flushPending
  else filled

/-- `flush(p)`. -/
def flush (o : Output) : Output :=
  { o with outbound := o.outbound.fill (encode "PING\r\n") [] }.flushPending

/-- `resetOutbound()`. -/
def resetOutbound (o : Output) : Output := { o with outbound := .empty, written := [] }

/-- `sendSubscriptions()`. -/
def sendSubscriptions (o : Output) (subs : List Command) : Output :=
  if subs = [] then o else o.send (subs.flatMap Command.bytes)

/-- What an event of the link does to the bytes; `link` is the link behind it. -/
def effect (o : Output) (link : Link) : Link.Event → Output
  | .command c => { o with link := link }.sendCommand c.line []
  | .flush => { o with link := link }.flush
  | .flushTask => { o with link := link, flushTasks := o.flushTasks - 1 }.flushPending
  | .heartbeatTimer =>
      -- a stale connection is dropped; any other gets a ping
      if o.link.heartbeats.pendings.length = o.link.heartbeats.maxOut then { o with link := link }
      else { o with link := link }.flush
  | .prepare => { o with link := link }.resetOutbound
  | .info (some options) =>
      if o.link.infoReceived then { o with link := link }
      else ({ o with link := link }.send (encode s!"CONNECT {options}\r\n")).send
        (encode "PING\r\n")
  | .ping => { o with link := link }.send (encode "PONG\r\n")
  | .dialDone subs => ({ o with link := link }.sendSubscriptions subs).flushPending
  | _ => { o with link := link }

/-- What can happen: a publish, or an event of the link. -/
inductive Event where
  | publish (info : Option ServerInfo) (subject : String) (payload : Payload)
      (options : PublishOptions)
  | link (e : Link.Event)

/-- One event; `none` where it cannot happen. The commands of the link are `SUB` and `UNSUB`; a
publish that throws sends nothing. -/
def step (o : Output) : Event → Option Output
  | .publish info subject payload options =>
      match publish info subject payload options with
      | .ok (proto, payloads) =>
          (o.link.step (.command (.pub proto payloads.flatten))).map fun link =>
            { o with link := link }.sendCommand proto payloads
      | .error _ => some o
  | .link (.command (.pub _ _)) => none
  | .link e => (o.link.step e).map fun link => o.effect link e

end Output

/-! ## Frames and bytes -/

theorem Command.length_bytes (c : Command) : c.bytes.length = c.size := by
  cases c with
  | sub subject queue sid => exact length_encode _
  | unsub sid max => exact length_encode _
  | pub proto payload => rw [bytes, size, List.length_append, length_encode]

theorem Frame.length_bytes (f : Frame) : f.bytes.length = f.size := by
  cases f with
  | connect options => exact length_encode _
  | ping d => exact length_encode _
  | pong => exact length_encode _
  | command c => exact c.length_bytes

theorem length_flatMap_bytes (frames : List Frame) :
    (frames.flatMap Frame.bytes).length = (frames.map Frame.size).sum := by
  induction frames with
  | nil => rfl
  | cons f frames ih =>
      rw [List.flatMap_cons, List.length_append, List.map_cons, List.sum_cons, ih, f.length_bytes]

/-- A text is not empty where its bytes are counted. -/
theorem encode_ne_nil {s : String} (hs : 0 < s.utf8ByteSize) : encode s ≠ [] := by
  apply List.ne_nil_of_length_pos
  rw [length_encode]
  exact hs

/-- A protocol line is not empty. -/
theorem Command.line_pos {c : Command} (hc : ∀ proto payload, c ≠ .pub proto payload) :
    0 < c.line.utf8ByteSize := by
  have hsub : "SUB ".utf8ByteSize = 4 := by decide
  have hunsub : "UNSUB ".utf8ByteSize = 6 := by decide
  cases c with
  | sub subject queue sid =>
      cases queue <;>
        simp only [line, toString, String.utf8ByteSize_append, hsub] <;> omega
  | unsub sid max =>
      cases max <;>
        simp only [line, toString, String.utf8ByteSize_append, hunsub] <;> omega
  | pub proto payload => exact absurd rfl (hc proto payload)

/-- The bytes of a `DataBuffer` and the writes so far, against the frames in the buffer and those
queued. -/
structure Holds (db : DataBuffer) (written : List Write) (frames queued : List Frame) : Prop where
  contents : db.contents = frames.flatMap Frame.bytes
  isEmpty : db.length = 0 ↔ frames = []
  visible : ∀ f ∈ frames, f.bytes ≠ []
  /-- Every write is made of whole frames, and those of the buffer are the queued ones. -/
  writes : ∃ batches : List (Bool × List Frame),
    written = batches.map (fun b => ⟨b.1, b.2.flatMap Frame.bytes⟩) ∧
      queued = (batches.filter Prod.fst).flatMap Prod.snd ++ frames

section

variable {db : DataBuffer} {written : List Write} {frames queued : List Frame}

theorem holds_empty : Holds .empty [] [] [] where
  contents := rfl
  isEmpty := ⟨fun _ => rfl, fun _ => rfl⟩
  visible := by
    intro f hf
    cases hf
  writes := ⟨[], rfl, rfl⟩

/-- The buffer has the size of its frames. -/
theorem Holds.size (h : Holds db written frames queued) :
    db.size = (frames.map Frame.size).sum := by
  rw [← db.length_contents, h.contents, length_flatMap_bytes]

/-- Only the empty buffer has no bytes. -/
theorem Holds.size_ne_zero (h : Holds db written frames queued) (hne : frames ≠ []) :
    db.size ≠ 0 := by
  obtain ⟨f, rest, rfl⟩ := List.exists_cons_of_ne_nil hne
  have hf : f.bytes.length ≠ 0 := by
    intro hzero
    exact h.visible f List.mem_cons_self (List.length_eq_zero_iff.1 hzero)
  rw [h.size, List.map_cons, List.sum_cons, ← f.length_bytes]
  omega

/-- A frame is filled in. -/
theorem Holds.fill (h : Holds db written frames queued) {f : Frame} {a : Bytes} {bufs : List Bytes}
    (hbytes : f.bytes = a ++ bufs.flatten) (hvisible : f.bytes ≠ []) :
    Holds (db.fill a bufs) written (frames ++ [f]) (queued ++ [f]) where
  contents := by
    rw [db.contents_fill, h.contents, List.flatMap_append, List.flatMap_singleton, hbytes]
  isEmpty := by
    constructor
    · intro hzero
      exact absurd hzero (db.length_fill_ne_zero a bufs)
    · intro hnil
      exact absurd hnil (by simp)
  visible := by
    intro g hg
    rcases List.mem_append.1 hg with hg | hg
    · exact h.visible g hg
    · rw [List.mem_singleton.1 hg]
      exact hvisible
  writes := by
    obtain ⟨batches, hwritten, hqueued⟩ := h.writes
    exact ⟨batches, hwritten, by rw [hqueued, List.append_assoc]⟩

/-- The buffer is drained into a write. -/
theorem Holds.drain (h : Holds db written frames queued) :
    Holds (db.drain none).2 (written ++ [⟨true, (db.drain none).1⟩]) [] queued where
  contents := by
    have hnone := db.drain_contents none
    rw [db.drain_all.1] at hnone
    exact List.append_right_eq_self.1 hnone
  isEmpty := ⟨fun _ => rfl, fun _ => db.drain_all.2⟩
  visible := by
    intro f hf
    cases hf
  writes := by
    obtain ⟨batches, hwritten, hqueued⟩ := h.writes
    refine ⟨batches ++ [(true, frames)], ?_, ?_⟩
    · rw [hwritten, db.drain_all.1, h.contents, List.map_append, List.map_singleton]
    · rw [hqueued, List.filter_append, List.flatMap_append, List.append_nil]
      simp

/-- Frames are written past the buffer. -/
theorem Holds.send (h : Holds db written frames queued) (direct : List Frame) :
    Holds db (written ++ [⟨false, direct.flatMap Frame.bytes⟩]) frames queued where
  contents := h.contents
  isEmpty := h.isEmpty
  visible := h.visible
  writes := by
    obtain ⟨batches, hwritten, hqueued⟩ := h.writes
    refine ⟨batches ++ [(false, direct)], ?_, ?_⟩
    · rw [hwritten, List.map_append, List.map_singleton]
    · rw [hqueued, List.filter_append]
      simp

end

/-- Bytes and frames are flushed together. -/
theorem Holds.flushPending {o : Output} {s : Link}
    (h : Holds o.outbound o.written s.outbound s.queued)
    (hinfo : o.link.infoReceived = s.infoReceived) (hconnected : o.link.connected = s.connected) :
    Holds o.flushPending.outbound o.flushPending.written s.flushPending.outbound
      s.flushPending.queued := by
  rw [Output.flushPending, Link.flushPending, hinfo, hconnected]
  have hsize : o.outbound.size = s.size := h.size
  rw [hsize]
  split
  · split
    · exact h.drain
    · exact h
  · exact h

/-! ## Over all runs -/

namespace Link

variable {s : Link}

/-- A connection that is up has its INFO. -/
theorem IsPaired.info_of_connected (h : s.IsPaired) (hon : s.connected = true) :
    s.infoReceived = true := by
  obtain ⟨flushed, dropped, direct, owed, h⟩ := h
  cases hinfo : s.infoReceived with
  | true => rfl
  | false => exact absurd (h.noInfo hinfo).1 (h.direct_on hon)

/-- The fields that concern the buffer. -/
def kept (s : Link) : List Frame × List Frame × Nat × Bool :=
  (s.outbound, s.queued, s.flushTasks, s.connected)

theorem kept_failConnect (s : Link) : s.failConnect.kept = s.kept := by
  rw [failConnect]
  split
  · split <;> rfl
  · rfl

theorem kept_close (s : Link) : s.close.kept = s.kept := by
  rw [close]
  split
  · rfl
  · exact s.heartbeatCancel.kept_failConnect

theorem kept_heartbeatThen (s : Link) (ping : Nat) (o : Outcome) :
    (s.heartbeatThen ping o).kept = s.kept := by
  cases o <;> rfl

theorem kept_processPong (s : Link) : s.processPong.kept = s.kept := by
  rw [processPong]
  split <;> rfl

theorem kept_dialFailed (s : Link) (connectFailed : Bool) :
    (s.dialFailed connectFailed).kept = s.kept := by
  rw [dialFailed]
  cases s.handshake with
  | none => rfl
  | some pong => cases connectFailed <;> rfl

end Link

namespace Output

variable {o o' : Output}

/-- The bytes agree with the frames, and a buffer with frames is going to be flushed once the
connection is up. -/
structure Agrees (o : Output) : Prop where
  holds : Holds o.outbound o.written o.link.outbound o.link.queued
  tasks : o.flushTasks = o.link.flushTasks
  pending : o.link.connected = true → o.link.outbound ≠ [] → 0 < o.link.flushTasks

theorem agrees_new (pendingLimit maxOut : Nat) : (new pendingLimit maxOut).Agrees where
  holds := holds_empty
  tasks := rfl
  pending := by
    intro hconnected
    cases hconnected

/-- A change of the link that keeps its buffer and does not bring the connection up. -/
theorem Agrees.congr (h : o.Agrees) {link : Link} (houtbound : link.outbound = o.link.outbound)
    (hqueued : link.queued = o.link.queued) (htasks : link.flushTasks = o.link.flushTasks)
    (hconnected : link.connected = true → o.link.connected = true) :
    { o with link := link }.Agrees where
  holds := by
    rw [houtbound, hqueued]
    exact h.holds
  tasks := by rw [htasks]; exact h.tasks
  pending := by
    intro hon hne
    rw [houtbound] at hne
    rw [htasks]
    exact h.pending (hconnected hon) hne

/-- Such changes: nothing of this differs. -/
theorem Agrees.kept (h : o.Agrees) {link : Link} (hkept : link.kept = o.link.kept) :
    { o with link := link }.Agrees := by
  simp only [Link.kept, Prod.mk.injEq] at hkept
  obtain ⟨houtbound, hqueued, htasks, hconnected⟩ := hkept
  apply h.congr houtbound hqueued htasks
  rw [hconnected]
  exact id

/-- Frames are written past the buffer. -/
theorem Agrees.send (h : o.Agrees) {bytes : Bytes} (direct : List Frame)
    (hbytes : bytes = direct.flatMap Frame.bytes) : (o.send bytes).Agrees where
  holds := by
    rw [hbytes]
    exact h.holds.send direct
  tasks := h.tasks
  pending := h.pending

@[simp] theorem link_flushPending (o : Output) : o.flushPending.link = o.link := by
  rw [flushPending]
  split
  · split <;> rfl
  · rfl

@[simp] theorem flushTasks_flushPending (o : Output) :
    o.flushPending.flushTasks = o.flushTasks := by
  rw [flushPending]
  split
  · split <;> rfl
  · rfl

/-- Bytes and frames are flushed together; `s` is the link in front of the flush. A flush of a
connection that is up leaves nothing. -/
theorem agrees_flushPending {s : Link} (h : Holds o.outbound o.written s.outbound s.queued)
    (hinfo : s.connected = true → s.infoReceived = true)
    (houtbound : o.link.outbound = s.flushPending.outbound)
    (hqueued : o.link.queued = s.flushPending.queued)
    (htasks : o.flushTasks = o.link.flushTasks) (hreceived : o.link.infoReceived = s.infoReceived)
    (hconnected : o.link.connected = s.connected) : o.flushPending.Agrees where
  holds := by
    rw [link_flushPending, houtbound, hqueued]
    exact h.flushPending hreceived hconnected
  tasks := by
    rw [link_flushPending, flushTasks_flushPending]
    exact htasks
  pending := by
    intro hon hne
    rw [link_flushPending] at hon hne
    rw [hconnected] at hon
    rw [houtbound] at hne
    -- an empty buffer is left alone, and any other is drained
    refine absurd ?_ hne
    rw [Link.flushPending, hinfo hon, hon]
    by_cases hout : s.outbound = []
    · split
      · split
        · rfl
        · exact hout
      · exact hout
    · have hsize : s.size ≠ 0 := by
        have hbytes : o.outbound.size = s.size := h.size
        rw [← hbytes]
        exact h.size_ne_zero hout
      rw [if_pos hsize]
      rfl

/-- A command with its bytes. -/
theorem Agrees.sendCommand (h : o.Agrees) (hinv : o.link.Inv) {c : Command} {cmd : String}
    {payloads : List Bytes} (hbytes : c.bytes = encode cmd ++ payloads.flatten)
    (hvisible : c.bytes ≠ []) :
    ({ o with link := o.link.sendCommand c }.sendCommand cmd payloads).Agrees := by
  have hfill := h.holds.fill (f := .command c) hbytes hvisible
  rw [Output.sendCommand, Link.sendCommand]
  by_cases hlength : o.outbound.length = 0
  · rw [if_pos hlength, if_pos (h.holds.isEmpty.1 hlength)]
    exact ⟨hfill, congrArg Nat.succ h.tasks, fun _ _ => Nat.succ_pos _⟩
  · have hout : o.link.outbound ≠ [] := fun hnil => hlength (h.holds.isEmpty.2 hnil)
    have hsize : (o.outbound.fill (encode cmd) payloads).size = (o.link.fill (.command c)).size :=
      hfill.size
    rw [if_neg hlength, if_neg hout]
    by_cases hlimit : (o.link.fill (.command c)).pendingLimit ≤ (o.link.fill (.command c)).size
    · rw [if_pos hlimit, if_pos (by rw [hsize, Link.pendingLimit_flushPending]; exact hlimit)]
      apply agrees_flushPending (s := o.link.fill (.command c)) hfill hinv.paired.info_of_connected
        rfl rfl
      · rw [Link.flushTasks_flushPending]
        exact h.tasks
      · exact Link.infoReceived_flushPending _
      · exact Link.connected_flushPending _
    · rw [if_neg hlimit, if_neg (by rw [hsize]; exact hlimit)]
      exact ⟨hfill, h.tasks, fun hon _ => h.pending hon hout⟩

/-- A PING with its bytes; `link` may have other heartbeats. -/
theorem Agrees.flush (h : o.Agrees) (hinv : o.link.Inv) {link : Link}
    (hlink : link.kept = o.link.flush.kept) (hinfo : link.infoReceived = o.link.infoReceived) :
    { o with link := link }.flush.Agrees := by
  have hfill : Holds (o.outbound.fill (encode "PING\r\n") []) o.written
      (o.link.outbound ++ [.ping o.link.deferreds.created])
      (o.link.queued ++ [.ping o.link.deferreds.created]) :=
    h.holds.fill (List.append_nil _).symm (encode_ne_nil (by decide))
  simp only [Link.kept, Prod.mk.injEq] at hlink
  obtain ⟨houtbound, hqueued, htasks, hconnected⟩ := hlink
  refine agrees_flushPending (s := ({ o.link with
    deferreds := o.link.deferreds.create
    pongs := o.link.pongs ++ [o.link.deferreds.created] } : Link).fill
      (.ping o.link.deferreds.created)) hfill hinv.paired.info_of_connected houtbound hqueued
    ?_ hinfo ?_
  · exact h.tasks.trans (o.link.flushTasks_flush.symm.trans htasks.symm)
  · exact hconnected.trans o.link.connected_flush

/-- The end of a dial: the connection is up, and its INFO was received. -/
theorem Agrees.dialDone (h : o.Agrees) (subs : List Command)
    (hinfo : o.link.infoReceived = true) :
    (({ o with link := o.link.dialDone subs }.sendSubscriptions subs).flushPending).Agrees := by
  have hlink : ({ o with link := o.link.dialDone subs }.sendSubscriptions subs).link =
      o.link.dialDone subs := by
    rw [sendSubscriptions]
    split <;> rfl
  have htasks : ({ o with link := o.link.dialDone subs }.sendSubscriptions subs).flushTasks =
      o.flushTasks := by
    rw [sendSubscriptions]
    split <;> rfl
  apply agrees_flushPending (s := ({ o.link with
    connected := true
    connectError := false
    loop := .idle } : Link).send (subs.map .command))
  · rw [sendSubscriptions]
    split
    · exact h.holds
    · have hbytes : subs.flatMap Command.bytes = (subs.map Frame.command).flatMap Frame.bytes := by
        rw [List.flatMap_map]
        rfl
      rw [hbytes]
      exact h.holds.send _
  · intro _
    exact hinfo
  · rw [hlink]
    rfl
  · rw [hlink]
    rfl
  · rw [hlink, htasks, h.tasks, Link.flushTasks_dialDone]
  · rw [hlink]
    exact Link.infoReceived_dialDone ..
  · rw [hlink]
    exact Link.connected_dialDone ..

/-- **One event of the link.** -/
theorem agrees_effect (h : o.Agrees) (hinv : o.link.Inv) {link : Link} {e : Link.Event}
    (hpub : ∀ proto payload, e ≠ .command (.pub proto payload))
    (hstep : o.link.step e = some link) : (o.effect link e).Agrees := by
  have hinv' : link.Inv := Link.inv_step hinv hstep
  cases Link.step_of_eq hstep with
  | command c =>
      cases c with
      | sub subject queue sid =>
          apply h.sendCommand hinv (List.append_nil _).symm
          exact encode_ne_nil (Command.line_pos fun _ _ hpub => by cases hpub)
      | unsub sid max =>
          apply h.sendCommand hinv (List.append_nil _).symm
          exact encode_ne_nil (Command.line_pos fun _ _ hpub => by cases hpub)
      | pub proto payload => exact absurd rfl (hpub proto payload)
  | flush => exact h.flush hinv rfl (Link.infoReceived_flush _)
  | flushTask =>
      refine agrees_flushPending h.holds hinv.paired.info_of_connected rfl rfl ?_ ?_ ?_
      · rw [h.tasks]
      · exact Link.infoReceived_flushPending _
      · exact Link.connected_flushPending _
  | heartbeatTimer =>
      rw [effect, Link.heartbeatTimer]
      split
      · exact h.kept rfl
      · exact h.flush hinv rfl (Link.infoReceived_flush _)
  | heartbeatThen ping outcome => exact h.kept (o.link.kept_heartbeatThen ping outcome)
  | prepare => exact ⟨holds_empty, h.tasks, fun _ hne => absurd rfl hne⟩
  | info options hsome =>
      cases options with
      | none =>
          apply h.kept
          rw [Link.processInfo]
          split
          · rfl
          · exact Link.kept_close _
      | some options =>
          obtain ⟨pong, hpong⟩ := Option.isSome_iff_exists.1 hsome
          have hkept : { o with link := o.link.processInfo (some options) }.Agrees := by
            apply h.kept
            rw [Link.processInfo]
            split <;> rfl
          -- CONNECT and PING are sent past the buffer, at the first INFO only
          rw [effect]
          split
          · exact hkept
          · exact (hkept.send [.connect options] (List.append_nil _).symm).send [.ping pong]
              (List.append_nil _).symm
  | ping =>
      have hkept : { o with link := o.link.processPing }.Agrees := h.kept rfl
      exact hkept.send [.pong] (List.append_nil _).symm
  | pong => exact h.kept o.link.kept_processPong
  | dialDone subs =>
      apply h.dialDone
      -- the connection is up behind the dial
      have hinfo := hinv'.paired.info_of_connected (Link.connected_dialDone ..)
      rwa [Link.infoReceived_dialDone] at hinfo
  | dialFailed connectFailed => exact h.kept (o.link.kept_dialFailed connectFailed)
  | disconnect => exact h.kept rfl
  | closedNotification reconnect =>
      have hoff : { o with link := { o.link with
          connected := false
          transport := { o.link.transport with notifies := false } } }.Agrees :=
        h.congr rfl rfl rfl fun hon => by cases hon
      apply hoff.kept
      rw [Link.closedNotification]
      split
      · rfl
      · split
        · rfl
        · exact Link.kept_close _
  | giveUp => exact h.kept (Link.kept_close _)
  | close => exact h.kept o.link.kept_close

/-- The invariant of every run. -/
structure Inv (o : Output) : Prop where
  link : o.link.Inv
  agrees : o.Agrees

@[simp] theorem link_sendCommand (o : Output) (cmd : String) (payloads : List Bytes) :
    (o.sendCommand cmd payloads).link = o.link := by
  rw [sendCommand]
  split
  · rfl
  · split
    · exact link_flushPending _
    · rfl

@[simp] theorem link_effect (o : Output) (link : Link) (e : Link.Event) :
    (o.effect link e).link = link := by
  cases e with
  | command c => exact link_sendCommand _ _ _
  | flush => exact link_flushPending _
  | flushTask => exact link_flushPending _
  | heartbeatTimer =>
      rw [effect]
      split
      · rfl
      · exact link_flushPending _
  | info options =>
      cases options with
      | none => rfl
      | some options =>
          rw [effect]
          split <;> rfl
  | dialDone subs =>
      rw [effect, link_flushPending, sendSubscriptions]
      split <;> rfl
  | heartbeatThen | prepare | ping | pong | dialFailed | disconnect | closedNotification | giveUp
  | close => rfl

/-- **One event.** -/
theorem inv_step {e : Event} (h : o.Inv) (hstep : o.step e = some o') : o'.Inv := by
  cases e with
  | publish info subject payload options =>
      cases hpublish : publish info subject payload options with
      | error err =>
          simp only [step, hpublish, Option.some.injEq] at hstep
          exact hstep ▸ h
      | ok sent =>
          obtain ⟨proto, payloads⟩ := sent
          simp only [step, hpublish, Link.step, Option.map_some, Option.some.injEq] at hstep
          subst hstep
          constructor
          · rw [link_sendCommand]
            exact Link.inv_step (e := .command (.pub proto payloads.flatten)) h.link rfl
          · apply h.agrees.sendCommand h.link rfl
            intro hnil
            have hproto : encode proto = [] := (List.append_eq_nil_iff.1 hnil).1
            exact encode_ne_nil (publish_line_pos hpublish) hproto
  | link e =>
      have hsome : ∃ link, o.link.step e = some link ∧ o' = o.effect link e ∧
          ∀ proto payload, e ≠ .command (.pub proto payload) := by
        unfold step at hstep
        split at hstep
        · next heq => cases heq
        · cases hstep
        · next hpub heq =>
            cases heq
            obtain ⟨link, hlink, rfl⟩ := Option.map_eq_some_iff.1 hstep
            exact ⟨link, hlink, rfl, fun proto payload he => hpub proto payload (by rw [he])⟩
      obtain ⟨link, hlink, rfl, hpub⟩ := hsome
      constructor
      · rw [link_effect]
        exact Link.inv_step h.link hlink
      · exact agrees_effect h.agrees h.link hpub hlink

/-- **No output is stranded or reordered**, in every run. While the connection is up, a buffer that
is not empty has a microtask pending that will write all of it. Since the last reset every write was
made of whole frames; the writes of the buffer are, in order, the frames queued, and what it still
holds are the bytes of the rest. -/
theorem output_ordered (pendingLimit maxOut : Nat) (es : List Event)
    (hrun : run step (new pendingLimit maxOut) es = some o) :
    (o.link.connected = true → o.link.infoReceived = true → o.outbound.length ≠ 0 →
      0 < o.flushTasks ∧ ∃ o', o.step (.link .flushTask) = some o' ∧ o'.outbound.length = 0 ∧
        o'.written = o.written ++ [⟨true, o.outbound.contents⟩]) ∧
    ∃ (batches : List (Bool × List Frame)) (rest : List Frame),
      o.written = batches.map (fun b => ⟨b.1, b.2.flatMap Frame.bytes⟩) ∧
      o.link.queued = (batches.filter Prod.fst).flatMap Prod.snd ++ rest ∧
      o.outbound.contents = rest.flatMap Frame.bytes := by
  have hinv : o.Inv := invariant_run (fun _ _ _ h hstep => inv_step h hstep) hrun
    ⟨Link.inv_new _ _, agrees_new _ _⟩
  constructor
  · intro hon hinfo hlength
    have hout : o.link.outbound ≠ [] := fun hnil => hlength (hinv.agrees.holds.isEmpty.2 hnil)
    have htasks : 0 < o.link.flushTasks := hinv.agrees.pending hon hout
    refine ⟨by rw [hinv.agrees.tasks]; exact htasks, ?_⟩
    have hstep : o.step (.link .flushTask) =
        some (o.effect { o.link.flushPending with flushTasks := o.link.flushTasks - 1 }
          .flushTask) := by
      simp only [step, Link.step, if_pos htasks, Option.map_some]
    refine ⟨_, hstep, ?_⟩
    obtain ⟨t, outbound, heq⟩ := Link.flushPending_eq o.link
    simp only [effect, flushPending, heq, hon, hinfo, Bool.and_self, if_true]
    rw [if_pos (hinv.agrees.holds.size_ne_zero hout)]
    exact ⟨o.outbound.drain_all.2, by rw [o.outbound.drain_all.1]⟩
  · obtain ⟨batches, hwritten, hqueued⟩ := hinv.agrees.holds.writes
    exact ⟨batches, o.link.outbound, hwritten, hqueued, hinv.agrees.holds.contents⟩

/-- A publish and a flush wait for the handshake; a SUB behind it waits for its microtask. -/
theorem output_ordered_handshake :
    ∃ o, run step (new 32768 2)
        [.link .prepare, .publish none "a" (.bytes [104]) ⟨"", none⟩, .link .flush,
          .link .flushTask, .link (.info (some "\x7b\x7d")), .link .pong, .link (.dialDone []),
          .link (.command (.sub "b" none 1))] = some o ∧
      (o.outbound.length ≠ 0 → 0 < o.flushTasks) ∧
      ∃ (batches : List (Bool × List Frame)) (rest : List Frame),
        o.written = batches.map (fun b => ⟨b.1, b.2.flatMap Frame.bytes⟩) ∧
        o.link.queued = (batches.filter Prod.fst).flatMap Prod.snd ++ rest ∧
        o.outbound.contents = rest.flatMap Frame.bytes := by
  have h := output_ordered 32768 2
    [.link .prepare, .publish none "a" (.bytes [104]) ⟨"", none⟩, .link .flush, .link .flushTask,
      .link (.info (some "\x7b\x7d")), .link .pong, .link (.dialDone []),
      .link (.command (.sub "b" none 1))] rfl
  exact ⟨_, rfl, fun hlength => (h.1 rfl rfl hlength).1, h.2⟩

end Output

end NatsClient.Connection
