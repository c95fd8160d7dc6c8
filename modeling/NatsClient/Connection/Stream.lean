import NatsClient.Connection.Promises
import NatsClient.Connection.Session

/-!
# What is on its way to the server

The frames that the server has not read yet: those the transport took and those in the outbound
buffer, in this order (`stream`), and the commands for a sid among them (`pendingFrom`). While the
link is tracked, which it is during a handshake and while a transport that is not done is connected,
nothing of it is lost: every step adds its frames at the end (`Queues`). Only CONNECT, PONGs and the
PING of the handshake pass the buffer.

* `queues_step`: the steps of the link that are not calls add at most the PING of a heartbeat;
* `queues_sendCommand`, `queues_flush`: what the calls add.
-/

set_option autoImplicit false

namespace NatsClient.Connection

open NatsClient.Foundation

/-- A command for one sid. -/
inductive SidCommand where
  | sub (subject : String) (queue : Option String)
  | unsub (max : Option Nat)
deriving DecidableEq, Repr

/-- The command for the sid in a frame. -/
def onSid (sid : Nat) : Frame → Option SidCommand
  | .command (.sub subject queue n) => if n = sid then some (.sub subject queue) else none
  | .command (.unsub n max) => if n = sid then some (.unsub max) else none
  | .command (.pub _ _) | .connect _ | .ping _ | .pong => none

namespace Link

variable {l l' l'' : Link} {xs ys : List Frame}

/-- The frames behind the first `n` of the transport. -/
def stream (l : Link) (n : Nat) : List Frame := l.transport.sent.drop n ++ l.outbound

/-- The commands for the sid behind the first `n` frames of the transport. -/
def pendingFrom (l : Link) (n sid : Nat) : List SidCommand := (l.stream n).filterMap (onSid sid)

/-- The handshake runs, or the connection is up with a transport that takes frames. -/
structure Tracked (l : Link) : Prop where
  not_closed : l.closed = false
  takes : l.connected = true → l.transport.done = false
  runs : l.connected = true ∨ l.loop = .dialing

/-- The predicate picks frames that go through the buffer. -/
structure Buffered (l : Link) (p : Frame → Bool) : Prop where
  connect : ∀ options, p (.connect options) = false
  pong : p .pong = false
  handshake : ∀ d, l.handshake = some d → p (.ping d) = false

/-- The frames `xs` are queued behind what is on its way; nothing is lost. -/
structure Queues (l l' : Link) (xs : List Frame) : Prop where
  tracked : l'.Tracked → l.Tracked ∧ l'.connected = l.connected
  sent : l.transport.sent <+: l'.transport.sent
  handshake : l'.handshake = l.handshake
  stream : l'.Tracked → ∀ n ≤ l.transport.sent.length, ∀ p, l.Buffered p →
    (l'.stream n).filter p = (l.stream n).filter p ++ xs.filter p
  /-- Before the connection is up nothing of the buffer is sent. -/
  kept : l'.Tracked → l'.connected = false → ∀ p, l.Buffered p →
    l'.transport.sent.filter p = l.transport.sent.filter p

theorem Queues.trans (h : Queues l l' xs) (h' : Queues l' l'' ys) : Queues l l'' (xs ++ ys) := by
  have hbuffered : ∀ {p}, l.Buffered p → l'.Buffered p := fun hp =>
    ⟨hp.connect, hp.pong, fun d hd => hp.handshake d (h.handshake ▸ hd)⟩
  refine ⟨fun ht => ?_, h.sent.trans h'.sent, h'.handshake.trans h.handshake,
    fun ht n hn p hp => ?_, fun ht hdown p hp => ?_⟩
  · obtain ⟨ht', hconnected'⟩ := h'.tracked ht
    obtain ⟨ht'', hconnected⟩ := h.tracked ht'
    exact ⟨ht'', hconnected'.trans hconnected⟩
  · rw [h'.stream ht n (Nat.le_trans hn h.sent.length_le) p (hbuffered hp),
      h.stream (h'.tracked ht).1 n hn p hp, List.filter_append, List.append_assoc]
  · obtain ⟨ht', hconnected⟩ := h'.tracked ht
    rw [h'.kept ht hdown p (hbuffered hp), h.kept ht' (hconnected.symm.trans hdown) p hp]

/-- Nothing is queued in the second part. -/
theorem Queues.then (h : Queues l l' xs) (h' : Queues l' l'' []) : Queues l l'' xs := by
  have htrans := h.trans h'
  rwa [List.append_nil] at htrans

/-- The commands for a sid go through the buffer. -/
theorem buffered_onSid (l : Link) (sid : Nat) : l.Buffered fun f => (onSid sid f).isSome :=
  ⟨fun _ => rfl, rfl, fun _ _ => rfl⟩

theorem filterMap_onSid (xs : List Frame) (sid : Nat) :
    xs.filterMap (onSid sid) =
      (xs.filter fun f => (onSid sid f).isSome).filterMap (onSid sid) := by
  rw [List.filterMap_filter]
  refine congrArg (xs.filterMap ·) (funext fun f => ?_)
  cases onSid sid f <;> rfl

/-- The commands for a sid. -/
theorem Queues.pending (h : Queues l l' xs) (ht : l'.Tracked) (n : Nat)
    (hn : n ≤ l.transport.sent.length) (sid : Nat) :
    l'.pendingFrom n sid = l.pendingFrom n sid ++ xs.filterMap (onSid sid) := by
  rw [pendingFrom, pendingFrom, filterMap_onSid, h.stream ht n hn _ (buffered_onSid l sid),
    List.filterMap_append, ← filterMap_onSid, ← filterMap_onSid]

/-- Before the connection is up no command is sent. -/
theorem Queues.held (h : Queues l l' xs) (ht : l'.Tracked) (hdown : l'.connected = false)
    (sid : Nat) :
    l'.transport.sent.filterMap (onSid sid) = l.transport.sent.filterMap (onSid sid) := by
  rw [filterMap_onSid, h.kept ht hdown _ (buffered_onSid l sid), ← filterMap_onSid]

/-- What `Queues` is about. -/
def wire (l : Link) := (l.transport, l.outbound, l.closed, l.connected, l.loop, l.handshake)

theorem queues_of_wire (h : l'.wire = l.wire) : Queues l l' [] := by
  simp only [wire, Prod.mk.injEq] at h
  obtain ⟨htransport, houtbound, hclosed, hconnected, hloop, hhandshake⟩ := h
  refine ⟨fun ht => ?_, ?_, hhandshake, fun _ n _ p _ => ?_, fun _ _ p _ => ?_⟩
  · obtain ⟨h₁, h₂, h₃⟩ := ht
    rw [hclosed] at h₁
    rw [hconnected, htransport] at h₂
    rw [hconnected, hloop] at h₃
    exact ⟨⟨h₁, h₂, h₃⟩, hconnected⟩
  · simp only [htransport, List.prefix_rfl]
  · rw [Link.stream, Link.stream, htransport, houtbound, List.filter_nil, List.append_nil]
  · rw [htransport]

theorem Queues.refl (l : Link) : Queues l l [] := queues_of_wire rfl

/-- A link that is lost track of. -/
theorem queues_of_untracked (hsent : l.transport.sent <+: l'.transport.sent)
    (hhandshake : l'.handshake = l.handshake) (h : ¬ l'.Tracked) (xs : List Frame) :
    Queues l l' xs :=
  ⟨fun ht => absurd ht h, hsent, hhandshake, fun ht => absurd ht h, fun ht => absurd ht h⟩

/-- Frames are sent past the buffer. -/
theorem queues_send (l : Link) (hxs : ∀ p, l.Buffered p → xs.filter p = []) :
    Queues l (l.send xs) [] := by
  by_cases hd : l.transport.done = true
  · have hsame : l.send xs = l := by rw [Link.send, Transport.send_of_done hd]
    rw [hsame]
    exact .refl l
  · have hsent : (l.send xs).transport = { l.transport with sent := l.transport.sent ++ xs } :=
      Transport.send_of_open hd xs
    refine ⟨fun ht => ⟨?_, rfl⟩, ?_, rfl, fun _ n hn p hp => ?_, fun _ _ p hp => ?_⟩
    · obtain ⟨h₁, h₂, h₃⟩ := ht
      rw [hsent] at h₂
      exact ⟨h₁, h₂, h₃⟩
    · rw [hsent]
      exact List.prefix_append _ _
    · rw [Link.stream, Link.stream, hsent]
      simp only [List.drop_append_of_le_length hn, List.filter_append, hxs p hp, List.append_nil,
        List.filter_nil]
      rfl
    · rw [hsent, List.filter_append, hxs p hp, List.append_nil]

theorem queues_flushPending (l : Link) : Queues l l.flushPending [] := by
  unfold Link.flushPending
  by_cases hready : (l.infoReceived && l.connected) = true
  · rw [if_pos hready]
    by_cases hsize : l.size ≠ 0
    · rw [if_pos hsize]
      have hon : l.connected = true := (Bool.and_eq_true_iff.1 hready).2
      by_cases hd : l.transport.done = true
      · refine queues_of_untracked (prefix_sent_send _ _) (by rfl) (fun ht => ?_) []
        have hopen : (l.transport.send l.outbound).done = false := ht.takes hon
        rw [Transport.done_send, hd] at hopen
        cases hopen
      · have hsent : (l.send l.outbound).transport =
            { l.transport with sent := l.transport.sent ++ l.outbound } :=
          Transport.send_of_open hd _
        refine ⟨fun ht => ⟨?_, rfl⟩, ?_, rfl, fun _ n hn p _ => ?_, fun _ hdown => ?_⟩
        · obtain ⟨h₁, h₂, h₃⟩ := ht
          simp only [hsent] at h₂
          exact ⟨h₁, h₂, h₃⟩
        · rw [hsent]
          exact List.prefix_append _ _
        · rw [Link.stream, Link.stream, hsent]
          simp only [List.drop_append_of_le_length hn, List.append_nil, List.filter_nil]
        · have hoff : l.connected = false := hdown
          rw [hon] at hoff
          cases hoff
    · rw [if_neg hsize]
      exact .refl l
  · rw [if_neg hready]
    exact .refl l

/-- A frame goes to the end of the buffer, whatever else becomes of deferreds. -/
theorem queues_fill {f : Frame} (htransport : l'.transport = l.transport)
    (houtbound : l'.outbound = l.outbound ++ [f]) (hclosed : l'.closed = l.closed)
    (hconnected : l'.connected = l.connected) (hloop : l'.loop = l.loop)
    (hhandshake : l'.handshake = l.handshake) : Queues l l' [f] := by
  refine ⟨fun ht => ⟨⟨?_, ?_, ?_⟩, hconnected⟩, ?_, hhandshake, fun _ n _ p _ => ?_,
    fun _ _ p _ => ?_⟩
  · rw [← hclosed]
    exact ht.not_closed
  · rw [← hconnected, ← htransport]
    exact ht.takes
  · rw [← hconnected, ← hloop]
    exact ht.runs
  · simp only [htransport, List.prefix_rfl]
  · rw [Link.stream, Link.stream, htransport, houtbound, ← List.append_assoc, List.filter_append]
  · rw [htransport]

/-- The command is behind what was on its way. -/
theorem queues_sendCommand (l : Link) (c : Command) :
    Queues l (l.sendCommand c) [.command c] := by
  have hfill : Queues l (l.fill (.command c)) [.command c] := queues_fill rfl rfl rfl rfl rfl rfl
  unfold Link.sendCommand
  by_cases hfirst : l.outbound = []
  · simp only [if_pos hfirst]
    exact hfill.then (queues_of_wire rfl)
  · simp only [if_neg hfirst]
    by_cases hlimit : (l.fill (.command c)).pendingLimit ≤ (l.fill (.command c)).size
    · simp only [if_pos hlimit]
      exact hfill.then (queues_flushPending _)
    · simp only [if_neg hlimit]
      exact hfill

theorem queues_flush (l : Link) : Queues l l.flush [.ping l.deferreds.created] := by
  apply Queues.then ?_ (queues_flushPending _)
  exact queues_fill rfl rfl rfl rfl rfl rfl

/-- A connection that is closed is lost track of; during a handshake nothing was sent through the
buffer. -/
theorem queues_closeTransport (l : Link) (isInternal : Bool) :
    Queues l { l with transport := l.transport.close isInternal } [] := by
  refine ⟨fun ht => ⟨⟨ht.not_closed, fun hon => ?_, ht.runs⟩, rfl⟩, prefix_sent_close _ _, rfl,
    fun _ n _ p _ => ?_, fun _ _ p _ => ?_⟩
  · have hdone := ht.takes hon
    rw [Transport.done_close] at hdone
    cases hdone
  · simp only [Link.stream, Transport.sent_close, List.filter_nil, List.append_nil]
  · simp only [Transport.sent_close]

/-- The heartbeat timer flushes, or gives the connection up. -/
theorem queues_heartbeatTimer (l : Link) :
    ∃ xs, Queues l l.heartbeatTimer xs ∧ ∀ f ∈ xs, f = .ping l.deferreds.created := by
  unfold Link.heartbeatTimer
  by_cases hstale : l.heartbeats.pendings.length = l.heartbeats.maxOut
  · rw [if_pos hstale]
    have hcancel : Queues l l.heartbeatCancel [] := queues_of_wire rfl
    exact ⟨[], hcancel.then (queues_closeTransport _ true), fun f hf => (by cases hf)⟩
  · rw [if_neg hstale]
    exact ⟨_, (queues_flush l).then (queues_of_wire rfl), fun f hf => List.mem_singleton.1 hf⟩

/-- A closed connection is not tracked. -/
theorem queues_close (l : Link) : Queues l l.close [] := by
  have hevolves := evolves_close l
  unfold Link.close at hevolves ⊢
  by_cases hclosed : l.closed = true
  · rw [if_pos hclosed]
    exact .refl l
  · rw [if_neg hclosed] at hevolves ⊢
    refine queues_of_untracked hevolves.sent hevolves.handshake (fun ht => ?_) []
    have hopen := ht.not_closed
    cases hopen

theorem queues_processInfo (l : Link) (options : Option String) :
    Queues l (l.processInfo options) [] := by
  have hinfo : Queues l { l with infoReceived := true } [] := queues_of_wire rfl
  unfold Link.processInfo
  by_cases hfirst : l.infoReceived = true
  · rw [if_pos hfirst]
    exact .refl l
  · rw [if_neg hfirst]
    cases options with
    | none => exact hinfo.then (queues_close _)
    | some options =>
        refine hinfo.then (queues_send _ fun p hp => ?_)
        rw [List.filter_eq_nil_iff]
        intro f hf
        rcases List.mem_cons.1 hf with rfl | hf
        · rw [hp.connect]
          exact Bool.false_ne_true
        · obtain ⟨d, hd, rfl⟩ := List.mem_map.1 hf
          rw [hp.handshake d (Option.mem_toList.1 hd)]
          exact Bool.false_ne_true

theorem queues_processPing (l : Link) : Queues l l.processPing [] := by
  refine queues_send l fun p hp => ?_
  rw [List.filter_cons_of_neg (by rw [hp.pong]; exact Bool.false_ne_true)]
  rfl

theorem queues_processPong (l : Link) : Queues l l.processPong [] := by
  unfold Link.processPong
  cases l.pongs <;> exact queues_of_wire rfl

theorem queues_dialFailed (l : Link) (connectFailed : Bool) :
    Queues l (l.dialFailed connectFailed) [] := by
  have hend : ∀ l : Link, Queues l
      { l with transport := l.transport.close false, loop := .between } [] := by
    intro l
    refine queues_of_untracked (prefix_sent_close _ _) (by rfl) (fun ht => ?_) []
    rcases ht.runs with hon | hloop
    · have hdone := ht.takes hon
      rw [Transport.done_close] at hdone
      cases hdone
    · cases hloop
  unfold Link.dialFailed
  cases l.handshake with
  | none => exact hend l
  | some pong =>
      by_cases hfailed : connectFailed = true
      · simp only [if_pos hfailed]
        have hsettle : Queues l (l.settle pong .rejected) [] := queues_of_wire rfl
        exact hsettle.trans (hend _)
      · simp only [if_neg hfailed]
        exact hend l

theorem queues_closedNotification (hc : l.Controlled) (reconnect : Bool) :
    Queues l (l.closedNotification reconnect) [] := by
  -- a dial that runs keeps running
  have hoff : ∀ loop, (loop = .dialing → l.loop = .dialing) → Queues l
      { l with
        connected := false
        transport := { l.transport with notifies := false }
        loop := loop } [] := by
    intro loop hloop
    have hdown : ∀ {l' : Link}, l'.connected = false → l'.loop = loop → l'.Tracked →
        l.loop = .dialing ∧ l.connected = false := by
      intro l' hconnected hsame ht
      rcases ht.runs with hon | hdialing
      · rw [hconnected] at hon
        cases hon
      · have hrun := hloop (hsame.symm.trans hdialing)
        refine ⟨hrun, hc.off ?_⟩
        rw [hrun]
        decide
    refine ⟨fun ht => ?_, List.prefix_rfl, rfl, fun _ n _ p _ => (List.append_nil _).symm,
      fun _ _ _ _ => rfl⟩
    obtain ⟨hrun, hconnected⟩ := hdown rfl rfl ht
    refine ⟨⟨ht.not_closed, fun hon => ?_, Or.inr hrun⟩, hconnected.symm⟩
    rw [hconnected] at hon
    cases hon
  unfold Link.closedNotification
  by_cases hclosed : l.closed = true
  · simp only [if_pos hclosed]
    exact hoff l.loop id
  · simp only [if_neg hclosed]
    by_cases hagain : reconnect = true
    · simp only [if_pos hagain]
      apply hoff
      by_cases hidle : l.loop = .idle
      · rw [if_pos hidle]
        intro h
        cases h
      · rw [if_neg hidle]
        exact id
    · simp only [if_neg hagain]
      exact (hoff l.loop id).then (queues_close _)

theorem queues_giveUp (l : Link) : Queues l l.giveUp [] := by
  refine queues_of_untracked (evolves_giveUp l).sent (evolves_giveUp l).handshake (fun ht => ?_) []
  have hopen := ht.not_closed
  unfold Link.giveUp Link.close at hopen
  by_cases hclosed : l.closed = true
  · rw [if_pos hclosed] at hopen
    rw [show l.closed = false from hopen] at hclosed
    cases hclosed
  · rw [if_neg hclosed] at hopen
    cases hopen

/-- **The steps of the link that are not calls** add no commands. -/
theorem queues_step {e : Event} (hc : l.Controlled) (he : ProtocolHandler.isInternal e = true)
    (hprepare : e ≠ .prepare) (hstep : l.step e = some l') :
    ∃ xs, Queues l l' xs ∧ ∀ f ∈ xs, f = .ping l.deferreds.created := by
  have hnone : ∀ {l' : Link}, Queues l l' [] →
      ∃ xs, Queues l l' xs ∧ ∀ f ∈ xs, f = .ping l.deferreds.created :=
    fun hq => ⟨[], hq, fun f hf => (by cases hf)⟩
  cases step_of_eq hstep with
  | command | flush | dialDone | close => cases he
  | prepare => exact absurd rfl hprepare
  | flushTask => exact hnone ((queues_flushPending l).then (queues_of_wire rfl))
  -- only the heartbeat sends a PING of its own
  | heartbeatTimer => exact queues_heartbeatTimer l
  | heartbeatThen ping o => cases o <;> exact hnone (queues_of_wire rfl)
  | info options => exact hnone (queues_processInfo l options)
  | ping => exact hnone (queues_processPing l)
  | pong => exact hnone (queues_processPong l)
  | dialFailed connectFailed => exact hnone (queues_dialFailed l connectFailed)
  | disconnect => exact hnone (queues_closeTransport l true)
  | closedNotification reconnect => exact hnone (queues_closedNotification hc reconnect)
  | giveUp => exact hnone (queues_giveUp l)

end Link

end NatsClient.Connection
