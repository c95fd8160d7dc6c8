import NatsClient.Connection.Link

/-!
# The deferreds of the link

What the steps of the link do to its deferreds. `Evolves` is what every step other than `prepare`
and a PONG can do (`evolves_step`); it is reflexive and transitive, so each function of the link has
its lemma, composed from those of the functions it calls. `Owned` says who holds the deferreds that
are not settled.

* `owned_step`: every deferred that is not settled stays in `pongs`;
* `abandoned_prepare`, `abandoned_step`: a deferred that is not settled in front of a dial is
  rejected for good, and no PONG is matched with it;
* `awaited_flush`, `awaited_step`: while a flush is not settled, what was queued in front of it
  stays queued in front of it, on the same connection.
-/

set_option autoImplicit false

namespace NatsClient.Connection

open NatsClient.Foundation

@[simp] theorem pings_append (xs ys : List Frame) : pings (xs ++ ys) = pings xs ++ pings ys := by
  induction xs with
  | nil => rfl
  | cons x xs ih => cases x <;> simp only [List.cons_append, pings, ih]

@[simp] theorem pings_commands (cs : List Command) : pings (cs.map .command) = [] := by
  induction cs with
  | nil => rfl
  | cons c cs ih => simpa only [List.map_cons, pings] using ih

theorem mem_pings {d : Nat} {frames : List Frame} : d ∈ pings frames ↔ Frame.ping d ∈ frames := by
  induction frames with
  | nil => simp [pings]
  | cons f frames ih => cases f <;> simp [pings, ih]

namespace Link

variable {s s' s'' : Link}

/-! ## What the steps do to the deferreds -/

/-- The dial loop runs only while the connection is down, and a dial starts behind a transport that
is done. -/
structure Controlled (s : Link) : Prop where
  off : s.loop ≠ .idle → s.connected = false
  between_done : s.loop = .between → s.transport.done = true
  notifies_done : s.transport.notifies = true → s.transport.done = true

/-- The dial loop is where it was, and the transport takes frames or is closed. -/
theorem Controlled.congr (h : s.Controlled) (hloop : s'.loop = s.loop)
    (hconnected : s'.connected = s.connected)
    (hdone : s.transport.done = true → s'.transport.done = true)
    (hnotifies : s'.transport.notifies = true → s'.transport.done = true) : s'.Controlled where
  off hne := by
    rw [hconnected]
    exact h.off (hloop ▸ hne)
  between_done hbetween := hdone (h.between_done (hloop ▸ hbetween))
  notifies_done := hnotifies

/-- The transport is closed. -/
theorem Controlled.closed {isInternal : Bool} (h : s.Controlled) (hloop : s'.loop = s.loop)
    (hconnected : s'.connected = s.connected)
    (htransport : s'.transport = s.transport.close isInternal) : s'.Controlled := by
  have hdone : s'.transport.done = true := by
    rw [htransport]
    exact Transport.done_close _ _
  exact h.congr hloop hconnected (fun _ => hdone) fun _ => hdone

theorem Controlled.sent {frames : List Frame} (h : s.Controlled) (hloop : s'.loop = s.loop)
    (hconnected : s'.connected = s.connected)
    (htransport : s'.transport = s.transport.send frames) : s'.Controlled := by
  refine h.congr hloop hconnected ?_ ?_
  · rw [htransport, Transport.done_send]
    exact id
  · rw [htransport, Transport.done_send, Transport.notifies_send]
    exact h.notifies_done

/-- What every step other than `prepare` and a PONG can do: it creates deferreds, which go to the
end of `pongs`, it queues frames, and it settles deferreds, of which only those of heartbeats are
resolved. -/
structure Evolves (s s' : Link) : Prop where
  created : s.deferreds.created ≤ s'.deferreds.created
  settled : ∀ d o, s.outcome d = some o → s'.outcome d = some o
  resolved : ∀ d, s.outcome d = none → s'.outcome d = some .resolved →
    d ∈ s.heartbeats.pendings ∨ s.deferreds.created ≤ d
  pongs : ∃ new, s'.pongs = s.pongs ++ new ∧
    ∀ d, d ∈ new ↔ s.deferreds.created ≤ d ∧ d < s'.deferreds.created
  queued : ∃ new, s'.queued = s.queued ++ new ∧
    ∀ d ∈ pings new, s.deferreds.created ≤ d ∧ d < s'.deferreds.created
  pendings : ∀ d ∈ s'.heartbeats.pendings,
    d ∈ s.heartbeats.pendings ∨ s.deferreds.created ≤ d ∧ d < s'.deferreds.created
  sent : s.transport.sent <+: s'.transport.sent
  handshake : s'.handshake = s.handshake
  matched : s'.matched = s.matched
  connection : s'.connection = s.connection
  controlled : s.Controlled → s'.Controlled

/-- No deferreds and no frames are added. -/
theorem evolves_of_eq (hcreated : s'.deferreds.created = s.deferreds.created)
    (hsettled : ∀ d o, s.outcome d = some o → s'.outcome d = some o)
    (hresolved : ∀ d, s.outcome d = none → s'.outcome d = some .resolved →
      d ∈ s.heartbeats.pendings)
    (hpongs : s'.pongs = s.pongs) (hqueued : s'.queued = s.queued)
    (hpendings : ∀ d ∈ s'.heartbeats.pendings, d ∈ s.heartbeats.pendings)
    (hsent : s.transport.sent <+: s'.transport.sent) (hhandshake : s'.handshake = s.handshake)
    (hmatched : s'.matched = s.matched) (hconnection : s'.connection = s.connection)
    (hcontrolled : s.Controlled → s'.Controlled) : Evolves s s' where
  created := Nat.le_of_eq hcreated.symm
  settled := hsettled
  resolved d hnone hres := Or.inl (hresolved d hnone hres)
  pongs := ⟨[], by rw [hpongs, List.append_nil], fun d => by
    simp only [List.not_mem_nil, false_iff, not_and, Nat.not_lt, hcreated, imp_self]⟩
  queued := ⟨[], by rw [hqueued, List.append_nil], fun d hd => by cases hd⟩
  pendings d hd := Or.inl (hpendings d hd)
  sent := hsent
  handshake := hhandshake
  matched := hmatched
  connection := hconnection
  controlled := hcontrolled

/-- What `Evolves` is about. -/
def core (s : Link) :=
  (s.deferreds, s.pongs, s.queued, s.heartbeats.pendings, s.transport, s.handshake, s.matched,
    s.connection, s.loop, s.connected)

/-- Nothing of that changes. -/
theorem evolves_of_core (h : s'.core = s.core) : Evolves s s' := by
  simp only [core, Prod.mk.injEq] at h
  obtain ⟨hdeferreds, hpongs, hqueued, hpendings, htransport, hhandshake, hmatched, hconnection,
    hloop, hconnected⟩ := h
  have houtcome : ∀ d, s'.outcome d = s.outcome d := by
    intro d
    rw [Link.outcome, Link.outcome, hdeferreds]
  refine evolves_of_eq (by rw [hdeferreds]) ?_ ?_ hpongs hqueued ?_ ?_ hhandshake hmatched
    hconnection ?_
  · intro d o hd
    rw [houtcome]
    exact hd
  · intro d hnone hres
    rw [houtcome, hnone] at hres
    cases hres
  · intro d hd
    rw [← hpendings]
    exact hd
  · simp only [htransport, List.prefix_rfl]
  · intro hs
    refine hs.congr hloop hconnected ?_ ?_
    · rw [htransport]
      exact id
    · rw [htransport]
      exact hs.notifies_done

/-- The transport takes frames or is closed. -/
theorem evolves_of_transport {t : Transport} (hsent : s.transport.sent <+: t.sent)
    (hcontrolled : s.Controlled → ({ s with transport := t } : Link).Controlled) :
    Evolves s { s with transport := t } := by
  refine evolves_of_eq rfl (fun d o hd => hd) ?_ rfl rfl (fun d hd => hd) hsent rfl rfl rfl
    hcontrolled
  intro d hnone hres
  rw [show s.outcome d = some .resolved from hres] at hnone
  cases hnone

theorem Evolves.refl (s : Link) : Evolves s s :=
  evolves_of_core rfl

theorem Evolves.trans (h : Evolves s s') (h' : Evolves s' s'') : Evolves s s'' where
  created := Nat.le_trans h.created h'.created
  settled d o hd := h'.settled d o (h.settled d o hd)
  resolved d hnone hres := by
    have hcreated := h.created
    cases hmid : s'.outcome d with
    | none =>
        rcases h'.resolved d hmid hres with hd | hd
        · rcases h.pendings d hd with hd | hd
          · exact Or.inl hd
          · exact Or.inr hd.1
        · exact Or.inr (by omega)
    | some o =>
        -- a promise that is settled in between stays as it is
        rw [h'.settled d o hmid] at hres
        rw [hres] at hmid
        exact h.resolved d hnone hmid
  pongs := by
    obtain ⟨new, hpongs, hnew⟩ := h.pongs
    obtain ⟨new', hpongs', hnew'⟩ := h'.pongs
    have hcreated := h.created
    have hcreated' := h'.created
    refine ⟨new ++ new', by rw [hpongs', hpongs, List.append_assoc], fun d => ?_⟩
    rw [List.mem_append, hnew, hnew']
    omega
  queued := by
    obtain ⟨new, hqueued, hnew⟩ := h.queued
    obtain ⟨new', hqueued', hnew'⟩ := h'.queued
    have hcreated := h.created
    have hcreated' := h'.created
    refine ⟨new ++ new', by rw [hqueued', hqueued, List.append_assoc], fun d hd => ?_⟩
    rw [pings_append, List.mem_append] at hd
    rcases hd with hd | hd
    · have := hnew d hd
      omega
    · have := hnew' d hd
      omega
  pendings d hd := by
    have hcreated := h.created
    have hcreated' := h'.created
    -- what is pending at the end was pending before, or is new to one of the two
    rcases h'.pendings d hd with hd | hd
    · rcases h.pendings d hd with hd | hd
      · exact Or.inl hd
      · exact Or.inr (by omega)
    · exact Or.inr (by omega)
  sent := h.sent.trans h'.sent
  handshake := h'.handshake.trans h.handshake
  matched := h'.matched.trans h.matched
  connection := h'.connection.trans h.connection
  controlled hs := h'.controlled (h.controlled hs)

theorem prefix_sent_send (t : Transport) (frames : List Frame) :
    t.sent <+: (t.send frames).sent := by
  by_cases hd : t.done = true
  · simp only [Transport.send_of_done hd, List.prefix_rfl]
  · rw [Transport.send_of_open hd]
    exact List.prefix_append _ _

theorem prefix_sent_close (t : Transport) (isInternal : Bool) :
    t.sent <+: (t.close isInternal).sent := by
  simp only [Transport.sent_close, List.prefix_rfl]

theorem evolves_send (s : Link) (frames : List Frame) : Evolves s (s.send frames) :=
  evolves_of_transport (prefix_sent_send _ _) fun hs => hs.sent rfl rfl rfl

theorem evolves_closeTransport (s : Link) (isInternal : Bool) :
    Evolves s { s with transport := s.transport.close isInternal } :=
  evolves_of_transport (prefix_sent_close _ _) fun hs => hs.closed rfl rfl rfl

theorem evolves_flushPending (s : Link) : Evolves s s.flushPending := by
  unfold Link.flushPending
  by_cases hready : (s.infoReceived && s.connected) = true
  · rw [if_pos hready]
    by_cases hsize : s.size ≠ 0
    · rw [if_pos hsize]
      exact (evolves_send s s.outbound).trans (evolves_of_core rfl)
    · rw [if_neg hsize]
      exact .refl s
  · rw [if_neg hready]
    exact .refl s

theorem evolves_fill_command (s : Link) (c : Command) : Evolves s (s.fill (.command c)) where
  created := Nat.le_refl _
  settled d o hd := hd
  resolved d hnone hres := by
    have : s.outcome d = some .resolved := hres
    rw [hnone] at this
    cases this
  pongs := ⟨[], (List.append_nil _).symm, fun d => by
    simp only [List.not_mem_nil, false_iff, not_and, Nat.not_lt]
    exact id⟩
  queued := ⟨[.command c], rfl, fun d hd => by cases hd⟩
  pendings d hd := Or.inl hd
  sent := List.prefix_rfl
  handshake := rfl
  matched := rfl
  connection := rfl
  controlled hs := hs.congr rfl rfl id hs.notifies_done

theorem evolves_sendCommand (s : Link) (c : Command) : Evolves s (s.sendCommand c) := by
  have hfill := evolves_fill_command s c
  unfold Link.sendCommand
  by_cases hfirst : s.outbound = []
  · simp only [if_pos hfirst]
    exact hfill.trans (evolves_of_core rfl)
  · simp only [if_neg hfirst]
    by_cases hlimit : (s.fill (.command c)).pendingLimit ≤ (s.fill (.command c)).size
    · simp only [if_pos hlimit]
      exact hfill.trans (evolves_flushPending _)
    · simp only [if_neg hlimit]
      exact hfill

/-- Flushing concerns the buffer and the transport. -/
theorem flushPending_eq (s : Link) :
    ∃ t outbound, s.flushPending = { s with transport := t, outbound := outbound } := by
  unfold Link.flushPending
  by_cases hready : (s.infoReceived && s.connected) = true
  · rw [if_pos hready]
    by_cases hsize : s.size ≠ 0
    · rw [if_pos hsize]
      exact ⟨_, _, rfl⟩
    · rw [if_neg hsize]
      exact ⟨_, _, rfl⟩
  · rw [if_neg hready]
    exact ⟨_, _, rfl⟩

@[simp] theorem flushTasks_flushPending (s : Link) : s.flushPending.flushTasks = s.flushTasks := by
  obtain ⟨t, outbound, heq⟩ := flushPending_eq s
  rw [heq]

@[simp] theorem infoReceived_flushPending (s : Link) :
    s.flushPending.infoReceived = s.infoReceived := by
  obtain ⟨t, outbound, heq⟩ := flushPending_eq s
  rw [heq]

@[simp] theorem connected_flushPending (s : Link) : s.flushPending.connected = s.connected := by
  obtain ⟨t, outbound, heq⟩ := flushPending_eq s
  rw [heq]

@[simp] theorem closed_flushPending (s : Link) : s.flushPending.closed = s.closed := by
  obtain ⟨t, outbound, heq⟩ := flushPending_eq s
  rw [heq]

@[simp] theorem pendingLimit_flushPending (s : Link) :
    s.flushPending.pendingLimit = s.pendingLimit := by
  obtain ⟨t, outbound, heq⟩ := flushPending_eq s
  rw [heq]

theorem flushTasks_flush (s : Link) : s.flush.flushTasks = s.flushTasks := flushTasks_flushPending _

theorem infoReceived_flush (s : Link) : s.flush.infoReceived = s.infoReceived :=
  infoReceived_flushPending _

theorem connected_flush (s : Link) : s.flush.connected = s.connected := connected_flushPending _

theorem flushTasks_dialDone (s : Link) (subs : List Command) :
    (s.dialDone subs).flushTasks = s.flushTasks :=
  flushTasks_flushPending _

/-- The connection is up behind a dial. -/
theorem connected_dialDone (s : Link) (subs : List Command) : (s.dialDone subs).connected = true :=
  connected_flushPending _

theorem infoReceived_dialDone (s : Link) (subs : List Command) :
    (s.dialDone subs).infoReceived = s.infoReceived :=
  infoReceived_flushPending _

/-- A flush creates one deferred and queues its PING. -/
theorem frame_flush (s : Link) :
    s.flush.deferreds = s.deferreds.create ∧
      s.flush.queued = s.queued ++ [.ping s.deferreds.created] ∧
      s.flush.heartbeats = s.heartbeats := by
  unfold Link.flush
  obtain ⟨t, outbound, heq⟩ := flushPending_eq
    (({ s with
      deferreds := s.deferreds.create
      pongs := s.pongs ++ [s.deferreds.created] } : Link).fill (.ping s.deferreds.created))
  simp only [heq]
  exact ⟨rfl, rfl, rfl⟩

theorem evolves_flush (s : Link) : Evolves s s.flush := by
  refine Evolves.trans ?_ (evolves_flushPending _)
  refine ⟨Nat.le_succ _, fun d o hd => hd, fun d hnone hres => ?_, ⟨[s.deferreds.created], rfl, ?_⟩,
    ⟨[.ping s.deferreds.created], rfl, ?_⟩, fun d hd => Or.inl hd, List.prefix_rfl, rfl, rfl, rfl,
    fun hs => hs.congr rfl rfl id hs.notifies_done⟩
  · have : s.outcome d = some .resolved := hres
    rw [hnone] at this
    cases this
  · intro d
    show d ∈ [s.deferreds.created] ↔ s.deferreds.created ≤ d ∧ d < s.deferreds.created + 1
    rw [List.mem_singleton]
    omega
  · intro d hd
    rw [List.mem_singleton.1 hd]
    exact ⟨Nat.le_refl _, Nat.lt_succ_self _⟩

theorem evolves_settle_rejected (s : Link) (d : Nat) : Evolves s (s.settle d .rejected) := by
  refine evolves_of_eq rfl (fun i o hi => Deferreds.settle_of_settled hi) ?_ rfl rfl
    (fun _ h => h) List.prefix_rfl rfl rfl rfl fun hs => hs.congr rfl rfl id hs.notifies_done
  intro i hnone hres
  have hcase := Deferreds.outcome_settle s.deferreds d .rejected i
  rw [show (s.deferreds.settle d .rejected).outcome i = some .resolved from hres] at hcase
  by_cases hopen : i = d ∧ d < s.deferreds.created ∧ s.deferreds.outcome d = none
  · rw [if_pos hopen] at hcase
    cases hcase
  · rw [if_neg hopen, show s.deferreds.outcome i = none from hnone] at hcase
    cases hcase

theorem evolves_heartbeatReset (s : Link) : Evolves s s.heartbeatReset := by
  refine evolves_of_eq (Deferreds.created_settleAll _ _ _)
    (fun i o hi => Deferreds.settleAll_of_settled hi) ?_ rfl rfl (fun d hd => by cases hd)
    List.prefix_rfl rfl rfl rfl fun hs => hs.congr rfl rfl id hs.notifies_done
  intro i hnone hres
  have hcase := Deferreds.outcome_settleAll s.deferreds s.heartbeats.pendings .resolved i
  rw [show (s.deferreds.settleAll s.heartbeats.pendings .resolved).outcome i = some .resolved
    from hres] at hcase
  by_cases hopen : i ∈ s.heartbeats.pendings ∧ i < s.deferreds.created ∧
    s.deferreds.outcome i = none
  · exact hopen.1
  · rw [if_neg hopen, show s.deferreds.outcome i = none from hnone] at hcase
    cases hcase

theorem evolves_heartbeatCancel (s : Link) : Evolves s s.heartbeatCancel := by
  have htimer : Evolves s { s with heartbeats := { s.heartbeats with timer := false } } :=
    evolves_of_core rfl
  exact htimer.trans (evolves_heartbeatReset _)

theorem evolves_heartbeatTimer (s : Link) : Evolves s s.heartbeatTimer := by
  unfold Link.heartbeatTimer
  by_cases hstale : s.heartbeats.pendings.length = s.heartbeats.maxOut
  · rw [if_pos hstale]
    exact (evolves_heartbeatCancel s).trans (evolves_closeTransport _ true)
  · rw [if_neg hstale]
    have hflush := evolves_flush s
    have hcreated : s.deferreds.created < s.flush.deferreds.created := by
      rw [(frame_flush s).1]
      exact Nat.lt_succ_self _
    refine { hflush with
      pendings := fun d hd => ?_
      controlled := fun hs => (hflush.controlled hs).congr rfl rfl id
        (hflush.controlled hs).notifies_done }
    rcases List.mem_append.1 hd with hd | hd
    · exact Or.inl hd
    · rw [List.mem_singleton.1 hd]
      exact Or.inr ⟨Nat.le_refl _, hcreated⟩

theorem evolves_heartbeatThen (s : Link) (ping : Nat) (o : Outcome) :
    Evolves s (s.heartbeatThen ping o) := by
  have hwaiting : Evolves s
      { s with heartbeats := { s.heartbeats with waiting := s.heartbeats.waiting.erase ping } } :=
    evolves_of_core rfl
  cases o with
  | resolved => exact hwaiting.trans (evolves_heartbeatReset _)
  | rejected => exact hwaiting.trans (evolves_heartbeatCancel _)

theorem evolves_failConnect (s : Link) : Evolves s s.failConnect := by
  unfold Link.failConnect
  cases s.handshake with
  | none => exact .refl s
  | some pong =>
      by_cases hset : s.connectError = true
      · simp only [if_pos hset]
        exact evolves_settle_rejected s pong
      · simp only [if_neg hset]
        exact .refl s

theorem evolves_close (s : Link) : Evolves s s.close := by
  unfold Link.close
  by_cases hclosed : s.closed = true
  · rw [if_pos hclosed]
    exact .refl s
  · rw [if_neg hclosed]
    have hfailed := (evolves_heartbeatCancel s).trans (evolves_failConnect _)
    have hflags : Evolves s.heartbeatCancel.failConnect
        { s.heartbeatCancel.failConnect with connectError := false, closed := true } :=
      evolves_of_core rfl
    exact (hfailed.trans hflags).trans (evolves_closeTransport _ false)

theorem evolves_processInfo (s : Link) (options : Option String) :
    Evolves s (s.processInfo options) := by
  have hinfo : Evolves s { s with infoReceived := true } :=
    evolves_of_core rfl
  unfold Link.processInfo
  by_cases hfirst : s.infoReceived = true
  · rw [if_pos hfirst]
    exact .refl s
  · rw [if_neg hfirst]
    rcases options with - | options
    · exact hinfo.trans (evolves_close _)
    · exact hinfo.trans (evolves_send _ _)

theorem evolves_dialDone (s : Link) (subs : List Command) : Evolves s (s.dialDone subs) := by
  have hconnected : Evolves s
      { s with connected := true, connectError := false, loop := .idle } := by
    refine evolves_of_eq rfl (fun d o hd => hd) ?_ rfl rfl (fun d hd => hd) List.prefix_rfl rfl rfl
      rfl fun hs => ⟨fun hne => absurd rfl hne, fun hbetween => (by cases hbetween),
        hs.notifies_done⟩
    intro d hnone hres
    rw [show s.outcome d = some .resolved from hres] at hnone
    cases hnone
  have hsent := hconnected.trans (evolves_send _ (subs.map .command))
  have hreset := (hsent.trans (evolves_flushPending _)).trans (evolves_heartbeatReset _)
  exact hreset.trans (evolves_of_core rfl)

/-- A change of the dial loop. -/
theorem evolves_of_loop {loop : DialLoop} {connected : Bool} {t : Transport}
    (hsent : t.sent = s.transport.sent)
    (hcontrolled : s.Controlled →
      ({ s with loop := loop, connected := connected, transport := t } : Link).Controlled) :
    Evolves s { s with loop := loop, connected := connected, transport := t } := by
  refine evolves_of_eq rfl (fun d o hd => hd) ?_ rfl rfl (fun d hd => hd) ?_ rfl rfl rfl hcontrolled
  · intro d hnone hres
    rw [show s.outcome d = some .resolved from hres] at hnone
    cases hnone
  · simp only [hsent, List.prefix_rfl]

theorem evolves_dialFailed (hdialing : s.loop = .dialing) (connectFailed : Bool) :
    Evolves s (s.dialFailed connectFailed) := by
  have hend : ∀ s : Link, s.loop = .dialing →
      Evolves s { s with transport := s.transport.close false, loop := .between } := by
    intro s hdialing
    refine evolves_of_loop (Transport.sent_close _ _) fun hs => ⟨fun _ => hs.off ?_, ?_, ?_⟩
    · rw [hdialing]
      decide
    · exact fun _ => Transport.done_close _ _
    · exact fun _ => Transport.done_close _ _
  unfold Link.dialFailed
  cases s.handshake with
  | none => exact hend s hdialing
  | some pong =>
      by_cases hfailed : connectFailed = true
      · simp only [if_pos hfailed]
        exact (evolves_settle_rejected s pong).trans (hend _ hdialing)
      · simp only [if_neg hfailed]
        exact hend s hdialing

theorem evolves_closedNotification (hnotifies : s.transport.notifies = true) (reconnect : Bool) :
    Evolves s (s.closedNotification reconnect) := by
  have hoff : ∀ loop, Evolves s
      { s with
        connected := false
        transport := { s.transport with notifies := false }
        loop := loop } := fun loop =>
    evolves_of_loop rfl fun hs =>
      ⟨fun _ => rfl, fun _ => hs.notifies_done hnotifies, fun h => (by cases h)⟩
  unfold Link.closedNotification
  by_cases hclosed : s.closed = true
  · simp only [if_pos hclosed]
    exact hoff s.loop
  · simp only [if_neg hclosed]
    by_cases hagain : reconnect = true
    · simp only [if_pos hagain]
      exact hoff _
    · simp only [if_neg hagain]
      exact (hoff s.loop).trans (evolves_close _)

theorem evolves_giveUp (s : Link) : Evolves s s.giveUp := by
  have hidle : Evolves s { s with loop := .idle } :=
    evolves_of_loop rfl fun hs =>
      ⟨fun hne => absurd rfl hne, fun hbetween => (by cases hbetween), hs.notifies_done⟩
  exact hidle.trans (evolves_close _)

/-- **What a step can do**: it is a `prepare`, a PONG, or it evolves the link. -/
theorem evolves_step {e : Event} (hstep : s.step e = some s') :
    (e = .prepare ∧ s.loop = .between ∧ s' = { s.prepare with loop := .dialing }) ∨
    (e = .pong ∧ s.matched.length < (pings s.transport.sent).length ∧ s' = s.processPong) ∨
    Evolves s s' := by
  cases step_of_eq hstep with
  | command c => exact Or.inr (Or.inr (evolves_sendCommand s c))
  | flush => exact Or.inr (Or.inr (evolves_flush s))
  | flushTask => exact Or.inr (Or.inr ((evolves_flushPending s).trans (evolves_of_core rfl)))
  | heartbeatTimer => exact Or.inr (Or.inr (evolves_heartbeatTimer s))
  | heartbeatThen ping o => exact Or.inr (Or.inr (evolves_heartbeatThen s ping o))
  | prepare hbetween => exact Or.inl ⟨rfl, hbetween, rfl⟩
  | info options => exact Or.inr (Or.inr (evolves_processInfo s options))
  | ping => exact Or.inr (Or.inr (evolves_send s _))
  | pong howed => exact Or.inr (Or.inl ⟨rfl, howed, rfl⟩)
  | dialDone subs => exact Or.inr (Or.inr (evolves_dialDone s subs))
  | dialFailed connectFailed hdialing =>
      exact Or.inr (Or.inr (evolves_dialFailed hdialing connectFailed))
  | disconnect => exact Or.inr (Or.inr (evolves_closeTransport s true))
  | closedNotification reconnect hnotifies =>
      exact Or.inr (Or.inr (evolves_closedNotification hnotifies reconnect))
  | giveUp => exact Or.inr (Or.inr (evolves_giveUp s))
  | close => exact Or.inr (Or.inr (evolves_close s))

/-! ## Who holds the deferreds -/

/-- Deferreds in the link were created, those that are not settled are in `pongs`, and a heartbeat
does not wait for the handshake. -/
structure Owned (s : Link) : Prop where
  pongs_lt : ∀ d ∈ s.pongs, d < s.deferreds.created
  pending_mem : ∀ d, d < s.deferreds.created → s.outcome d = none → d ∈ s.pongs
  handshake_lt : ∀ d, s.handshake = some d → d < s.deferreds.created
  queued_lt : ∀ d ∈ pings s.queued, d < s.deferreds.created
  pendings_lt : ∀ d ∈ s.heartbeats.pendings, d < s.deferreds.created
  handshake_pendings : ∀ d, s.handshake = some d → d ∉ s.heartbeats.pendings

theorem owned_new (pendingLimit maxOut : Nat) : (new pendingLimit maxOut).Owned where
  pongs_lt d hd := by cases hd
  pending_mem d hd := by cases hd
  handshake_lt d hd := by cases hd
  queued_lt d hd := by cases hd
  pendings_lt d hd := by cases hd
  handshake_pendings d hd := by cases hd

theorem Evolves.owned (h : Evolves s s') (hs : s.Owned) : s'.Owned := by
  obtain ⟨newPongs, hpongs, hnewPongs⟩ := h.pongs
  obtain ⟨newQueued, hqueued, hnewQueued⟩ := h.queued
  have hcreated := h.created
  refine ⟨?_, ?_, ?_, ?_, ?_, ?_⟩
  · intro d hd
    rw [hpongs, List.mem_append] at hd
    rcases hd with hd | hd
    · exact Nat.lt_of_lt_of_le (hs.pongs_lt d hd) hcreated
    · exact ((hnewPongs d).1 hd).2
  · intro d hlt hnone
    rw [hpongs, List.mem_append]
    by_cases hold : d < s.deferreds.created
    · left
      cases ho : s.outcome d with
      | none => exact hs.pending_mem d hold ho
      | some o =>
          rw [h.settled d o ho] at hnone
          cases hnone
    · exact Or.inr ((hnewPongs d).2 ⟨Nat.le_of_not_lt hold, hlt⟩)
  · intro d hd
    rw [h.handshake] at hd
    exact Nat.lt_of_lt_of_le (hs.handshake_lt d hd) hcreated
  · intro d hd
    rw [hqueued, pings_append, List.mem_append] at hd
    rcases hd with hd | hd
    · exact Nat.lt_of_lt_of_le (hs.queued_lt d hd) hcreated
    · exact (hnewQueued d hd).2
  · intro d hd
    rcases h.pendings d hd with hd | hd
    · exact Nat.lt_of_lt_of_le (hs.pendings_lt d hd) hcreated
    · exact hd.2
  · intro d hd hpending
    rw [h.handshake] at hd
    have hlt := hs.handshake_lt d hd
    rcases h.pendings d hpending with hpending | hpending
    · exact hs.handshake_pendings d hd hpending
    · omega

/-- What `prepare` makes of each deferred. -/
theorem outcome_prepare (s : Link) (d : Nat) :
    s.prepare.outcome d =
      if d ∈ s.pongs ∧ d < s.deferreds.created ∧ s.outcome d = none then some .rejected
      else s.outcome d :=
  Deferreds.outcome_settleAll s.deferreds s.pongs .rejected d

theorem created_prepare (s : Link) : s.prepare.deferreds.created = s.deferreds.created + 1 := by
  show (s.deferreds.settleAll s.pongs .rejected).created + 1 = _
  rw [Deferreds.created_settleAll]

theorem pongs_prepare (s : Link) : s.prepare.pongs = [s.deferreds.created] := by
  show [(s.deferreds.settleAll s.pongs .rejected).created] = _
  rw [Deferreds.created_settleAll]

theorem handshake_prepare (s : Link) : s.prepare.handshake = some s.deferreds.created := by
  show some (s.deferreds.settleAll s.pongs .rejected).created = _
  rw [Deferreds.created_settleAll]

/-- What `prepare` leaves of the deferreds is the new handshake. -/
theorem Owned.prepare (hs : s.Owned) : s.prepare.Owned := by
  have hcreated := created_prepare s
  refine ⟨?_, ?_, ?_, fun d hd => (by cases hd), ?_, ?_⟩
  · intro d hd
    rw [pongs_prepare, List.mem_singleton] at hd
    omega
  · intro d hlt hnone
    rw [pongs_prepare, List.mem_singleton]
    by_contra hne
    have hold : d < s.deferreds.created := by omega
    have hcase := outcome_prepare s d
    rw [hnone] at hcase
    by_cases hopen : d ∈ s.pongs ∧ d < s.deferreds.created ∧ s.outcome d = none
    · rw [if_pos hopen] at hcase
      cases hcase
    · rw [if_neg hopen] at hcase
      exact hopen ⟨hs.pending_mem d hold hcase.symm, hold, hcase.symm⟩
  · intro d hd
    rw [handshake_prepare, Option.some.injEq] at hd
    omega
  · intro d hd
    have hlt := hs.pendings_lt d hd
    omega
  · intro d hd hpending
    rw [handshake_prepare, Option.some.injEq] at hd
    have hlt := hs.pendings_lt d hpending
    omega

/-- The first of `pongs` is resolved, where there is one. -/
theorem outcome_processPong (s : Link) (d : Nat) :
    s.processPong.outcome d =
      if s.pongs.head? = some d ∧ d < s.deferreds.created ∧ s.outcome d = none then some .resolved
      else s.outcome d := by
  unfold Link.processPong
  cases hpongs : s.pongs with
  | nil => simp [Link.outcome]
  | cons cb pongs =>
      show (s.deferreds.settle cb .resolved).outcome d = _
      rw [Deferreds.outcome_settle]
      by_cases hcb : d = cb
      · subst hcb
        simp [Link.outcome]
      · simp [hcb, Ne.symm hcb, Link.outcome]

theorem pongs_processPong (s : Link) : s.processPong.pongs = s.pongs.tail := by
  unfold Link.processPong
  cases s.pongs <;> simp

theorem matched_processPong (s : Link) : s.processPong.matched = s.matched ++ [s.pongs.head?] := by
  unfold Link.processPong
  cases hpongs : s.pongs <;> rfl

theorem frame_processPong (s : Link) :
    s.processPong.deferreds.created = s.deferreds.created ∧ s.processPong.handshake = s.handshake ∧
      s.processPong.queued = s.queued ∧ s.processPong.heartbeats = s.heartbeats ∧
      s.processPong.connection = s.connection ∧ s.processPong.transport = s.transport := by
  unfold Link.processPong
  cases s.pongs <;> exact ⟨rfl, rfl, rfl, rfl, rfl, rfl⟩

theorem Owned.processPong (hs : s.Owned) : s.processPong.Owned := by
  obtain ⟨hcreated, hhandshake, hqueued, hheartbeats, -, -⟩ := frame_processPong s
  refine ⟨?_, ?_, ?_, ?_, ?_, ?_⟩
  · intro d hd
    rw [pongs_processPong] at hd
    rw [hcreated]
    exact hs.pongs_lt d (List.mem_of_mem_tail hd)
  · intro d hlt hnone
    rw [hcreated] at hlt
    have hcase := outcome_processPong s d
    rw [hnone] at hcase
    by_cases hopen : s.pongs.head? = some d ∧ d < s.deferreds.created ∧ s.outcome d = none
    · rw [if_pos hopen] at hcase
      cases hcase
    · rw [if_neg hopen] at hcase
      have hmem := hs.pending_mem d hlt hcase.symm
      rw [pongs_processPong]
      cases hpongs : s.pongs with
      | nil =>
          rw [hpongs] at hmem
          cases hmem
      | cons cb pongs =>
          rw [hpongs] at hmem hopen
          rcases List.mem_cons.1 hmem with rfl | hmem
          · exact absurd ⟨rfl, hlt, hcase.symm⟩ hopen
          · exact hmem
  · intro d hd
    rw [hcreated]
    exact hs.handshake_lt d (hhandshake ▸ hd)
  · intro d hd
    rw [hcreated]
    exact hs.queued_lt d (hqueued ▸ hd)
  · intro d hd
    rw [hcreated]
    exact hs.pendings_lt d (hheartbeats ▸ hd)
  · intro d hd
    rw [hheartbeats]
    exact hs.handshake_pendings d (hhandshake ▸ hd)

/-- Behind `prepare` the dial runs. -/
theorem Controlled.prepare (hs : s.Controlled) (hbetween : s.loop = .between) :
    ({ s.prepare with loop := .dialing } : Link).Controlled := by
  refine ⟨fun _ => hs.off ?_, fun h => (by cases h), fun h => (by cases h)⟩
  rw [hbetween]
  decide

theorem Controlled.processPong (hs : s.Controlled) : s.processPong.Controlled := by
  unfold Link.processPong
  cases s.pongs <;> exact hs.congr rfl rfl id hs.notifies_done

theorem controlled_new (pendingLimit maxOut : Nat) : (new pendingLimit maxOut).Controlled :=
  ⟨fun _ => rfl, fun _ => rfl, fun h => (by cases h)⟩

theorem controlled_step {e : Event} (hs : s.Controlled) (hstep : s.step e = some s') :
    s'.Controlled := by
  rcases evolves_step hstep with ⟨-, hbetween, rfl⟩ | ⟨-, -, rfl⟩ | hevolves
  · exact hs.prepare hbetween
  · exact hs.processPong
  · exact hevolves.controlled hs

theorem owned_step {e : Event} (hs : s.Owned) (hstep : s.step e = some s') : s'.Owned := by
  rcases evolves_step hstep with ⟨-, -, rfl⟩ | ⟨-, -, rfl⟩ | hevolves
  · obtain ⟨h₁, h₂, h₃, h₄, h₅, h₆⟩ := hs.prepare
    exact ⟨h₁, h₂, h₃, h₄, h₅, h₆⟩
  · exact hs.processPong
  · exact hevolves.owned hs

/-! ## A deferred that a dial rejected -/

/-- The deferred is rejected, and no PONG was or will be matched with it. -/
structure Abandoned (d : Nat) (s : Link) : Prop where
  rejected : s.outcome d = some .rejected
  not_pongs : d ∉ s.pongs
  unmatched : some d ∉ s.matched

/-- **A dial abandons what is not settled.** -/
theorem abandoned_prepare {d : Nat} (hs : s.Owned) (hlt : d < s.deferreds.created)
    (hnone : s.outcome d = none) : Abandoned d s.prepare where
  rejected := by rw [outcome_prepare, if_pos ⟨hs.pending_mem d hlt hnone, hlt, hnone⟩]
  not_pongs := by
    rw [pongs_prepare, List.mem_singleton]
    omega
  unmatched h := by cases h

theorem abandoned_step {d : Nat} {e : Event} (hs : Abandoned d s) (hstep : s.step e = some s') :
    Abandoned d s' := by
  have hlt : d < s.deferreds.created := Deferreds.lt_created hs.rejected
  rcases evolves_step hstep with ⟨-, -, rfl⟩ | ⟨-, -, rfl⟩ | hevolves
  · refine ⟨?_, ?_, fun h => (by cases h)⟩
    · show s.prepare.outcome d = some .rejected
      rw [outcome_prepare, hs.rejected]
      simp
    · show d ∉ s.prepare.pongs
      rw [pongs_prepare, List.mem_singleton]
      omega
  · have hhead : s.pongs.head? ≠ some d := by
      intro hhead
      exact hs.not_pongs (List.mem_of_head? hhead)
    refine ⟨?_, ?_, ?_⟩
    · rw [outcome_processPong, hs.rejected]
      simp
    · rw [pongs_processPong]
      exact fun hmem => hs.not_pongs (List.mem_of_mem_tail hmem)
    · rw [matched_processPong, List.mem_append, List.mem_singleton]
      rintro (hmem | heq)
      · exact hs.unmatched hmem
      · exact hhead heq.symm
  · obtain ⟨new, hpongs, hnew⟩ := hevolves.pongs
    refine ⟨hevolves.settled d _ hs.rejected, ?_, ?_⟩
    · rw [hpongs, List.mem_append]
      rintro (hmem | hmem)
      · exact hs.not_pongs hmem
      · have hrange := (hnew d).1 hmem
        omega
    · rw [hevolves.matched]
      exact hs.unmatched

/-! ## A flush that waits for its PONG -/

/-- The flush `d` was called on connection `c` behind the queued frames `q`. While it is not settled
the connection is the same and the frames are queued in front of its PING. -/
structure Awaited (c : Nat) (q : List Frame) (d : Nat) (s : Link) : Prop where
  lt : d < s.deferreds.created
  first : d ∉ pings q
  not_pendings : d ∉ s.heartbeats.pendings
  not_handshake : s.handshake ≠ some d
  here : s.outcome d = none → s.connection = c ∧ q ++ [.ping d] <+: s.queued

theorem awaited_flush (hs : s.Owned) :
    Awaited s.connection s.queued s.deferreds.created s.flush := by
  have hevolves := evolves_flush s
  obtain ⟨hdeferreds, hqueued, hheartbeats⟩ := frame_flush s
  refine ⟨?_, ?_, ?_, ?_, fun _ => ⟨hevolves.connection, ?_⟩⟩
  · rw [hdeferreds]
    exact Nat.lt_succ_self _
  · exact fun hmem => Nat.lt_irrefl _ (hs.queued_lt _ hmem)
  · rw [hheartbeats]
    exact fun hmem => Nat.lt_irrefl _ (hs.pendings_lt _ hmem)
  · rw [hevolves.handshake]
    exact fun heq => Nat.lt_irrefl _ (hs.handshake_lt _ heq)
  · simp only [hqueued, List.prefix_rfl]

theorem awaited_step {c d : Nat} {q : List Frame} {e : Event} (howned : s.Owned)
    (hs : Awaited c q d s) (hstep : s.step e = some s') : Awaited c q d s' := by
  rcases evolves_step hstep with ⟨-, -, rfl⟩ | ⟨-, -, rfl⟩ | hevolves
  · have hlt := hs.lt
    refine ⟨?_, hs.first, hs.not_pendings, ?_, fun hnone => ?_⟩
    · show d < s.prepare.deferreds.created
      rw [created_prepare]
      omega
    · show s.prepare.handshake ≠ some d
      rw [handshake_prepare]
      intro heq
      rw [Option.some.injEq] at heq
      omega
    · -- the dial rejected it
      have hcase : s.prepare.outcome d = none := hnone
      have hopen : s.outcome d = none := by
        cases ho : s.outcome d with
        | none => rfl
        | some o =>
            rw [outcome_prepare, ho] at hcase
            simp at hcase
      rw [outcome_prepare, if_pos ⟨howned.pending_mem d hlt hopen, hlt, hopen⟩] at hcase
      cases hcase
  · obtain ⟨hcreated, hhandshake, hqueued, hheartbeats, hconnection, -⟩ := frame_processPong s
    refine ⟨?_, hs.first, ?_, ?_, fun hnone => ?_⟩
    · rw [hcreated]
      exact hs.lt
    · rw [hheartbeats]
      exact hs.not_pendings
    · rw [hhandshake]
      exact hs.not_handshake
    · rw [hconnection, hqueued]
      apply hs.here
      rw [outcome_processPong] at hnone
      by_cases hopen : s.pongs.head? = some d ∧ d < s.deferreds.created ∧ s.outcome d = none
      · exact hopen.2.2
      · rw [if_neg hopen] at hnone
        exact hnone
  · obtain ⟨new, hqueued, -⟩ := hevolves.queued
    have hlt := hs.lt
    refine ⟨Nat.lt_of_lt_of_le hs.lt hevolves.created, hs.first, ?_, ?_, fun hnone => ?_⟩
    · intro hmem
      rcases hevolves.pendings d hmem with hmem | hmem
      · exact hs.not_pendings hmem
      · omega
    · rw [hevolves.handshake]
      exact hs.not_handshake
    · have hopen : s.outcome d = none := by
        cases ho : s.outcome d with
        | none => rfl
        | some o =>
            rw [hevolves.settled d o ho] at hnone
            cases hnone
      obtain ⟨hconnection, hprefix⟩ := hs.here hopen
      rw [hevolves.connection, hqueued]
      exact ⟨hconnection, hprefix.trans (List.prefix_append _ _)⟩

end Link

end NatsClient.Connection
