import NatsClient.Connection.Promises

/-!
# PINGs and PONGs

The pairing of PINGs and PONGs over all runs of the link (`pairing`): each PONG of a connection is
matched with the deferred queued with the PING it answers, a flush is resolved only when everything
queued before it was handed to the transport of its connection, and a flush pending in front of a
dial is rejected for good.

`Paired` relates `pongs` to the wire: behind the PINGs sent and not answered come a handshake that
was not sent, the PINGs a closed transport dropped, and those in the outbound buffer.
-/

set_option autoImplicit false

namespace NatsClient.Connection

open NatsClient.Foundation

namespace Link

variable {s s' s'' : Link}

/-! ## The array and the wire -/

/-- The pairing of `pongs` with the wire. Of what was queued since the last reset, `flushed` was
sent, `dropped` was taken by a closed transport, and the rest is in the buffer. The handshake is
`direct` when its PING was sent and `owed` before. -/
structure Paired (s : Link) (flushed dropped : List Frame) (direct owed : List Nat) : Prop where
  queued_eq : s.queued = flushed ++ dropped ++ s.outbound
  sent_pings : pings s.transport.sent = direct ++ pings flushed
  handshake_eq : direct ++ owed = s.handshake.toList
  pongs_eq : s.pongs = (pings s.transport.sent).drop s.matched.length ++
    (owed ++ pings dropped ++ pings s.outbound)
  matched_eq : s.matched = ((pings s.transport.sent).take s.matched.length).map some
  flushed_sublist : flushed.Sublist s.transport.sent
  /-- Nothing is flushed in front of the handshake. -/
  order : flushed ≠ [] → direct ≠ []
  /-- An open transport drops nothing. -/
  dropped_done : dropped ≠ [] → s.transport.done = true
  /-- A connection is up when its handshake was sent and answered. -/
  direct_on : s.connected = true → direct ≠ []
  noInfo : s.infoReceived = false → direct = [] ∧ flushed = [] ∧ dropped = []

section

variable {flushed dropped : List Frame} {direct owed : List Nat}

theorem Paired.matched_le (h : s.Paired flushed dropped direct owed) :
    s.matched.length ≤ (pings s.transport.sent).length := by
  have hlen := congrArg List.length h.matched_eq
  rw [List.length_map, List.length_take] at hlen
  omega

/-- There is one handshake only. -/
theorem Paired.owed_eq_nil (h : s.Paired flushed dropped direct owed) (hdirect : direct ≠ []) :
    owed = [] := by
  have heq := congrArg List.length h.handshake_eq
  have hpos : 0 < direct.length := List.length_pos_iff.2 hdirect
  have hle : s.handshake.toList.length ≤ 1 := by
    cases s.handshake with
    | none => exact Nat.zero_le 1
    | some d => exact Nat.le_refl 1
  rw [List.length_append] at heq
  exact List.length_eq_zero_iff.1 (by omega)

/-- Other fields do not matter, and the transport may be closed. -/
theorem Paired.congr (h : s.Paired flushed dropped direct owed) (hqueued : s'.queued = s.queued)
    (houtbound : s'.outbound = s.outbound) (hpongs : s'.pongs = s.pongs)
    (hsent : s'.transport.sent = s.transport.sent) (hhandshake : s'.handshake = s.handshake)
    (hmatched : s'.matched = s.matched) (hinfo : s'.infoReceived = s.infoReceived)
    (hconnected : s'.connected = true → s.connected = true)
    (hdone : s.transport.done = true → s'.transport.done = true) :
    s'.Paired flushed dropped direct owed where
  queued_eq := by rw [hqueued, houtbound]; exact h.queued_eq
  sent_pings := by rw [hsent]; exact h.sent_pings
  handshake_eq := by rw [hhandshake]; exact h.handshake_eq
  pongs_eq := by rw [hpongs, hsent, hmatched, houtbound]; exact h.pongs_eq
  matched_eq := by rw [hsent, hmatched]; exact h.matched_eq
  flushed_sublist := by rw [hsent]; exact h.flushed_sublist
  order := h.order
  dropped_done hd := hdone (h.dropped_done hd)
  direct_on hon := h.direct_on (hconnected hon)
  noInfo hi := h.noInfo (hinfo ▸ hi)

/-- Frames without PINGs are sent past the buffer. -/
theorem Paired.send (h : s.Paired flushed dropped direct owed) {frames : List Frame}
    (hframes : pings frames = []) : (s.send frames).Paired flushed dropped direct owed := by
  by_cases hd : s.transport.done = true
  · have hsame : s.send frames = s := by
      rw [Link.send, Transport.send_of_done hd]
    rw [hsame]
    exact h
  · have hsent : (s.send frames).transport =
        { s.transport with sent := s.transport.sent ++ frames } :=
      Transport.send_of_open hd frames
    have hpings : pings (s.send frames).transport.sent = pings s.transport.sent := by
      rw [hsent, pings_append, hframes, List.append_nil]
    refine ⟨h.queued_eq, hpings.trans h.sent_pings, h.handshake_eq, ?_, ?_, ?_, h.order, ?_, ?_,
      h.noInfo⟩
    · rw [hpings]
      exact h.pongs_eq
    · rw [hpings]
      exact h.matched_eq
    · rw [hsent]
      exact h.flushed_sublist.trans (List.sublist_append_left _ _)
    · rw [hsent]
      exact h.dropped_done
    · exact h.direct_on

/-- A frame is filled into the buffer, with the deferred of a PING behind `pongs`. -/
theorem Paired.fill (h : s.Paired flushed dropped direct owed) {f : Frame}
    (hpongs : s'.pongs = s.pongs ++ pings [f]) (hqueued : s'.queued = s.queued ++ [f])
    (houtbound : s'.outbound = s.outbound ++ [f]) (htransport : s'.transport = s.transport)
    (hhandshake : s'.handshake = s.handshake) (hmatched : s'.matched = s.matched)
    (hinfo : s'.infoReceived = s.infoReceived) (hconnected : s'.connected = s.connected) :
    s'.Paired flushed dropped direct owed where
  queued_eq := by rw [hqueued, houtbound, h.queued_eq, List.append_assoc]
  sent_pings := by rw [htransport]; exact h.sent_pings
  handshake_eq := by rw [hhandshake]; exact h.handshake_eq
  pongs_eq := by
    rw [hpongs, htransport, hmatched, houtbound, h.pongs_eq]
    simp only [pings_append, List.append_assoc]
  matched_eq := by rw [htransport, hmatched]; exact h.matched_eq
  flushed_sublist := by rw [htransport]; exact h.flushed_sublist
  order := h.order
  dropped_done hd := by rw [htransport]; exact h.dropped_done hd
  direct_on hon := h.direct_on (hconnected ▸ hon)
  noInfo hi := h.noInfo (hinfo ▸ hi)

end

/-- `Paired` for some split of what was queued. -/
def IsPaired (s : Link) : Prop :=
  ∃ flushed dropped direct owed, s.Paired flushed dropped direct owed

theorem isPaired_new (pendingLimit maxOut : Nat) : (new pendingLimit maxOut).IsPaired :=
  ⟨[], [], [], [], rfl, rfl, rfl, rfl, rfl, List.Sublist.refl _, fun h => absurd rfl h,
    fun h => absurd rfl h, fun h => (by cases h), fun _ => ⟨rfl, rfl, rfl⟩⟩

/-- The buffer goes to the transport, which takes it or drops it. -/
theorem IsPaired.flushPending (h : s.IsPaired) : s.flushPending.IsPaired := by
  obtain ⟨flushed, dropped, direct, owed, h⟩ := h
  unfold Link.flushPending
  by_cases hready : (s.infoReceived && s.connected) = true
  · rw [if_pos hready]
    by_cases hsize : s.size ≠ 0
    · rw [if_pos hsize]
      obtain ⟨hinfo, hconnected⟩ := Bool.and_eq_true_iff.1 hready
      have hstart : ∀ {P : Prop}, s.infoReceived = false → P := by
        intro P hno
        rw [hinfo] at hno
        cases hno
      by_cases hd : s.transport.done = true
      · -- a transport that is done drops the frames, and their PONGs are owed for ever
        have hsame : s.send s.outbound = s := by
          rw [Link.send, Transport.send_of_done hd]
        rw [hsame]
        refine ⟨flushed, dropped ++ s.outbound, direct, owed, ?_, h.sent_pings, h.handshake_eq, ?_,
          h.matched_eq, h.flushed_sublist, h.order, fun _ => hd, h.direct_on, hstart⟩
        · show s.queued = flushed ++ (dropped ++ s.outbound) ++ []
          rw [h.queued_eq, List.append_nil, List.append_assoc]
        · show s.pongs = _ ++ (owed ++ pings (dropped ++ s.outbound) ++ [])
          rw [h.pongs_eq, List.append_nil, pings_append, List.append_assoc owed]
      · -- an open transport has dropped nothing so far, and takes all that is buffered
        have hdropped : dropped = [] := by
          by_contra hne
          exact hd (h.dropped_done hne)
        obtain rfl := h.owed_eq_nil (h.direct_on hconnected)
        subst hdropped
        have hsent : (s.send s.outbound).transport =
            { s.transport with sent := s.transport.sent ++ s.outbound } :=
          Transport.send_of_open hd s.outbound
        have hle := h.matched_le
        refine ⟨flushed ++ s.outbound, [], direct, [], ?_, ?_, h.handshake_eq, ?_, ?_, ?_,
          fun _ => h.direct_on hconnected, fun hne => absurd rfl hne, h.direct_on, hstart⟩
        · show s.queued = flushed ++ s.outbound ++ [] ++ []
          rw [h.queued_eq]
          simp only [List.append_nil]
        · show pings (s.send s.outbound).transport.sent = _
          rw [hsent, pings_append, pings_append, h.sent_pings, List.append_assoc]
        · show s.pongs = (pings (s.send s.outbound).transport.sent).drop s.matched.length ++
              ([] ++ [] ++ [])
          rw [hsent, pings_append, List.drop_append_of_le_length hle, h.pongs_eq]
          simp only [pings, List.nil_append, List.append_nil]
        · show s.matched =
              ((pings (s.send s.outbound).transport.sent).take s.matched.length).map some
          rw [hsent, pings_append, List.take_append_of_le_length hle]
          exact h.matched_eq
        · show (flushed ++ s.outbound).Sublist (s.send s.outbound).transport.sent
          rw [hsent]
          exact h.flushed_sublist.append (List.Sublist.refl _)
    · rw [if_neg hsize]
      exact ⟨flushed, dropped, direct, owed, h⟩
  · rw [if_neg hready]
    exact ⟨flushed, dropped, direct, owed, h⟩

theorem IsPaired.congr (h : s.IsPaired) (hqueued : s'.queued = s.queued)
    (houtbound : s'.outbound = s.outbound) (hpongs : s'.pongs = s.pongs)
    (hsent : s'.transport.sent = s.transport.sent) (hhandshake : s'.handshake = s.handshake)
    (hmatched : s'.matched = s.matched) (hinfo : s'.infoReceived = s.infoReceived)
    (hconnected : s'.connected = true → s.connected = true)
    (hdone : s.transport.done = true → s'.transport.done = true) : s'.IsPaired := by
  obtain ⟨flushed, dropped, direct, owed, h⟩ := h
  exact ⟨flushed, dropped, direct, owed,
    h.congr hqueued houtbound hpongs hsent hhandshake hmatched hinfo hconnected hdone⟩

theorem IsPaired.send (h : s.IsPaired) {frames : List Frame} (hframes : pings frames = []) :
    (s.send frames).IsPaired := by
  obtain ⟨flushed, dropped, direct, owed, h⟩ := h
  exact ⟨flushed, dropped, direct, owed, h.send hframes⟩

theorem IsPaired.sendCommand (h : s.IsPaired) (c : Command) : (s.sendCommand c).IsPaired := by
  obtain ⟨flushed, dropped, direct, owed, h⟩ := h
  have hfill : (s.fill (.command c)).IsPaired :=
    ⟨flushed, dropped, direct, owed,
      h.fill (List.append_nil _).symm rfl rfl rfl rfl rfl rfl rfl⟩
  unfold Link.sendCommand
  by_cases hfirst : s.outbound = []
  · simp only [if_pos hfirst]
    exact hfill.congr rfl rfl rfl rfl rfl rfl rfl id id
  · simp only [if_neg hfirst]
    by_cases hlimit : (s.fill (.command c)).pendingLimit ≤ (s.fill (.command c)).size
    · simp only [if_pos hlimit]
      exact hfill.flushPending
    · simp only [if_neg hlimit]
      exact hfill

theorem IsPaired.flush (h : s.IsPaired) : s.flush.IsPaired := by
  obtain ⟨flushed, dropped, direct, owed, h⟩ := h
  apply IsPaired.flushPending
  exact ⟨flushed, dropped, direct, owed,
    h.fill (f := .ping s.deferreds.created) rfl rfl rfl rfl rfl rfl rfl rfl⟩

theorem IsPaired.heartbeatCancel (h : s.IsPaired) : s.heartbeatCancel.IsPaired :=
  h.congr rfl rfl rfl rfl rfl rfl rfl id id

theorem IsPaired.heartbeatTimer (h : s.IsPaired) : s.heartbeatTimer.IsPaired := by
  unfold Link.heartbeatTimer
  by_cases hstale : s.heartbeats.pendings.length = s.heartbeats.maxOut
  · rw [if_pos hstale]
    exact h.heartbeatCancel.congr rfl rfl rfl (Transport.sent_close _ _) rfl rfl rfl id
      fun _ => Transport.done_close _ _
  · rw [if_neg hstale]
    exact h.flush.congr rfl rfl rfl rfl rfl rfl rfl id id

theorem IsPaired.failConnect (h : s.IsPaired) : s.failConnect.IsPaired := by
  unfold Link.failConnect
  cases s.handshake with
  | none => exact h
  | some pong =>
      by_cases hset : s.connectError = true
      · simp only [if_pos hset]
        exact h.congr rfl rfl rfl rfl rfl rfl rfl id id
      · simp only [if_neg hset]
        exact h

theorem IsPaired.close (h : s.IsPaired) : s.close.IsPaired := by
  unfold Link.close
  by_cases hclosed : s.closed = true
  · rw [if_pos hclosed]
    exact h
  · rw [if_neg hclosed]
    exact h.heartbeatCancel.failConnect.congr rfl rfl rfl (Transport.sent_close _ _) rfl rfl rfl id
      fun _ => Transport.done_close _ _

/-- The first INFO: the PING of the handshake is the first one sent. -/
theorem IsPaired.processInfo (h : s.IsPaired) (options : Option String) :
    (s.processInfo options).IsPaired := by
  unfold Link.processInfo
  by_cases hinfo : s.infoReceived = true
  · rw [if_pos hinfo]
    exact h
  · rw [if_neg hinfo]
    obtain ⟨flushed, dropped, direct, owed, h⟩ := h
    obtain ⟨rfl, rfl, rfl⟩ := h.noInfo (Bool.eq_false_iff.2 hinfo)
    have hreceived : ({ s with infoReceived := true } : Link).Paired [] [] [] owed :=
      ⟨h.queued_eq, h.sent_pings, h.handshake_eq, h.pongs_eq, h.matched_eq, h.flushed_sublist,
        h.order, h.dropped_done, h.direct_on, fun hno => (by cases hno)⟩
    cases options with
    | none => exact IsPaired.close ⟨[], [], [], owed, hreceived⟩
    | some options =>
        by_cases hd : s.transport.done = true
        · have hsame : ({ s with infoReceived := true } : Link).send
              (.connect options :: s.handshake.toList.map .ping) =
              { s with infoReceived := true } := by
            rw [Link.send, Transport.send_of_done hd]
          simp only [hsame]
          exact ⟨[], [], [], owed, hreceived⟩
        · -- what was owed is sent
          have howed : owed = s.handshake.toList := h.handshake_eq
          have hpings : pings s.transport.sent = [] := h.sent_pings
          have hmatched : s.matched = [] := by
            have heq := h.matched_eq
            rw [hpings, List.take_nil] at heq
            exact heq
          have hsent : pings (s.transport.send
              (.connect options :: s.handshake.toList.map .ping)).sent = owed := by
            rw [Transport.send_of_open hd, pings_append, hpings, howed]
            cases s.handshake <;> rfl
          refine ⟨[], [], owed, [], h.queued_eq, ?_, ?_, ?_, ?_, List.nil_sublist _,
            fun hne => absurd rfl hne, fun hne => absurd rfl hne,
            fun hon => absurd rfl (h.direct_on hon), fun hno => (by cases hno)⟩
          · exact hsent.trans (List.append_nil _).symm
          · rw [List.append_nil]
            exact howed
          · show s.pongs = (pings (s.transport.send _).sent).drop s.matched.length ++ _
            rw [hsent, hmatched, h.pongs_eq, hpings, List.drop_nil]
            simp only [List.length_nil, List.drop_zero, pings, List.append_nil, List.nil_append]
            rfl
          · show s.matched = ((pings (s.transport.send _).sent).take s.matched.length).map some
            rw [hmatched]
            rfl

/-- A PONG is matched with the deferred of the next PING that was sent. -/
theorem IsPaired.processPong (h : s.IsPaired)
    (hlt : s.matched.length < (pings s.transport.sent).length) :
    s.pongs.head? = (pings s.transport.sent)[s.matched.length]? ∧ s.processPong.IsPaired := by
  obtain ⟨flushed, dropped, direct, owed, h⟩ := h
  obtain ⟨-, hhandshake, hqueued, -, -, htransport⟩ := frame_processPong s
  have hdrop := List.drop_eq_getElem_cons hlt
  have hpongs : s.pongs = (pings s.transport.sent)[s.matched.length] ::
      ((pings s.transport.sent).drop (s.matched.length + 1) ++
        (owed ++ pings dropped ++ pings s.outbound)) := by
    rw [h.pongs_eq, hdrop, List.cons_append]
  have hhead : s.pongs.head? = (pings s.transport.sent)[s.matched.length]? := by
    rw [hpongs, List.head?_cons, List.getElem?_eq_getElem hlt]
  have hlength : (s.matched ++ [s.pongs.head?]).length = s.matched.length + 1 := by
    rw [List.length_append, List.length_singleton]
  obtain ⟨houtbound, hinfo, hconnected⟩ : s.processPong.outbound = s.outbound ∧
      s.processPong.infoReceived = s.infoReceived ∧ s.processPong.connected = s.connected := by
    unfold Link.processPong
    cases s.pongs <;> exact ⟨rfl, rfl, rfl⟩
  refine ⟨hhead, flushed, dropped, direct, owed, ?_, ?_, ?_, ?_, ?_, ?_, h.order, ?_, ?_, ?_⟩
  · rw [hqueued, houtbound]
    exact h.queued_eq
  · rw [htransport]
    exact h.sent_pings
  · rw [hhandshake]
    exact h.handshake_eq
  · rw [pongs_processPong, matched_processPong, hlength, htransport, houtbound, hpongs,
      List.tail_cons]
  · rw [matched_processPong, hlength, htransport, hhead, List.take_add_one, List.map_append,
      ← h.matched_eq, List.getElem?_eq_getElem hlt]
    rfl
  · rw [htransport]
    exact h.flushed_sublist
  · rw [htransport]
    exact h.dropped_done
  · rw [hconnected]
    exact h.direct_on
  · rw [hinfo]
    exact h.noInfo

/-- A dial succeeds behind the PONG that answers its handshake. -/
theorem IsPaired.dialDone {d : Nat} (h : s.IsPaired) (hsent : d ∈ pings s.transport.sent)
    (subs : List Command) : (s.dialDone subs).IsPaired := by
  obtain ⟨flushed, dropped, direct, owed, h⟩ := h
  have hdirect : direct ≠ [] := by
    intro hnil
    have hflushed : flushed = [] := by
      by_contra hne
      exact h.order hne hnil
    rw [h.sent_pings, hnil, hflushed] at hsent
    cases hsent
  have hconnected :
      ({ s with connected := true, connectError := false, loop := .idle } : Link).IsPaired :=
    ⟨flushed, dropped, direct, owed, h.queued_eq, h.sent_pings, h.handshake_eq, h.pongs_eq,
      h.matched_eq, h.flushed_sublist, h.order, h.dropped_done, fun _ => hdirect, h.noInfo⟩
  exact (hconnected.send (pings_commands subs)).flushPending.congr rfl rfl rfl rfl rfl rfl rfl id id

theorem IsPaired.dialFailed (h : s.IsPaired) (connectFailed : Bool) :
    (s.dialFailed connectFailed).IsPaired := by
  unfold Link.dialFailed
  cases s.handshake with
  | none =>
      exact h.congr rfl rfl rfl (Transport.sent_close _ _) rfl rfl rfl id
        fun _ => Transport.done_close _ _
  | some pong =>
      by_cases hfailed : connectFailed = true
      · simp only [if_pos hfailed]
        exact h.congr rfl rfl rfl (Transport.sent_close _ _) rfl rfl rfl id
          fun _ => Transport.done_close _ _
      · simp only [if_neg hfailed]
        exact h.congr rfl rfl rfl (Transport.sent_close _ _) rfl rfl rfl id
          fun _ => Transport.done_close _ _

theorem IsPaired.closedNotification (h : s.IsPaired) (reconnect : Bool) :
    (s.closedNotification reconnect).IsPaired := by
  have hoff : ({ s with
      connected := false
      transport := { s.transport with notifies := false } } : Link).IsPaired :=
    h.congr rfl rfl rfl rfl rfl rfl rfl (fun hon => by cases hon) id
  unfold Link.closedNotification
  by_cases hclosed : s.closed = true
  · simp only [if_pos hclosed]
    exact hoff
  · simp only [if_neg hclosed]
    by_cases hagain : reconnect = true
    · simp only [if_pos hagain]
      exact hoff.congr rfl rfl rfl rfl rfl rfl rfl id id
    · simp only [if_neg hagain]
      exact hoff.close

/-- A dial starts with empty queues and the handshake owed. -/
theorem IsPaired.prepare (hoff : s.connected = false) : s.prepare.IsPaired := by
  refine ⟨[], [], [], [s.deferreds.created], rfl, rfl, ?_, ?_, rfl, List.Sublist.refl _,
    fun hne => absurd rfl hne, fun hne => absurd rfl hne, fun hon => ?_, fun _ => ⟨rfl, rfl, rfl⟩⟩
  · rw [handshake_prepare]
    rfl
  · rw [pongs_prepare]
    rfl
  · rw [show s.prepare.connected = s.connected from rfl, hoff] at hon
    cases hon

/-! ## The invariant of every run -/

/-- The invariant of the link. -/
structure Inv (s : Link) : Prop where
  owned : s.Owned
  controlled : s.Controlled
  paired : s.IsPaired
  /-- A handshake is resolved by the PONG for its PING. -/
  answered : ∀ d, s.handshake = some d → s.outcome d = some .resolved → d ∈ pings s.transport.sent

theorem inv_new (pendingLimit maxOut : Nat) : (new pendingLimit maxOut).Inv :=
  ⟨owned_new _ _, controlled_new _ _, isPaired_new _ _, fun d hd => (by cases hd)⟩

theorem mem_pings_mono {xs ys : List Frame} {d : Nat} (h : xs <+: ys) (hd : d ∈ pings xs) :
    d ∈ pings ys :=
  mem_pings.2 (h.subset (mem_pings.1 hd))

theorem answered_step {e : Event} (hs : s.Inv) (hstep : s.step e = some s') :
    ∀ d, s'.handshake = some d → s'.outcome d = some .resolved → d ∈ pings s'.transport.sent := by
  intro d hhandshake hres
  rcases evolves_step hstep with ⟨-, -, rfl⟩ | ⟨-, hlt, rfl⟩ | hevolves
  · have hnew : s.prepare.handshake = some d := hhandshake
    have hout : s.prepare.outcome d = some .resolved := hres
    rw [handshake_prepare, Option.some.injEq] at hnew
    have hfresh : s.outcome s.deferreds.created = none := s.deferreds.fresh _ (Nat.le_refl _)
    rw [← hnew, outcome_prepare, hfresh] at hout
    simp at hout
  · obtain ⟨-, hsame, -, -, -, htransport⟩ := frame_processPong s
    rw [hsame] at hhandshake
    rw [htransport]
    rw [outcome_processPong] at hres
    by_cases hopen : s.pongs.head? = some d ∧ d < s.deferreds.created ∧ s.outcome d = none
    · have hhead := (hs.paired.processPong hlt).1
      rw [hopen.1, List.getElem?_eq_getElem hlt, Option.some.injEq] at hhead
      rw [hhead]
      exact List.getElem_mem hlt
    · rw [if_neg hopen] at hres
      exact hs.answered d hhandshake hres
  · rw [hevolves.handshake] at hhandshake
    have hlt := hs.owned.handshake_lt d hhandshake
    apply mem_pings_mono hevolves.sent
    apply hs.answered d hhandshake
    cases ho : s.outcome d with
    | none =>
        rcases hevolves.resolved d ho hres with hmem | hle
        · exact absurd hmem (hs.owned.handshake_pendings d hhandshake)
        · omega
    | some o =>
        rw [hevolves.settled d o ho] at hres
        exact hres

theorem isPaired_step {e : Event} (hs : s.Inv) (hstep : s.step e = some s') : s'.IsPaired := by
  have hp := hs.paired
  cases step_of_eq hstep with
  | command c => exact hp.sendCommand c
  | flush => exact hp.flush
  | flushTask => exact hp.flushPending.congr rfl rfl rfl rfl rfl rfl rfl id id
  | heartbeatTimer => exact hp.heartbeatTimer
  | heartbeatThen ping o => cases o <;> exact hp.congr rfl rfl rfl rfl rfl rfl rfl id id
  | prepare hbetween =>
      have hoff : s.connected = false := by
        apply hs.controlled.off
        rw [hbetween]
        decide
      exact (IsPaired.prepare hoff).congr rfl rfl rfl rfl rfl rfl rfl id id
  | info options => exact hp.processInfo options
  | ping => exact hp.send rfl
  | pong howed => exact (hp.processPong howed).2
  | dialDone subs pong hpong _ hresolved =>
      exact hp.dialDone (hs.answered pong hpong hresolved) subs
  | dialFailed connectFailed => exact hp.dialFailed connectFailed
  | disconnect =>
      exact hp.congr rfl rfl rfl (Transport.sent_close _ _) rfl rfl rfl id fun _ =>
        Transport.done_close _ _
  | closedNotification reconnect => exact hp.closedNotification reconnect
  | giveUp =>
      have hidle : ({ s with loop := .idle } : Link).IsPaired :=
        hp.congr rfl rfl rfl rfl rfl rfl rfl id id
      exact hidle.close
  | close => exact hp.close

/-- **One event.** -/
theorem inv_step {e : Event} (hs : s.Inv) (hstep : s.step e = some s') : s'.Inv where
  owned := owned_step hs.owned hstep
  controlled := controlled_step hs.controlled hstep
  paired := isPaired_step hs hstep
  answered := answered_step hs hstep

/-! ## The main result -/

/-- The flush that a PONG resolves: everything queued in front of its PING was sent. -/
theorem sent_of_resolved {c d : Nat} {q : List Frame} {e : Event} (hs : s.Inv)
    (hawaited : Awaited c q d s) (hstep : s.step e = some s') (hnone : s.outcome d = none)
    (hres : s'.outcome d = some .resolved) :
    e = .pong ∧ s'.connection = c ∧ (q ++ [Frame.ping d]).Sublist s'.transport.sent := by
  rcases evolves_step hstep with ⟨-, -, rfl⟩ | ⟨he, hlt, rfl⟩ | hevolves
  · have hout : s.prepare.outcome d = some .resolved := hres
    rw [outcome_prepare, hnone] at hout
    by_cases hopen : d ∈ s.pongs ∧ d < s.deferreds.created ∧ (none : Option Outcome) = none
    · rw [if_pos hopen] at hout
      cases hout
    · rw [if_neg hopen] at hout
      cases hout
  · obtain ⟨-, -, -, -, hconnection, htransport⟩ := frame_processPong s
    obtain ⟨hhere, hprefix⟩ := hawaited.here hnone
    refine ⟨he, hconnection.trans hhere, ?_⟩
    rw [htransport]
    have hhead := (hs.paired.processPong hlt).1
    rw [outcome_processPong] at hres
    have hfirst : s.pongs.head? = some d := by
      by_contra hne
      rw [if_neg (fun hopen => hne hopen.1), hnone] at hres
      cases hres
    rw [hfirst, List.getElem?_eq_getElem hlt, Option.some.injEq] at hhead
    have hmem : d ∈ pings s.transport.sent := by
      rw [hhead]
      exact List.getElem_mem hlt
    obtain ⟨flushed, dropped, direct, owed, hp⟩ := hs.paired
    have hflushed : d ∈ pings flushed := by
      rw [hp.sent_pings, List.mem_append] at hmem
      rcases hmem with hmem | hmem
      · have hhandshake : d ∈ s.handshake.toList := by
          rw [← hp.handshake_eq]
          exact List.mem_append_left _ hmem
        exact absurd (Option.mem_toList.1 hhandshake) hawaited.not_handshake
      · exact hmem
    have hqueued : flushed <+: s.queued := by
      rw [hp.queued_eq, List.append_assoc]
      exact List.prefix_append _ _
    refine List.Sublist.trans ?_ hp.flushed_sublist
    -- the PING is in what was flushed, so what was queued in front of it is too
    rcases List.prefix_or_prefix_of_prefix hprefix hqueued with hle | hle
    · exact hle.sublist
    · rcases List.prefix_concat_iff.1 hle with heq | hshort
      · simp only [heq, List.Sublist.refl]
      · exact absurd (mem_pings_mono hshort hflushed) hawaited.first
  · have hlt := hawaited.lt
    rcases hevolves.resolved d hnone hres with hmem | hle
    · exact absurd hmem hawaited.not_pendings
    · omega

/-- The handshake is the first PING of a connection. -/
theorem IsPaired.first (h : s.IsPaired) :
    ∀ d ∈ (pings s.transport.sent).head?, s.handshake = some d := by
  obtain ⟨flushed, dropped, direct, owed, h⟩ := h
  intro d hd
  have heq := h.handshake_eq
  have horder := h.order
  rw [h.sent_pings] at hd
  cases direct with
  | cons d' direct =>
      cases hhandshake : s.handshake with
      | none =>
          rw [hhandshake] at heq
          cases heq
      | some pong =>
          rw [hhandshake] at heq
          simp only [List.cons_append, Option.toList_some, List.cons.injEq] at heq
          simp only [List.cons_append, List.head?_cons, Option.mem_some_iff] at hd
          rw [← hd, heq.1]
  | nil =>
      have hflushed : flushed = [] := by
        by_contra hne
        exact horder hne rfl
      rw [hflushed] at hd
      cases hd

/-- Each PONG so far was matched with the deferred of its PING. -/
theorem IsPaired.matched_getElem (h : s.IsPaired) {k : Nat} (hk : k < s.matched.length) :
    ∃ d, s.matched[k]? = some (some d) ∧ (pings s.transport.sent)[k]? = some d := by
  obtain ⟨flushed, dropped, direct, owed, h⟩ := h
  have hlt : k < (pings s.transport.sent).length := Nat.lt_of_lt_of_le hk h.matched_le
  refine ⟨(pings s.transport.sent)[k], ?_, List.getElem?_eq_getElem hlt⟩
  rw [h.matched_eq, List.getElem?_map, List.getElem?_take, if_pos hk, List.getElem?_eq_getElem hlt]
  rfl

/-- **PINGs and PONGs are paired**, in every run. The `k`-th PONG of a connection is matched with
the deferred of the `k`-th PING written on it, the handshake being the first. A flush is resolved by
a PONG of the connection it was called on, behind everything queued since the last reset. What is
pending in front of a dial is rejected and never matched again. -/
theorem pairing (pendingLimit maxOut : Nat) (es : List Event)
    (hrun : run step (new pendingLimit maxOut) es = some s) :
    (∀ k < s.matched.length,
      ∃ d, s.matched[k]? = some (some d) ∧ (pings s.transport.sent)[k]? = some d) ∧
    (∀ d ∈ (pings s.transport.sent).head?, s.handshake = some d) ∧
    (∀ es' s₁ e s₂, run step s.flush es' = some s₁ → step s₁ e = some s₂ →
      s₁.outcome s.deferreds.created = none →
      s₂.outcome s.deferreds.created = some .resolved →
      e = .pong ∧ s₂.connection = s.connection ∧
        (s.queued ++ [Frame.ping s.deferreds.created]).Sublist s₂.transport.sent) ∧
    (∀ d < s.deferreds.created, s.outcome d = none →
      ∀ es' s₁ s₂, step s .prepare = some s₁ → run step s₁ es' = some s₂ →
        s₂.outcome d = some .rejected ∧ some d ∉ s₂.matched) := by
  have hinv : s.Inv := invariant_run (fun _ _ _ h hstep => inv_step h hstep) hrun (inv_new _ _)
  refine ⟨fun k hk => hinv.paired.matched_getElem hk, hinv.paired.first, ?_, ?_⟩
  · intro es' s₁ e s₂ hrun' hstep hnone hres
    have hflush : s.flush.Inv ∧ Awaited s.connection s.queued s.deferreds.created s.flush :=
      ⟨inv_step (e := .flush) hinv rfl, awaited_flush hinv.owned⟩
    obtain ⟨hinv₁, hawaited⟩ := invariant_run
      (I := fun s' => s'.Inv ∧ Awaited s.connection s.queued s.deferreds.created s')
      (fun _ _ _ h hstep => ⟨inv_step h.1 hstep, awaited_step h.1.owned h.2 hstep⟩) hrun' hflush
    exact sent_of_resolved hinv₁ hawaited hstep hnone hres
  · intro d hlt hnone es' s₁ s₂ hprepare hrun'
    have habandoned : Abandoned d s₁ := by
      simp only [step, Option.ite_none_right_eq_some, Option.some.injEq] at hprepare
      obtain ⟨-, rfl⟩ := hprepare
      obtain ⟨hrejected, hpongs, hmatched⟩ := abandoned_prepare hinv.owned hlt hnone
      exact ⟨hrejected, hpongs, hmatched⟩
    obtain ⟨hrejected, -, hmatched⟩ := invariant_run
      (fun _ _ _ h hstep => abandoned_step h hstep) hrun' habandoned
    exact ⟨hrejected, hmatched⟩

/-- A connection with a flush before and behind its handshake, a heartbeat, and a second dial that
finds one flush pending. -/
theorem pairing_redial :
    ∃ s, run step (new 32768 2)
        [.prepare, .flush, .info (some "\x7b\x7d"), .pong, .dialDone [.sub "a" none 1], .pong,
          .heartbeatTimer, .pong, .heartbeatThen 2, .command (.unsub 1 none), .flushTask, .flush,
          .disconnect, .closedNotification true] = some s ∧
      s.matched = [some 0, some 1, some 2] ∧ s.pongs = [3] ∧
      (∀ k < s.matched.length,
        ∃ d, s.matched[k]? = some (some d) ∧ (pings s.transport.sent)[k]? = some d) ∧
      (∀ d < s.deferreds.created, s.outcome d = none →
        ∀ es' s₁ s₂, step s .prepare = some s₁ → run step s₁ es' = some s₂ →
          s₂.outcome d = some .rejected ∧ some d ∉ s₂.matched) := by
  have h := pairing 32768 2
    [.prepare, .flush, .info (some "\x7b\x7d"), .pong, .dialDone [.sub "a" none 1], .pong,
      .heartbeatTimer, .pong, .heartbeatThen 2, .command (.unsub 1 none), .flushTask, .flush,
      .disconnect, .closedNotification true] rfl
  exact ⟨_, rfl, rfl, rfl, h.1, h.2.2.2⟩

end Link

end NatsClient.Connection
