import NatsClient.Connection.Draining

/-!
# Transports that are open and transports that are closed

What the steps of the link do to its transport. Without a dial a transport that is closed stays
closed and the connection does not come up (`keeps_step`); where the connection is up and the
transport is closed, that is going to be handled (`Regular`). A connection that is up stays so until
its transport is closed (`lasting_step`).
-/

set_option autoImplicit false

namespace NatsClient.Connection

open NatsClient.Foundation

namespace Link

variable {s s' s'' : Link}

/-- The handshake was answered. -/
def answered (s : Link) : Bool :=
  match s.handshake with
  | some pong => s.outcome pong = some .resolved
  | none => false

/-- The connection is up, or will be as soon as the dial goes on, and its transport is open. -/
def live (s : Link) : Bool := !s.transport.done && (s.connected || s.answered)

/-- The closed notification of the transport is still to come, or the connection is closed. -/
def handles (s : Link) : Bool := s.transport.notifies || s.closed

/-- What all runs of the link keep. Where the connection is up and the transport is closed, that is
going to be handled. -/
structure Regular (s : Link) : Prop where
  owned : s.Owned
  controlled : s.Controlled
  handled : s.connected = true → s.transport.done = true → s.handles = true

/-- The connection does not come up, the transport stays closed, and what closes it is handled. -/
structure Keeps (s s' : Link) : Prop where
  connected : s'.connected = true → s.connected = true
  done : s.transport.done = true → s'.transport.done = true
  handled : (s.connected = true → s.transport.done = true → s.handles = true) →
    s'.connected = true → s'.transport.done = true → s'.handles = true

theorem Keeps.trans (hk : Keeps s s') (hk' : Keeps s' s'') : Keeps s s'' where
  connected h := hk.connected (hk'.connected h)
  done h := hk'.done (hk.done h)
  handled h := hk'.handled (hk.handled h)

theorem keeps_of_flags (hconnected : s'.connected = s.connected)
    (hdone : s'.transport.done = s.transport.done)
    (hnotifies : s'.transport.notifies = s.transport.notifies) (hclosed : s'.closed = s.closed) :
    Keeps s s' where
  connected h := hconnected ▸ h
  done h := hdone.trans h
  handled h hup hshut := by
    rw [handles, hnotifies, hclosed]
    exact h (hconnected ▸ hup) (hdone ▸ hshut)

theorem Keeps.refl (s : Link) : Keeps s s := keeps_of_flags rfl rfl rfl rfl

theorem keeps_send (s : Link) (frames : List Frame) : Keeps s (s.send frames) :=
  keeps_of_flags rfl (Transport.done_send _ _) (Transport.notifies_send _ _) rfl

theorem transport_flushPending (s : Link) : s.flushPending.transport.done = s.transport.done ∧
    s.flushPending.transport.notifies = s.transport.notifies := by
  rw [flushPending]
  split
  · split
    · exact ⟨Transport.done_send _ _, Transport.notifies_send _ _⟩
    · exact ⟨rfl, rfl⟩
  · exact ⟨rfl, rfl⟩

theorem keeps_flushPending (s : Link) : Keeps s s.flushPending :=
  keeps_of_flags (connected_flushPending s) (transport_flushPending s).1
    (transport_flushPending s).2 (closed_flushPending s)

theorem keeps_flush (s : Link) : Keeps s s.flush := by
  refine Keeps.trans ?_ (keeps_flushPending _)
  exact keeps_of_flags rfl rfl rfl rfl

theorem keeps_sendCommand (s : Link) (c : Command) : Keeps s (s.sendCommand c) := by
  have hfill : Keeps s (s.fill (.command c)) := keeps_of_flags rfl rfl rfl rfl
  rw [sendCommand]
  split
  · exact hfill.trans (keeps_of_flags rfl rfl rfl rfl)
  · split
    · exact hfill.trans (keeps_flushPending _)
    · exact hfill

/-- `disconnect()`: the notification is to come. -/
theorem keeps_disconnect (s : Link) : Keeps s s.disconnect where
  connected := id
  done _ := Transport.done_close _ _
  handled h hup _ := by
    by_cases hdone : s.transport.done = true
    · have hsame : s.disconnect = s := by rw [disconnect, Transport.close, if_pos hdone]
      rw [hsame]
      exact h hup hdone
    · have hnotifies : s.disconnect.transport.notifies = true := by
        rw [disconnect, Transport.close, if_neg hdone]
      rw [handles, hnotifies, Bool.true_or]

theorem keeps_failConnect (s : Link) : Keeps s s.failConnect := by
  rw [failConnect]
  split
  · split
    · exact keeps_of_flags rfl rfl rfl rfl
    · exact .refl s
  · exact .refl s

theorem keeps_close (s : Link) : Keeps s s.close := by
  rw [close]
  split
  · exact .refl s
  · have hcancel : Keeps s s.heartbeatCancel := keeps_of_flags rfl rfl rfl rfl
    refine (hcancel.trans (keeps_failConnect _)).trans ⟨id, fun _ => Transport.done_close _ _,
      fun _ _ _ => ?_⟩
    exact Bool.or_true _

theorem keeps_processInfo (s : Link) (options : Option String) :
    Keeps s (s.processInfo options) := by
  have hinfo : Keeps s { s with infoReceived := true } := keeps_of_flags rfl rfl rfl rfl
  unfold processInfo
  split
  · exact .refl s
  · split
    · exact hinfo.trans (keeps_send _ _)
    · exact hinfo.trans (keeps_close _)

theorem keeps_processPong (s : Link) : Keeps s s.processPong := by
  rw [processPong]
  split <;> exact keeps_of_flags rfl rfl rfl rfl

theorem keeps_closedNotification (s : Link) (reconnect : Bool) :
    Keeps s (s.closedNotification reconnect) := by
  have hoff : ∀ loop, Keeps s { s with
      connected := false
      transport := { s.transport with notifies := false }
      loop := loop } := fun loop => ⟨fun h => (by cases h), id, fun _ h => (by cases h)⟩
  rw [closedNotification]
  split
  · exact hoff s.loop
  · split
    · exact hoff _
    · exact (hoff s.loop).trans (keeps_close _)

theorem keeps_step {e : Event} (hs : s.Controlled) (he : e.dials = false)
    (hstep : s.step e = some s') : Keeps s s' := by
  cases step_of_eq hstep with
  | prepare | pong | dialDone => cases he
  | command c => exact keeps_sendCommand s c
  | flush => exact keeps_flush s
  | flushTask => exact (keeps_flushPending s).trans (keeps_of_flags rfl rfl rfl rfl)
  | heartbeatTimer =>
      rw [heartbeatTimer]
      split
      · have hcancel : Keeps s s.heartbeatCancel := keeps_of_flags rfl rfl rfl rfl
        exact hcancel.trans (keeps_disconnect _)
      · exact (keeps_flush s).trans (keeps_of_flags rfl rfl rfl rfl)
  | heartbeatThen ping o => cases o <;> exact keeps_of_flags rfl rfl rfl rfl
  | info options => exact keeps_processInfo s options
  | ping => exact keeps_send s _
  | dialFailed connectFailed hdialing =>
      -- a dial runs while the connection is down
      have hoff : s.connected = false := by
        apply hs.off
        rw [hdialing]
        decide
      have hdown : (s.dialFailed connectFailed).connected = false := by
        unfold dialFailed
        split
        · split <;> exact hoff
        · exact hoff
      refine ⟨fun h => ?_, fun _ => ?_, fun _ h => ?_⟩
      · rw [hdown] at h
        cases h
      · exact Transport.done_close _ _
      · rw [hdown] at h
        cases h
  | disconnect => exact keeps_disconnect s
  | closedNotification reconnect => exact keeps_closedNotification s reconnect
  | giveUp =>
      have hidle : Keeps s { s with loop := .idle } := keeps_of_flags rfl rfl rfl rfl
      exact hidle.trans (keeps_close _)
  | close => exact keeps_close s

/-! ### Connections that stay up -/

/-- The connection is up and open, or its transport is closed. -/
def Lasting (s : Link) : Prop := s.transport.done = true ∨ s.closed = false ∧ s.connected = true

theorem lasting_close (hopen : s.closed = false) : s.close.Lasting := by
  rw [close, if_neg (by rw [hopen]; exact Bool.false_ne_true)]
  exact .inl (Transport.done_close _ _)

/-- The buffer goes to a transport that is as open as it was. -/
theorem lasting_flushPending (hopen : s.closed = false) (hup : s.connected = true) :
    s.flushPending.Lasting :=
  .inr ⟨(closed_flushPending s).trans hopen, (connected_flushPending s).trans hup⟩

theorem lasting_processInfo (hopen : s.closed = false) (hup : s.connected = true)
    (options : Option String) : (s.processInfo options).Lasting := by
  unfold processInfo
  split
  · exact .inr ⟨hopen, hup⟩
  · split
    · exact .inr ⟨hopen, hup⟩
    · exact lasting_close (s := { s with infoReceived := true }) hopen

/-- **Steps without a dial**: what ends the connection closes the transport. -/
theorem lasting_step {e : Event} (hs : s.Controlled) (he : e.dials = false) (hl : s.Lasting)
    (hstep : s.step e = some s') : s'.Lasting := by
  rcases hl with hdone | ⟨hopen, hup⟩
  · exact .inl ((keeps_step hs he hstep).done hdone)
  · have hkeeps := keeps_step hs he hstep
    cases step_of_eq hstep with
    | prepare | pong | dialDone => cases he
    | command c =>
        refine .inr ⟨(closed_sendCommand s c).trans hopen, ?_⟩
        rw [sendCommand]
        split
        · exact hup
        · split
          · exact (connected_flushPending _).trans hup
          · exact hup
    | flush => exact .inr ⟨(closed_flush s).trans hopen, (connected_flush s).trans hup⟩
    | flushTask => exact lasting_flushPending hopen hup
    | heartbeatTimer =>
        rw [heartbeatTimer]
        split
        · exact .inl (Transport.done_close _ _)
        · exact .inr ⟨(closed_flush s).trans hopen, (connected_flush s).trans hup⟩
    | heartbeatThen ping o => cases o <;> exact .inr ⟨hopen, hup⟩
    | info options => exact lasting_processInfo hopen hup options
    | ping => exact .inr ⟨hopen, hup⟩
    | dialFailed | disconnect => exact .inl (Transport.done_close _ _)
    -- the transport is closed when it notifies
    | closedNotification reconnect hnotifies =>
        exact .inl (hkeeps.done (hs.notifies_done hnotifies))
    | giveUp => exact lasting_close (s := { s with loop := .idle }) hopen
    | close => exact lasting_close hopen

/-- A connection that is up stays so until its transport is closed. -/
theorem Runs.lasting (hr : Runs (fun _ => False) s s') (hs : s.Controlled) (hl : s.Lasting) :
    s'.Lasting := by
  have hboth : s'.Controlled ∧ s'.Lasting := by
    refine hr.invariant (I := fun s => s.Controlled ∧ s.Lasting) (fun s e s' h he hstep => ?_)
      ⟨hs, hl⟩
    exact ⟨controlled_step h.1 hstep, lasting_step h.1 (Bool.eq_false_iff.2 he) h.2 hstep⟩
  exact hboth.2

/-! ### Connections that are up -/

theorem live_eq_false : s.live = false ↔
    s.transport.done = true ∨ s.connected = false ∧ s.answered = false := by
  rw [live, Bool.and_eq_false_iff, Bool.or_eq_false_iff, Bool.not_eq_false']

theorem answered_eq_true :
    s.answered = true ↔ ∃ pong, s.handshake = some pong ∧ s.outcome pong = some .resolved := by
  rw [answered]
  cases s.handshake <;> simp

/-- Only a PONG answers the handshake. -/
theorem Evolves.answered (h : Evolves s s') (hs : s.Owned) (hans : s'.answered = true) :
    s.answered = true := by
  obtain ⟨pong, hpong, hresolved⟩ := answered_eq_true.1 hans
  rw [h.handshake] at hpong
  refine answered_eq_true.2 ⟨pong, hpong, ?_⟩
  cases hbefore : s.outcome pong with
  | some o =>
      rw [← hresolved]
      exact (h.settled pong o hbefore).symm
  | none =>
      rcases h.resolved pong hbefore hresolved with hpending | hnew
      · exact absurd hpending (hs.handshake_pendings pong hpong)
      · exact absurd (hs.handshake_lt pong hpong) (Nat.not_lt.2 hnew)

theorem Keeps.live (hk : Keeps s s') (h : Evolves s s') (hs : s.Owned) (hlive : s.live = false) :
    s'.live = false := by
  rcases live_eq_false.1 hlive with hdone | ⟨hdown, hans⟩
  · exact live_eq_false.2 (.inl (hk.done hdone))
  · refine live_eq_false.2 (.inr ⟨?_, ?_⟩)
    · rw [← Bool.not_eq_true]
      intro hup
      rw [hk.connected hup] at hdown
      cases hdown
    · rw [← Bool.not_eq_true]
      intro hans'
      rw [h.answered hs hans'] at hans
      cases hans

theorem Regular.keeps (hs : s.Regular) (h : Evolves s s') (hk : Keeps s s') : s'.Regular :=
  ⟨h.owned hs.owned, h.controlled hs.controlled, hk.handled hs.handled⟩

/-- An event that is not of a dial evolves the link. -/
theorem evolves_of_dials {e : Event} (he : e.dials = false) (hstep : s.step e = some s') :
    Evolves s s' := by
  rcases evolves_step hstep with ⟨rfl, -⟩ | ⟨rfl, -⟩ | h
  · cases he
  · cases he
  · exact h

/-- **Steps without a dial.** -/
theorem Runs.regular (hr : Runs (fun _ => False) s s') (hs : s.Regular) : s'.Regular := by
  refine hr.invariant (fun s e s' hs he hstep => ?_) hs
  have hquiet : e.dials = false := Bool.eq_false_iff.2 he
  exact hs.keeps (evolves_of_dials hquiet hstep) (keeps_step hs.controlled hquiet hstep)

theorem Runs.live (hr : Runs (fun _ => False) s s') (hs : s.Regular) (hlive : s.live = false) :
    s'.live = false := by
  have hboth : s'.Regular ∧ s'.live = false := by
    refine hr.invariant (I := fun s => s.Regular ∧ s.live = false)
      (fun s e s' h he hstep => ?_) ⟨hs, hlive⟩
    have hquiet : e.dials = false := Bool.eq_false_iff.2 he
    have hevolves := evolves_of_dials hquiet hstep
    have hkeeps := keeps_step h.1.controlled hquiet hstep
    exact ⟨h.1.keeps hevolves hkeeps, hkeeps.live hevolves h.1.owned h.2⟩
  exact hboth.2

theorem Regular.processPong (hs : s.Regular) : s.processPong.Regular :=
  ⟨hs.owned.processPong, hs.controlled.processPong, (keeps_processPong s).handled hs.handled⟩

/-- **A dial starts**: the connection is down and its handshake is new. -/
theorem Regular.prepare (hs : s.Regular) (hstep : s.step .prepare = some s') :
    s'.Regular ∧ s'.live = false := by
  have howned := owned_step hs.owned hstep
  have hcontrolled := controlled_step hs.controlled hstep
  cases step_of_eq hstep with
  | prepare hbetween =>
      refine ⟨⟨howned, hcontrolled, fun _ hdone => by cases hdone⟩, live_eq_false.2 (.inr ⟨?_, ?_⟩)⟩
      · apply hs.controlled.off
        rw [hbetween]
        decide
      · -- the deferred of the handshake is new, so it is not settled
        rw [← Bool.not_eq_true]
        intro hans
        obtain ⟨pong, hpong, hresolved⟩ := answered_eq_true.1 hans
        obtain rfl : s.deferreds.created = pong :=
          Option.some.inj ((handshake_prepare s).symm.trans hpong)
        have hfresh : s.prepare.outcome s.deferreds.created = none := by
          rw [outcome_prepare, if_neg fun h => Nat.lt_irrefl _ h.2.1]
          exact s.deferreds.fresh _ (Nat.le_refl _)
        rw [show s.prepare.outcome s.deferreds.created = some .resolved from hresolved] at hfresh
        cases hfresh

/-- **A dial completes** where its handshake was answered, and the transport is as it was. -/
theorem Regular.dialDone (hs : s.Regular) {subs : List Command}
    (hstep : s.step (.dialDone subs) = some s')
    (hhandles : s.transport.done = true → s.handles = true) :
    s'.Regular ∧ (s.live = false → s'.live = false) := by
  have hflags : s'.transport.done = s.transport.done ∧
      s'.transport.notifies = s.transport.notifies ∧ s'.closed = s.closed ∧ s.answered = true := by
    cases step_of_eq hstep with
    | dialDone subs pong hpong _ hresolved =>
        have hflush := transport_flushPending
          (({ s with connected := true, connectError := false, loop := .idle } : Link).send
            (subs.map .command))
        exact ⟨hflush.1.trans (Transport.done_send _ _),
          hflush.2.trans (Transport.notifies_send _ _),
          closed_dialDone s subs, answered_eq_true.2 ⟨pong, hpong, hresolved⟩⟩
  have howned := owned_step hs.owned hstep
  have hcontrolled := controlled_step hs.controlled hstep
  obtain ⟨hdone, hnotifies, hclosed, hans⟩ := hflags
  refine ⟨⟨howned, hcontrolled, fun _ hdone' => ?_⟩, fun hlive => ?_⟩
  · rw [handles, hnotifies, hclosed]
    exact hhandles (hdone ▸ hdone')
  · rcases live_eq_false.1 hlive with hbefore | ⟨-, hno⟩
    · exact live_eq_false.2 (.inl (hdone.trans hbefore))
    · rw [hans] at hno
      cases hno

end Link

end NatsClient.Connection
