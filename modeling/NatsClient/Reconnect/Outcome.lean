import NatsClient.Reconnect.Attempts

/-!
# The promises of a client

What a step does to the pong of the running dial, to `connected` and to `closed`, beside what it
does to the dialer; and what holds of a client whatever happened.

* `outcome_of_step`: what a step does to the promises;
* `tracked_run`: the pool is sound, the counters count, and a connected client has its server in the
  pool.
-/

set_option autoImplicit false

namespace NatsClient.Reconnect

open NatsClient.Foundation

namespace Client

variable {hostPort : String → String} {options : ConnectionOptions} {listens : List String}
  {c c' : Client} {e : Event} {es : List Event}

theorem closeTransport_eq (c : Client) (err : Option Reason) :
    ∃ transport, c.closeTransport err = { c with transport } := by
  rw [closeTransport]
  split
  · split
    · exact ⟨c.transport, rfl⟩
    · exact ⟨_, rfl⟩
  · exact ⟨c.transport, rfl⟩

theorem lost_eq (c : Client) (err : Option Reason) :
    ∃ transport notifications, c.lost err = { c with transport, notifications } := by
  rw [lost]
  split
  · split
    · exact ⟨c.transport, c.notifications, rfl⟩
    · exact ⟨_, _, rfl⟩
  · exact ⟨c.transport, c.notifications, rfl⟩

/-- A rejection with an error. -/
theorem rejectPong_eq (c : Client) (err : Reason) :
    ∃ pong, c.rejectPong (some err) = { c with pong } ∧
      (pong = .rejected none → c.pong = .rejected none) := by
  rw [rejectPong]
  split
  · exact ⟨_, rfl, fun hno => by cases hno⟩
  · exact ⟨c.pong, rfl, id⟩

@[simp] theorem close_closed (c : Client) (err : Option Reason) : (c.close err).closed = true := by
  rw [close]
  split
  case isTrue h => exact h
  case isFalse =>
    obtain ⟨transport, h⟩ := closeTransport_eq
      { (if c.connectError then { c.rejectPong err with connectError := false } else c) with
        closed := true, closedWith := err } err
    exact h ▸ rfl

@[simp] theorem close_connected (c : Client) (err : Option Reason) :
    (c.close err).connected = c.connected := by
  rw [close]
  split
  · rfl
  · obtain ⟨transport, h⟩ := closeTransport_eq
      { (if c.connectError then { c.rejectPong err with connectError := false } else c) with
        closed := true, closedWith := err } err
    refine (congrArg connected h).trans ?_
    show (ite _ _ _ : Client).connected = _
    split
    · show (c.rejectPong err).connected = _
      rw [rejectPong]
      split <;> rfl
    · rfl

theorem failWaiters_cases (c : Client) (err : Reason) :
    c.failWaiters err = c ∨ c.failWaiters err = { c with waiters := 0 }.close (some err) := by
  rw [failWaiters]
  split
  · exact .inl rfl
  · exact .inr rfl

theorem pass_cases (c : Client) (wait now later : Int) :
    let next : Client := { c with toDialer := c.toDialer.pass c.closed wait now later }
    c.pass wait now later = next ∨
      c.pass wait now later = { next with waiters := 0 }.close (some next.thrown) := by
  rw [pass]
  split
  · exact failWaiters_cases _ _
  · exact .inl rfl

theorem sendConnect_cases (c : Client) (blown : Option Reason) :
    (∃ infoReceived, c.sendConnect blown = { c with infoReceived }) ∨
      ∃ err, c.sendConnect blown = { c with infoReceived := true }.close (some err) := by
  cases blown with
  | none =>
      rw [sendConnect]
      split
      · exact .inl ⟨c.infoReceived, rfl⟩
      · exact .inl ⟨true, rfl⟩
  | some err =>
      rw [sendConnect]
      split
      · exact .inl ⟨c.infoReceived, rfl⟩
      · exact .inr ⟨err, rfl⟩

@[simp] theorem dialDone_loop (c : Client) (srv : Nat) : (c.dialDone srv).loop = .idle := by
  show (ite _ _ _ : Dialer).loop = _
  split
  · rfl
  · rw [Dialer.cleanUp_eq]
    rfl

/-- What a step does to the promises of a client: little, or it closes the client, or it ends a
dial, or it takes a notification. -/
inductive Outcome (c : Client) (e : Event) (c' : Client) : Prop where
  | quiet (hne : e ≠ .notify) (hconnected : c'.connected = c.connected)
      (hclosed : c'.closed = c.closed) (hpong : c'.pong = .rejected none → c.pong = .rejected none)
  | closes (hconnected : c'.connected = true → c.connected = true ∧ e ≠ .notify)
      (hclosed : c'.closed = true)
  | dialed (srv alts : Nat) (hloop : c.loop = .dialing srv alts) (hdone : c' = c.dialDone srv)
  | notified (hconnected : c'.connected = false) (hclosed : c'.closed = c.closed)
      (hpong : c'.pong = c.pong)

/-- **What a step does to the promises.** -/
theorem outcome_of_step (hstep : c.step hostPort options e = some c') : Outcome c e c' := by
  cases e with
  | pass wait now later =>
      obtain ⟨-, ⟨⟩⟩ := Option.ite_none_right_eq_some.1 hstep
      rcases c.pass_cases wait now later with heq | heq
      · -- a server was chosen, or the loop waits
        rw [heq]
        exact .quiet (by simp) rfl rfl id
      · rw [heq]
        refine .closes (fun h => ?_) (close_closed _ _)
        rw [close_connected] at h
        exact ⟨h, by simp⟩
  | wake =>
      obtain ⟨-, ⟨⟩⟩ := Option.ite_none_right_eq_some.1 hstep
      exact .quiet (by simp) rfl rfl id
  | resolved alts =>
      rw [step] at hstep
      split at hstep
      · cases hstep
        cases alts with
        | zero => exact .quiet (by simp) rfl rfl id
        | succ n => exact .quiet (by simp) rfl rfl (fun hno => by cases hno)
      · cases hstep
  | resolveFailed err =>
      rw [step] at hstep
      split at hstep
      · cases hstep
        exact .quiet (by simp) rfl rfl id
      · cases hstep
  | fail err =>
      rw [step] at hstep
      split at hstep
      · cases hstep
        obtain ⟨pong, heq, hpong⟩ := c.rejectPong_eq err
        rw [heq]
        exact .quiet (by simp) rfl rfl hpong
      · cases hstep
  | settle =>
      rw [step] at hstep
      split at hstep
      case h_1 srv alts hloop hpong =>
        cases hstep
        exact .dialed srv alts hloop rfl
      case h_2 srv alts err hloop hpong =>
        cases hstep
        obtain ⟨transport, heq⟩ := c.closeTransport_eq err
        rw [dialFailed.eq_def, heq]
        cases alts with
        -- the PONG was rejected before the dial ended
        | zero => exact .quiet (by simp) rfl rfl id
        | succ n => exact .quiet (by simp) rfl rfl (fun hno => by cases hno)
      case h_3 => cases hstep
  | error text =>
      obtain ⟨-, ⟨⟩⟩ := Option.ite_none_right_eq_some.1 hstep
      rw [processError]
      split
      · split
        · obtain ⟨pong, heq, hpong⟩ := rejectPong_eq
            { c with toDialer := c.toDialer.processError options (toError text) }
            (.nats (toError text))
          rw [heq]
          exact .quiet (by simp) rfl rfl hpong
        · obtain ⟨transport, notifications, heq⟩ := lost_eq
            { c with toDialer := c.toDialer.processError options (toError text) } none
          rw [disconnect, heq]
          exact .quiet (by simp) rfl rfl id
      · exact .quiet (by simp) rfl rfl id
  | pong =>
      obtain ⟨-, ⟨⟩⟩ := Option.ite_none_right_eq_some.1 hstep
      rw [processPong]
      split
      · exact .quiet (by simp) rfl rfl (fun hno => by cases hno)
      · exact .quiet (by simp) rfl rfl id
  | info urls blown =>
      obtain ⟨-, ⟨⟩⟩ := Option.ite_none_right_eq_some.1 hstep
      rw [processInfo]
      generalize hk : (if options.ignoreClusterUpdates = true then c
        else { c with servers := (c.servers.update hostPort urls).1 }) = k
      -- the pool is all that an INFO changes before the CONNECT is sent
      have hsame : k.connected = c.connected ∧ k.closed = c.closed ∧ k.pong = c.pong := by
        rw [← hk]
        split
        · exact ⟨rfl, rfl, rfl⟩
        · exact ⟨rfl, rfl, rfl⟩
      obtain ⟨hconnected, hclosed, hpong⟩ := hsame
      rcases k.sendConnect_cases blown with ⟨received, heq⟩ | ⟨err, heq⟩
      · rw [heq]
        exact .quiet (by simp) hconnected hclosed fun h => hpong ▸ h
      · rw [heq]
        refine .closes (fun h => ?_) (close_closed _ _)
        rw [close_connected] at h
        exact ⟨hconnected.symm.trans h, by simp⟩
  | lost err =>
      obtain ⟨-, ⟨⟩⟩ := Option.ite_none_right_eq_some.1 hstep
      obtain ⟨transport, notifications, heq⟩ := c.lost_eq err
      rw [heq]
      exact .quiet (by simp) rfl rfl id
  | notify =>
      obtain ⟨-, ⟨⟩⟩ := Option.ite_none_left_eq_some.1 hstep
      rw [closedNotification]
      split
      · exact .notified rfl rfl rfl
      · rw [disconnected]
        split
        · split
          · exact .notified rfl rfl rfl
          · exact .notified rfl rfl rfl
        · refine .closes (fun h => ?_) (close_closed _ _)
          rw [close_connected] at h
          cases h
  | close =>
      obtain ⟨-, ⟨⟩⟩ := Option.ite_none_right_eq_some.1 hstep
      refine .closes (fun h => ?_) (close_closed _ _)
      rw [close_connected] at h
      exact ⟨h, by simp⟩

/-- A closed client stays closed. -/
theorem closed_step (hstep : c.step hostPort options e = some c') (h : c.closed = true) :
    c'.closed = true := by
  cases outcome_of_step hstep with
  | quiet hne hconnected hclosed => exact hclosed.trans h
  | closes hconnected hclosed => exact hclosed
  | dialed srv alts hloop hdone =>
      rw [hdone]
      exact h
  | notified hconnected hclosed => exact hclosed.trans h

/-- A dial fails without an error when there was no address, or its pong was rejected without. -/
theorem failed_none_step (hstep : c.step hostPort options e = some c') {srv : Nat}
    (hj : c'.journal = .failed srv none :: c.journal) :
    e = .resolved 0 ∨ c.pong = .rejected none := by
  obtain ⟨-, hd, herr⟩ := Dialer.eq_catchFailure (effect_of_step hstep) hj
  rcases herr rfl with rfl | rfl
  · exact .inl rfl
  · right
    have hloop : c'.loop = .pass := congrArg Dialer.loop hd
    rw [step] at hstep
    split at hstep
    · cases hstep
      rw [dialDone_loop] at hloop
      cases hloop
    case h_2 s alts err hdialing hpong =>
      cases hstep
      cases alts with
      | zero =>
          have hcaught : ((c.closeTransport err).catchFailure options s err).journal =
              .failed s err :: (c.closeTransport err).journal := rfl
          rw [closeTransport_toDialer] at hcaught
          cases hj.symm.trans hcaught
          exact hpong
      | succ n => cases hloop
    · cases hstep

/-- A dial connects when its pong was resolved. -/
theorem connected_journal_step (hstep : c.step hostPort options e = some c') {srv : Nat}
    (hj : c'.journal = .connected srv :: c.journal) : e = .settle ∧ c.pong = .resolved := by
  obtain ⟨-, rfl, -⟩ := Dialer.eq_dialed (effect_of_step hstep) hj
  refine ⟨rfl, ?_⟩
  rw [step] at hstep
  split at hstep
  case h_1 s alts hdialing hpong => exact hpong
  case h_2 s alts err hdialing hpong =>
    cases hstep
    cases alts with
    | zero =>
        have hcaught : ((c.closeTransport err).catchFailure options s err).journal =
            .failed s err :: (c.closeTransport err).journal := rfl
        cases hj.symm.trans hcaught
    | succ n =>
        have hsame : (c.closeTransport err).journal = .connected srv :: c.journal := hj
        rw [closeTransport_toDialer] at hsame
        exact absurd hsame.symm (List.cons_ne_self _ _)
  case h_3 => cases hstep

/-! ## What holds whatever happened -/

/-- The pool is sound, the counters count, a connected client has its server in the pool, and a pong
is rejected without an error in a closed client only. -/
structure Tracked (c : Client) : Prop where
  sound : c.Sound
  counted : c.toDialer.Counted
  connected : c.connected = true →
    c.loop = .idle ∧ c.connectedOnce = true ∧ c.servers.currentServer ∈ c.servers.servers
  rejected : c.pong = .rejected none → c.closed = true

/-- What the first selection relies on. -/
theorem Sound.first (h : c.Sound) (hfirst : c.servers.firstSelect = true) :
    c.closed = false ∧ c.servers.currentServer ∈ c.servers.servers :=
  ⟨(h.unstarted hfirst).2.2.1, (h.unstarted hfirst).1⟩

theorem Sound.firstSelect_of_once (h : c.Sound) (honce : c.connectedOnce = true) :
    c.servers.firstSelect = false := by
  cases hfirst : c.servers.firstSelect with
  | false => rfl
  | true =>
      obtain ⟨-, -, -, hnever, -⟩ := h.unstarted hfirst
      exact absurd (honce.symm.trans hnever) nofun

/-- A client that stays connected keeps its server. -/
theorem Tracked.stays (h : c.Tracked) (hconnected : c.connected = true) (hne : e ≠ .notify)
    (hstep : c.step hostPort options e = some c') :
    c'.loop = .idle ∧ c'.connectedOnce = true ∧
      c'.servers.currentServer ∈ c'.servers.servers := by
  obtain ⟨hloop, honce, hmem⟩ := h.connected hconnected
  have he := effect_of_step hstep
  generalize c'.toDialer = d' at he ⊢
  cases he with
  | rest => exact ⟨hloop, honce, hmem⟩
  | moved e loop hserver hfrom => exact absurd hloop hfrom.2
  | outage => exact absurd rfl hne
  | update urls =>
      have hupdates := Servers.updates_update h.sound.dialer.made hostPort urls
      exact ⟨hloop, honce, hupdates.currentServer.symm ▸ hupdates.kept _ hmem (.inr rfl)⟩
  | error text =>
      rw [Dialer.processError_eq]
      exact ⟨hloop, honce, hmem⟩
  | pass wait now later hpass => exact absurd (hloop.symm.trans hpass) nofun
  | failed e srv err hserver =>
      rw [hloop] at hserver
      cases hserver
  | connected srv alts hdialing => exact absurd (hloop.symm.trans hdialing) nofun
  | reconnected srv alts hdialing => exact absurd (hloop.symm.trans hdialing) nofun

/-- A dial that connects leaves the current server in the pool. -/
theorem Tracked.dialDone (h : c.Tracked) {srv alts : Nat} (hloop : c.loop = .dialing srv alts) :
    (c.dialDone srv).loop = .idle ∧ (c.dialDone srv).connectedOnce = true ∧
      (c.dialDone srv).servers.currentServer ∈ (c.dialDone srv).servers.servers := by
  obtain ⟨hcurrent, hmem, hserver⟩ := h.sound.dialer.tried srv (hloop ▸ rfl)
  have hdone : (c.toDialer.dialed srv).servers.currentServer ∈
      (c.toDialer.dialed srv).servers.servers := by
    simp only [Dialer.dialed, hserver]
    exact hcurrent.symm ▸ hmem
  refine ⟨dialDone_loop c srv, ?_, ?_⟩
  · show (ite _ _ _ : Dialer).connectedOnce = true
    split
    · rfl
    · rw [Dialer.cleanUp_eq]
      rfl
  · show (ite _ _ _ : Dialer).servers.currentServer ∈ (ite _ _ _ : Dialer).servers.servers
    split
    · exact hdone
    · rw [Dialer.cleanUp_eq]
      exact hdone

theorem tracked_new (hostPort : String → String) (listens : List String) :
    (new hostPort listens).Tracked := by
  refine ⟨sound_new hostPort listens, ⟨rfl, fun _ _ => rfl, nofun, fun _ _ _ => rfl⟩, nofun, nofun⟩

theorem tracked_step (h : c.Tracked) (hstep : c.step hostPort options e = some c') :
    c'.Tracked := by
  have he := effect_of_step hstep
  have houtcome := outcome_of_step hstep
  refine ⟨sound_step h.sound hstep, h.counted.effect h.sound.dialer h.sound.first he, ?_, ?_⟩
  · intro hconnected
    cases houtcome with
    | quiet hne hsame => exact h.stays (hsame.symm.trans hconnected) hne hstep
    | closes hsame =>
        obtain ⟨hbefore, hne⟩ := hsame hconnected
        exact h.stays hbefore hne hstep
    | dialed srv alts hloop hdone =>
        rw [hdone]
        exact h.dialDone hloop
    | notified hno => exact absurd (hno.symm.trans hconnected) nofun
  · intro hpong
    cases houtcome with
    | quiet hne hsame hclosed hbefore => exact hclosed.trans (h.rejected (hbefore hpong))
    | closes hsame hclosed => exact hclosed
    | dialed srv alts hloop hdone =>
        subst hdone
        exact h.rejected hpong
    | notified hno hclosed hsame => exact hclosed.trans (h.rejected (hsame.symm.trans hpong))

theorem tracked_run (hrun : run (step hostPort options) (new hostPort listens) es = some c) :
    c.Tracked :=
  invariant_run (fun _ _ _ => tracked_step) hrun (tracked_new hostPort listens)

end Client

end NatsClient.Reconnect
