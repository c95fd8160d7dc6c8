import NatsClient.Reconnect.Outcome

/-!
# Status events

Model of `dispatchStatus` of `ProtocolHandler` (`protocol.ts`) for the events of an outage:
`disconnected` says `disconnect`, `_doDial` says `reconnecting` in front of each address, and every
call of `disconnected` that waited for the loop says `reconnect` when it connected. `_close` stops
the listeners, so that nothing is said behind it.

`statuses` is what a step says. `observe` is how somebody who hears nothing else keeps up: of a
connection that is up it knows the server; of one that is down, how many calls of `disconnected`
wait and whose address was tried last.

* `status_protocol`: an observer is never surprised, and is right about every client that is open.
-/

set_option autoImplicit false

namespace NatsClient.Reconnect

open NatsClient.Foundation

/-- A `Status`, with the server that `data` names or has the address of. -/
inductive Status where
  | disconnect (srv : Nat)
  | reconnecting (srv : Nat)
  | reconnect (srv : Nat)
deriving DecidableEq, Repr

/-- What a step dispatches. -/
def dispatched (c : Client) : Event → List Status
  | .notify => [.disconnect c.servers.currentServer]
  | .resolved (_ + 1) =>
      match c.loop with
      | .resolving srv => [.reconnecting srv]
      | _ => []
  | .settle =>
      match c.loop, c.pong with
      | .dialing _ _, .resolved => List.replicate c.waiters (.reconnect c.servers.currentServer)
      | .dialing srv (_ + 1), .rejected _ => [.reconnecting srv]
      | _, _ => []
  | _ => []

/-- What the listeners hear of it: those of a closed client were stopped. -/
def statuses (c : Client) (e : Event) : List Status := if c.closed then [] else dispatched c e

/-- What an observer knows of a connection. -/
inductive View where
  | up (srv : Nat)
  | down (waiting : Nat) (trying : Option Nat)
  | joining (waiting srv : Nat)
deriving DecidableEq, Repr

/-- Behind a `reconnect`, with `waiting` others to come. -/
def View.joined (srv : Nat) : Nat → View
  | 0 => .up srv
  | waiting + 1 => .joining (waiting + 1) srv

/-- What an observer makes of a status; `none` where it makes no sense. -/
def observe : View → Status → Option View
  | .up srv, .disconnect lost => if lost = srv then some (.down 1 none) else none
  | .down waiting trying, .disconnect _ => some (.down (waiting + 1) trying)
  | .down waiting _, .reconnecting srv => some (.down waiting (some srv))
  | .down (waiting + 1) trying, .reconnect srv =>
      if trying = some srv then some (.joined srv waiting) else none
  | .joining (waiting + 1) srv, .reconnect joined =>
      if joined = srv then some (.joined srv waiting) else none
  | _, _ => none

/-- How many are to say `reconnect` yet. -/
def View.waiting : View → Nat
  | .up _ => 0
  | .down waiting _ => waiting
  | .joining waiting _ => waiting

def Status.isDisconnect : Status → Bool
  | .disconnect _ => true
  | _ => false

def Status.isReconnect : Status → Bool
  | .reconnect _ => true
  | _ => false

/-- An observer that has kept up. -/
inductive Shows (c : Client) : View → Prop where
  | up (hloop : c.loop = .idle) (hconnected : c.connected = true) (hwaiters : c.waiters = 0) :
      Shows c (.up c.servers.currentServer)
  | down (trying : Option Nat) (hloop : c.loop ≠ .idle) (hwaiters : 0 < c.waiters)
      (htrying : ∀ srv alts, c.loop = .dialing srv alts → trying = some srv) :
      Shows c (.down c.waiters trying)

variable {hostPort : String → String} {options : ConnectionOptions} {listens : List String}
  {c c' : Client} {e : Event} {es : List Event} {v : View}

theorem observe_replicate (srv : Nat) :
    ∀ n, (List.replicate (n + 1) (.reconnect srv)).foldlM observe
    (.joining (n + 1) srv) = some (.up srv)
  | 0 => by
      show (if srv = srv then some (View.joined srv 0) else none) >>= _ = _
      rw [if_pos rfl]
      rfl
  | n + 1 => by
      show (if srv = srv then some (View.joined srv (n + 1)) else none) >>= _ = _
      rw [if_pos rfl]
      exact observe_replicate srv n

/-- **All calls that wait say so.** -/
theorem observe_reconnects (srv : Nat) {waiting : Nat} (hwaiting : 0 < waiting) :
    (List.replicate waiting (.reconnect srv)).foldlM observe (.down waiting (some srv)) = some
      (.up srv) := by
  cases waiting with
  | zero => exact absurd hwaiting (Nat.lt_irrefl 0)
  | succ n =>
      show (if some srv = some srv then some (View.joined srv n) else none) >>= _ = _
      rw [if_pos rfl]
      cases n with
      | zero => rfl
      | succ n => exact observe_replicate srv n

/-- A step that leaves alone what an observer knows. -/
theorem Shows.congr (h : Shows c v) (hloop : c'.loop = c.loop)
    (hconnected : c'.connected = c.connected) (hwaiters : c'.waiters = c.waiters)
    (hcurrent : c'.servers.currentServer = c.servers.currentServer) : Shows c' v := by
  cases h with
  | up hidle hup hnobody =>
      rw [← hcurrent]
      exact .up (hloop.trans hidle) (hconnected.trans hup) (hwaiters.trans hnobody)
  | down trying hrunning hsome htrying =>
      rw [← hwaiters]
      exact .down trying (fun h => hrunning (hloop.symm.trans h))
        (hwaiters.symm ▸ hsome) fun srv alts h =>
        htrying srv alts (hloop.symm.trans h)

/-- While the loop runs. -/
theorem Shows.running (h : Shows c v) (hloop : c.loop ≠ .idle) :
    ∃ trying, v = .down c.waiters trying ∧
    0 < c.waiters ∧ ∀ srv alts, c.loop = .dialing srv alts → trying = some srv := by
  cases h with
  | up hidle => exact absurd hidle hloop
  | down trying hrunning hsome htrying => exact ⟨trying, rfl, hsome, htrying⟩

/-- A pass dials nobody yet. -/
theorem pass_dials (d : Dialer) (closed : Bool) (wait now later : Int) (srv alts : Nat) :
    (d.pass closed wait now later).loop ≠ .dialing srv alts := by
  rw [Dialer.pass]
  generalize Dialer.selectServer { d with servers := d.pool closed } = r
  obtain ⟨next, d'⟩ := r
  cases next with
  | none => exact fun h => by cases h
  | some s =>
      show (if d'.abortReconnect = true then d'.giveUp else d'.tryServer s wait now later).loop ≠ _
      split
      · exact fun h => by cases h
      · rw [Dialer.tryServer]
        split
        · exact fun h => by cases h
        · exact fun h => by cases h

theorem dialDone_currentServer (c : Client) (srv : Nat) :
    (c.dialDone srv).servers.currentServer = c.servers.currentServer := by
  have hdialed : (c.toDialer.dialed srv).servers.currentServer = c.servers.currentServer := by
    unfold Dialer.dialed
    dsimp only
    split <;> rfl
  show (ite _ _ _ : Dialer).servers.currentServer = _
  split
  · exact hdialed
  · rw [Dialer.cleanUp_eq]
    exact hdialed

/-- What a step of an open client does to what an observer knows. -/
inductive Move (c : Client) : Event → Client → Prop where
  | quiet (e : Event) (c' : Client) (hsaid : dispatched c e = []) (hloop : c'.loop = c.loop)
      (hconnected : c'.connected = c.connected) (hwaiters : c'.waiters = c.waiters)
      (hcurrent : c'.servers.currentServer = c.servers.currentServer) : Move c e c'
  | between (e : Event) (c' : Client) (hsaid : dispatched c e = []) (hfrom : c.loop ≠ .idle)
      (hto : c'.loop ≠ .idle) (hdials : ∀ srv alts, c'.loop ≠ .dialing srv alts)
      (hwaiters : c'.waiters = c.waiters) : Move c e c'
  | tries (e : Event) (c' : Client) (srv alts : Nat) (hsaid : dispatched c e = [.reconnecting srv])
      (hfrom : c.loop ≠ .idle) (hto : c'.loop = .dialing srv alts)
      (hwaiters : c'.waiters = c.waiters) :
      Move c e c'
  | joins (srv alts : Nat) (hloop : c.loop = .dialing srv alts)
      (hsaid : dispatched c .settle = List.replicate c.waiters
        (.reconnect c.servers.currentServer)) :
      Move c .settle (c.dialDone srv)
  | outage (c' : Client) (hfrom : c.loop = .idle) (hto : c'.loop = .pass)
      (hwaiters : c'.waiters = c.waiters + 1) :
      Move c .notify c'
  | another (c' : Client) (hfrom : c.loop ≠ .idle) (hto : c'.loop = c.loop)
      (hwaiters : c'.waiters = c.waiters + 1) : Move c .notify c'
  | gaveUp (e : Event) (c' : Client) (hsaid : dispatched c e = []) (hfrom : c.loop ≠ .idle)
      (hwaiters : c.waiters = 0) (hsame : c'.waiters = 0) : Move c e c'
  | closes (e : Event) (c' : Client) (hsaid : dispatched c e = [] ∨ e = .notify)
      (hclosed : c'.closed = true) :
      Move c e c'

/-- **What a step does to what an observer knows.** -/
theorem move_of_step (hmade : c.servers.Made) (hopen : c.closed = false)
    (hstep : c.step hostPort options e = some c') : Move c e c' := by
  cases e with
  | pass wait now later =>
      obtain ⟨hloop, ⟨⟩⟩ := Option.ite_none_right_eq_some.1 hstep
      have hfrom : c.loop ≠ .idle := by
        rw [hloop]
        exact fun h => by cases h
      rw [Client.pass]
      split
      case isTrue hidle =>
        -- a loop that gives up closes the client when somebody waits for it
        rw [Client.failWaiters]
        split
        case isTrue hnobody => exact .gaveUp _ _ rfl hfrom hnobody hnobody
        case isFalse => exact .closes _ _ (.inl rfl) (Client.close_closed _ _)
      case isFalse hidle => exact .between _ _ rfl hfrom hidle (pass_dials _ _ _ _ _) rfl
  | wake =>
      obtain ⟨hloop, ⟨⟩⟩ := Option.ite_none_right_eq_some.1 hstep
      exact .between _ _ rfl (fun h => by cases hloop.symm.trans h) (fun h => by cases h)
        (fun _ _ h => by cases h)
        rfl
  | resolved alts =>
      rw [Client.step] at hstep
      split at hstep
      case h_1 srv hloop =>
        cases hstep
        have hfrom : c.loop ≠ .idle := fun h => by cases hloop.symm.trans h
        cases alts with
        | zero => exact .between _ _ rfl hfrom (fun h => by cases h) (fun _ _ h => by cases h) rfl
        | succ n => exact .tries _ _ srv n (by simp only [dispatched, hloop]) hfrom rfl rfl
      case h_2 => cases hstep
  | resolveFailed err =>
      rw [Client.step] at hstep
      split at hstep
      case h_1 srv hloop =>
        cases hstep
        exact .between _ _ rfl (fun h => by cases hloop.symm.trans h) (fun h => by cases h)
          (fun _ _ h => by cases h)
          rfl
      case h_2 => cases hstep
  | fail err =>
      rw [Client.step] at hstep
      split at hstep
      · cases hstep
        obtain ⟨pong, heq, -⟩ := c.rejectPong_eq err
        rw [heq]
        exact .quiet _ _ rfl rfl rfl rfl rfl
      · cases hstep
  | settle =>
      rw [Client.step] at hstep
      split at hstep
      case h_1 srv alts hloop hpong =>
        cases hstep
        exact .joins srv alts hloop (by simp only [dispatched, hloop, hpong])
      case h_2 srv alts err hloop hpong =>
        cases hstep
        have hfrom : c.loop ≠ .idle := fun h => by cases hloop.symm.trans h
        obtain ⟨transport, heq⟩ := c.closeTransport_eq err
        rw [Client.dialFailed.eq_def, heq]
        cases alts with
        | zero =>
            exact .between _ _ (by simp only [dispatched, hloop, hpong]) hfrom (fun h => by cases h)
              (fun _ _ h => by cases h) rfl
        | succ n => exact .tries _ _ srv n (by simp only [dispatched, hloop, hpong]) hfrom rfl rfl
      case h_3 => cases hstep
  | error text =>
      obtain ⟨-, ⟨⟩⟩ := Option.ite_none_right_eq_some.1 hstep
      have hsame : (c.toDialer.processError options (toError text)).loop = c.loop ∧
          (c.toDialer.processError options (toError text)).servers = c.servers := by
        rw [Dialer.processError_eq]
        exact ⟨rfl, rfl⟩
      have hcurrent := congrArg Servers.currentServer hsame.2
      rw [Client.processError]
      split
      · split
        · obtain ⟨pong, heq, -⟩ := Client.rejectPong_eq
            { c with toDialer := c.toDialer.processError options (toError text) }
            (.nats (toError text))
          rw [heq]
          exact .quiet _ _ rfl hsame.1 rfl rfl hcurrent
        · obtain ⟨transport, notifications, heq⟩ := Client.lost_eq
            { c with toDialer := c.toDialer.processError options (toError text) } none
          rw [Client.disconnect, heq]
          exact .quiet _ _ rfl hsame.1 rfl rfl hcurrent
      · exact .quiet _ _ rfl hsame.1 rfl rfl hcurrent
  | pong =>
      obtain ⟨-, ⟨⟩⟩ := Option.ite_none_right_eq_some.1 hstep
      rw [Client.processPong]
      split
      · exact .quiet _ _ rfl rfl rfl rfl rfl
      · exact .quiet _ _ rfl rfl rfl rfl rfl
  | info urls blown =>
      obtain ⟨-, ⟨⟩⟩ := Option.ite_none_right_eq_some.1 hstep
      rw [Client.processInfo]
      generalize hk : (if options.ignoreClusterUpdates = true then c
        else { c with servers := (c.servers.update hostPort urls).1 }) = k
      have hsame : k.loop = c.loop ∧ k.connected = c.connected ∧ k.waiters = c.waiters ∧
          k.servers.currentServer = c.servers.currentServer := by
        rw [← hk]
        split
        · exact ⟨rfl, rfl, rfl, rfl⟩
        · exact ⟨rfl, rfl, rfl, (Servers.updates_update hmade hostPort urls).currentServer⟩
      obtain ⟨hloop, hconnected, hwaiters, hcurrent⟩ := hsame
      rcases k.sendConnect_cases blown with ⟨received, heq⟩ | ⟨err, heq⟩
      · rw [heq]
        exact .quiet _ _ rfl hloop hconnected hwaiters hcurrent
      · rw [heq]
        exact .closes _ _ (.inl rfl) (Client.close_closed _ _)
  | lost err =>
      obtain ⟨-, ⟨⟩⟩ := Option.ite_none_right_eq_some.1 hstep
      obtain ⟨transport, notifications, heq⟩ := c.lost_eq err
      rw [heq]
      exact .quiet _ _ rfl rfl rfl rfl rfl
  | notify =>
      obtain ⟨-, ⟨⟩⟩ := Option.ite_none_left_eq_some.1 hstep
      have hstill :
          ({ c with connected := false, notifications := c.notifications - 1 } : Client).closed ≠
            true := by
        rw [hopen]
        exact Bool.false_ne_true
      rw [Client.closedNotification, if_neg hstill, Client.disconnected]
      split
      · split
        case isTrue hidle => exact .outage _ hidle rfl rfl
        case isFalse hidle => exact .another _ hidle rfl rfl
      · exact .closes _ _ (.inr rfl) (Client.close_closed _ _)
  | close =>
      obtain ⟨-, ⟨⟩⟩ := Option.ite_none_right_eq_some.1 hstep
      exact .closes _ _ (.inl rfl) (Client.close_closed _ _)

/-- Nobody waits for a loop that does not run. -/
def Unawaited (c : Client) : Prop := c.closed = false → c.loop = .idle → c.waiters = 0

theorem unawaited_step (hmade : c.servers.Made) (h : Unawaited c)
    (hstep : c.step hostPort options e = some c') : Unawaited c' := by
  intro hopen' hidle
  cases hopen : c.closed with
  | true => exact absurd (hopen'.symm.trans (Client.closed_step hstep hopen)) Bool.false_ne_true
  | false =>
      cases move_of_step hmade hopen hstep with
      | quiet e c' hsaid hloop hconnected hwaiters =>
          exact hwaiters.trans (h hopen (hloop.symm.trans hidle))
      | between e c' hsaid hfrom hto => exact absurd hidle hto
      | tries e c' srv alts hsaid hfrom hto => cases hto.symm.trans hidle
      | joins => rfl
      | outage c' hfrom hto => cases hto.symm.trans hidle
      | another c' hfrom hto => exact absurd (hto.symm.trans hidle) hfrom
      | gaveUp e c' hsaid hfrom hwaiters hsame => exact hsame
      | closes e c' hsaid hclosed => exact absurd (hopen'.symm.trans hclosed) Bool.false_ne_true

/-- **What an observer makes of a step.** -/
theorem shows_step (htracked : c.Tracked) (hopen : c.closed = false) (hshows : Shows c v)
    (hstep : c.step hostPort options e = some c') :
    ∃ v', (statuses c e).foldlM observe v = some v' ∧ (c'.closed = false → Shows c' v') := by
  rw [statuses, if_neg (Bool.eq_false_iff.1 hopen)]
  cases move_of_step htracked.sound.dialer.made hopen hstep with
  | quiet e c' hsaid hloop hconnected hwaiters hcurrent =>
      rw [hsaid]
      exact ⟨v, rfl, fun _ => hshows.congr hloop hconnected hwaiters hcurrent⟩
  | between e c' hsaid hfrom hto hdials hwaiters =>
      obtain ⟨trying, rfl, hpositive, -⟩ := hshows.running hfrom
      rw [hsaid]
      refine ⟨.down c.waiters trying, rfl, fun _ => ?_⟩
      rw [← hwaiters]
      exact .down trying hto (hwaiters.symm ▸ hpositive) fun srv alts h =>
        absurd h (hdials srv alts)
  | tries e c' srv alts hsaid hfrom hto hwaiters =>
      obtain ⟨trying, rfl, hpositive, -⟩ := hshows.running hfrom
      rw [hsaid]
      refine ⟨.down c.waiters (some srv), rfl, fun _ => ?_⟩
      rw [← hwaiters]
      refine .down (some srv) (fun h => ?_) (hwaiters.symm ▸ hpositive) fun s alts h => ?_
      · cases hto.symm.trans h
      · cases hto.symm.trans h
        rfl
  | joins srv alts hloop hsaid =>
      obtain ⟨trying, rfl, hpositive, htrying⟩ :=
        hshows.running fun h => by cases hloop.symm.trans h
      obtain ⟨hcurrent, -⟩ := htracked.sound.dialer.tried srv (by rw [hloop]; rfl)
      rw [hsaid, hcurrent, htrying srv alts hloop]
      refine ⟨.up srv, observe_reconnects srv hpositive, fun _ => ?_⟩
      have hup := Shows.up (Client.dialDone_loop c srv) rfl rfl
      rwa [dialDone_currentServer, hcurrent] at hup
  | outage c' hfrom hto hwaiters =>
      cases hshows with
      | up hloop hconnected hnobody =>
          -- the first call of `disconnected` starts the loop
          refine ⟨.down 1 none, ?_, fun _ => ?_⟩
          · simp only [dispatched, List.foldlM_cons, observe, if_true]
            rfl
          · have hone : c'.waiters = 1 := by rw [hwaiters, hnobody]
            rw [← hone]
            refine .down none (fun h => ?_) (hone.symm ▸ Nat.one_pos) fun srv alts h => ?_
            · cases hto.symm.trans h
            · cases hto.symm.trans h
      | down trying hloop => exact absurd hfrom hloop
  | another c' hfrom hto hwaiters =>
      obtain ⟨trying, rfl, hpositive, htrying⟩ := hshows.running hfrom
      refine ⟨.down (c.waiters + 1) trying, rfl, fun _ => ?_⟩
      rw [← hwaiters]
      exact .down trying (fun h => hfrom (hto.symm.trans h)) (hwaiters.symm ▸ Nat.succ_pos _)
        fun srv alts h =>
        htrying srv alts (hto.symm.trans h)
  | gaveUp e c' hsaid hfrom hwaiters =>
      obtain ⟨trying, rfl, hpositive, -⟩ := hshows.running hfrom
      exact absurd hwaiters (Nat.ne_of_gt hpositive)
  | closes e c' hsaid hclosed =>
      rcases hsaid with hsaid | rfl
      · rw [hsaid]
        exact ⟨v, rfl, fun h => absurd (h.symm.trans hclosed) Bool.false_ne_true⟩
      · -- the client does not reconnect
        cases hshows with
        | up =>
            refine ⟨.down 1 none, ?_, fun h => absurd (h.symm.trans hclosed) Bool.false_ne_true⟩
            simp only [dispatched, List.foldlM_cons, observe, if_true]
            rfl
        | down trying => exact ⟨_, rfl, fun h => absurd (h.symm.trans hclosed) Bool.false_ne_true⟩

theorem unawaited_run
    (hrun : run (Client.step hostPort options) (.new hostPort listens) es = some c) :
    Unawaited c := by
  have hboth : c.Tracked ∧ Unawaited c := by
    refine invariant_run (I := fun c => c.Tracked ∧ Unawaited c) (fun c e c' h hstep => ?_) hrun ?_
    · exact ⟨Client.tracked_step h.1 hstep, unawaited_step h.1.sound.dialer.made h.2 hstep⟩
    · exact ⟨Client.tracked_new hostPort listens, fun _ h => by cases h⟩
  exact hboth.2

theorem statuses_of_closed (hclosed : c.closed = true) : statuses c e = [] := if_pos hclosed

/-- What a closed client says: nothing. -/
theorem outputs_of_closed (hclosed : c.closed = true)
    (hrun : run (Client.step hostPort options) c es = some c') :
    outputs (Client.step hostPort options) statuses c es = [] ∧ c'.closed = true := by
  induction es generalizing c with
  | nil =>
      cases hrun
      exact ⟨rfl, hclosed⟩
  | cons e es ih =>
      obtain ⟨c₁, hstep, hrest⟩ := run_cons_inv hrun
      rw [outputs_cons hstep, statuses_of_closed hclosed, List.nil_append]
      exact ih (Client.closed_step hstep hclosed) hrest

/-- What an observer makes of a run. -/
theorem shows_run (htracked : c.Tracked) (hopen : c.closed = false) (hshows : Shows c v)
    (hrun : run (Client.step hostPort options) c es = some c') :
    ∃ v', (outputs (Client.step hostPort options) statuses c es).foldlM observe v = some v' ∧
      (c'.closed = false → Shows c' v') := by
  induction es generalizing c v with
  | nil =>
      cases hrun
      exact ⟨v, rfl, fun _ => hshows⟩
  | cons e es ih =>
      obtain ⟨c₁, hstep, hrest⟩ := run_cons_inv hrun
      obtain ⟨v₁, hsaid, hnext⟩ := shows_step htracked hopen hshows hstep
      rw [outputs_cons hstep, List.foldlM_append, hsaid]
      cases hclosed : c₁.closed with
      | false => exact ih (Client.tracked_step htracked hstep) hclosed (hnext hclosed) hrest
      | true =>
          obtain ⟨hnothing, hstays⟩ := outputs_of_closed hclosed hrest
          rw [hnothing]
          exact ⟨v₁, rfl, fun h => absurd (h.symm.trans hstays) Bool.false_ne_true⟩

/-! ## Counting -/

@[simp] theorem waiting_joined (srv : Nat) : ∀ waiting, (View.joined srv waiting).waiting = waiting
  | 0 => rfl
  | _ + 1 => rfl

theorem waiting_observe {s : Status} {v' : View} (h : observe v s = some v') :
    v'.waiting + (if s.isReconnect then 1 else 0) = v.waiting + if s.isDisconnect
      then 1 else 0 := by
  cases v with
  | up srv =>
      cases s with
      | disconnect lost =>
          obtain ⟨-, ⟨⟩⟩ := Option.ite_none_right_eq_some.1 h
          rfl
      | reconnecting => cases h
      | reconnect => cases h
  | down waiting trying =>
      cases s with
      | disconnect =>
          cases h
          rfl
      | reconnecting =>
          cases h
          rfl
      | reconnect srv =>
          cases waiting with
          | zero => cases h
          | succ n =>
              obtain ⟨-, ⟨⟩⟩ := Option.ite_none_right_eq_some.1 h
              exact congrArg (· + 1) (waiting_joined srv n)
  | joining waiting srv =>
      cases waiting with
      | zero => cases s <;> cases h
      | succ n =>
          cases s with
          | disconnect => cases h
          | reconnecting => cases h
          | reconnect joined =>
              obtain ⟨-, ⟨⟩⟩ := Option.ite_none_right_eq_some.1 h
              exact congrArg (· + 1) (waiting_joined srv n)

/-- **Disconnects and reconnects are brackets.** -/
theorem waiting_foldlM {ss : List Status} {v' : View} (h : ss.foldlM observe v = some v') :
    v'.waiting + ss.countP Status.isReconnect = v.waiting + ss.countP Status.isDisconnect := by
  induction ss generalizing v with
  | nil =>
      cases h
      rfl
  | cons s ss ih =>
      obtain ⟨v₁, hone, hrest⟩ := Option.bind_eq_some_iff.1 h
      have hstep := waiting_observe hone
      have htail := ih hrest
      rw [List.countP_cons, List.countP_cons]
      omega

/-- **The statuses of a connection.** Whatever happens to a client that is connected, somebody who
hears nothing but its statuses is never surprised: a `disconnect` of a connection that is up names
its server, a `reconnecting` comes in an outage only, a `reconnect` names the server that was tried
last, and behind the first `reconnect` of an outage come those of all the other `disconnect`s of it,
before anything else. And they are right about every client that is open: it is connected where they
believe so, to this very server, and where they do not, as many calls of `disconnected` wait as
there were more `disconnect`s than `reconnect`s. -/
theorem status_protocol (es₀ es : List Event)
    (hfirst : run (Client.step hostPort options) (.new hostPort listens) es₀ = some c)
    (hconnected : c.connected = true) (hopen : c.closed = false)
    (hrun : run (Client.step hostPort options) c es = some c') :
    ∃ v, (outputs (Client.step hostPort options) statuses c es).foldlM observe
      (.up c.servers.currentServer) =
        some v ∧
      v.waiting + (outputs (Client.step hostPort options) statuses c es).countP Status.isReconnect =
        (outputs (Client.step hostPort options) statuses c es).countP Status.isDisconnect ∧
      (c'.closed = false → (c'.connected = true → v = .up c'.servers.currentServer) ∧
        (c'.connected = false → 0 < c'.waiters ∧ ∃ trying, v = .down c'.waiters trying ∧
          ∀ srv alts, c'.loop = .dialing srv alts → trying = some srv)) := by
  have htracked := Client.tracked_run hfirst
  have hidle := (htracked.connected hconnected).1
  have hnobody := unawaited_run hfirst hopen hidle
  obtain ⟨v, hsaid, hshows⟩ := shows_run htracked hopen (.up hidle hconnected hnobody) hrun
  have hcount := waiting_foldlM hsaid
  refine ⟨v, hsaid, hcount.trans (Nat.zero_add _),
    fun hopen' => ⟨fun hconnected' => ?_, fun hconnected' => ?_⟩⟩
  · cases hshows hopen' with
    | up => rfl
    | down trying hloop =>
        have hidle' := ((Client.tracked_run (run_append hfirst hrun)).connected hconnected').1
        exact absurd hidle' hloop
  · cases hshows hopen' with
    | up hloop hup => exact absurd (hconnected'.symm.trans hup) Bool.false_ne_true
    | down trying hloop hwaiters htrying => exact ⟨hwaiters, trying, rfl, htrying⟩

/-- A connection is lost, and so is the first transport that is to replace it. -/
theorem status_protocol_reconnected :
    ∃ c c', run (Client.step id defaultOptions) (.new id ["a", "b"])
        [.pass 0 1 1, .resolved 1, .pong, .settle] = some c ∧
      run (Client.step id defaultOptions) c [.lost none, .notify, .pass 0 2 2, .resolved 1,
        .lost none, .notify, .fail (.nats connectionRefused), .settle, .pass 0 3 3, .resolved 1,
      .pong, .settle] = some c' ∧
      ∃ v, [Status.disconnect 0, .reconnecting 0, .disconnect 0, .reconnecting 1, .reconnect 1,
        .reconnect 1].foldlM observe (.up 0) = some v ∧ v = .up 1 := by
  refine ⟨_, _, rfl, rfl, ?_⟩
  obtain ⟨v, hsaid, -, hright⟩ := @status_protocol id defaultOptions ["a", "b"] _ _
    [.pass 0 1 1, .resolved 1, .pong, .settle]
    [.lost none, .notify, .pass 0 2 2, .resolved 1, .lost none, .notify,
      .fail (.nats connectionRefused), .settle,
      .pass 0 3 3, .resolved 1, .pong, .settle] rfl rfl rfl rfl
  exact ⟨v, hsaid, (hright rfl).1 rfl⟩

end NatsClient.Reconnect
