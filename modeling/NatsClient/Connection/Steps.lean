import NatsClient.Connection.Operations
import NatsClient.Connection.Correlation
import NatsClient.Connection.SubFrames

/-!
# What an event does to a connection

Over all events of a connection with what is called on it (`Client`): the link takes some steps of
its own, the map of the mux subscription stays in order, requests that are over stay over, and a
flush that somebody waits for has a deferred of its own (`follows_step`, `follows_run`).

The deferred of such a flush is neither that of a heartbeat nor that of a handshake (`Foreign`), so
that a close does not settle it.
-/

set_option autoImplicit false

namespace NatsClient.Connection

open NatsClient.Foundation

/-! ## The deferreds of flushes -/

namespace Link

variable {s s' : Link} {d : Nat} {es : List Event}

/-- The deferred is neither that of a heartbeat nor that of the handshake. -/
structure Foreign (d : Nat) (s : Link) : Prop where
  lt : d < s.deferreds.created
  not_pendings : d ∉ s.heartbeats.pendings
  not_handshake : s.handshake ≠ some d

theorem foreign_flush (hs : s.Owned) : Foreign s.deferreds.created s.flush := by
  have hawaited := awaited_flush hs
  exact ⟨hawaited.lt, hawaited.not_pendings, hawaited.not_handshake⟩

theorem foreign_step {e : Event} (hd : Foreign d s) (hstep : s.step e = some s') :
    Foreign d s' := by
  have hlt := hd.lt
  rcases evolves_step hstep with ⟨-, -, rfl⟩ | ⟨-, -, rfl⟩ | hevolves
  · refine ⟨?_, hd.not_pendings, ?_⟩
    · show d < s.prepare.deferreds.created
      rw [created_prepare]
      exact Nat.lt_succ_of_lt hlt
    · show s.prepare.handshake ≠ some d
      rw [handshake_prepare]
      intro heq
      exact Nat.ne_of_gt hlt (Option.some.inj heq)
  · obtain ⟨hcreated, hhandshake, -, hheartbeats, -, -⟩ := frame_processPong s
    refine ⟨?_, ?_, ?_⟩
    · rw [hcreated]
      exact hlt
    · rw [hheartbeats]
      exact hd.not_pendings
    · rw [hhandshake]
      exact hd.not_handshake
  · refine ⟨Nat.lt_of_lt_of_le hlt hevolves.created, fun hmem => ?_, ?_⟩
    · rcases hevolves.pendings d hmem with hold | hnew
      · exact hd.not_pendings hold
      · exact Nat.not_lt.2 hnew.1 hlt
    · rw [hevolves.handshake]
      exact hd.not_handshake

/-- What is settled stays settled. -/
theorem outcome_step {e : Event} {o : Outcome} (hd : s.outcome d = some o)
    (hstep : s.step e = some s') : s'.outcome d = some o := by
  rcases evolves_step hstep with ⟨-, -, rfl⟩ | ⟨-, -, rfl⟩ | hevolves
  · show s.prepare.outcome d = some o
    rw [outcome_prepare, hd]
    simp
  · rw [outcome_processPong, hd]
    simp
  · exact hevolves.settled d o hd

/-! ### What settles the deferred of a flush -/

theorem outcome_heartbeatReset (hd : d ∉ s.heartbeats.pendings) :
    s.heartbeatReset.outcome d = s.outcome d := by
  show (s.deferreds.settleAll s.heartbeats.pendings .resolved).outcome d = _
  rw [Deferreds.outcome_settleAll, if_neg fun h => hd h.1]
  rfl

theorem outcome_heartbeatCancel (hd : d ∉ s.heartbeats.pendings) :
    s.heartbeatCancel.outcome d = s.outcome d :=
  outcome_heartbeatReset (s := { s with heartbeats := { s.heartbeats with timer := false } }) hd

theorem outcome_settle_handshake {pong : Nat} (hd : s.handshake ≠ some d)
    (hpong : s.handshake = some pong) (o : Outcome) :
    (s.settle pong o).outcome d = s.outcome d := by
  have hne : d ≠ pong := fun heq => hd (heq ▸ hpong)
  exact Deferreds.settle_of_ne hne

theorem outcome_failConnect (hd : s.handshake ≠ some d) :
    s.failConnect.outcome d = s.outcome d := by
  rw [failConnect]
  split
  · next pong hpong =>
    split
    · exact outcome_settle_handshake hd hpong .rejected
    · rfl
  · rfl

/-- **A close** settles heartbeats and the handshake only. -/
theorem outcome_close (hd : Foreign d s) : s.close.outcome d = s.outcome d := by
  have hcancel := outcome_heartbeatCancel hd.not_pendings
  have hfail : s.heartbeatCancel.failConnect.outcome d = s.heartbeatCancel.outcome d :=
    outcome_failConnect hd.not_handshake
  rw [close]
  split
  · rfl
  · exact hfail.trans hcancel

theorem outcome_flushPending (s : Link) : s.flushPending.outcome = s.outcome := by
  obtain ⟨t, outbound, heq⟩ := flushPending_eq s
  rw [heq]
  rfl

theorem outcome_flush (s : Link) : s.flush.outcome = s.outcome := by
  unfold outcome
  rw [(frame_flush s).1, Deferreds.outcome_create]

theorem deferreds_sendCommand (s : Link) (c : Command) :
    (s.sendCommand c).deferreds = s.deferreds := by
  rw [sendCommand]
  split
  · rfl
  · split
    · obtain ⟨t, outbound, heq⟩ := flushPending_eq (s.fill (.command c))
      rw [heq]
      rfl
    · rfl

theorem outcome_sendCommand (s : Link) (c : Command) : (s.sendCommand c).outcome = s.outcome := by
  unfold outcome
  rw [deferreds_sendCommand]

theorem outcome_heartbeatTimer (hd : d ∉ s.heartbeats.pendings) :
    s.heartbeatTimer.outcome d = s.outcome d := by
  rw [heartbeatTimer]
  split
  · exact outcome_heartbeatCancel hd
  · exact congrFun (outcome_flush s) d

theorem outcome_heartbeatThen (hd : d ∉ s.heartbeats.pendings) (ping : Nat) (o : Outcome) :
    (s.heartbeatThen ping o).outcome d = s.outcome d := by
  cases o with
  | resolved => exact outcome_heartbeatReset hd
  | rejected => exact outcome_heartbeatCancel hd

theorem outcome_processInfo (hd : Foreign d s) (options : Option String) :
    (s.processInfo options).outcome d = s.outcome d := by
  unfold processInfo
  split
  · rfl
  · split
    · rfl
    · exact outcome_close ⟨hd.lt, hd.not_pendings, hd.not_handshake⟩

theorem outcome_dialDone (hd : d ∉ s.heartbeats.pendings) (subs : List Command) :
    (s.dialDone subs).outcome d = s.outcome d := by
  have hup := outcome_flushPending
    (({ s with connected := true, connectError := false, loop := .idle } : Link).send
      (subs.map .command))
  obtain ⟨t, outbound, heq⟩ := flushPending_eq
    (({ s with connected := true, connectError := false, loop := .idle } : Link).send
      (subs.map .command))
  have hreset := outcome_heartbeatReset (s := (({ s with connected := true, connectError := false
                                                         loop := .idle } : Link).send
    (subs.map .command)).flushPending) (d := d) (by rw [heq]; exact hd)
  exact hreset.trans (congrFun hup d)

theorem outcome_dialFailed (hd : s.handshake ≠ some d) (connectFailed : Bool) :
    (s.dialFailed connectFailed).outcome d = s.outcome d := by
  unfold dialFailed
  split
  · next pong hpong =>
    split
    · exact outcome_settle_handshake hd hpong .rejected
    · rfl
  · rfl

theorem outcome_closedNotification (hd : Foreign d s) (reconnect : Bool) :
    (s.closedNotification reconnect).outcome d = s.outcome d := by
  rw [closedNotification]
  split
  · rfl
  · split
    · rfl
    · exact outcome_close ⟨hd.lt, hd.not_pendings, hd.not_handshake⟩

/-- **A flush is settled by a PONG or by a dial.** -/
theorem outcome_step_of_foreign {e : Event} (hd : Foreign d s) (hprepare : e ≠ .prepare)
    (hpong : e ≠ .pong) (hstep : s.step e = some s') : s'.outcome d = s.outcome d := by
  cases step_of_eq hstep with
  | command c => rw [outcome_sendCommand]
  | flush => rw [outcome_flush]
  | flushTask => exact congrFun (outcome_flushPending s) d
  | heartbeatTimer => exact outcome_heartbeatTimer hd.not_pendings
  | heartbeatThen ping o => exact outcome_heartbeatThen hd.not_pendings ping o
  | prepare => exact absurd rfl hprepare
  | info options => exact outcome_processInfo hd options
  | ping | disconnect => rfl
  | pong => exact absurd rfl hpong
  | dialDone subs => exact outcome_dialDone hd.not_pendings subs
  | dialFailed connectFailed => exact outcome_dialFailed hd.not_handshake connectFailed
  | closedNotification reconnect => exact outcome_closedNotification hd reconnect
  | giveUp => exact outcome_close ⟨hd.lt, hd.not_pendings, hd.not_handshake⟩
  | close => exact outcome_close hd

/-- **A dial rejects a flush**, and nothing else does. -/
theorem rejected_step {e : Event} (hd : Foreign d s) (hprepare : e ≠ .prepare)
    (hstep : s.step e = some s') (hrejected : s'.outcome d = some .rejected) :
    s.outcome d = some .rejected := by
  by_cases hpong : e = .pong
  · subst hpong
    cases step_of_eq hstep with
    | pong =>
        rw [outcome_processPong] at hrejected
        split at hrejected
        · cases hrejected
        · exact hrejected
  · rw [← outcome_step_of_foreign hd hprepare hpong hstep]
    exact hrejected

/-! ### Some steps -/

/-- The events of a dial: its start, the PONG that answers it, and its end. -/
def Event.dials : Event → Bool
  | .prepare | .pong | .dialDone _ => true
  | _ => false

/-- The link takes some steps; those of a dial among them meet the condition. -/
def Runs (P : Event → Prop) (s s' : Link) : Prop :=
  ∃ es, run step s es = some s' ∧ ∀ e ∈ es, e.dials = true → P e

variable {P : Event → Prop}

theorem Runs.refl (s : Link) : Runs P s s := ⟨[], rfl, fun e he => by cases he⟩

theorem Runs.trans {s'' : Link} (hr : Runs P s s') (hr' : Runs P s' s'') : Runs P s s'' := by
  obtain ⟨es, hes, hdials⟩ := hr
  obtain ⟨es', hes', hdials'⟩ := hr'
  refine ⟨es ++ es', run_append hes hes', fun e hmem => ?_⟩
  rcases List.mem_append.1 hmem with hmem | hmem
  · exact hdials e hmem
  · exact hdials' e hmem

theorem runs_step {e : Event} (hstep : s.step e = some s') (he : e.dials = true → P e) :
    Runs P s s' := by
  refine ⟨[e], run_cons hstep rfl, fun e' hmem => ?_⟩
  rw [List.mem_singleton.1 hmem]
  exact he

theorem Runs.mono {Q : Event → Prop} (hr : Runs P s s') (h : ∀ e, e.dials = true → P e → Q e) :
    Runs Q s s' := by
  obtain ⟨es, hes, hdials⟩ := hr
  exact ⟨es, hes, fun e hmem he => h e he (hdials e hmem he)⟩

/-- **What every step keeps**, some steps keep. -/
theorem Runs.invariant {I : Link → Prop} (hr : Runs P s s')
    (hstep : ∀ s e s', I s → (e.dials = true → P e) → s.step e = some s' → I s') (hs : I s) :
    I s' := by
  obtain ⟨es, hes, hdials⟩ := hr
  induction es generalizing s with
  | nil =>
      cases hes
      exact hs
  | cons e es ih =>
      obtain ⟨s₁, h₁, hrest⟩ := run_cons_inv hes
      refine ih (hstep s e s₁ hs (hdials e List.mem_cons_self) h₁) hrest ?_
      exact fun e' hmem => hdials e' (List.mem_cons_of_mem e hmem)

theorem Runs.foreign (hr : Runs P s s') (hd : Foreign d s) : Foreign d s' :=
  hr.invariant (fun _ _ _ h _ hstep => foreign_step h hstep) hd

theorem Runs.owned (hr : Runs P s s') (hs : s.Owned) : s'.Owned :=
  hr.invariant (fun _ _ _ h _ hstep => owned_step h hstep) hs

theorem Runs.outcome {o : Outcome} (hr : Runs P s s') (hd : s.outcome d = some o) :
    s'.outcome d = some o :=
  hr.invariant (I := fun s => s.outcome d = some o) (fun _ _ _ h _ hstep => outcome_step h hstep) hd

/-- Without a dial a flush is not rejected. -/
theorem Runs.rejected (hr : Runs P s s') (hprepare : ¬ P .prepare) (hd : Foreign d s)
    (hrejected : s'.outcome d = some .rejected) : s.outcome d = some .rejected := by
  -- what is not rejected stays so
  by_contra hnot
  have hkept : Foreign d s' ∧ s'.outcome d ≠ some .rejected := by
    refine hr.invariant (I := fun s => Foreign d s ∧ s.outcome d ≠ some .rejected) ?_ ⟨hd, hnot⟩
    intro s e s' h he hstep
    have hne : e ≠ .prepare := by
      rintro rfl
      exact hprepare (he rfl)
    exact ⟨foreign_step h.1 hstep, fun hrej => h.2 (rejected_step h.1 hne hstep hrej)⟩
  exact hkept.2 hrejected

end Link

/-! ## What the functions of the handler do -/

namespace ProtocolHandler

variable {μ E : Type} {h h' h'' : ProtocolHandler μ E} {s s' : SubscriptionImpl μ E} {o : Nat}
  {P : Link.Event → Prop}

/-- The link takes some steps, objects stay, and a new drain waits for a flush. -/
structure Moves (P : Link.Event → Prop) (h h' : ProtocolHandler μ E) : Prop where
  link : h.link.Runs P h'.link
  objs : h.objs.length ≤ h'.objs.length
  drains : h.link.Owned → ∀ x ∈ h'.drains, x ∈ h.drains ∨ x.1 < h'.objs.length ∧ h'.link.Foreign x.2

theorem Moves.foreign (hm : Moves P h h') {d : Nat} (hd : h.link.Foreign d) : h'.link.Foreign d :=
  hm.link.foreign hd

theorem Moves.owned (hm : Moves P h h') (hs : h.link.Owned) : h'.link.Owned := hm.link.owned hs

theorem Moves.trans (hm : Moves P h h') (hm' : Moves P h' h'') : Moves P h h'' where
  link := hm.link.trans hm'.link
  objs := Nat.le_trans hm.objs hm'.objs
  drains := by
    intro hs x hx
    rcases hm'.drains (hm.owned hs) x hx with hx | hnew
    · rcases hm.drains hs x hx with hx | ⟨hlt, hforeign⟩
      · exact .inl hx
      · exact .inr ⟨Nat.lt_of_lt_of_le hlt hm'.objs, hm'.foreign hforeign⟩
    · exact .inr hnew

theorem Moves.mono {Q : Link.Event → Prop} (hm : Moves P h h')
    (hPQ : ∀ e, e.dials = true → P e → Q e) : Moves Q h h' :=
  ⟨hm.link.mono hPQ, hm.objs, hm.drains⟩

/-- No drain is added. -/
theorem moves_of_link (hlink : h.link.Runs P h'.link)
    (hobjs : h.objs.length ≤ h'.objs.length) (hdrains : ∀ x ∈ h'.drains, x ∈ h.drains) :
    Moves P h h' where
  link := hlink
  objs := hobjs
  drains _ x hx := .inl (hdrains x hx)

theorem Moves.refl (h : ProtocolHandler μ E) : Moves P h h :=
  moves_of_link (.refl _) (Nat.le_refl _) fun _ hx => hx

theorem moves_link {l : Link} (hlink : h.link.Runs P l) :
    Moves P h { h with link := l } :=
  moves_of_link hlink (Nat.le_refl _) fun _ hx => hx

theorem moves_setObj (h : ProtocolHandler μ E) (o : Nat) (s : SubscriptionImpl μ E) :
    Moves P h (h.setObj o s) :=
  moves_of_link (.refl _) (Nat.le_of_eq List.length_set.symm) fun _ hx => hx

theorem moves_sendCommand (h : ProtocolHandler μ E) (c : Command) : Moves P h (h.sendCommand c) :=
  moves_link (Link.runs_step (e := .command c) rfl fun he => by cases he)

theorem moves_cancel (h : ProtocolHandler μ E) (o : Nat) (s : SubscriptionImpl μ E) :
    Moves P h (h.cancel o s) :=
  moves_of_link (.refl _) (Nat.le_of_eq List.length_set.symm) fun _ hx => hx

theorem moves_unsub (h : ProtocolHandler μ E) (o : Nat) (s : SubscriptionImpl μ E)
    (max : Option Nat) : Moves P h (h.unsub o s max) := by
  rw [unsub]
  split
  · exact .refl h
  · exact (moves_sendCommand h _).trans (moves_setObj _ o _)

theorem moves_unsubscribe (h : ProtocolHandler μ E) (o : Nat) (max : Option Nat) :
    Moves P h (h.unsubscribe o max) := by
  rw [unsubscribe]
  split
  · exact .refl h
  · next s hs =>
    have hunsub : Moves P h (h.unsub o s max) := moves_unsub h o s max
    simp only
    split
    · exact hunsub.trans (moves_cancel _ o _)
    · exact hunsub

theorem moves_subscribe (h : ProtocolHandler μ E) (opts : SubscriptionOptions) :
    Moves P h (h.subscribe opts) := by
  have hadd : ∀ (h' : ProtocolHandler μ E) (s : SubscriptionImpl μ E), h'.link = h.link →
      h'.drains = h.drains → h'.objs = h.objs ++ [s] → Moves P h h' := by
    intro h' s hlink hdrains hobjs
    refine moves_of_link (hlink ▸ .refl _) ?_ fun x hx => hdrains ▸ hx
    rw [hobjs, List.length_append]
    exact Nat.le_add_right _ _
  rw [subscribe]
  split
  · refine Moves.trans (Moves.trans ?_ (moves_sendCommand _ _)) (moves_unsubscribe _ _ _)
    exact hadd _ _ rfl rfl rfl
  · refine Moves.trans ?_ (moves_sendCommand _ _)
    exact hadd _ _ rfl rfl rfl

theorem moves_resub (h : ProtocolHandler μ E) (o : Nat) (subject : String) :
    Moves P h (h.resub o subject) := by
  rw [resub]
  split
  · exact .refl h
  · next s hs =>
    split
    · exact .refl h
    · refine Moves.trans (Moves.trans (moves_unsub h o s none) ?_) (moves_sendCommand _ _)
      exact moves_of_link (.refl _) (Nat.le_of_eq List.length_set.symm) fun _ hx => hx

theorem moves_drainSub (h : ProtocolHandler μ E) (o : Nat) : Moves P h (h.drainSub o) := by
  rw [drainSub]
  split
  · exact .refl h
  · next s hs =>
    split
    · exact .refl h
    · have hunsub : Moves P h
          ((h.setObj o { s with draining := true }).unsub o { s with draining := true } none) :=
        (moves_setObj h o _).trans (moves_unsub _ o _ none)
      refine hunsub.trans ⟨Link.runs_step (e := .flush) rfl fun he => (by cases he), Nat.le_refl _,
        fun howned x hx => ?_⟩
      rcases List.mem_append.1 hx with hx | hx
      · exact .inl hx
      · right
        rw [List.mem_singleton.1 hx]
        exact ⟨Nat.lt_of_lt_of_le (List.getElem?_eq_some_iff.1 hs).1 hunsub.objs,
          Link.foreign_flush howned⟩

theorem moves_drained (h : ProtocolHandler μ E) (o d : Nat) : Moves P h (h.drained o d) := by
  rw [drained]
  split
  · exact .refl h
  · next s hs =>
    exact moves_of_link (.refl _) (Nat.le_of_eq List.length_set.symm) fun _ hx =>
      List.mem_of_mem_erase hx

theorem moves_closeSubscriptions (h : ProtocolHandler μ E) : Moves P h h.closeSubscriptions := by
  apply h.closeSubscriptions_induction (P := Moves P h) (.refl h)
  intro h' o s _ hm
  exact hm.trans (moves_setObj h' o s.close)

theorem moves_setLink {l : Link} (hlink : h.link.Runs P l) :
    Moves P h (h.setLink l) := by
  rw [setLink]
  split
  · exact (moves_closeSubscriptions h).trans (moves_link hlink)
  · exact moves_link hlink

/-- **A call.** -/
theorem moves_call (h : ProtocolHandler μ E) (c : Call) : Moves P h (h.call c) := by
  cases c with
  | subscribe opts => exact moves_subscribe h opts
  | unsubscribe o max => exact moves_unsubscribe h o max
  | drain o => exact moves_drainSub h o
  | resub o subject => exact moves_resub h o subject
  | publish proto payload => exact moves_sendCommand h _
  | flush => exact moves_link (Link.runs_step (e := .flush) rfl fun he => by cases he)
  | reconnect =>
      rw [call]
      split
      · exact moves_link (Link.runs_step (e := .disconnect) rfl fun he => by cases he)
      · exact .refl h
  | close => exact moves_setLink (Link.runs_step (e := .close) rfl fun he => by cases he)

theorem moves_checkMax (h : ProtocolHandler μ E) (o : Nat) : Moves P h (h.checkMax o) := by
  rw [checkMax]
  split
  · exact .refl h
  · split
    · exact moves_unsubscribe h o none
    · exact .refl h

theorem moves_calls (h : ProtocolHandler μ E) (cs : List Call) : Moves P h (h.calls cs) := by
  induction cs generalizing h with
  | nil => exact .refl h
  | cons c cs ih => exact (moves_call h c).trans (ih (h.call c))

/-- **A message.** -/
theorem moves_processMsg (h : ProtocolHandler μ E) (sid : Nat) (v : μ) (cs : List Call) :
    Moves P h (h.processMsg sid v cs) := by
  rw [processMsg]
  split
  · exact .refl h
  · next o _ =>
    split
    · exact .refl h
    · next s _ =>
      refine Moves.trans ?_ (moves_checkMax _ o)
      rw [dispatch]
      split
      · exact (moves_setObj h o _).trans (moves_calls _ cs)
      · exact (moves_setObj h o _).trans (moves_setObj _ o _)

/-- The event of the handler is this event of its link. -/
def Event.Drives (e : Event μ E) (l : Link.Event) : Prop :=
  e = .link l ∨ e = .dialDone ∧ ∃ subs, l = .dialDone subs

/-- **One event.** -/
theorem moves_step {e : Event μ E} (hstep : h.step e = some h') : Moves e.Drives h h' := by
  cases step_of_eq hstep with
  | call c => exact moves_call h c
  | drained o d => exact moves_drained h o d
  | message sid v cs => exact moves_processMsg h sid v cs
  | timeout o s err cs =>
      rw [timeout]
      split
      · exact (moves_setObj h o _).trans (moves_calls _ cs)
      · exact moves_setObj h o _
  | next o s s' => exact moves_setObj h o s'
  | stop o s err => exact moves_setObj h o _
  | leave o s => exact moves_setObj h o _
  | dialDone l _ hl => exact moves_link (Link.runs_step hl fun _ => .inr ⟨rfl, _, rfl⟩)
  | link e l _ hl => exact moves_setLink (Link.runs_step hl fun _ => .inl rfl)

end ProtocolHandler

/-! ## What is over stays over -/

namespace Mux.MuxSubscription

variable {nuid : Nat → String} {inboxPrefix : String} {s s' s'' : MuxSubscription} {i : Nat}
  {r r' : Request}

/-- Requests that are over stay over. -/
def Keeps (s s' : MuxSubscription) : Prop :=
  ∀ (i : Nat) (r : Request), s.objs[i]? = some r → r.ended = true →
    ∃ r', s'.objs[i]? = some r' ∧ r'.ended = true

theorem Keeps.refl (s : MuxSubscription) : Keeps s s := fun _ r hr hended => ⟨r, hr, hended⟩

theorem Keeps.trans (hk : Keeps s s') (hk' : Keeps s' s'') : Keeps s s'' := by
  intro i r hr hended
  obtain ⟨r', hr', hended'⟩ := hk i r hr hended
  exact hk' i r' hr' hended'

theorem keeps_of_objs (hobjs : s'.objs = s.objs) : Keeps s s' := fun _ r hr hended =>
  ⟨r, hobjs ▸ hr, hended⟩

theorem keeps_update {off : Bool} (hr : s.objs[i]? = some r) (hf : r.Follows r' off) :
    Keeps s (s.update i r' off) := by
  intro j x hx hended
  by_cases hij : i = j
  · subst hij
    obtain rfl : r = x := Option.some.inj (hr.symm.trans hx)
    refine ⟨r', objs_update_self hr, ?_⟩
    rw [hf.ended, hended, Bool.true_or]
  · exact ⟨x, (objs_update_ne hij).trans hx, hended⟩

theorem keeps_cancel (s : MuxSubscription) (i : Nat) (err : Option RequestError) :
    Keeps s (s.cancel i err) := by
  rw [cancel]
  split
  · exact .refl s
  · next r hr => exact keeps_update hr (r.follows_cancel err)

theorem keeps_resolver (s : MuxSubscription) (i : Nat) (x : Outcome) :
    Keeps s (s.resolver i x) := by
  rw [resolver]
  split
  · exact .refl s
  · next r hr => exact keeps_update hr (r.follows_resolver x)

theorem keeps_resolveAll (s : MuxSubscription) (err : RequestError) (is : List Nat) :
    Keeps s (s.resolveAll err is) := by
  induction is generalizing s with
  | nil => exact .refl s
  | cons i is ih => exact (keeps_resolver s i _).trans (ih (s.resolver i (.error err)))

theorem keeps_dispatcher (s : MuxSubscription) (m : Msg) : Keeps s (s.dispatcher m) := by
  rw [dispatcher]
  split
  · exact .refl s
  · split
    · exact .refl s
    · split
      · exact .refl s
      · split
        · exact keeps_resolver s _ _
        · exact keeps_resolver s _ _

theorem keeps_handleError (s : MuxSubscription) (isMux : Bool) (ctx : PermissionContext) :
    Keeps s (s.handleError isMux ctx) := by
  rw [handleError]
  split
  · exact keeps_resolveAll s _ _
  · split
    · exact .refl s
    · split
      · exact keeps_resolver s _ _
      · exact .refl s

theorem objs_initMux (s : MuxSubscription) : (s.initMux nuid inboxPrefix).objs = s.objs := by
  rw [initMux]
  split <;> rfl

theorem keeps_request (s : MuxSubscription) (q : NewRequest) :
    Keeps s (s.request nuid inboxPrefix q) := by
  have hadd : Keeps s ((initMux nuid inboxPrefix { s with nuids := s.nuids + 1 }).add
      (q.object (nuid s.nuids))) := by
    intro i r hr hended
    refine ⟨r, ?_, hended⟩
    rw [add, objs_initMux]
    exact objs_add_old hr
  rw [request]
  split
  · exact hadd.trans (keeps_cancel _ _ _)
  · exact hadd.trans (keeps_of_objs rfl)

end Mux.MuxSubscription

/-! ## What an event does -/

namespace Operations.Client

variable {nuid : Nat → String} {inboxPrefix : String} {c c' c'' : Client} {h : Handler}
  {mux : Mux.MuxSubscription} {P : Link.Event → Prop}

/-- What an event does: the handler and the mux subscription do what their functions do, and a flush
that is called has a new deferred. -/
structure Follows (nuid : Nat → String) (inboxPrefix : String) (P : Link.Event → Prop)
    (c c' : Client) : Prop where
  handler : c.handler.Moves P c'.handler
  flushes : c.handler.link.Owned → ∀ d ∈ c'.flushes, d ∈ c.flushes ∨ c'.handler.link.Foreign d
  requests : c.mux.Keeps c'.mux
  mux : Function.Injective nuid → c.mux.Inv nuid inboxPrefix → c'.mux.Inv nuid inboxPrefix

theorem Follows.trans (hf : Follows nuid inboxPrefix P c c')
    (hf' : Follows nuid inboxPrefix P c' c'') : Follows nuid inboxPrefix P c c'' where
  handler := hf.handler.trans hf'.handler
  flushes := by
    intro hs d hd
    rcases hf'.flushes (hf.handler.owned hs) d hd with hd | hforeign
    · rcases hf.flushes hs d hd with hd | hforeign
      · exact .inl hd
      · exact .inr (hf'.handler.foreign hforeign)
    · exact .inr hforeign
  requests := hf.requests.trans hf'.requests
  mux hnuid hinv := hf'.mux hnuid (hf.mux hnuid hinv)

theorem Follows.mono {Q : Link.Event → Prop} (hf : Follows nuid inboxPrefix P c c')
    (h : ∀ e, P e → Q e) : Follows nuid inboxPrefix Q c c' where
  handler := hf.handler.mono fun e _ => h e
  flushes := hf.flushes
  requests := hf.requests
  mux := hf.mux

/-- Only the handler does something. -/
theorem follows_handler (hm : c.handler.Moves P c'.handler) (hflushes : c'.flushes = c.flushes)
    (hmux : c'.mux = c.mux) : Follows nuid inboxPrefix P c c' where
  handler := hm
  flushes _ _ hd := .inl (hflushes ▸ hd)
  requests := by
    rw [hmux]
    exact .refl _
  mux _ hinv := by
    rw [hmux]
    exact hinv

/-- Only the mux subscription does something. -/
theorem follows_mux (hkeeps : c.mux.Keeps mux)
    (hinv : Function.Injective nuid → c.mux.Inv nuid inboxPrefix → mux.Inv nuid inboxPrefix) :
    Follows nuid inboxPrefix P c { c with mux := mux } where
  handler := .refl _
  flushes _ _ hd := .inl hd
  requests := hkeeps
  mux := hinv

theorem Follows.refl (c : Client) : Follows nuid inboxPrefix P c c :=
  follows_handler (.refl _) rfl rfl

theorem follows_setHandler (hm : c.handler.Moves P h) :
    Follows nuid inboxPrefix P c (c.setHandler h) := by
  have hhandler : Follows nuid inboxPrefix P c { c with handler := h } := follows_handler hm rfl rfl
  rw [setHandler]
  split
  · refine hhandler.trans
      (follows_mux (Mux.MuxSubscription.keeps_resolveAll _ _ _) fun _ hinv => ?_)
    exact Mux.MuxSubscription.inv_moves hinv (Mux.MuxSubscription.moves_resolveAll c.mux _ _)
  · exact hhandler

theorem follows_flush (c : Client) : Follows nuid inboxPrefix P c c.flush where
  handler := ProtocolHandler.moves_link (Link.runs_step (e := .flush) rfl fun he => by cases he)
  flushes := by
    intro hs d hd
    rcases List.mem_append.1 hd with hd | hd
    · exact .inl hd
    · rw [List.mem_singleton.1 hd]
      exact .inr (Link.foreign_flush hs)
  requests := .refl _
  mux _ hinv := hinv

theorem follows_publish (c : Client) (pub : Option (String × List UInt8)) :
    Follows nuid inboxPrefix P c (c.publish pub) := by
  cases pub with
  | none => exact .refl c
  | some pub => exact follows_handler (ProtocolHandler.moves_sendCommand _ _) rfl rfl

theorem follows_subscribe (c : Client) (opts : SubscriptionOptions) (subject : String) :
    Follows nuid inboxPrefix P c (c.subscribe opts subject) :=
  follows_handler (ProtocolHandler.moves_subscribe _ _) rfl rfl

/-- A nuid is drawn. -/
theorem follows_createInbox (c : Client) :
    Follows nuid inboxPrefix P c (c.createInbox nuid inboxPrefix).2 :=
  follows_mux (Mux.MuxSubscription.keeps_of_objs rfl) fun hnuid hinv =>
    Mux.MuxSubscription.inv_moves hinv (Mux.MuxSubscription.moves_call hnuid hinv .draw)

theorem follows_request (c : Client) (q : Mux.NewRequest) (proto : String) (payload : List UInt8) :
    Follows nuid inboxPrefix P c (c.request nuid inboxPrefix q proto payload) := by
  have hmade : ∀ made : Client, Follows nuid inboxPrefix P c made → made.mux = c.mux →
      Follows nuid inboxPrefix P c { made with mux := c.mux.request nuid inboxPrefix q } := by
    intro made hf hmux
    refine hf.trans (follows_mux ?_ ?_)
    · rw [hmux]
      exact Mux.MuxSubscription.keeps_request c.mux q
    · rw [hmux]
      intro hnuid hinv
      exact Mux.MuxSubscription.inv_moves hinv (Mux.MuxSubscription.moves_request hnuid hinv q)
  rw [request]
  refine Follows.trans ?_ (follows_publish _ _)
  split
  · exact hmade c (.refl c) rfl
  · refine hmade _ (follows_handler ?_ rfl rfl) rfl
    exact ProtocolHandler.moves_subscribe c.handler
      ⟨(c.mux.request nuid inboxPrefix q).mux.getD "", none, none, false, false⟩

theorem follows_requestNoMux (c : Client) (subject : String) (reply : Option String)
    (pub : Option (String × List UInt8)) :
    Follows nuid inboxPrefix P c (c.requestNoMux nuid inboxPrefix subject reply pub) := by
  have hsub : ∀ (c' : Client) (inbox : String), Follows nuid inboxPrefix P c'
      { (c'.subscribe ⟨inbox, none, some 1, true, true⟩ subject).publish pub with
        noMux := ((c'.subscribe ⟨inbox, none, some 1, true, true⟩ subject).publish pub).noMux ++
          [⟨c'.handler.objs.length, pub.isSome, none⟩] } := by
    intro c' inbox
    have hsubscribe : Follows nuid inboxPrefix P c'
        (c'.subscribe ⟨inbox, none, some 1, true, true⟩ subject) := follows_subscribe c' _ subject
    exact (hsubscribe.trans (follows_publish _ pub)).trans (follows_handler (.refl _) rfl rfl)
  cases reply with
  | some inbox => exact hsub c inbox
  | none => exact (follows_createInbox c).trans (hsub _ _)

theorem follows_requestManyNoMux (c : Client) (subject : String)
    (pub : Option (String × List UInt8)) :
    Follows nuid inboxPrefix P c (c.requestManyNoMux nuid inboxPrefix subject pub) :=
  (follows_createInbox c).trans ((follows_subscribe _ _ subject).trans (follows_publish _ pub))

theorem follows_drainAll (c : Client) : Follows nuid inboxPrefix P c c.drainAll := by
  have hfold : ∀ (os : List Nat) (h : Handler), h.Moves P
      (os.foldl ProtocolHandler.drainSub h) := by
    intro os
    induction os with
    | nil => exact fun h => .refl h
    | cons o os ih => exact fun h => (ProtocolHandler.moves_drainSub h o).trans (ih (h.drainSub o))
  exact follows_handler (hfold _ c.handler) rfl rfl

theorem follows_close (c : Client) : Follows nuid inboxPrefix P c c.close :=
  follows_setHandler (ProtocolHandler.moves_call _ _)

theorem follows_drainThen (hthen : c.drainThen = some c') : Follows nuid inboxPrefix P c c' := by
  unfold drainThen at hthen
  split at hthen
  · cases hthen
  · cases hthen
  · obtain ⟨-, hflush⟩ := Option.ite_none_left_eq_some.1 hthen
    cases hflush
    exact follows_handler
      (ProtocolHandler.moves_link (Link.runs_step (e := .flush) rfl fun he => by cases he)) rfl rfl
  · split at hthen
    · cases hthen
      exact (follows_close c).trans (follows_handler (.refl _) rfl rfl)
    · cases hthen
      exact follows_handler (.refl _) rfl rfl
    · cases hthen
  · cases hthen
    exact follows_handler (.refl _) rfl rfl
  · cases hthen
    exact follows_handler (.refl _) rfl rfl

/-- **A call.** -/
theorem follows_call (c : Client) (op : Operation) :
    Follows nuid inboxPrefix P c (c.call nuid inboxPrefix op) := by
  unfold call
  split
  · exact .refl c
  · split
    · exact follows_drainAll c
    · exact follows_flush c
    · exact follows_setHandler (ProtocolHandler.moves_call _ _)
    · exact follows_request c _ _ _
    · exact follows_requestNoMux c _ _ _
    · exact follows_requestManyNoMux c _ _

theorem follows_calls (c : Client) (ops : List Operation) :
    Follows nuid inboxPrefix P c (c.calls nuid inboxPrefix ops) := by
  induction ops generalizing c with
  | nil => exact .refl c
  | cons op ops ih => exact (follows_call c op).trans (ih (c.call nuid inboxPrefix op))

theorem follows_dispatcher (c : Client) (m : Mux.Msg) :
    Follows nuid inboxPrefix P c { c with mux := c.mux.dispatcher m } := by
  refine follows_mux (Mux.MuxSubscription.keeps_dispatcher c.mux m) fun hnuid hinv => ?_
  exact Mux.MuxSubscription.inv_step hnuid hinv (e := .message m) rfl

theorem follows_callback (c : Client) (o : Nat) (s : Sub)
    (m : Mux.Msg) (ops : List Operation) :
    Follows nuid inboxPrefix P c (c.callback nuid inboxPrefix o s m ops) := by
  rw [callback]
  split
  · exact follows_dispatcher c m
  · split
    · exact follows_handler (.refl _) rfl rfl
    · split
      · exact follows_calls c ops
      · exact follows_handler (ProtocolHandler.moves_setObj _ _ _) rfl rfl

theorem follows_callbackError (c : Client) (o : Nat) (s : Sub)
    (err : Mux.RequestError) (ops : List Operation) :
    Follows nuid inboxPrefix P c (c.callbackError nuid inboxPrefix o s err ops) := by
  rw [callbackError]
  split
  · exact .refl c
  · split
    · exact follows_handler (ProtocolHandler.moves_unsubscribe _ _ _) rfl rfl
    · split
      · exact follows_calls c ops
      · exact follows_handler (ProtocolHandler.moves_setObj _ _ _) rfl rfl

theorem follows_processMsg (c : Client) (sid : Nat) (m : Mux.Msg) (ops : List Operation) :
    Follows nuid inboxPrefix P c (c.processMsg nuid inboxPrefix sid m ops) := by
  rw [processMsg]
  split
  · exact .refl c
  · next o ho =>
    split
    · exact .refl c
    · next s hs =>
      have hreceive : Follows nuid inboxPrefix P c
          { c with handler := c.handler.setObj o s.receive } :=
        follows_handler (ProtocolHandler.moves_setObj _ _ _) rfl rfl
      refine (hreceive.trans (follows_callback _ o s.receive m ops)).trans ?_
      exact follows_handler (ProtocolHandler.moves_checkMax _ o) rfl rfl

theorem follows_handleError (c : Client) (ctx : PermissionContext) (ops : List Operation) :
    Follows nuid inboxPrefix P c (c.handleError nuid inboxPrefix ctx ops) := by
  rw [handleError]
  split
  · exact .refl c
  · next sid o hnamed =>
    split
    · exact .refl c
    · next s hs =>
      have hcallback : Follows nuid inboxPrefix P c
          (c.callbackError nuid inboxPrefix o s (.permissions ctx) ops) :=
            follows_callbackError c o s _ ops
      simp only
      split
      · refine hcallback.trans ?_
        exact follows_handler (ProtocolHandler.moves_cancel _ o _) rfl rfl
      · exact hcallback

theorem follows_processError (c : Client) (ctx : PermissionContext) (ops : List Operation) :
    Follows nuid inboxPrefix P c (c.processError nuid inboxPrefix ctx ops) := by
  have herror : Follows nuid inboxPrefix P c (c.handleError nuid inboxPrefix ctx ops) :=
    follows_handleError c ctx ops
  rw [processError]
  refine herror.trans (follows_mux ?_ fun hnuid hinv => ?_)
  · have hkeeps :=
      Mux.MuxSubscription.keeps_handleError (c.handleError nuid inboxPrefix ctx ops).mux
      (decide (c.mux.mux = some ctx.subject)) ctx
    split
    · exact hkeeps.trans (Mux.MuxSubscription.keeps_of_objs rfl)
    · exact hkeeps
  · have hmoves := Mux.MuxSubscription.inv_moves hinv
      (Mux.MuxSubscription.moves_handleError (c.handleError nuid inboxPrefix ctx ops).mux
        (decide (c.mux.mux = some ctx.subject)) ctx)
    split
    · next hmux =>
      -- all requests were taken off the map
      have hempty : ∀ token, ((c.handleError nuid inboxPrefix ctx ops).mux.handleError
          (decide (c.mux.mux = some ctx.subject)) ctx).reqs.get token = none := by
        intro token
        rw [hmux, Mux.MuxSubscription.handleError, if_pos rfl]
        exact Mux.MuxSubscription.get_resolveAll hinv _ token
      exact Mux.MuxSubscription.inv_move hmoves
        (@Mux.MuxSubscription.Move.idle nuid inboxPrefix Mux.MuxSubscription.Quietly _ hempty)
    · exact hmoves

theorem follows_timeout (c : Client) (o : Nat) (s : Sub)
    (ops : List Operation) : Follows nuid inboxPrefix P c (c.timeout nuid inboxPrefix o s ops) := by
  have hstop : Follows nuid inboxPrefix P c
      { c with handler := c.handler.setObj o { s.stop (some .timeout) with timer := false } } :=
    follows_handler (ProtocolHandler.moves_setObj _ _ _) rfl rfl
  rw [timeout]
  split
  · exact hstop.trans (follows_callbackError _ o s _ ops)
  · exact hstop

/-- The event is this event of the link. -/
def Drives (e : Event) (l : Link.Event) : Prop := ∃ e', e = .handler e' ∧ e'.Drives l

/-- **One event.** -/
theorem follows_step {e : Event} (hstep : c.step nuid inboxPrefix e = some c') :
    Follows nuid inboxPrefix (Drives e) c c' := by
  cases e with
  | call op =>
      cases hstep
      exact follows_call c op
  | message sid m ops =>
      cases hstep
      exact follows_processMsg c sid m ops
  | error ctx ops =>
      cases hstep
      exact follows_processError c ctx ops
  | timeout o ops =>
      simp only [step] at hstep
      split at hstep
      · obtain ⟨-, htimeout⟩ := Option.ite_none_right_eq_some.1 hstep
        cases htimeout
        exact follows_timeout c o _ ops
      · cases hstep
  | requestTimer i =>
      obtain ⟨mux, hmux, rfl⟩ := Option.map_eq_some_iff.1 hstep
      refine follows_mux ?_ fun hnuid hinv => Mux.MuxSubscription.inv_step hnuid hinv hmux
      obtain ⟨r, hfilter, rfl⟩ := Option.map_eq_some_iff.1 hmux
      exact Mux.MuxSubscription.keeps_update (Option.filter_eq_some_iff.1 hfilter).1
        r.follows_expire
  | requestCancel i err =>
      cases hstep
      exact follows_mux (Mux.MuxSubscription.keeps_cancel c.mux i err) fun hnuid hinv =>
        Mux.MuxSubscription.inv_moves hinv (Mux.MuxSubscription.moves_cancel c.mux i err)
  | drainThen => exact follows_drainThen hstep
  | handler e =>
      obtain ⟨-, hhandler⟩ := Option.ite_none_right_eq_some.1 hstep
      obtain ⟨h, hh, rfl⟩ := Option.map_eq_some_iff.1 hhandler
      exact follows_setHandler ((ProtocolHandler.moves_step hh).mono fun l _ hl => ⟨e, rfl, hl⟩)

theorem follows_run {es : List Event} (hrun : run (step nuid inboxPrefix) c es = some c') :
    Follows nuid inboxPrefix (fun _ => True) c c' := by
  refine invariant_run (I := Follows nuid inboxPrefix (fun _ => True) c)
    (fun _ _ _ hf hstep => hf.trans ?_) hrun (.refl c)
  exact (follows_step hstep).mono fun _ _ => trivial

end Operations.Client

end NatsClient.Connection
